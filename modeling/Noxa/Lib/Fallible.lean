import Mathlib.Data.List.Basic

/-!
# Computations that can fail

Guards, inversion and loop rules for `Except`. A loop that may stop with an error is `List.foldlM`,
and what holds after it succeeds is proved with a property of the elements handled so far and the
state reached.

## Main definitions

* `Fallible.ensure` — go on only under a condition
* `Fallible.found` — go on only with a value

## Main results

* `Fallible.bind_eq_ok` — a sequence succeeds when both halves do
* `Fallible.guard_eq_ok` — a computation behind a guard
* `Fallible.exists_ok` — from the test for success to the result
* `Fallible.forM_ok` — a loop of checks
* `Fallible.foldlM_ok_induction`, `Fallible.foldlM_ok_loop` — the loop rule
* `Fallible.foldlM_ok_invariant` — the loop rule for a property of the state
* `Fallible.foldlM_ok_round` — a loop that succeeds has run every round
-/

namespace Noxa.Fallible

open List

universe u v

variable {ε : Type u} {α β σ : Type v} {x : Except ε α} {b : β}

theorem bind_eq_ok {f : α → Except ε β} : (x >>= f) = .ok b ↔ ∃ a, x = .ok a ∧ f a = .ok b := by
  cases x <;> simp [bind, Except.bind]

variable {e : ε}

theorem bind_eq_error {f : α → Except ε β} :
    (x >>= f) = .error e ↔ x = .error e ∨ ∃ a, x = .ok a ∧ f a = .error e := by
  cases x <;> simp [bind, Except.bind]

theorem exists_ok (h : x.isOk = true) : ∃ a, x = .ok a := by
  cases x with
  | error => simp [Except.isOk, Except.toBool] at h
  | ok a => exact ⟨a, rfl⟩

variable {a : α}

theorem pure_eq_ok {b : α} : (pure a : Except ε α) = .ok b ↔ a = b := by
  simp [pure, Except.pure]

theorem map_eq_ok {f : α → β} : x.map f = .ok b ↔ ∃ a, x = .ok a ∧ f a = b := by
  cases x <;> simp [Except.map]

variable {s : σ}

theorem map_eq_ok_pair {f : α → β × σ} :
    x.map f = .ok (b, s) ↔ ∃ a, x = .ok a ∧ (f a).1 = b ∧ (f a).2 = s := by
  simp only [map_eq_ok, Prod.ext_iff]

variable {p : Prop}

/-- A guard in front of a computation that succeeds did not hold. -/
theorem guard_eq_ok [Decidable p] : (if p then .error e else x) = .ok a ↔ ¬ p ∧ x = .ok a := by
  split <;> simp_all

/-- Go on only under a condition. -/
def ensure (p : Prop) [Decidable p] (e : ε) : Except ε PUnit := if p then .ok ⟨⟩ else .error e

variable {u : PUnit}

theorem ensure_eq_ok [Decidable p] : ensure p e = .ok u ↔ p := by
  unfold ensure
  split <;> simp_all

theorem ensure_eq_error [Decidable p] {e' : ε} :
    ensure p e = .error e' ↔ ¬ p ∧ e = e' := by
  unfold ensure
  split <;> simp_all

/-- Go on only with a value. -/
def found (o : Option α) (e : ε) : Except ε α := o.elim (.error e) .ok

theorem found_eq_ok {o : Option α} : found o e = .ok a ↔ o = some a := by
  cases o <;> simp [found]

variable {l : List α}

/-- A loop of checks that succeeds has made every check. -/
theorem forM_ok {f : α → Except ε PUnit} (h : l.forM f = .ok u) {x : α}
    (hx : x ∈ l) : f x = .ok ⟨⟩ := by
  induction l with
  | nil => simp at hx
  | cons y l ih =>
    obtain ⟨_, hfst, hrs⟩ := bind_eq_ok.mp (show (f y >>= fun _ => l.forM f) = .ok u from h)
    rcases mem_cons.mp hx with rfl | hin
    · exact hfst
    · exact ih hrs hin

variable {f : σ → α → Except ε σ} {P : List α → σ → Prop} {t : σ}

/-- **The loop rule.** `P done s` relates the elements handled so far to the state. -/
theorem foldlM_ok_induction
    (hstp : ∀ done x s s', P done s → f s x = .ok s' → P (done ++ [x]) s') {done : List α}
    (hs : P done s) (h : l.foldlM f s = .ok t) : P (done ++ l) t := by
  induction l generalizing done s with
  | nil =>
    have hst : s = t := by simpa [pure, Except.pure] using h
    simpa [← hst] using hs
  | cons x l ih =>
    rw [foldlM_cons, bind_eq_ok] at h
    obtain ⟨s', hx, hrs⟩ := h
    have := ih (hstp done x s s' hs hx) hrs
    rwa [append_assoc, singleton_append] at this

/-- The loop rule from the start of the loop. -/
theorem foldlM_ok_loop (h : l.foldlM f s = .ok t)
    (hstp : ∀ done x s s', P done s → f s x = .ok s' → P (done ++ [x]) s') (hs : P [] s) : P l t :=
  nil_append l ▸ foldlM_ok_induction hstp hs h

/-- A property of the state alone that every round keeps. -/
theorem foldlM_ok_invariant {P : σ → Prop}
    (h : l.foldlM f s = .ok t) (hstp : ∀ x ∈ l, ∀ s s', P s → f s x = .ok s' → P s') (hs : P s) :
    P t := by
  induction l generalizing s with
  | nil =>
    rw [foldlM_nil, pure_eq_ok] at h
    exact h ▸ hs
  | cons x l ih =>
    rw [foldlM_cons, bind_eq_ok] at h
    obtain ⟨s', hx, hrs⟩ := h
    exact ih hrs (fun y hy => hstp y (mem_cons_of_mem _ hy)) (hstp x mem_cons_self s s' hs hx)

/-- A loop that succeeds has run every round. -/
theorem foldlM_ok_round (h : l.foldlM f s = .ok t)
    {x : α} (hx : x ∈ l) : ∃ s₁ s₂, f s₁ x = .ok s₂ := by
  refine foldlM_ok_loop (P := fun done _ => ∀ y ∈ done, ∃ s₁ s₂, f s₁ y = .ok s₂) h
    (fun done y s s' hdn hy => ?_) (by simp) x hx
  exact forall_mem_append.mpr ⟨hdn, forall_mem_singleton.mpr ⟨s, s', hy⟩⟩

theorem exists_foldlM_cons {x : α} : (∃ t, (x :: l).foldlM f s = .ok t) ↔
    ∃ s', f s x = .ok s' ∧ ∃ t, l.foldlM f s' = .ok t := by
  simp only [foldlM_cons, bind_eq_ok]
  exact exists_comm.trans (exists_congr fun _ => exists_and_left)

/-- A loop that fails does so in one of its rounds. -/
theorem foldlM_error (h : l.foldlM f s = .error e) :
    ∃ done x rest t, l = done ++ x :: rest ∧ done.foldlM f s = .ok t ∧ f t x = .error e := by
  induction l generalizing s with
  | nil => simp [pure, Except.pure] at h
  | cons x l ih =>
    rw [foldlM_cons, bind_eq_error] at h
    rcases h with h | ⟨s', hs', h⟩
    · exact ⟨[], x, l, s, rfl, rfl, h⟩
    obtain ⟨done, y, rest, t, rfl, hdn, hy⟩ := ih h
    refine ⟨x :: done, y, rest, t, rfl, ?_, hy⟩
    rw [foldlM_cons, hs']
    exact hdn

end Noxa.Fallible

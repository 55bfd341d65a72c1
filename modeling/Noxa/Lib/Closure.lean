import Mathlib.Data.List.Nodup
import Mathlib.Data.List.Perm.Subperm

/-!
# Closing a set under one-parent rules

Entries of a list have a name and the name of a parent. Starting from a root, an entry that passes
its own test joins the set of names once its parent is in. The loop goes over the list again and
again until a pass adds nothing. It ends after at most one pass more than there are entries,
whatever the parents are, and what it ends with is the least set with these properties.

## Main definitions

* `pass` — one pass over the list
* `close` — passes until nothing is added, `none` if the given number of passes was too small
* `Reached` — the least set

## Main results

* `close_eq_some` — what the loop ends with
* `close_isSome` — how many passes are enough
-/

namespace Noxa.Closure

open List

variable {α κ : Type*}

/-- The names reached from the root. -/
inductive Reached (name parent : α → κ) (ok : α → Bool) (xs : List α) (root : κ) : κ → Prop
  | root : Reached name parent ok xs root root
  | step {x : α} (hx : x ∈ xs) (hok : ok x = true)
      (hp : Reached name parent ok xs root (parent x)) :
      Reached name parent ok xs root (name x)

variable {xs : List α} {root : κ}

/-- It is the least set that holds the root and is closed under the rule. -/
theorem Reached.least {name parent : α → κ} {ok : α → Bool} {k : κ} {S : κ → Prop} (hrt : S root)
    (hstp : ∀ x ∈ xs, ok x = true → S (parent x) → S (name x))
    (h : Reached name parent ok xs root k) : S k := by
  induction h with
  | root => exact hrt
  | step hx hok _ ih => exact hstp _ hx hok ih

/-- What every state of the loop has: no name twice, and only names that are reached. -/
structure Sound (name parent : α → κ) (ok : α → Bool) (xs : List α) (root : κ) (T : List κ) :
    Prop where
  nodup : T.Nodup
  start : root ∈ T
  reached : ∀ k ∈ T, Reached name parent ok xs root k

theorem sound_singleton (name parent : α → κ) (ok : α → Bool) (xs : List α) (root : κ) :
    Sound name parent ok xs root [root] where
  nodup := nodup_singleton root
  start := mem_singleton_self root
  reached k hk := by
    rw [mem_singleton.mp hk]
    exact .root

variable {T : List κ}

theorem Sound.length_le {name parent : α → κ} {ok : α → Bool}
    (h : Sound name parent ok xs root T) : T.length ≤ xs.length + 1 := by
  have hsub : T ⊆ root :: xs.map name := by
    intro k hk
    cases h.reached k hk with
    | root => exact mem_cons_self
    | step hx => exact mem_cons_of_mem _ (mem_map_of_mem hx)
  have hle := (h.nodup.subperm hsub).length_le
  rwa [length_cons, length_map] at hle

variable [DecidableEq κ] (name parent : α → κ) (ok : α → Bool)

/-- An entry joins, unless it is in, or its parent is not. -/
def visit (T : List κ) (x : α) : List κ :=
  if name x ∉ T ∧ parent x ∈ T ∧ ok x = true then name x :: T else T

def pass (xs : List α) (T : List κ) : List κ := xs.foldl (visit name parent ok) T

/-- A pass that changes something makes the set longer. -/
def close (xs : List α) : ℕ → List κ → Option (List κ)
  | 0, _ => none
  | n + 1, T =>
    if (pass name parent ok xs T).length = T.length then some (pass name parent ok xs T)
    else close xs n (pass name parent ok xs T)

theorem visit_cases (T : List κ) (x : α) :
    (visit name parent ok T x = T ∧ (ok x = true → parent x ∈ T → name x ∈ T)) ∨
      (visit name parent ok T x = name x :: T ∧ name x ∉ T ∧ parent x ∈ T ∧ ok x = true) := by
  unfold visit
  split
  · rename_i h
    exact .inr ⟨rfl, h⟩
  rename_i h
  refine .inl ⟨rfl, fun hok hp => ?_⟩
  by_contra hnm
  exact h ⟨hnm, hp, hok⟩

theorem length_le_pass (xs : List α) (T : List κ) :
    T.length ≤ (pass name parent ok xs T).length := by
  induction xs generalizing T with
  | nil => exact Nat.le_refl _
  | cons x xs ih =>
    refine Nat.le_trans ?_ (ih _)
    rcases visit_cases name parent ok T x with ⟨h, -⟩ | ⟨h, -⟩
    · exact Nat.le_of_eq (congrArg List.length h.symm)
    · rw [h]
      exact Nat.le_succ _

variable {name parent ok}

/-- A pass that adds nothing has found a closed set. -/
theorem pass_stable (h : (pass name parent ok xs T).length = T.length) :
    pass name parent ok xs T = T ∧ ∀ x ∈ xs, ok x = true → parent x ∈ T → name x ∈ T := by
  induction xs with
  | nil => exact ⟨rfl, by simp⟩
  | cons x xs ih =>
    rcases visit_cases name parent ok T x with
      ⟨hsm, hc⟩ | ⟨ha, -⟩
    · have hps : pass name parent ok (x :: xs) T = pass name parent ok xs T := by
        rw [pass, foldl_cons, hsm, pass]
      rw [hps] at h ⊢
      obtain ⟨heq, hrs⟩ := ih h
      exact ⟨heq, forall_mem_cons.mpr ⟨hc, hrs⟩⟩
    · have hlng := length_le_pass name parent ok xs (name x :: T)
      rw [pass, foldl_cons, ha] at h
      rw [pass, h, length_cons] at hlng
      omega

theorem pass_sound (h : Sound name parent ok xs root T) :
    Sound name parent ok xs root (pass name parent ok xs T) := by
  have hps : ∀ ys : List α, (∀ y ∈ ys, y ∈ xs) → ∀ T, Sound name parent ok xs root T →
      Sound name parent ok xs root (pass name parent ok ys T) := by
    intro ys hys
    induction ys with
    | nil => exact fun T hT => hT
    | cons y ys ih =>
      rw [forall_mem_cons] at hys
      intro T hT
      refine ih hys.2 _ ?_
      rcases visit_cases name parent ok T y with
        ⟨hsm, -⟩ | ⟨ha, hnew, hp, hok⟩
      · rw [hsm]
        exact hT
      · rw [ha]
        refine ⟨nodup_cons.mpr ⟨hnew, hT.nodup⟩, mem_cons_of_mem _ hT.start, ?_⟩
        exact forall_mem_cons.mpr ⟨.step hys.1 hok (hT.reached _ hp), hT.reached⟩
  exact hps xs (fun _ hx => hx) T h

/-- The loop ends with exactly the names that are reached, each once. -/
theorem close_eq_some {n : ℕ} {T' : List κ}
    (hT : Sound name parent ok xs root T) (h : close name parent ok xs n T = some T') :
    T'.Nodup ∧ ∀ k, k ∈ T' ↔ Reached name parent ok xs root k := by
  induction n generalizing T with
  | zero => simp [close] at h
  | succ n ih =>
    rw [close] at h
    split at h
    · rename_i hlen
      obtain ⟨heq, hc⟩ := pass_stable hlen
      obtain rfl : T = T' := heq ▸ Option.some.inj h
      exact ⟨hT.nodup, fun k => ⟨hT.reached k, Reached.least hT.start hc⟩⟩
    · exact ih (pass_sound hT) h

/-- Every pass but the last makes the set longer, so there are not many. -/
theorem close_isSome {n : ℕ}
    (hT : Sound name parent ok xs root T) (hn : xs.length + 2 ≤ n + T.length) :
    (close name parent ok xs n T).isSome := by
  induction n generalizing T with
  | zero =>
    have hle := hT.length_le
    omega
  | succ n ih =>
    rw [close]
    split
    · rfl
    rename_i hlen
    refine ih (pass_sound hT) ?_
    have hlng := length_le_pass name parent ok xs T
    omega

/-- The entries may be read through a function. -/
theorem close_map {β : Type*} (f : β → α) (xs : List β) (n : ℕ) (T : List κ) :
    close name parent ok (xs.map f) n T =
      close (fun x => name (f x)) (fun x => parent (f x)) (fun x => ok (f x)) xs n T := by
  have hps : ∀ T, pass name parent ok (xs.map f) T =
      pass (fun x => name (f x)) (fun x => parent (f x)) (fun x => ok (f x)) xs T := by
    intro T
    exact foldl_map
  induction n generalizing T with
  | zero => rfl
  | succ n ih => rw [close, close, hps, ih]

end Noxa.Closure

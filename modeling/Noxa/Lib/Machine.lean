import Mathlib.Order.Basic

/-!
# Runs of a machine

A machine is a step function `step : σ → ι → σ × ω`: in state `s`, input `i` leads to a new state
and an output. An input carries everything the surroundings decide in that step, so a
nondeterministic system is a machine run on an arbitrary list of inputs, and a statement about
every interleaving is a statement about every list.

## Main definitions

* `run` — the state after a list of inputs
* `Along` — every step of a run meets a condition on the state it starts from and its input

## Main results

* `run_append`, `split_last` — a run is cut into two at any point
* `run_invariant` — what every step preserves, every run preserves
* `run_invariant_of` — the same for runs with restricted inputs
* `run_invariant_along` — the same for runs whose steps meet a condition
* `run_unless` — what every step preserves unless it is of some kind, a run preserves unless it
  has a step of that kind
-/

namespace Noxa.Machine

open List

variable {σ ι ω : Type*} (step : σ → ι → σ × ω)

/-- The state a machine is in after the given inputs. -/
def run : σ → List ι → σ
  | s, [] => s
  | s, i :: is => run (step s i).1 is

@[simp]
theorem run_nil (s : σ) : run step s [] = s := rfl

@[simp]
theorem run_cons (s : σ) (i : ι) (is : List ι) :
    run step s (i :: is) = run step (step s i).1 is := rfl

theorem run_append (s : σ) (is js : List ι) :
    run step s (is ++ js) = run step (run step s is) js := by
  induction is generalizing s with
  | nil => rfl
  | cons i is ih => exact ih _

variable {is : List ι}

omit step in
/-- A point of a run with one more input is the last one, or a point of the run before. -/
theorem split_last {js ks : List ι} {i j : ι} (h : is ++ [i] = js ++ j :: ks) :
    (is = js ∧ i = j ∧ ks = []) ∨ ∃ ks', ks = ks' ++ [i] ∧ is = js ++ j :: ks' := by
  rcases eq_nil_or_concat ks with rfl | ⟨ks', last, rfl⟩
  · obtain ⟨rfl, hla⟩ := append_inj' h rfl
    exact .inl ⟨rfl, singleton_inj.mp hla, rfl⟩
  rw [concat_eq_append, ← cons_append, ← append_assoc] at h
  obtain ⟨rfl, hla⟩ := append_inj' h rfl
  obtain rfl := singleton_inj.mp hla
  exact .inr ⟨ks', concat_eq_append, rfl⟩

/-- Every step of the run meets `Q`. -/
def Along (Q : σ → ι → Prop) : σ → List ι → Prop
  | _, [] => True
  | s, i :: is => Q s i ∧ Along Q (step s i).1 is

instance Along.decidable (Q : σ → ι → Prop) [∀ s i, Decidable (Q s i)] :
    ∀ s is, Decidable (Along step Q s is)
  | _, [] => inferInstanceAs (Decidable True)
  | s, i :: is =>
    have := Along.decidable Q (step s i).1 is
    inferInstanceAs (Decidable (Q s i ∧ Along step Q (step s i).1 is))

variable {step} {Q : σ → ι → Prop} {s : σ}

theorem along_append {js : List ι} :
    Along step Q s (is ++ js) ↔ Along step Q s is ∧ Along step Q (run step s is) js := by
  induction is generalizing s with
  | nil => simp [Along]
  | cons i is ih =>
    rw [cons_append, Along, Along, ih, run_cons, and_assoc]

theorem along_and {R : σ → ι → Prop} :
    Along step (fun s i => Q s i ∧ R s i) s is ↔ Along step Q s is ∧ Along step R s is := by
  induction is generalizing s with
  | nil => simp [Along]
  | cons i is ih =>
    rw [Along, Along, Along, ih]
    exact and_and_and_comm

variable {P : σ → Prop}

/-- The invariant rule. -/
theorem run_invariant (hstp : ∀ s i, P s → P (step s i).1) (hs : P s)
    (is : List ι) : P (run step s is) := by
  induction is generalizing s with
  | nil => exact hs
  | cons i is ih => exact ih (hstp s i hs)

/-- The invariant rule for runs whose inputs are restricted. -/
theorem run_invariant_of {Q : ι → Prop} (hstp : ∀ s i, Q i → P s → P (step s i).1) (hs : P s)
    (his : ∀ i ∈ is, Q i) : P (run step s is) := by
  induction is generalizing s with
  | nil => exact hs
  | cons i is ih =>
    exact ih (hstp s i (his i mem_cons_self) hs) fun j hj => his j (mem_cons_of_mem _ hj)

/-- The invariant rule for runs whose steps meet a condition. -/
theorem run_invariant_along (hstp : ∀ s i, Q s i → P s → P (step s i).1) (hs : P s)
    (his : Along step Q s is) : P (run step s is) := by
  induction is generalizing s with
  | nil => exact hs
  | cons i is ih => exact ih (hstp s i his.1 hs) his.2

/-- `P` lasts until a step of kind `Q`. -/
theorem run_unless (hstp : ∀ s i, P s → P (step s i).1 ∨ Q s i) (hs : P s) (is : List ι) :
    P (run step s is) ∨ ∃ js i ks, is = js ++ i :: ks ∧ P (run step s js) ∧
      Q (run step s js) i := by
  induction is generalizing s with
  | nil => exact .inl hs
  | cons i is ih =>
    rcases hstp s i hs with h | h
    · rcases ih h with h | ⟨js, j, ks, rfl, hP, hQ⟩
      · exact .inl h
      · exact .inr ⟨i :: js, j, ks, rfl, hP, hQ⟩
    · exact .inr ⟨[], i, is, rfl, hs, h⟩

end Noxa.Machine

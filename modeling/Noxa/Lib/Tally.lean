import Mathlib.Algebra.BigOperators.Group.List.Basic
import Mathlib.Data.List.AList
import Mathlib.Tactic.Ring

/-!
# Sums over a table

A store that keeps a running total of its entries, by count, by size or by any other weight, adds
the weight of what it writes and subtracts the weight of what was there. `total_insert` is why that
stays right.

## Main definitions

* `total` — the sum of the weights of the entries
* `weightAt` — the weight of an entry that may be absent

## Main results

* `total_insert` — the total after a write
* `total_one`, `total_indicator` — totals that count
-/

namespace Noxa.Tally

open List

variable {α : Type*} {β : α → Type*}

def total (weight : Sigma β → ℤ) (s : AList β) : ℤ := (s.entries.map weight).sum

def weightAt (weight : Sigma β → ℤ) (a : α) : Option (β a) → ℤ
  | none => 0
  | some b => weight ⟨a, b⟩

variable (weight : Sigma β → ℤ)

@[simp] theorem total_empty : total weight ∅ = 0 := rfl

theorem total_one (s : AList β) : total (fun _ => 1) s = s.entries.length := by
  simp [total]

theorem total_indicator (p : Sigma β → Bool) (s : AList β) :
    total (fun e => if p e then 1 else 0) s = s.entries.countP p := by
  unfold total
  induction s.entries with
  | nil => rfl
  | cons e l ih =>
    rw [map_cons, sum_cons, ih, countP_cons]
    split <;> push_cast <;> ring

variable [DecidableEq α]

theorem sum_kerase (a : α) (l : List (Sigma β)) :
    ((l.kerase a).map weight).sum + weightAt weight a (l.dlookup a) = (l.map weight).sum := by
  induction l with
  | nil => rfl
  | cons e l ih =>
    obtain ⟨a', b⟩ := e
    by_cases ha : a = a'
    · subst ha
      rw [kerase_cons_eq (s := ⟨a, b⟩) rfl, dlookup_cons_eq, map_cons, sum_cons, weightAt]
      ring
    · rw [kerase_cons_ne ha, dlookup_cons_ne l ⟨a', b⟩ ha, map_cons, sum_cons,
        map_cons, sum_cons, ← ih]
      ring

/-- A write adds the new weight and takes the old one away. -/
theorem total_insert (a : α) (b : β a) (s : AList β) :
    total weight (s.insert a b) = total weight s +
      (weight ⟨a, b⟩ - weightAt weight a (s.lookup a)) := by
  have hsum := sum_kerase weight a s.entries
  rw [total, AList.entries_insert, map_cons, sum_cons, total, ← hsum, AList.lookup]
  ring

end Noxa.Tally

import Mathlib.Data.List.Sort

/-!
# Ranks

The rank of an element is its place in the list sorted by a measure, counted from one. When the
measures are distinct, the rank counts the elements with a smaller measure, so it depends on their
relative order only.

## Main definitions

* `rank` — the place in the sorted list

## Main results

* `rank_eq_countP` — the rank counts the smaller elements
-/

namespace Noxa.Rank

open List

variable {α : Type*} [DecidableEq α]

/-- The place of `a` among `l` sorted by `f`, from one. -/
def rank (f : α → ℕ) (l : List α) (a : α) : ℕ :=
  (l.insertionSort fun x y => f x ≤ f y).idxOf a + 1

variable {f : α → ℕ} {l : List α}

theorem idxOf_eq_countP (hl : l.Pairwise fun x y => f x < f y) {a : α}
    (ha : a ∈ l) : l.idxOf a = l.countP fun x => f x < f a := by
  induction l with
  | nil => simp at ha
  | cons b l ih =>
    rw [pairwise_cons] at hl
    by_cases hab : b = a
    · subst hab
      have hno : l.countP (fun x => f x < f b) = 0 := by
        rw [countP_eq_zero]
        intro x hx
        have := hl.1 x hx
        simp only [decide_eq_true_eq]
        omega
      simp [hno]
    · have hmem : a ∈ l := (mem_cons.mp ha).resolve_left (Ne.symm hab)
      rw [idxOf_cons_ne _ hab, ih hl.2 hmem, countP_cons_of_pos]
      simpa using hl.1 a hmem

/-- With distinct measures the rank counts the smaller elements. -/
theorem rank_eq_countP (hl : l.Nodup)
    (hf : ∀ x ∈ l, ∀ y ∈ l, f x = f y → x = y) {a : α} (ha : a ∈ l) :
    rank f l a = (l.countP fun x => f x < f a) + 1 := by
  have hpm := perm_insertionSort (fun x y => f x ≤ f y) l
  have htot : Std.Total fun x y : α => f x ≤ f y := ⟨fun x y => Nat.le_total _ _⟩
  have htr : IsTrans α fun x y => f x ≤ f y := ⟨fun _ _ _ => Nat.le_trans⟩
  have hsrt := pairwise_insertionSort (fun x y : α => f x ≤ f y) l
  have hstc : (l.insertionSort fun x y => f x ≤ f y).Pairwise fun x y => f x < f y := by
    refine (hsrt.and (hpm.nodup_iff.mpr hl)).imp_of_mem ?_
    intro x y hx hy ⟨hle, hne⟩
    refine Nat.lt_of_le_of_ne hle fun heq => hne ?_
    exact hf x (hpm.mem_iff.mp hx) y (hpm.mem_iff.mp hy) heq
  rw [rank, idxOf_eq_countP hstc (hpm.mem_iff.mpr ha), hpm.countP_eq]

end Noxa.Rank

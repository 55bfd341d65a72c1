import Mathlib.Data.List.Perm.Basic

/-!
# The same records in another order

Two lists hold the same records when one is a permutation of the other. When records contain lists
themselves, the order inside may differ as well: `UpTo R l l'` pairs every record of `l` with one of
`l'` that is the same up to `R`, and the pairs may stand in any order.

## Main definitions

* `Reorder.UpTo` — a permutation up to a relation on the records

## Main results

* `Reorder.UpTo.exists_left`, `Reorder.UpTo.exists_right` — each record has its partner
* `Reorder.UpTo.map_perm` — what the relation preserves is permuted
-/

namespace Noxa.Reorder

open List

variable {α β : Type*} {R : α → α → Prop} {l l' : List α}

/-- The lists hold the same records up to `R`, in any order. -/
def UpTo (R : α → α → Prop) (l l' : List α) : Prop := ∃ m, List.Forall₂ R l m ∧ m.Perm l'

theorem exists_of_forall₂ {l m : List α} (h : List.Forall₂ R l m) : ∀ x ∈ l, ∃ y ∈ m, R x y := by
  induction h with
  | nil => simp
  | cons hxy _ ih =>
    refine forall_mem_cons.mpr ⟨⟨_, mem_cons_self, hxy⟩, fun x hx => ?_⟩
    obtain ⟨y, hy, hR⟩ := ih x hx
    exact ⟨y, mem_cons_of_mem _ hy, hR⟩

theorem UpTo.exists_right (h : UpTo R l l') {x : α} (hx : x ∈ l) : ∃ y ∈ l', R x y := by
  obtain ⟨m, hp, hpm⟩ := h
  obtain ⟨y, hy, hR⟩ := exists_of_forall₂ hp x hx
  exact ⟨y, hpm.mem_iff.mp hy, hR⟩

theorem UpTo.exists_left (h : UpTo R l l') {y : α} (hy : y ∈ l') : ∃ x ∈ l, R x y := by
  obtain ⟨m, hp, hpm⟩ := h
  exact exists_of_forall₂ hp.flip y (hpm.mem_iff.mpr hy)

theorem UpTo.exists_congr (h : UpTo R l l') {P Q : α → Prop} (hPQ : ∀ x y, R x y → (P x ↔ Q y)) :
    (∃ x ∈ l, P x) ↔ ∃ y ∈ l', Q y := by
  constructor
  · rintro ⟨x, hx, hP⟩
    obtain ⟨y, hy, hR⟩ := h.exists_right hx
    exact ⟨y, hy, (hPQ x y hR).mp hP⟩
  · rintro ⟨y, hy, hQ⟩
    obtain ⟨x, hx, hR⟩ := h.exists_left hy
    exact ⟨x, hx, (hPQ x y hR).mpr hQ⟩

/-- A key that partners share is permuted. -/
theorem UpTo.map_perm (h : UpTo R l l') {f : α → β} (hf : ∀ x y, R x y → f x = f y) :
    (l.map f).Perm (l'.map f) := by
  obtain ⟨m, hp, hpm⟩ := h
  have hsm : List.Forall₂ Eq (l.map f) (m.map f) := by
    rw [forall₂_map_left_iff, forall₂_map_right_iff]
    exact hp.imp hf
  rw [forall₂_eq_eq_eq] at hsm
  rw [hsm]
  exact hpm.map f

end Noxa.Reorder

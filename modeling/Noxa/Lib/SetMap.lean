import Mathlib.Data.Finset.Card

/-!
# Maps to sets

A map from keys to sets, as programs keep them: a key is there when it has a set, and a set is taken
out when it becomes empty. A key without a set and a key with an empty set are told apart, so that
"no empty set is stored" can be said (`NoEmpty`).

## Main definitions

* `SetMap.elems` — the set of a key, empty if there is none
* `SetMap.add`, `SetMap.remove`, `SetMap.drop` — changing the set of one key
* `SetMap.removeAll` — taking one element out of the sets of many keys

## Main results

* `SetMap.mem_add`, `SetMap.mem_remove`, `SetMap.mem_drop`, `SetMap.mem_removeAll` — what is in the
  sets afterwards
-/

namespace Noxa

open Option Function

/-- A set for each key that is there. -/
abbrev SetMap (κ β : Type*) := κ → Option (Finset β)

namespace SetMap

variable {κ β : Type*}

def empty : SetMap κ β := fun _ => none

def elems (m : SetMap κ β) (k : κ) : Finset β := (m k).getD ∅

/-- No key has an empty set. -/
def NoEmpty (m : SetMap κ β) : Prop := ∀ k, m k ≠ some ∅

@[simp]
theorem elems_empty (k : κ) : (empty : SetMap κ β).elems k = ∅ := rfl

theorem noEmpty_empty : (empty : SetMap κ β).NoEmpty := fun _ => by simp [empty]

variable {k : κ}

theorem elems_of_some {m : SetMap κ β} {s : Finset β} (h : m k = some s) : m.elems k = s := by
  rw [elems, h, getD_some]

theorem elems_of_none {m : SetMap κ β} (h : m k = none) : m.elems k = ∅ := by
  rw [elems, h, getD_none]

section Keys

variable [DecidableEq κ]

/-- Store a set, or nothing if it is empty. -/
def store (m : SetMap κ β) (k : κ) (s : Finset β) : SetMap κ β :=
  update m k (if s.card = 0 then none else some s)

def drop (m : SetMap κ β) (k : κ) : SetMap κ β := update m k none

variable (m : SetMap κ β)

theorem elems_update (k j : κ) (o : Option (Finset β)) :
    elems (update m k o) j = if j = k then o.getD ∅ else m.elems j := by
  rw [elems, update_apply]
  split <;> rfl

theorem elems_store (k j : κ) (s : Finset β) :
    (m.store k s).elems j = if j = k then s else m.elems j := by
  have hs : (if s.card = 0 then none else some s).getD ∅ = s := by
    split
    · next hs => exact (Finset.card_eq_zero.mp hs).symm
    · rfl
  rw [store, elems_update, hs]

variable {m : SetMap κ β}

theorem NoEmpty.update (h : m.NoEmpty) (k : κ) {o : Option (Finset β)} (ho : o ≠ some ∅) :
    NoEmpty (Function.update m k o) := by
  intro j
  rw [update_apply]
  split
  · exact ho
  · exact h j

theorem NoEmpty.store (h : m.NoEmpty) (k : κ) (s : Finset β) : (m.store k s).NoEmpty := by
  refine h.update k ?_
  split
  · simp
  · next hs =>
    rw [ne_eq, some.injEq]
    intro hemp
    exact hs (by rw [hemp, Finset.card_empty])

theorem elems_drop (k j : κ) : (m.drop k).elems j = if j = k then ∅ else m.elems j :=
  elems_update m k j none

variable {j : κ} {y : β}

theorem mem_drop : y ∈ (m.drop k).elems j ↔ y ∈ m.elems j ∧ j ≠ k := by
  rw [elems_drop]
  split <;> simp_all

theorem NoEmpty.drop (h : m.NoEmpty) (k : κ) : (m.drop k).NoEmpty :=
  h.update k (by simp)

variable [DecidableEq β]

def add (m : SetMap κ β) (k : κ) (x : β) : SetMap κ β :=
  update m k (some (insert x (m.elems k)))

/-- Take an element out of a set, and the set if it becomes empty. -/
def remove (m : SetMap κ β) (k : κ) (x : β) : SetMap κ β :=
  match m k with
  | none => m
  | some s => m.store k (s.erase x)

theorem elems_add (k j : κ) (x : β) :
    (m.add k x).elems j = if j = k then insert x (m.elems k) else m.elems j :=
  elems_update m k j _

theorem mem_add {x : β} : y ∈ (m.add k x).elems j ↔ j = k ∧ y = x ∨ y ∈ m.elems j := by
  rw [elems_add]
  by_cases hj : j = k
  · subst hj
    simp
  · simp [hj]

theorem NoEmpty.add (h : m.NoEmpty) (k : κ) (x : β) : (m.add k x).NoEmpty := by
  refine h.update k ?_
  rw [ne_eq, some.injEq]
  exact Finset.insert_ne_empty _ _

theorem elems_remove (k j : κ) (x : β) :
    (m.remove k x).elems j = if j = k then (m.elems k).erase x else m.elems j := by
  rw [remove]
  cases hk : m k with
  | none =>
    by_cases hj : j = k
    · subst hj
      simp [elems_of_none hk]
    · simp [hj]
  | some s =>
    rw [elems_of_some hk]
    exact elems_store m k j (s.erase x)

theorem mem_remove {x : β} : y ∈ (m.remove k x).elems j ↔ y ∈ m.elems j ∧ ¬ (j = k ∧ y = x) := by
  rw [elems_remove]
  by_cases hj : j = k
  · subst hj
    simp [and_comm]
  · simp [hj]

theorem NoEmpty.remove (h : m.NoEmpty) (k : κ) (x : β) : (m.remove k x).NoEmpty := by
  rw [SetMap.remove]
  split
  · exact h
  · exact h.store k _

end Keys

section Many

variable [DecidableEq β]

/-- Take an element out of the sets of a collection of keys. -/
def removeAll (m : SetMap κ β) (ks : Finset κ) [DecidableEq κ] (x : β) : SetMap κ β :=
  fun k => if k ∈ ks then m.remove k x k else m k

variable [DecidableEq κ]

theorem mem_removeAll {m : SetMap κ β} {ks : Finset κ} {x y : β} :
    y ∈ (m.removeAll ks x).elems k ↔ y ∈ m.elems k ∧ ¬ (k ∈ ks ∧ y = x) := by
  have hel : (m.removeAll ks x).elems k =
      if k ∈ ks then (m.remove k x).elems k else m.elems k := by
    rw [elems, removeAll]
    split <;> rfl
  rw [hel]
  by_cases hk : k ∈ ks
  · rw [if_pos hk, mem_remove]
    simp [hk]
  · simp [hk]

theorem NoEmpty.removeAll {m : SetMap κ β} (h : m.NoEmpty) (ks : Finset κ) (x : β) :
    (m.removeAll ks x).NoEmpty := by
  intro k
  rw [SetMap.removeAll]
  split
  · exact h.remove k x k
  · exact h k

end Many

/-! ### Both directions of a relation -/

/-- Each map has the relation of the other, the other way round. -/
def Inverse (a : SetMap κ β) (b : SetMap β κ) : Prop := ∀ x y, y ∈ a.elems x ↔ x ∈ b.elems y

namespace Inverse

variable {a : SetMap κ β} {b : SetMap β κ}

theorem symm (h : a.Inverse b) : b.Inverse a := fun y x => (h x y).symm

variable [DecidableEq κ] [DecidableEq β]

theorem add (h : a.Inverse b) (x : κ) (y : β) : (a.add x y).Inverse (b.add y x) := by
  intro x' y'
  rw [mem_add, mem_add, h x' y', and_comm]

/-- A key leaves one map, and the sets of the other that have it. -/
theorem drop (h : a.Inverse b) (x : κ) : (a.drop x).Inverse (b.removeAll (a.elems x) x) := by
  intro x' y'
  rw [elems_drop, mem_removeAll, h x y', ← h x' y']
  by_cases hx : x' = x
  · subst hx
    simp [h x' y']
  · simp [hx]

end Inverse

end SetMap

end Noxa

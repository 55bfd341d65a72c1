import Mathlib.Data.List.AList
import Noxa.Lib.Fallible

/-!
# Indexing a list by a key

A program reads a list of records once and builds a map from it, refusing a record whose key it
has seen. `IsIndex` says what the map then contains; the builder is free to keep only a part
`val` of each record.

## Main definitions

* `Index.IsIndex` — `m` maps exactly the keys of `l` to the values of their records

## Main results

* `Index.IsIndex.insert` — one round of the loop
* `Index.IsIndex.lookup_eq` — a record of the list is found under its key
* `Index.foldlM_isIndex`, `Index.foldlM_isOk` — what a loop that checks and enters records builds,
  and when it succeeds
-/

namespace Noxa.Index

open List

variable {ρ κ ν : Type*} [DecidableEq κ] {key : ρ → κ} {val : ρ → ν}

/-- `m` maps exactly the keys of the list to the values of their records, and no key repeats. -/
structure IsIndex (key : ρ → κ) (val : ρ → ν) (l : List ρ) (m : AList fun _ : κ => ν) : Prop where
  nodup : (l.map key).Nodup
  lookup_iff : ∀ k v, m.lookup k = some v ↔ ∃ x ∈ l, key x = k ∧ val x = v

theorem isIndex_nil : IsIndex key val [] (∅ : AList fun _ : κ => ν) :=
  ⟨by simp, fun k v => by simp⟩

namespace IsIndex

variable {l : List ρ} {m : AList fun _ : κ => ν}

section

variable (h : IsIndex key val l m)

include h

variable {k : κ}

theorem mem_iff : k ∈ m ↔ ∃ x ∈ l, key x = k := by
  rw [← AList.lookup_isSome, Option.isSome_iff_exists]
  simp only [h.lookup_iff]
  rw [exists_comm]
  simp

theorem lookup_eq {x : ρ} (hx : x ∈ l) : m.lookup (key x) = some (val x) :=
  (h.lookup_iff _ _).mpr ⟨x, hx, rfl, rfl⟩

theorem lookup_eq_none (hk : ∀ x ∈ l, key x ≠ k) : m.lookup k = none := by
  rw [AList.lookup_eq_none, h.mem_iff]
  rintro ⟨x, hx, rfl⟩
  exact hk x hx rfl

/-- One round: the next record has a new key and is entered under it. -/
theorem insert {x : ρ} (hx : key x ∉ m) :
    IsIndex key val (l ++ [x]) (m.insert (key x) (val x)) := by
  have hn : ∀ y ∈ l, key y ≠ key x := fun y hy he => hx (h.mem_iff.mpr ⟨y, hy, he⟩)
  constructor
  · rw [map_append, nodup_append_comm]
    refine nodup_cons.mpr ⟨fun hmem => ?_, h.nodup⟩
    obtain ⟨y, hy, hkey⟩ := mem_map.mp hmem
    exact hn y hy hkey
  · intro k v
    simp only [mem_append, mem_singleton, or_and_right, exists_or, exists_eq_left]
    by_cases hk : k = key x
    · subst hk
      have hold : ¬ ∃ y ∈ l, key y = key x ∧ val y = v := by
        rintro ⟨y, hy, hkey, -⟩
        exact hn y hy hkey
      simp [hold]
    · rw [AList.lookup_insert_ne hk, h.lookup_iff]
      simp [Ne.symm hk]

/-- The whole loop, over records whose keys do not repeat. -/
theorem foldl_insert (rest : List ρ) (hnd : ((l ++ rest).map key).Nodup) :
    IsIndex key val (l ++ rest) (rest.foldl (fun m x => m.insert (key x) (val x)) m) := by
  induction rest generalizing l m with
  | nil => simpa using h
  | cons x rest ih =>
    have hx : key x ∉ m := by
      rw [h.mem_iff]
      rintro ⟨y, hy, hkey⟩
      rw [map_append, nodup_append] at hnd
      exact hnd.2.2 _ (mem_map_of_mem hy) _ (by simp) hkey
    have hnx := ih (h.insert hx) (by simpa using hnd)
    simpa using hnx

variable {m' : AList fun _ : κ => ν}

/-- Two indexes that hold the same records agree. -/
theorem lookup_congr {ρ' : Type*} {key' : ρ' → κ} {val' : ρ' → ν} {l' : List ρ'}
    (h' : IsIndex key' val' l' m')
    (hsm : ∀ v, (∃ x ∈ l, key x = k ∧ val x = v) ↔ ∃ x ∈ l', key' x = k ∧ val' x = v) :
    m.lookup k = m'.lookup k :=
  Option.ext fun v => by rw [h.lookup_iff, h'.lookup_iff, hsm]

/-- The index of records that were changed under their keys. -/
theorem lookup_map {f : ρ → ρ} {g : ν → ν} {l' : List ρ}
    (h' : IsIndex key val l' m') (hl : l' = l.map f) (hkey : ∀ x, key (f x) = key x)
    (hval : ∀ x, val (f x) = g (val x)) (k : κ) : m'.lookup k = (m.lookup k).map g := by
  subst hl
  refine Option.ext fun v => ?_
  simp only [h'.lookup_iff, mem_map, exists_exists_and_eq_and, hkey, hval, Option.map_eq_some_iff,
    h.lookup_iff]
  simp only [← and_assoc, exists_exists_and_eq_and]

end

end IsIndex

theorem isIndex_foldl_insert {l : List ρ} (h : (l.map key).Nodup) :
    IsIndex key val l (l.foldl (fun m x => m.insert (key x) (val x)) ∅) := by
  simpa using isIndex_nil.foldl_insert l (by simpa using h)

/-! ### A loop that checks records and enters them

One round succeeds when the record is good by itself and its key is new. -/

/-- The first key is new, and the later ones are new beside it. -/
theorem fresh_cons {ρ κ : Type*} {f : ρ → κ} {S : κ → Prop} {x : ρ} {l : List ρ} :
    (∀ y ∈ x :: l, ¬ S (f y)) ∧ ((x :: l).map f).Nodup ↔
      ¬ S (f x) ∧ (∀ y ∈ l, ¬ (f y = f x ∨ S (f y))) ∧ (l.map f).Nodup := by
  simp only [forall_mem_cons, map_cons, nodup_cons, mem_map, not_or, not_exists, not_and, imp_and,
    forall_and]
  tauto

section Build

variable {ρ κ ν ε : Type} [DecidableEq κ] {key : ρ → κ} {val : ρ → ν} {good : ρ → Prop}
  {f : AList (fun _ : κ => ν) → ρ → Except ε (AList fun _ : κ => ν)}
  (hf : ∀ m x m', f m x = .ok m' ↔ good x ∧ key x ∉ m ∧ m' = m.insert (key x) (val x))

include hf

theorem foldlM_isIndex {l : List ρ} {m : AList fun _ : κ => ν} (h : l.foldlM f ∅ = .ok m) :
    IsIndex key val l m ∧ ∀ x ∈ l, good x := by
  refine Fallible.foldlM_ok_loop (P := fun done m => IsIndex key val done m ∧ ∀ x ∈ done, good x) h
    ?_ ⟨isIndex_nil, by simp⟩
  rintro done x m m' ⟨hix, hdn⟩ hx
  obtain ⟨hgd, hn, rfl⟩ := (hf m x m').mp hx
  exact ⟨hix.insert hn, forall_mem_append.mpr ⟨hdn, by simpa using hgd⟩⟩

theorem foldlM_isOk (l : List ρ) (m : AList fun _ : κ => ν) : (∃ m', l.foldlM f m = .ok m') ↔
      (∀ x ∈ l, good x) ∧ (∀ x ∈ l, key x ∉ m) ∧ (l.map key).Nodup := by
  induction l generalizing m with
  | nil => simp [pure, Except.pure]
  | cons x rest ih =>
    have hks := fresh_cons (f := key) (S := (· ∈ m)) (x := x) (l := rest)
    simp only [Fallible.exists_foldlM_cons, hf, and_assoc, exists_and_left, exists_eq_left, ih]
    rw [hks, forall_mem_cons]
    simp only [AList.mem_insert]
    tauto

end Build

end Noxa.Index

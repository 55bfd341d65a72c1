import Mathlib.Data.List.Nodup
import Mathlib.Data.List.Perm.Basic

/-!
# Tables with a primary key

A table is a list of rows no two of which have the same key. The key is a function of the row, and
uniqueness is a field, so a table that breaks its primary key cannot be built: `insert` refuses
such a row, and `update` asks for a change that keeps the key.

## Main definitions

* `Table` — rows with a key
* `Table.get`, `Table.insert`, `Table.update`, `Table.delete` — the statements of a transaction
* `Table.put` — the assignment of a map

## Main results

* `Table.get_eq_some` — a row is found under its key, and only there
* `Table.get_insert`, `Table.get_update`, `Table.get_delete` — what each statement does to each key
* `Table.perm_cons_filter` — a row and the rows with other keys are all the rows
-/

namespace Noxa

universe u v

/-- Rows no two of which have the same key. -/
structure Table (α : Type u) {κ : Type v} (key : α → κ) where
  rows : List α
  nodup : (rows.map key).Nodup

namespace Table

open List

variable {α : Type u} {κ : Type v} {key : α → κ}

/-- The table without rows. -/
def empty : Table α key := ⟨[], nodup_nil⟩

instance : Inhabited (Table α key) := ⟨empty⟩

theorem eq_of_key (t : Table α key) {r r' : α} (hr : r ∈ t.rows) (hr' : r' ∈ t.rows)
    (h : key r = key r') : r = r' :=
  inj_on_of_nodup_map t.nodup hr hr' h

variable {p : α → Bool} {f : α → α}

theorem key_ite (hf : ∀ r, key (f r) = key r) (r : α) : key (if p r then f r else r) = key r := by
  split
  · exact hf r
  · rfl

/-- Change the rows of a kind, without changing their keys. -/
def update (t : Table α key) (p : α → Bool) (f : α → α) (hf : ∀ r, key (f r) = key r) :
    Table α key where
  rows := t.rows.map fun r => if p r then f r else r
  nodup := by
    rw [map_map, show key ∘ (fun r => if p r then f r else r) = key from funext (key_ite hf)]
    exact t.nodup

variable {t : Table α key} (hf : ∀ r, key (f r) = key r)

theorem keys_update : (t.update p f hf).rows.map key = t.rows.map key := by
  rw [update, map_map]
  exact map_congr_left fun r _ => key_ite hf r

theorem mem_update
    {r' : α} : r' ∈ (t.update p f hf).rows ↔ ∃ r ∈ t.rows, (if p r then f r else r) = r' :=
  mem_map

/-- A change does not show in what it keeps of the rows of a kind. -/
theorem map_filter_update {β : Type*} {q : α → Bool} {g : α → β} (hq : ∀ r, q (f r) = q r)
    (hg : ∀ r, g (f r) = g r) :
    ((t.update p f hf).rows.filter q).map g = (t.rows.filter q).map g := by
  have hq' : ∀ r, q (if p r then f r else r) = q r := fun r => by split <;> simp [hq]
  have hg' : ∀ r, g (if p r then f r else r) = g r := fun r => by split <;> simp [hg]
  rw [update, filter_map, map_map]
  refine (map_congr_left fun r _ => hg' r).trans ?_
  congr 1
  exact filter_congr fun r _ => hq' r

/-- Remove the rows of a kind. -/
def delete (t : Table α key) (p : α → Bool) : Table α key where
  rows := t.rows.filter fun r => !p r
  nodup := t.nodup.sublist (filter_sublist.map key)

theorem length_delete_le : (t.delete p).rows.length ≤ t.rows.length := length_filter_le _ _

theorem mem_delete {r : α} : r ∈ (t.delete p).rows ↔ r ∈ t.rows ∧ p r = false := by
  simp [delete, mem_filter]

/-- A key stays if its row is not of the kind. -/
theorem mem_keys_delete {k : κ} (hk : k ∈ t.rows.map key)
    (hp : ∀ r ∈ t.rows, key r = k → p r = false) : k ∈ (t.delete p).rows.map key := by
  obtain ⟨r, hr, rfl⟩ := mem_map.mp hk
  exact mem_map_of_mem (mem_delete.mpr ⟨hr, hp r hr rfl⟩)

/-- The rows that were added last. -/
def latest (t : Table α key) (n : ℕ) : Table α key where
  rows := t.rows.drop (t.rows.length - n)
  nodup := t.nodup.sublist ((drop_sublist _ _).map key)

theorem length_latest_le (n : ℕ) : (t.latest n).rows.length ≤ n := by
  rw [latest, length_drop]
  omega

theorem latest_of_le {n : ℕ} (h : t.rows.length ≤ n) : t.latest n = t := by
  have hrw : t.rows.drop (t.rows.length - n) = t.rows := by
    rw [Nat.sub_eq_zero_of_le h, drop_zero]
  cases t
  simp only [latest, mk.injEq]
  exact hrw

section Decidable

variable [DecidableEq κ] {r : α} {k : κ}

/-- Under a unique key, the row with a key is the only one to be taken out. -/
theorem perm_cons_filter {rows : List α} (hnd : (rows.map key).Nodup)
    (h : rows.find? (key · = k) = some r) : rows.Perm (r :: rows.filter (key · ≠ k)) := by
  have hr := mem_of_find?_eq_some h
  have hk : key r = k := by simpa using List.find?_some h
  have hrs : (r :: rows.filter (key · ≠ k)).Nodup :=
    nodup_cons.mpr ⟨by simp [hk], hnd.of_map.filter _⟩
  refine (perm_ext_iff_of_nodup hnd.of_map hrs).mpr fun x => ?_
  by_cases hx : key x = k
  · have hsm : x = r ↔ x ∈ rows :=
      ⟨fun heq => heq ▸ hr, fun hm => inj_on_of_nodup_map hnd hm hr (hx.trans hk.symm)⟩
    simp [hx, hsm]
  · have hoth : x ≠ r := fun heq => hx (heq ▸ hk)
    simp [hx, hoth]

/-- The row with a key. -/
def get (t : Table α key) (k : κ) : Option α := t.rows.find? (key · = k)

variable {t : Table α key}

theorem get_eq_some : t.get k = some r ↔ r ∈ t.rows ∧ key r = k := by
  constructor
  · intro h
    exact ⟨mem_of_find?_eq_some h, by simpa using List.find?_some h⟩
  rintro ⟨hr, rfl⟩
  obtain ⟨r', hr'⟩ : ∃ r', t.get (key r) = some r' := by
    refine Option.isSome_iff_exists.mp ?_
    rw [get, List.find?_isSome]
    exact ⟨r, hr, by simp⟩
  have hkey : key r' = key r := by simpa using List.find?_some hr'
  rw [hr', t.eq_of_key (mem_of_find?_eq_some hr') hr hkey]

theorem get_eq_none : t.get k = none ↔ ∀ r ∈ t.rows, key r ≠ k := by
  simp [get]

theorem get_of_mem (h : r ∈ t.rows) : t.get (key r) = some r :=
  get_eq_some.mpr ⟨h, rfl⟩

@[simp]
theorem get_empty (k : κ) : (empty : Table α key).get k = none := rfl

/-- Add a row, unless there is one with its key. -/
def insert (t : Table α key) (r : α) : Option (Table α key) :=
  if h : key r ∈ t.rows.map key then none
  else some ⟨t.rows ++ [r], by
    rw [map_append, nodup_append_comm]
    exact nodup_cons.mpr ⟨h, t.nodup⟩⟩

variable {t' : Table α key}

theorem insert_eq_some (h : t.insert r = some t') :
    t'.rows = t.rows ++ [r] ∧ t.get (key r) = none := by
  unfold insert at h
  split at h
  · simp at h
  rename_i hnot
  cases h
  refine ⟨rfl, get_eq_none.mpr fun r' hr' hkey => ?_⟩
  exact hnot (hkey ▸ mem_map_of_mem hr')

theorem get_insert (h : t.insert r = some t') (k : κ) :
    t'.get k = if key r = k then some r else t.get k := by
  obtain ⟨hrw, hno⟩ := insert_eq_some h
  rw [get, hrw, List.find?_append]
  by_cases hk : key r = k
  · subst hk
    have hold : t.rows.find? (key · = key r) = none := hno
    simp [hold]
  · simp [hk, get]

theorem mem_insert {x : α} (h : t.insert r = some t') : x ∈ t'.rows ↔ x ∈ t.rows ∨ x = r := by
  rw [(insert_eq_some h).1, mem_append, mem_singleton]

theorem forall_insert {P : α → Prop} (h : t.insert r = some t')
    (ht : ∀ x ∈ t.rows, P x) (hr : P r) : ∀ x ∈ t'.rows, P x := by
  intro x hx
  rcases (mem_insert h).mp hx with hx | rfl
  · exact ht x hx
  · exact hr

/-- Put a row in the place of the one with its key. -/
def put (t : Table α key) (r : α) : Table α key where
  rows := t.rows.filter (key · ≠ key r) ++ [r]
  nodup := by
    rw [map_append, nodup_append_comm]
    refine nodup_cons.mpr ⟨fun hr => ?_, t.nodup.sublist (filter_sublist.map key)⟩
    obtain ⟨x, hx, hkey⟩ := mem_map.mp hr
    exact of_decide_eq_true (mem_filter.mp hx).2 hkey

theorem mem_put {x : α} : x ∈ (t.put r).rows ↔ x = r ∨ x ∈ t.rows ∧ key x ≠ key r := by
  simp [put, mem_append, mem_filter, or_comm]

theorem forall_put {P : α → Prop} (hr : P r)
    (ht : ∀ x ∈ t.rows, P x) : ∀ x ∈ (t.put r).rows, P x := by
  intro x hx
  rcases mem_put.mp hx with rfl | ⟨hx, -⟩
  · exact hr
  · exact ht x hx

/-- Every key stays. -/
theorem mem_keys_put (hk : k ∈ t.rows.map key) : k ∈ (t.put r).rows.map key := by
  obtain ⟨x, hx, rfl⟩ := mem_map.mp hk
  by_cases hkey : key x = key r
  · exact hkey ▸ mem_map_of_mem (mem_put.mpr (.inl rfl))
  · exact mem_map_of_mem (mem_put.mpr (.inr ⟨hx, hkey⟩))

theorem get_put (k : κ) : (t.put r).get k = if key r = k then some r else t.get k := by
  by_cases hk : key r = k
  · rw [if_pos hk]
    exact get_eq_some.mpr ⟨mem_put.mpr (.inl rfl), hk⟩
  rw [if_neg hk]
  refine Option.ext fun x => ?_
  simp only [get_eq_some, mem_put]
  constructor
  · rintro ⟨rfl | ⟨hm, -⟩, hkey⟩
    · exact absurd hkey hk
    · exact ⟨hm, hkey⟩
  · exact fun ⟨hm, hkey⟩ => ⟨.inr ⟨hm, fun h => hk (h.symm.trans hkey)⟩, hkey⟩

theorem get_latest (n : ℕ) (k : κ) : (t.latest n).get k = t.get k ∨ (t.latest n).get k = none := by
  cases h : (t.latest n).get k with
  | none => exact .inr rfl
  | some =>
    obtain ⟨hr, hk⟩ := get_eq_some.mp h
    exact .inl (get_eq_some.mpr ⟨mem_of_mem_drop hr, hk⟩).symm

theorem get_latest_put {n : ℕ} (hn : 0 < n) : ((t.put r).latest n).get (key r) = some r := by
  refine get_eq_some.mpr ⟨?_, rfl⟩
  have hle : (t.put r).rows.length - n ≤ (t.rows.filter (key · ≠ key r)).length := by
    rw [put, length_append, length_singleton]
    omega
  show r ∈ ((t.rows.filter (key · ≠ key r)) ++ [r]).drop _
  rw [drop_append_of_le_length hle]
  exact mem_append_right _ (mem_singleton.mpr rfl)

theorem length_put_of_none (h : t.get (key r) = none) :
    (t.put r).rows.length = t.rows.length + 1 := by
  have hall : t.rows.filter (key · ≠ key r) = t.rows :=
    filter_eq_self.mpr fun x hx => decide_eq_true (get_eq_none.mp h x hx)
  calc (t.put r).rows.length = (t.rows.filter (key · ≠ key r)).length + 1 := length_append
    _ = t.rows.length + 1 := by rw [hall]

theorem length_put_of_some {x : α} (h : t.get (key r) = some x) :
    (t.put r).rows.length = t.rows.length := by
  calc (t.put r).rows.length = (t.rows.filter (key · ≠ key r)).length + 1 := length_append
    _ = t.rows.length := (perm_cons_filter t.nodup h).length_eq.symm

theorem length_delete_of_some (h : t.get k = some r) :
    (t.delete fun x => decide (key x = k)).rows.length + 1 = t.rows.length := by
  rw [(perm_cons_filter t.nodup h).length_eq, length_cons, delete]
  simp

theorem get_update {p : α → Bool} {f : α → α} (hf : ∀ r, key (f r) = key r)
    (k : κ) : (t.update p f hf).get k = (t.get k).map fun r => if p r then f r else r := by
  cases hk : t.get k with
  | none =>
    rw [get_eq_none] at hk
    refine get_eq_none.mpr fun r' hr' => ?_
    obtain ⟨r, hr, rfl⟩ := (mem_update hf).mp hr'
    rw [key_ite hf]
    exact hk r hr
  | some r =>
    obtain ⟨hr, rfl⟩ := get_eq_some.mp hk
    exact get_eq_some.mpr ⟨(mem_update hf).mpr ⟨r, hr, rfl⟩, key_ite hf r⟩

theorem get_delete (k q : κ) :
    (t.delete fun r => decide (key r = k)).get q = if q = k then none else t.get q := by
  by_cases hq : q = k
  · rw [if_pos hq]
    exact get_eq_none.mpr fun r hr => hq ▸ of_decide_eq_false (mem_delete.mp hr).2
  rw [if_neg hq]
  refine Option.ext fun r => ?_
  simp only [get_eq_some, mem_delete, decide_eq_false_iff_not]
  exact ⟨fun ⟨⟨hr, _⟩, hkey⟩ => ⟨hr, hkey⟩, fun ⟨hr, hkey⟩ => ⟨⟨hr, hkey ▸ hq⟩, hkey⟩⟩

end Decidable

end Table

end Noxa

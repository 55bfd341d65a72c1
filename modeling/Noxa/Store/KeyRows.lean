import Noxa.Store.Keys

/-!
# The life of a one-time key

A key moves along the edges of `KeyRow.Edge` and keeps everything else about it. A call changes the
key table by `Evolves`, which takes every key along at most one edge, or adds the keys of a bundle.

## Main definitions

* `KeyRow.Edge` — the moves of a key
* `Evolves` — one move at most for every key
* `KeyRow.Opens` — the key a session was opened with
* `Keyring.Sound` — the invariant of the directory

## Main results

* `Keyring.Sound.evolve` — a change without new claims keeps the invariant
* `setLifecycle_mark` — the loops of the calls mark a set of keys
-/

namespace Noxa.Store

open Directory Admission Fallible List

/-! ### Moves -/

/-- The moves of a key. Only a claim changes anything but the state. -/
inductive KeyRow.Edge (k : KeyRow) : KeyRow → Prop
  | reserve (claim : Claim) (h : k.lifecycle = .available) :
      KeyRow.Edge k { k with lifecycle := .reserved, claim := some claim }
  | accept (h : k.lifecycle = .reserved) : KeyRow.Edge k { k with lifecycle := .admitted }
  | receive (h : k.lifecycle = .admitted) : KeyRow.Edge k { k with lifecycle := .received }
  | close (h : k.lifecycle = .available ∨ k.lifecycle = .reserved) :
      KeyRow.Edge k { k with lifecycle := .closed }

section

variable {k k' : KeyRow} (h : k.Edge k')

include h

theorem KeyRow.Edge.id : k'.id = k.id := by
  cases h <;> rfl

theorem KeyRow.Edge.generation : k'.generation = k.generation := by
  cases h <;> rfl

theorem KeyRow.Edge.bundle : k'.bundle = k.bundle := by
  cases h <;> rfl

/-- A key that is owed after a move was owed before. -/
theorem KeyRow.Edge.unresolved (hk : k'.lifecycle.unresolved = true) :
    k.lifecycle.unresolved = true := by
  cases h with
  | reserve _ h | accept h => rw [h]; rfl
  | receive | close => simp [Lifecycle.unresolved] at hk

/-- What an edge leads to is not available, so a claim is never undone. -/
theorem KeyRow.Edge.not_available : k'.lifecycle ≠ .available := by
  cases h <;> simp

/-- A key that opened a session stays used. -/
theorem KeyRow.Edge.used (hk : k.lifecycle = .admitted ∨ k.lifecycle = .received) :
    k'.lifecycle = .received ∧ k'.claim = k.claim := by
  cases h with
  | reserve _ h | accept h => rcases hk with hk | hk <;> exact absurd (h.symm.trans hk) (by simp)
  | receive => exact ⟨rfl, rfl⟩
  | close h =>
    rcases h with h | h <;> rcases hk with hk | hk <;> exact absurd (h.symm.trans hk) (by simp)

end

/-- Every key makes one move at most. -/
def Evolves (t t' : Table KeyRow KeyRow.id) : Prop :=
  ∃ g : KeyRow → KeyRow, t'.rows = t.rows.map g ∧ ∀ k ∈ t.rows, g k = k ∨ k.Edge (g k)

variable {t t' : Table KeyRow KeyRow.id} {lifecycle : Lifecycle} {k k' : KeyRow} {s s' : Session}
  {ids : List KeyID}

theorem evolves_update {p : KeyRow → Bool} {f : KeyRow → KeyRow} (hf : ∀ k, (f k).id = k.id)
    (h : ∀ k ∈ t.rows, p k = true → k.Edge (f k)) : Evolves t (t.update p f hf) := by
  refine ⟨fun k => if p k then f k else k, rfl, fun k hk => ?_⟩
  dsimp only
  split
  · next hp => exact .inr (h k hk hp)
  · exact .inl rfl

/-- A key before the change and after it. -/
theorem Evolves.to (h : Evolves t t') (hk : k ∈ t.rows) : ∃ k' ∈ t'.rows, k' = k ∨ k.Edge k' := by
  obtain ⟨g, hrw, hg⟩ := h
  exact ⟨g k, hrw ▸ mem_map_of_mem hk, hg k hk⟩

/-- A key after the change and before it. -/
theorem Evolves.of (h : Evolves t t') (hk' : k' ∈ t'.rows) : ∃ k ∈ t.rows, k' = k ∨ k.Edge k' := by
  obtain ⟨g, hrw, hg⟩ := h
  obtain ⟨k, hk, rfl⟩ := mem_map.mp (hrw ▸ hk')
  exact ⟨k, hk, hg k hk⟩

theorem Evolves.same_id (h : Evolves t t') (hk' : k' ∈ t'.rows) : ∃ k ∈ t.rows, k.id = k'.id := by
  obtain ⟨k, hk, rfl | heg⟩ := h.of hk'
  · exact ⟨_, hk, rfl⟩
  · exact ⟨k, hk, heg.id.symm⟩

theorem Evolves.unresolvedKeys_le (h : Evolves t t') (device : String) :
    unresolvedKeys t' device ≤ unresolvedKeys t device := by
  obtain ⟨g, hrw, hg⟩ := h
  rw [unresolvedKeys, hrw, countP_map]
  refine countP_mono_left fun k hk hcnt => ?_
  simp only [Function.comp_apply, Bool.and_eq_true, decide_eq_true_eq] at hcnt ⊢
  rcases hg k hk with hsm | heg
  · rwa [hsm] at hcnt
  · exact ⟨heg.id ▸ hcnt.1, heg.unresolved hcnt.2⟩

/-! ### Marking a set of keys -/

theorem KeyRow.id_lifecycle (lifecycle : Lifecycle) (k : KeyRow) :
    { k with lifecycle := lifecycle }.id = k.id := rfl

/-- Set the state of the keys of a set. -/
def mark (t : Table KeyRow KeyRow.id) (ids : List KeyID) (lifecycle : Lifecycle) :
    Table KeyRow KeyRow.id :=
  t.update (fun k => decide (k.id ∈ ids)) (fun k => { k with lifecycle := lifecycle })
    (KeyRow.id_lifecycle lifecycle)

theorem evolves_mark (hrw : t'.rows = (mark t ids lifecycle).rows)
    (h : ∀ k ∈ t.rows, k.id ∈ ids → k.Edge { k with lifecycle := lifecycle }) : Evolves t t' := by
  obtain ⟨g, hg, heg⟩ := evolves_update (KeyRow.id_lifecycle lifecycle)
    fun k hk hp => h k hk (of_decide_eq_true hp)
  exact ⟨g, hrw.trans hg, heg⟩

theorem mark_nil (t : Table KeyRow KeyRow.id) (lifecycle : Lifecycle) :
    (mark t [] lifecycle).rows = t.rows := by
  simp [mark, Table.update]

/-- One round of a loop that marks keys. -/
theorem setLifecycle_mark {id : KeyID} (h : t'.rows = (mark t ids lifecycle).rows) :
    (setLifecycle t' id lifecycle).rows = (mark t (ids ++ [id]) lifecycle).rows := by
  simp only [setLifecycle, mark, Table.update] at h ⊢
  rw [h, map_map]
  refine map_congr_left fun k _ => ?_
  by_cases hid : k.id = id
  · subst hid
    by_cases hin : k.id ∈ ids <;> simp [hin]
  · by_cases hin : k.id ∈ ids <;> simp [hin, hid]

theorem mem_mark (h : k' ∈ (mark t ids lifecycle).rows) :
    (k'.id ∈ ids ∧ k'.lifecycle = lifecycle) ∨ (k'.id ∉ ids ∧ k' ∈ t.rows) := by
  obtain ⟨k, hk, rfl⟩ := (Table.mem_update _).mp h
  by_cases hin : k.id ∈ ids
  · simp [hin]
  · simp [hin, hk]

/-! ### The invariant -/

/-- The session was opened with this key. -/
def KeyRow.Opens (k : KeyRow) (s : Session) : Prop :=
  k.id.device = s.id.targetDevice ∧ k.id.accountEpoch = s.id.targetEpoch ∧
    ∃ c, k.claim = some c ∧ c.requestID = s.claimID ∧ c.claimedDevice = s.id.sourceDevice ∧
      c.claimedEpoch = s.id.sourceEpoch

/-- What a session is opened with: the devices and accounts at its ends, and the request. -/
def Session.origin (s : Session) : String × Int × String × Int × String :=
  (s.id.targetDevice, s.id.targetEpoch, s.id.sourceDevice, s.id.sourceEpoch, s.claimID)

theorem KeyRow.Opens.origin (h : k.Opens s) (h' : k.Opens s') : s.origin = s'.origin := by
  obtain ⟨hd, hep, c, hc, hr, hsrc, hsep⟩ := h
  obtain ⟨hd', hep', c', hc', hr', hsrc', hsep'⟩ := h'
  obtain rfl : c = c' := Option.some.inj (hc.symm.trans hc')
  simp only [Session.origin, ← hd, ← hd', ← hep, ← hep', ← hr, ← hr',
    ← hsrc, ← hsrc', ← hsep, ← hsep']

variable [Setting]

/-- The device directory holds together. -/
structure Keyring.Sound (kr : Keyring) : Prop where
  /-- A key is filed under the device, epoch and generation of its bundle. -/
  filed : ∀ k ∈ kr.keys.rows, k.bundle.deviceID = k.id.device ∧
    k.bundle.accountEpoch = k.id.accountEpoch ∧ k.bundle.generation = k.generation
  /-- Its device has an account that is at least as far. -/
  account : ∀ k ∈ kr.keys.rows, ∃ acc, kr.accounts.get k.id.device = some acc ∧
    k.generation ≤ acc.generation
  unclaimed : ∀ k ∈ kr.keys.rows, k.lifecycle = .available → k.claim = none
  owner : ∀ k ∈ kr.keys.rows, ∀ c, k.claim = some c → c.claimedBy = Setting.owner c.claimedDevice
  request : ∀ k ∈ kr.keys.rows, ∀ k' ∈ kr.keys.rows, ∀ c c', k.claim = some c →
    k'.claim = some c' → c.claimedBy = c'.claimedBy → c.requestID = c'.requestID → k = k'
  /-- A publication is filed under its bundle, and its keys are there. -/
  published : ∀ p ∈ kr.publications.rows, p.bundle.deviceID = p.device ∧
    p.bundle.generation = p.generation ∧
    (∃ acc, kr.accounts.get p.device = some acc ∧ p.generation ≤ acc.generation) ∧
    ∀ key ∈ p.bundle.oneTimeKeys, ∃ k ∈ kr.keys.rows,
      k.id = ⟨p.device, p.bundle.accountEpoch, key.id⟩ ∧ k.generation = p.generation
  distinct : ∀ p ∈ kr.publications.rows, (p.bundle.oneTimeKeys.map (·.id)).Nodup
  /-- A key of its generation came in its bundle. -/
  same : ∀ p ∈ kr.publications.rows, ∀ k ∈ kr.keys.rows, k.id.device = p.device →
    k.generation = p.generation → k.bundle = p.bundle
  /-- A session was opened with a key that is used. -/
  opened : ∀ s ∈ kr.sessions.rows, ∃ k ∈ kr.keys.rows, k.Opens s ∧
    (k.lifecycle = .admitted ∨ k.lifecycle = .received)
  once : ∀ s ∈ kr.sessions.rows, ∀ s' ∈ kr.sessions.rows, s.origin = s'.origin → s = s'
  bounded : ∀ device, unresolvedKeys kr.keys device ≤ maxKeys

variable {kr : Keyring}

/-- Two keys that opened one session are the same. -/
theorem Keyring.Sound.opens_unique (h : kr.Sound)
    (hk : k ∈ kr.keys.rows) (hk' : k' ∈ kr.keys.rows) (ho : k.Opens s) (ho' : k'.Opens s) :
    k = k' := by
  obtain ⟨-, -, c, hc, hr, hd, -⟩ := ho
  obtain ⟨-, -, c', hc', hr', hd', -⟩ := ho'
  refine h.request k hk k' hk' c c' hc hc' ?_ (hr.trans hr'.symm)
  rw [h.owner k hk c hc, h.owner k' hk' c' hc', hd, hd']

/-- What the keys claim, after a change of the table. -/
structure ClaimsSound (keys : Table KeyRow KeyRow.id) : Prop where
  owner : ∀ k ∈ keys.rows, ∀ c, k.claim = some c → c.claimedBy = Setting.owner c.claimedDevice
  request : ∀ k ∈ keys.rows, ∀ k' ∈ keys.rows, ∀ c c', k.claim = some c →
    k'.claim = some c' → c.claimedBy = c'.claimedBy → c.requestID = c'.requestID → k = k'

variable {keys : Table KeyRow KeyRow.id}

/-- A move of the keys keeps the invariant, if their claims stay in order. -/
theorem Keyring.Sound.evolve (h : kr.Sound) (he : Evolves kr.keys keys) (hcls : ClaimsSound keys) :
    Keyring.Sound { kr with keys := keys } where
  filed k' hk' := by
    obtain ⟨k, hk, rfl | heg⟩ := he.of hk'
    · exact h.filed _ hk
    · rw [heg.id, heg.bundle, heg.generation]
      exact h.filed k hk
  account k' hk' := by
    obtain ⟨k, hk, rfl | heg⟩ := he.of hk'
    · exact h.account _ hk
    · rw [heg.id, heg.generation]
      exact h.account k hk
  unclaimed k' hk' hav := by
    obtain ⟨k, hk, rfl | heg⟩ := he.of hk'
    · exact h.unclaimed _ hk hav
    · exact absurd hav heg.not_available
  owner := hcls.owner
  request := hcls.request
  published p hp := by
    obtain ⟨hd, hgn, hacc, hks⟩ := h.published p hp
    refine ⟨hd, hgn, hacc, fun key hkey => ?_⟩
    obtain ⟨k, hk, hid, hgen⟩ := hks key hkey
    obtain ⟨k', hk', rfl | heg⟩ := he.to hk
    · exact ⟨_, hk', hid, hgen⟩
    · exact ⟨k', hk', heg.id.trans hid, heg.generation.trans hgen⟩
  distinct := h.distinct
  same p hp k' hk' hd hgn := by
    obtain ⟨k, hk, rfl | heg⟩ := he.of hk'
    · exact h.same p hp _ hk hd hgn
    · rw [heg.bundle]
      exact h.same p hp k hk (heg.id ▸ hd) (heg.generation ▸ hgn)
  opened s hs := by
    obtain ⟨k, hk, hops, hus⟩ := h.opened s hs
    obtain ⟨k', hk', rfl | heg⟩ := he.to hk
    · exact ⟨_, hk', hops, hus⟩
    obtain ⟨hrcv, hclm⟩ := heg.used hus
    refine ⟨k', hk', ?_, .inr hrcv⟩
    rw [KeyRow.Opens, heg.id, hclm]
    exact hops
  once := h.once
  bounded device := (he.unresolvedKeys_le device).trans (h.bounded device)

/-- A change that makes no claim keeps the claims in order. -/
theorem Keyring.Sound.claims (h : kr.Sound) (hkp : ∀ k' ∈ keys.rows, k'.claim = none ∨
      ∃ k ∈ kr.keys.rows, k.id = k'.id ∧ k.claim = k'.claim) : ClaimsSound keys where
  owner k' hk' c hc := by
    rcases hkp k' hk' with hno | ⟨k, hk, -, hclm⟩
    · exact absurd (hno.symm.trans hc) (by simp)
    · exact h.owner k hk c (hclm.trans hc)
  request k' hk' k'' hk'' c c' hc hc' hby hr := by
    rcases hkp k' hk' with hno | ⟨k, hk, hid, hclm⟩
    · exact absurd (hno.symm.trans hc) (by simp)
    rcases hkp k'' hk'' with hno | ⟨k₀, hk₀, hid₀, hclm₀⟩
    · exact absurd (hno.symm.trans hc') (by simp)
    · obtain rfl := h.request k hk k₀ hk₀ c c' (hclm.trans hc) (hclm₀.trans hc') hby hr
      exact keys.eq_of_key hk' hk'' (hid.symm.trans hid₀)

omit [Setting] in
/-- Marking keys makes no claim. -/
theorem mark_claims {p : KeyRow → Bool}
    {hf : ∀ k : KeyRow, ({ k with lifecycle := lifecycle } : KeyRow).id = k.id} :
    ∀ k' ∈ (t.update p (fun k => { k with lifecycle := lifecycle }) hf).rows, k'.claim = none ∨
      ∃ k ∈ t.rows, k.id = k'.id ∧ k.claim = k'.claim := by
  intro k' hk'
  obtain ⟨k, hk, rfl⟩ := (Table.mem_update _).mp hk'
  refine .inr ⟨k, hk, ?_⟩
  split <;> exact ⟨rfl, rfl⟩

end Noxa.Store

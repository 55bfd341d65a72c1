import Mathlib.Data.List.Sort
import Noxa.Admission.Copies
import Noxa.Store.Tables

/-!
# Who may send, and to whom

The checks of `olm_rosters.go` and `olm_admission.go` on devices, rosters and groups: whether a
session still speaks for its device, which accounts a message is for, which devices these have now,
and whether a manifest covers exactly them.

## Main definitions

* `lockOlmDevice`, `sourceAuthority` — the session's device
* `admissionPrincipals` — the accounts of a message
* `readOlmRosterDevices`, `readOlmControlRoster` — their devices now
* `equalCoverage` — the manifest names exactly these
* `Covers` — what this is for: the manifest's targets and roster versions are the current ones

## Main results

* `readOlmRosterDevices_ok` — the snapshot lists exactly the current targets
* `covers_of_equalCoverage` — a manifest that passes the comparison covers its audience
-/

namespace Noxa.Store

open Directory Admission Fallible List

/-- One round of the scan: the targets so far and the next. -/
def scanTarget (out : List Target) (t : Target) : Except Err (List Target) := do
  ensure (t.accountEpoch ≠ 0) .exhausted
  ensure (out.countP (·.principal = t.principal) < 64 ∧ out.length < maxTargets) .limit
  pure (out ++ [t])

theorem foldlM_scanTarget {ts out : List Target} (h : ts.foldlM scanTarget [] = .ok out) :
    out = ts ∧ ∀ t ∈ ts, t.accountEpoch ≠ 0 := by
  refine foldlM_ok_loop (P := fun done s => s = done ∧ ∀ t ∈ done, t.accountEpoch ≠ 0) h
    ?_ ⟨rfl, by simp⟩
  rintro done t s s' ⟨rfl, hdn⟩ hsca
  simp only [scanTarget, bind_eq_ok, ensure_eq_ok, pure_eq_ok] at hsca
  obtain ⟨-, hep, -, -, rfl⟩ := hsca
  exact ⟨rfl, forall_mem_append.mpr ⟨hdn, forall_mem_singleton.mpr hep⟩⟩

/-- The accounts of a direct message, each once. -/
def directPrincipals (principal peer : String) : List String :=
  principal :: if peer ≠ principal then [peer] else []

theorem directPrincipals_nodup (principal peer : String) :
    (directPrincipals principal peer).Nodup := by
  by_cases h : peer = principal
  · simp [directPrincipals, h]
  · simp [directPrincipals, h, Ne.symm h]

theorem mem_directPrincipals {principal peer p : String} :
    p ∈ directPrincipals principal peer ↔ p = principal ∨ p = peer := by
  by_cases h : peer = principal
  · simp [directPrincipals, h]
  · simp [directPrincipals, h]

/-- Distinct members of a list that is no longer are all of its members. -/
theorem mem_iff_of_subset {α : Type*} {l l' : List α} (hnd : l.Nodup) (hsub : l ⊆ l')
    (hl : l'.length = l.length) (x : α) : x ∈ l' ↔ x ∈ l :=
  ((subperm_of_subset hnd hsub).perm_of_length_le hl.le).mem_iff.symm

variable [Setting]

/-! ### The session's device -/

def lockOlmDevice (world : World) (principal id : String) : Except Err Device := do
  let d ← found ((world.devices.get id).filter (·.principal = principal)) .authority
  ensure (d.confirmed = true) .authority
  pure d

/-- The session speaks for a confirmed device, and for the current account of it if that is asked
for. Locking its roster changes nothing. -/
def sourceAuthority (db : Db) (a : Source) (current : Bool) : Except Err PUnit := do
  let d ← lockOlmDevice db.world a.principal a.device
  ensure (a.signing ≠ "" ∧ d.ed25519Public = a.signing) .authority
  if current then
    ensure ((db.keyring.accounts.get a.device).any (·.accountEpoch = a.accountEpoch))
      .accountChanged

/-! ### The accounts of a message -/

def admissionPrincipals (world : World) (a : Source) (scope : Scope)
    (peer conversation : String) (revision epoch : Int) : Except Err (List String) :=
  match scope with
  | .direct => do
    ensure (validText peer = true) .invalid
    pure (directPrincipals a.principal peer)
  | .group => do
    ensure (a.allowGroups = true) .invalid
    match world.group conversation with
    | .malformed => throw .sql
    | .missing => throw .noRows
    | .found c => do
      ensure (c.members.find? (·.uniqueID = a.principal) |>.any (!·.pending)) .authority
      ensure (revision = 0 ∨ (c.revision = revision ∧ c.epoch = epoch)) .conflict
      let ps := (c.members.filter (!·.pending)).map (·.uniqueID)
      ensure (ps.length ≤ 16) .limit
      pure ps
  | .other _ => throw .invalid

/-! ### Their devices -/

/-- `OlmRosterSnapshot` without the group's numbers, which admission does not read. -/
structure Snapshot where
  rosters : List Roster
  targets : List Target

/-- One device as a target. A device without a directory entry has epoch 0. -/
def rosterRow (db : Db) (source : String) (d : Device) : Target where
  principal := d.principal
  device := d.deviceID
  accountEpoch := ((db.keyring.accounts.get d.deviceID).map (·.accountEpoch)).getD 0
  identity := ((db.keyring.accounts.get d.deviceID).map (·.identity)).getD ""
  isLocal := d.deviceID = source

/-- The confirmed devices of the accounts, in the order of their identifiers. With a list of
devices, only these. -/
def rosterDevices (world : World) (ps : List String) (devices : List String) : List Device :=
  (world.devices.rows.filter fun d =>
    decide (d.principal ∈ ps) && (devices.isEmpty || decide (d.deviceID ∈ devices)) &&
      d.confirmed).insertionSort fun d d' => d.deviceID ≤ d'.deviceID

def readOlmRosterDevices (db : Db) (ps : List String) (source : String)
    (devices : List String) : Except Err Snapshot := do
  let rosters := (ps.insertionSort (· ≤ ·)).map fun p => ⟨p, (db.world.rosters p).1⟩
  let targets ← ((rosterDevices db.world ps devices).map (rosterRow db source)).foldlM scanTarget []
  ensure (∀ p ∈ ps, ∃ t ∈ targets, t.principal = p) .authority
  pure ⟨rosters, targets⟩

def readOlmRoster (db : Db) (ps : List String) (source : String) : Except Err Snapshot :=
  readOlmRosterDevices db ps source []

/-- For a control only the session's device and the named one have to be ready. -/
def readOlmControlRoster (db : Db) (a : Source) (peer target : String) : Except Err Snapshot := do
  ensure (validText peer = true ∧ validText target = true ∧ target ≠ a.device) .invalid
  let out ← readOlmRosterDevices db (directPrincipals a.principal peer) a.device [a.device, target]
  ensure (out.targets.length = 2) .authority
  ensure (∀ t ∈ out.targets, (t.isLocal = true → t.principal = a.principal) ∧
    (t.isLocal = false → t.device = target ∧ t.principal = peer)) .authority
  pure out

/-- What finalizing compares a manifest with. -/
def readSnapshot (db : Db) (a : Source) (m : Manifest) (ps : List String) : Except Err Snapshot :=
  if m.purpose = .control then do
    let target ← found (controlTarget m) .invalid
    readOlmControlRoster db a m.peer target.device
  else readOlmRoster db ps a.device

/-! ### Coverage -/

/-- `rs[p]`, where `rs` is filled from the manifest. -/
def rosterVersion (m : Manifest) (p : String) : Int :=
  ((m.rosters.reverse.find? (·.principal = p)).map (·.version)).getD 0

/-- `ts[device]`, where `ts` is filled from the manifest. -/
def targetOf (m : Manifest) (device : String) : Target :=
  (m.targets.reverse.find? (·.device = device)).getD ⟨"", "", 0, "", false⟩

def rostersCurrent (m : Manifest) (snap : Snapshot) : Bool :=
  decide (m.rosters.length = snap.rosters.length) &&
    snap.rosters.all fun r => rosterVersion m r.principal = r.version

def controlCoverage (m : Manifest) (snap : Snapshot) : Bool :=
  match controlTarget m with
  | none => false
  | some target =>
    rostersCurrent m snap &&
      (snap.targets.any fun t => decide (t ∈ m.targets) && !t.isLocal && decide (t = target)) &&
      snap.targets.any fun t => decide (t ∈ m.targets) && t.isLocal

def equalCoverage (m : Manifest) (snap : Snapshot) : Bool :=
  if m.purpose = .control then controlCoverage m snap
  else
    decide (m.targets.length = snap.targets.length) && rostersCurrent m snap &&
      snap.targets.all fun t => targetOf m t.device = t

/-! ### What coverage means -/

/-- The accounts a message is for. -/
def Party (world : World) (m : Manifest) (p : String) : Prop :=
  match m.scope with
  | .direct => p = m.sender ∨ p = m.peer
  | .group => ∃ c, world.group m.conversation = .found c ∧ c.revision = m.revision ∧
      c.epoch = m.epoch ∧ ∃ x ∈ c.members, x.pending = false ∧ x.uniqueID = p
  | .other _ => False

/-- A confirmed device with its current directory entry. -/
def CurrentTarget (db : Db) (source : String) (t : Target) : Prop :=
  ∃ d ∈ db.world.devices.rows, d.confirmed = true ∧
    ∃ account, db.keyring.accounts.get d.deviceID = some account ∧
      t = ⟨d.principal, d.deviceID, account.accountEpoch, account.identity,
        decide (d.deviceID = source)⟩

/-- The manifest names the current roster versions of its accounts and their current devices; a
control names only its target and the local device. -/
def Covers (db : Db) (m : Manifest) : Prop :=
  (∀ r, r ∈ m.rosters ↔
    Party db.world m r.principal ∧ r.version = (db.world.rosters r.principal).1) ∧
  ∀ t, t ∈ m.targets ↔ CurrentTarget db m.device t ∧ Party db.world m t.principal ∧
    (m.purpose = .control → t.isLocal = true ∨ controlTarget m = some t)

variable {db : Db} {source : String} {t : Target} {ps devices : List String} {snap : Snapshot}
  {m : Manifest} {a : Source}

theorem CurrentTarget.eq_of_device {t' : Target} (h : CurrentTarget db source t)
    (h' : CurrentTarget db source t') (hd : t.device = t'.device) : t = t' := by
  obtain ⟨d, hm, -, account, hac, rfl⟩ := h
  obtain ⟨d', hmem', -, account', hac', rfl⟩ := h'
  obtain rfl : d = d' := db.world.devices.eq_of_key hm hmem' hd
  obtain rfl : account = account' := Option.some.inj (hac.symm.trans hac')
  rfl

theorem CurrentTarget.device_eq (h : CurrentTarget db source t) (hlc : t.isLocal = true) :
    t.device = source := by
  obtain ⟨d, -, -, account, -, rfl⟩ := h
  exact of_decide_eq_true hlc

/-! ### The snapshot -/

variable {world : World} {d : Device}

theorem mem_rosterDevices :
    d ∈ rosterDevices world ps devices ↔ d ∈ world.devices.rows ∧ d.principal ∈ ps ∧
      (devices = [] ∨ d.deviceID ∈ devices) ∧ d.confirmed = true := by
  simp [rosterDevices, mem_filter, and_assoc]

theorem rosterDevices_nodup (world : World) (ps devices : List String) :
    ((rosterDevices world ps devices).map (·.deviceID)).Nodup := by
  have hpm := perm_insertionSort (fun d d' : Device => d.deviceID ≤ d'.deviceID)
    (world.devices.rows.filter fun d =>
      decide (d.principal ∈ ps) && (devices.isEmpty || decide (d.deviceID ∈ devices)) &&
        d.confirmed)
  rw [rosterDevices, (hpm.map _).nodup_iff]
  exact world.devices.nodup.sublist (filter_sublist.map _)

/-- A directory entry that the scan passes is a current target. -/
theorem currentTarget_rosterRow (hm : d ∈ db.world.devices.rows)
    (hcnf : d.confirmed = true) (hep : (rosterRow db source d).accountEpoch ≠ 0) :
    CurrentTarget db source (rosterRow db source d) := by
  cases hac : db.keyring.accounts.get d.deviceID with
  | none => exact absurd (by simp [rosterRow, hac]) hep
  | some account =>
    exact ⟨d, hm, hcnf, account, hac, by simp [rosterRow, hac]⟩

theorem CurrentTarget.eq_rosterRow (h : CurrentTarget db source t) :
    ∃ d ∈ db.world.devices.rows, d.confirmed = true ∧ rosterRow db source d = t := by
  obtain ⟨d, hm, hcnf, account, hac, rfl⟩ := h
  exact ⟨d, hm, hcnf, by simp [rosterRow, hac]⟩

/-- **The snapshot is the current state of the accounts.** -/
theorem readOlmRosterDevices_ok (h : readOlmRosterDevices db ps source devices = .ok snap) :
    (∀ r, r ∈ snap.rosters ↔ r.principal ∈ ps ∧ r.version = (db.world.rosters r.principal).1) ∧
      (∀ t, t ∈ snap.targets ↔ CurrentTarget db source t ∧ t.principal ∈ ps ∧
        (devices = [] ∨ t.device ∈ devices)) ∧
      (ps.Nodup → snap.rosters.Nodup) ∧ snap.targets.Nodup ∧
      ∀ t ∈ snap.targets, t.accountEpoch ≠ 0 := by
  simp only [readOlmRosterDevices, bind_eq_ok, ensure_eq_ok, pure_eq_ok] at h
  obtain ⟨targets, hsca, -, -, rfl⟩ := h
  obtain ⟨rfl, hep⟩ := foldlM_scanTarget hsca
  have hpm := perm_insertionSort (· ≤ ·) ps
  refine ⟨?_, ?_, ?_, ?_, hep⟩
  · intro r
    simp only [mem_map, hpm.mem_iff]
    constructor
    · rintro ⟨p, hp, rfl⟩
      exact ⟨hp, rfl⟩
    · rintro ⟨hp, hver⟩
      exact ⟨r.principal, hp, by rw [← hver]⟩
  · intro t
    constructor
    · intro ht
      obtain ⟨d, hd, rfl⟩ := mem_map.mp ht
      obtain ⟨hm, hp, hdev, hcnf⟩ := mem_rosterDevices.mp hd
      exact ⟨currentTarget_rosterRow hm hcnf (hep _ ht), hp, hdev⟩
    · rintro ⟨hc, hp, hdev⟩
      obtain ⟨d, hm, hcnf, rfl⟩ := hc.eq_rosterRow
      exact mem_map.mpr ⟨d, mem_rosterDevices.mpr ⟨hm, hp, hdev, hcnf⟩, rfl⟩
  · intro hps
    refine List.Nodup.map (fun p q hpq => ?_) (hpm.nodup_iff.mpr hps)
    exact congrArg Roster.principal hpq
  · have hdv : ((rosterDevices db.world ps devices).map (rosterRow db source)).map (·.device)
        = (rosterDevices db.world ps devices).map (·.deviceID) := by
      rw [map_map]
      rfl
    exact List.Nodup.of_map (·.device) (hdv ▸ rosterDevices_nodup db.world ps devices)

/-! ### The comparison -/

omit [Setting] in
theorem mem_of_rosterVersion {r : Roster} (h : rosterVersion m r.principal = r.version)
    (hpos : r.version ≠ 0) : r ∈ m.rosters := by
  unfold rosterVersion at h
  cases hfd : m.rosters.reverse.find? (·.principal = r.principal) with
  | none =>
    rw [hfd] at h
    exact absurd h.symm hpos
  | some r' =>
    rw [hfd] at h
    have hpn : r'.principal = r.principal := by simpa using List.find?_some hfd
    have heq : r' = r := by
      cases r'
      cases r
      simp_all
    exact heq ▸ mem_reverse.mp (mem_of_find?_eq_some hfd)

omit [Setting] in
theorem mem_of_targetOf (h : targetOf m t.device = t) (hep : t.accountEpoch ≠ 0) :
    t ∈ m.targets := by
  unfold targetOf at h
  cases hfd : m.targets.reverse.find? (·.device = t.device) with
  | none =>
    rw [hfd, Option.getD_none] at h
    exact absurd (congrArg Target.accountEpoch h).symm hep
  | some =>
    rw [hfd, Option.getD_some] at h
    exact h ▸ mem_reverse.mp (mem_of_find?_eq_some hfd)

theorem rostersCurrent_iff (hrd : readOlmRosterDevices db ps source devices = .ok snap)
    (hps : ps.Nodup) (h : rostersCurrent m snap = true) (r : Roster) :
    r ∈ m.rosters ↔ r.principal ∈ ps ∧ r.version = (db.world.rosters r.principal).1 := by
  obtain ⟨hr, -, hnd, -, -⟩ := readOlmRosterDevices_ok hrd
  simp only [rostersCurrent, Bool.and_eq_true, decide_eq_true_eq, all_eq_true] at h
  have hsub : snap.rosters ⊆ m.rosters := by
    intro s hs
    have hver := ((hr s).mp hs).2
    have hpos := (db.world.rosters s.principal).2.1
    exact mem_of_rosterVersion (h.2 s hs) (by omega)
  rw [mem_iff_of_subset (hnd hps) hsub h.1, hr]

theorem admissionPrincipals_ok (hsdr : a.principal = m.sender) (hv : m.validate = true)
    (h : admissionPrincipals world a m.scope m.peer m.conversation m.revision m.epoch = .ok ps) :
    ps.Nodup ∧ ∀ p, p ∈ ps ↔ Party world m p := by
  unfold admissionPrincipals at h
  split at h
  · rename_i hsc
    simp only [bind_eq_ok, ensure_eq_ok, pure_eq_ok] at h
    obtain ⟨-, -, rfl⟩ := h
    refine ⟨directPrincipals_nodup _ _, fun p => ?_⟩
    rw [mem_directPrincipals, hsdr]
    simp only [Party, hsc]
  · rename_i hsc
    rw [bind_eq_ok] at h
    obtain ⟨-, -, h⟩ := h
    split at h
    · cases h
    · cases h
    rename_i c hgrp
    simp only [bind_eq_ok, ensure_eq_ok, pure_eq_ok] at h
    obtain ⟨-, -, -, hnum, -, -, rfl⟩ := h
    have hrv : m.revision ≠ 0 := by
      have := m.group_revision hv hsc
      omega
    obtain ⟨hrev, hep⟩ := hnum.resolve_left hrv
    refine ⟨c.nodup.sublist (filter_sublist.map _), fun p => ?_⟩
    simp [Party, hsc, hgrp, hrev, hep, and_assoc]
  · cases h

/-- A chat, an edit or a deletion names every current device of its accounts. -/
theorem covers_of_fanout (hdev : a.device = m.device) (hps : ps.Nodup)
    (hpty : ∀ p, p ∈ ps ↔ Party db.world m p) (hrd : readOlmRoster db ps a.device = .ok snap)
    (hkd : m.purpose ≠ .control) (h : equalCoverage m snap = true) : Covers db m := by
  obtain ⟨-, htgs, -, hnd, hep⟩ := readOlmRosterDevices_ok hrd
  rw [equalCoverage, if_neg hkd, Bool.and_eq_true, Bool.and_eq_true, decide_eq_true_eq,
    all_eq_true] at h
  obtain ⟨⟨hl, hr⟩, hall⟩ := h
  have hsub : snap.targets ⊆ m.targets := fun t ht =>
    mem_of_targetOf (by simpa using hall t ht) (hep t ht)
  constructor
  · intro r
    rw [rostersCurrent_iff hrd hps hr, hpty]
  · intro t
    rw [mem_iff_of_subset hnd hsub hl, htgs, hpty, hdev]
    simp [hkd]

/-- A control names its target and the local device, as they are now. -/
theorem covers_of_control {target : Target} (hdev : a.device = m.device)
    (hsdr : a.principal = m.sender) (hsc : m.scope = .direct)
    (htgt : controlTarget m = some target)
    (hrd : readOlmControlRoster db a m.peer target.device = .ok snap)
    (h : controlCoverage m snap = true) : Covers db m := by
  simp only [readOlmControlRoster, bind_eq_ok, ensure_eq_ok, pure_eq_ok] at hrd
  obtain ⟨-, -, out, hrd, -, -, -, -, rfl⟩ := hrd
  obtain ⟨-, htgs, -, -, -⟩ := readOlmRosterDevices_ok hrd
  obtain ⟨-, hl, -, hrmt, -⟩ := controlTarget_eq_some htgt
  have hpty : ∀ p, p ∈ directPrincipals a.principal m.peer ↔ Party db.world m p := by
    intro p
    rw [mem_directPrincipals, hsdr]
    simp only [Party, hsc]
  simp only [controlCoverage, htgt, Bool.and_eq_true, any_eq_true, decide_eq_true_eq] at h
  obtain ⟨⟨hr, named, hnm, ⟨hnm', -⟩, rfl⟩, here, hhe, hhe', hlc⟩ := h
  have hc : ∀ t ∈ out.targets, CurrentTarget db m.device t ∧ Party db.world m t.principal := by
    intro t ht
    obtain ⟨hc, hp, -⟩ := (htgs t).mp ht
    exact ⟨hdev ▸ hc, (hpty _).mp hp⟩
  have hm : ∀ t, t ∈ m.targets ↔ t ∈ [named, here] := by
    refine mem_iff_of_subset ?_ ?_ hl
    · rw [nodup_cons, mem_singleton]
      refine ⟨?_, nodup_singleton _⟩
      rintro rfl
      simp [hrmt] at hlc
    · exact forall_mem_cons.mpr ⟨hnm', forall_mem_singleton.mpr hhe'⟩
  constructor
  · intro r
    rw [rostersCurrent_iff hrd (directPrincipals_nodup _ _) hr, hpty]
  intro t
  constructor
  · intro ht
    rcases mem_cons.mp ((hm t).mp ht) with rfl | ht
    · exact ⟨(hc _ hnm).1, (hc _ hnm).2, fun _ => .inr htgt⟩
    · obtain rfl := mem_singleton.mp ht
      exact ⟨(hc _ hhe).1, (hc _ hhe).2, fun _ => .inl hlc⟩
  · rintro ⟨ht, -, hkd⟩
    rcases hkd (controlTarget_eq_some htgt).1 with hloc | hnam
    · -- both are the row of the session's own device
      have hsm : t.device = here.device :=
        (ht.device_eq hloc).trans ((hc _ hhe).1.device_eq hlc).symm
      rw [ht.eq_of_device (hc _ hhe).1 hsm]
      exact hhe'
    · obtain rfl : named = t := Option.some.inj (htgt.symm.trans hnam)
      exact hnm'

/-- **A manifest that passes the comparison covers its audience.** -/
theorem covers_of_equalCoverage (hmts : a.matches m) (hv : m.validate = true)
    (hps : admissionPrincipals db.world a m.scope m.peer m.conversation m.revision m.epoch = .ok ps)
    (hrd : readSnapshot db a m ps = .ok snap) (h : equalCoverage m snap = true) :
    Covers db m := by
  obtain ⟨-, hsdr, hdev, -⟩ := hmts
  by_cases hkd : m.purpose = .control
  · simp only [readSnapshot, hkd, if_true, bind_eq_ok, found_eq_ok] at hrd
    obtain ⟨target, htgt, hrd⟩ := hrd
    rw [equalCoverage, if_pos hkd] at h
    exact covers_of_control hdev hsdr (m.control_scope hv hkd) htgt hrd h
  · rw [readSnapshot, if_neg hkd] at hrd
    obtain ⟨hnd, hpty⟩ := admissionPrincipals_ok hsdr hv hps
    exact covers_of_fanout hdev hnd hpty hrd hkd h

end Noxa.Store

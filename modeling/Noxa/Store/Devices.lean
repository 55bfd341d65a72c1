import Mathlib.Data.List.Dedup
import Mathlib.Data.List.Sort
import Noxa.Identity.DeviceTrust
import Noxa.Store.Tables

/-!
# The devices of accounts

The calls of `internal/store/devices.go` and `EndorseDevice`, each one transaction on the table of
devices. What they read of other tables, the time and the identifier they draw come in as `Drawn`:
which passkeys and users there are is up to other calls. The rows that depend on a device (push
subscriptions, history chunks, spooled copies) and the versions of rosters are left out, since no
call here reads them.

A time of the database is in microseconds. The rows are listed in the order of their insertion.

## Main definitions

* `addDevice`, `endorseDevice` — registering and confirming
* `signOutDevice`, `revokeDevice`, `resetDevices`, `revokeIdle` — ending
* `deviceByKey`, `deviceByID`, `listDevices` — reading
* `DeviceCall.perform` — the calls as steps of a machine

## Main results

* `perform_cases` — what a call can do to the rows
* `Grown`, `devices_permanent` — rows keep their names, accounts and keys, and none starts again
-/

namespace Noxa.Store

open Fallible Text Directory Identity Option List

/-- What the calls need of keys besides `Keys`: whether a PEM block has headers, and SHA-256. -/
class DeviceKeys extends Keys where
  headers : Bytes → Bool
  sha256 : Bytes → Bytes
  headers_publicKeyPEM : ∀ key, headers (publicKeyPEM key) = false

abbrev Devices := Table Device Device.deviceID

/-- A row of `webauthn_credentials`. -/
structure Passkey where
  principal : String
  credentialID : Bytes
  deviceID : String
  deriving DecidableEq, Repr

/-- A row of `users`. -/
structure User where
  uniqueID : String
  publicKey : String
  deriving DecidableEq, Repr

/-- What a call finds outside the table. The order of texts is the one of the database. -/
structure Drawn where
  now : Int
  uuid : String
  passkeys : List Passkey
  users : List User
  collation : String → ℕ

structure NewDevice where
  principal : String
  kind : DeviceKind
  ed25519Public : String
  x25519Public : String
  approvedBy : String := ""
  approvalSignature : Bytes := []
  requireCredentialID : Option Bytes := none
  deriving DecidableEq, Repr

inductive DeviceErr
  | required
  | passkeyNotFound
  | keyInUse
  | limit
  | notFound
  | storage
  deriving DecidableEq, Repr

/-! ### Keys -/

section Keys

variable [DeviceKeys]

/-- The content of a PEM block that is a public key and nothing else. -/
def deviceKey (publicKeyPEM : String) : Option Bytes :=
  match Keys.pem (bytes publicKeyPEM) with
  | none => none
  | some (type, key) =>
    if type = "PUBLIC KEY" ∧ DeviceKeys.headers (bytes publicKeyPEM) = false ∧ key.length = 32 then
      some key
    else none

def canonicalDeviceKey (publicKeyPEM : String) : Option String :=
  (deviceKey publicKeyPEM).map publicKeyText

/-- The name of the account that belongs to a key. -/
def deviceKeyUniqueID (publicKeyPEM : String) : Option String :=
  (deviceKey publicKeyPEM).map fun key =>
    String.ofList (Base64.encode (bytes (String.ofList (Base64.encode (DeviceKeys.sha256 key)))))

/-- The spelling under which a key is stored. -/
def storedKey (ed25519Public : String) : String :=
  (canonicalDeviceKey ed25519Public).getD ed25519Public

end Keys

/-! ### Reading -/

section

variable (drawn : Drawn) (ds : Devices)

def deviceByID (principal deviceID : String) : Option Device :=
  (ds.get deviceID).filter fun d => decide (d.principal = principal)

/-- The stored spelling goes before the given one. -/
def deviceByKey [DeviceKeys] (ds : Devices) (ed25519Public : String) : Option Device :=
  (ds.rows.find? fun d => decide (d.ed25519Public = storedKey ed25519Public)).or
    (ds.rows.find? fun d => decide (d.ed25519Public = ed25519Public))

def listDevices (principal : String) (includeRevoked : Bool) : List Device :=
  ds.rows.filter fun d => decide (d.principal = principal) && (includeRevoked || d.active)

/-! ### Registering and confirming -/

/-- The identity key of another account. -/
def foreignIdentity [DeviceKeys] (users : List User) (principal stored submitted : String) : Bool :=
  match deviceKeyUniqueID stored with
  | none => false
  | some derived => users.any fun u => decide (u.uniqueID ≠ principal) &&
      (decide (u.uniqueID = derived) || decide (u.publicKey = stored) ||
        decide (u.publicKey = submitted))

/-- The row of a new device. -/
def newRow [DeviceKeys] (drawn : Drawn) (ds : Devices) (d : NewDevice) : Device where
  deviceID := drawn.uuid
  principal := d.principal
  kind := d.kind
  ed25519Public := storedKey d.ed25519Public
  x25519Public := d.x25519Public
  firstDevice := (listDevices ds d.principal false).isEmpty
  approvedBy := d.approvedBy
  approvalSignature := d.approvalSignature
  lastSeenAt := drawn.now

def addDevice [DeviceKeys] (drawn : Drawn) (ds : Devices) (d : NewDevice) (limit : Int) :
    Except DeviceErr (Devices × Device) := do
  ensure (d.principal ≠ "" ∧ d.ed25519Public ≠ "") .required
  ensure (∀ id ∈ d.requireCredentialID, ∃ w ∈ drawn.passkeys, w.principal = d.principal ∧
    w.credentialID = id) .passkeyNotFound
  ensure (∀ r ∈ ds.rows, r.ed25519Public ≠ storedKey d.ed25519Public ∧
    r.ed25519Public ≠ d.ed25519Public) .keyInUse
  ensure (foreignIdentity drawn.users d.principal (storedKey d.ed25519Public)
    d.ed25519Public = false) .keyInUse
  ensure (limit ≤ 0 ∨ ((listDevices ds d.principal false).length : Int) < limit) .limit
  let row := newRow drawn ds d
  let ds' ← found (ds.insert row) .storage
  pure (ds', row)

/-- The statement that records an approval. -/
def endorsed (approverID : String) (signature : Bytes) (d : Device) : Device :=
  { d with approvedBy := approverID, approvalSignature := signature }

/-- The device is active, is not the first one and has no approval. -/
def endorsable (principal deviceID : String) (d : Device) : Bool :=
  decide (d.principal = principal ∧ d.deviceID = deviceID ∧ d.firstDevice = false ∧
    d.approvalSignature = []) && d.active

def endorseDevice (principal deviceID approverID : String) (signature : Bytes) :
    Except DeviceErr (Devices × Device) := do
  let d ← found (ds.rows.find? (endorsable principal deviceID)) .notFound
  pure (ds.update (endorsable principal deviceID) (endorsed approverID signature) fun _ => rfl,
    endorsed approverID signature d)

/-! ### Ending -/

def ended (d : Device) : Device := { d with revokedAt := some drawn.now }

/-- End the devices of a kind, and return them. -/
def endDevices (p : Device → Bool) : Devices × List Device :=
  (ds.update p (ended drawn) fun _ => rfl, (ds.rows.filter p).map (ended drawn))

/-- A passkey still names the device. -/
def hasPasskey (d : Device) : Bool :=
  drawn.passkeys.any fun w => decide (w.deviceID = d.deviceID)

def signOutDevice (principal deviceID : String) : Except DeviceErr (Devices × Device) :=
  let p := fun d : Device => decide (d.principal = principal ∧ d.deviceID = deviceID) && d.active
  match endDevices drawn ds p with
  | (ds', d :: _) => .ok (ds', d)
  | (_, []) => .error .notFound

/-- A device that was signed out before is ended again if a passkey was left. -/
def revokeDevice (principal deviceID : String) : Except DeviceErr (Devices × Device) :=
  let p := fun d : Device => decide (d.principal = principal ∧ d.deviceID = deviceID) &&
    (d.active || hasPasskey drawn d)
  match endDevices drawn ds p with
  | (ds', d :: _) => .ok (ds', d)
  | (_, []) => .error .notFound

def resetDevices (principal keep : String) : Devices × List Device :=
  endDevices drawn ds fun d => decide (d.principal = principal ∧ d.deviceID ≠ keep) &&
    (d.active || hasPasskey drawn d)

/-- The accounts of one batch: the first ones, in order, with a device of the kind. Without a limit
these are all. -/
def batch (limit : ℕ) (p : Device → Bool) : List String :=
  let all := ((ds.rows.filter p).map fun d : Device => d.principal).dedup.insertionSort fun a b =>
    drawn.collation a ≤ drawn.collation b
  if limit = 0 then all else all.take limit

def idle (before : Int) (d : Device) : Bool :=
  d.active && decide (d.firstDevice = false ∧ d.lastSeenAt < before)

/-- One batch of the first loop of `ExpireIdleDevices`. -/
def revokeIdle (limit : ℕ) (revokeBefore : Int) : Devices × List Device :=
  endDevices drawn ds fun d => idle revokeBefore d &&
    decide (d.principal ∈ batch drawn ds limit (idle revokeBefore))

/-- One batch of the second loop. -/
def warnIdle (limit : ℕ) (warnBefore : Int) : Devices :=
  let p := fun d : Device => idle warnBefore d && d.expiryWarnedAt.isNone
  ds.update (fun d => p d && decide (d.principal ∈ batch drawn ds limit p))
    (fun d => { d with expiryWarnedAt := some drawn.now }) fun _ => rfl

def touchDevice (deviceID : String) (seen : Int) : Devices :=
  ds.update (fun d => decide (d.deviceID = deviceID) && d.active)
    (fun d => { d with lastSeenAt := max d.lastSeenAt seen, expiryWarnedAt := none }) fun _ => rfl

/-! ### Histories -/

inductive DeviceCall
  | add (d : NewDevice) (limit : Int)
  | endorse (principal deviceID approverID : String) (signature : Bytes)
  | signOut (principal deviceID : String)
  | revoke (principal deviceID : String)
  | reset (principal keep : String)
  | revokeIdle (limit : ℕ) (revokeBefore : Int)
  | warnIdle (limit : ℕ) (warnBefore : Int)
  | touch (deviceID : String) (seen : Int)

/-- The table after a call. A call that fails leaves it. -/
def committed : Except DeviceErr (Devices × Device) → Devices
  | .ok (ds', _) => ds'
  | .error _ => ds

def DeviceCall.perform [DeviceKeys] (drawn : Drawn) (ds : Devices) : DeviceCall → Devices
  | .add d limit => committed ds (addDevice drawn ds d limit)
  | .endorse principal deviceID approverID signature =>
    committed ds (endorseDevice ds principal deviceID approverID signature)
  | .signOut principal deviceID => committed ds (signOutDevice drawn ds principal deviceID)
  | .revoke principal deviceID => committed ds (revokeDevice drawn ds principal deviceID)
  | .reset principal keep => (resetDevices drawn ds principal keep).1
  | .revokeIdle limit revokeBefore => (Store.revokeIdle drawn ds limit revokeBefore).1
  | .warnIdle limit warnBefore => Store.warnIdle drawn ds limit warnBefore
  | .touch deviceID seen => touchDevice ds deviceID seen

/-- One call of a history, with what it draws. -/
def deviceStep [DeviceKeys] (ds : Devices) (i : Drawn × DeviceCall) : Devices × Unit :=
  (i.2.perform i.1 ds, ())

/-! ### What a call can do -/

end

/-- The same device later, perhaps ended in between. Only its times have changed. -/
structure Device.Continues (d d' : Device) : Prop where
  deviceID : d'.deviceID = d.deviceID
  principal : d'.principal = d.principal
  kind : d'.kind = d.kind
  ed25519Public : d'.ed25519Public = d.ed25519Public
  x25519Public : d'.x25519Public = d.x25519Public
  firstDevice : d'.firstDevice = d.firstDevice
  approvedBy : d'.approvedBy = d.approvedBy
  approvalSignature : d'.approvalSignature = d.approvalSignature
  active : d'.active = true → d.active = true

theorem Device.Continues.refl (d : Device) : d.Continues d :=
  ⟨rfl, rfl, rfl, rfl, rfl, rfl, rfl, rfl, id⟩

theorem continues_ended (drawn : Drawn) (d : Device) : d.Continues (ended drawn d) :=
  ⟨rfl, rfl, rfl, rfl, rfl, rfl, rfl, rfl, fun h => absurd h (by simp [ended, Device.active])⟩

/-- The rows are those of before, each continued. -/
structure Continued (ds ds' : Devices) : Prop where
  origin : ∀ d' ∈ ds'.rows, ∃ d ∈ ds.rows, d.Continues d'
  successor : ∀ d ∈ ds.rows, ∃ d' ∈ ds'.rows, d.Continues d'

theorem Continued.refl (ds : Devices) : Continued ds ds where
  origin d hd := ⟨d, hd, .refl d⟩
  successor d hd := ⟨d, hd, .refl d⟩

section

variable {drawn : Drawn} {ds ds' : Devices} {p : Device → Bool} {limit : Int} {approverID : String}
  {signature : Bytes}

theorem continued_update {f : Device → Device} (h : ∀ d : Device, d.Continues (f d)) :
    Continued ds (ds.update p f fun d => (h d).deviceID) := by
  have hrow : ∀ d : Device, d.Continues (if p d then f d else d) := by
    intro d
    split
    · exact h d
    · exact .refl d
  constructor
  · intro d' hd'
    obtain ⟨d, hd, rfl⟩ := (Table.mem_update _).mp hd'
    exact ⟨d, hd, hrow d⟩
  · intro d hd
    exact ⟨_, (Table.mem_update _).mpr ⟨d, hd, rfl⟩, hrow d⟩

theorem endDevices_continued : Continued ds (endDevices drawn ds p).1 :=
  continued_update (continues_ended drawn)

variable {principal : String}

/-- The devices that are returned have been ended. -/
theorem endDevices_ended (hp : ∀ d, p d = true → d.principal = principal) :
    ∀ d ∈ (endDevices drawn ds p).2, d ∈ (endDevices drawn ds p).1.rows ∧
      d.principal = principal ∧ d.active = false := by
  intro d hd
  obtain ⟨x, hx, rfl⟩ := mem_map.mp hd
  obtain ⟨hm, hpx⟩ := mem_filter.mp hx
  exact ⟨(Table.mem_update (by intro _; rfl)).mpr ⟨x, hm, if_pos hpx⟩, hp x hpx, rfl⟩

variable {d : Device}

/-- The end of the calls that end one device. -/
theorem endDevices_first (h : (match endDevices drawn ds p with
      | (ds', d :: _) => Except.ok (ds', d)
      | (_, []) => Except.error DeviceErr.notFound) = .ok (ds', d)) :
    ∃ rest, endDevices drawn ds p = (ds', d :: rest) := by
  split at h
  · rename_i ds'' d' rest heq
    obtain ⟨rfl, rfl⟩ := Prod.mk.inj (Except.ok.inj h)
    exact ⟨rest, heq⟩
  · simp at h

variable {deviceID : String}

theorem endOne_ok (h : signOutDevice drawn ds principal deviceID = .ok (ds', d) ∨
      revokeDevice drawn ds principal deviceID = .ok (ds', d)) :
    ∃ p rest, (∀ x, p x = true → x.principal = principal) ∧
      endDevices drawn ds p = (ds', d :: rest) := by
  rcases h with h | h
  all_goals
    obtain ⟨rest, heq⟩ := endDevices_first h
    refine ⟨_, rest, fun x hx => ?_, heq⟩
    exact (of_decide_eq_true (Bool.and_eq_true_iff.mp hx).1).1

/-- A call continues the rows, or it is one that registers or confirms a device. -/
theorem perform_cases [DeviceKeys] (drawn : Drawn) (ds : Devices) (call : DeviceCall) :
    Continued ds (call.perform drawn ds) ∨ (∃ d limit row, call = .add d limit ∧
      addDevice drawn ds d limit = .ok (call.perform drawn ds, row)) ∨
    (∃ principal deviceID approverID signature row,
      call = .endorse principal deviceID approverID signature ∧
      endorseDevice ds principal deviceID approverID signature =
        .ok (call.perform drawn ds, row)) := by
  have hone : ∀ {principal deviceID r}, signOutDevice drawn ds principal deviceID = r ∨
      revokeDevice drawn ds principal deviceID = r → Continued ds (committed ds r) := by
    intro principal deviceID r h
    cases r with
    | error => exact Continued.refl ds
    | ok =>
      obtain ⟨p, rest, -, heq⟩ := endOne_ok h
      have hct := @endDevices_continued drawn ds p
      rwa [heq] at hct
  cases call with
  | add d limit =>
    rw [DeviceCall.perform]
    cases h : addDevice drawn ds d limit with
    | error => exact .inl (Continued.refl ds)
    | ok r => exact .inr (.inl ⟨d, limit, r.2, rfl, h⟩)
  | endorse principal deviceID approverID signature =>
    rw [DeviceCall.perform]
    cases h : endorseDevice ds principal deviceID approverID signature with
    | error => exact .inl (Continued.refl ds)
    | ok r => exact .inr (.inr ⟨principal, deviceID, approverID, signature, r.2, rfl, h⟩)
  | signOut => exact .inl (hone (.inl rfl))
  | revoke => exact .inl (hone (.inr rfl))
  | reset | revokeIdle => exact .inl endDevices_continued
  | warnIdle =>
    exact .inl (continued_update (f := fun d => { d with expiryWarnedAt := some drawn.now })
      fun d => ⟨rfl, rfl, rfl, rfl, rfl, rfl, rfl, rfl, id⟩)
  | touch deviceID seen =>
    exact .inl (continued_update
      (f := fun d => { d with lastSeenAt := max d.lastSeenAt seen, expiryWarnedAt := none })
      fun d => ⟨rfl, rfl, rfl, rfl, rfl, rfl, rfl, rfl, id⟩)

variable {row : Device}

theorem addDevice_ok [DeviceKeys] {d : NewDevice}
    (h : addDevice drawn ds d limit = .ok (ds', row)) :
    row = newRow drawn ds d ∧ ds.insert row = some ds' ∧ row.principal ≠ "" ∧
      ∀ r ∈ ds.rows, r.ed25519Public ≠ row.ed25519Public := by
  simp only [addDevice, bind_eq_ok, ensure_eq_ok, found_eq_ok, pure_eq_ok] at h
  obtain ⟨-, hreq, -, -, -, hk, -, -, -, -, ds'', hi, hpr⟩ := h
  cases hpr
  exact ⟨rfl, hi, hreq.1, fun r hr => (hk r hr).1⟩

/-- The device that is confirmed is the only row that changes. -/
theorem endorseDevice_ok
    (h : endorseDevice ds principal deviceID approverID signature = .ok (ds', row)) :
    ∃ d ∈ ds.rows, endorsable principal deviceID d = true ∧ row = endorsed approverID signature d ∧
      ∀ x, x ∈ ds'.rows ↔ x = row ∨ x ∈ ds.rows ∧ x.deviceID ≠ d.deviceID := by
  simp only [endorseDevice, bind_eq_ok, found_eq_ok, pure_eq_ok] at h
  obtain ⟨d, hfd, hpr⟩ := h
  cases hpr
  have hd := mem_of_find?_eq_some hfd
  have hab : endorsable principal deviceID d = true := find?_some hfd
  have hid : ∀ x, endorsable principal deviceID x = true → x.deviceID = deviceID := by
    intro x hx
    rw [endorsable, Bool.and_eq_true, decide_eq_true_eq] at hx
    exact hx.1.2.1
  refine ⟨d, hd, hab, rfl, fun x => (Table.mem_update (by intro _; rfl)).trans ?_⟩
  constructor
  · rintro ⟨y, hy, rfl⟩
    by_cases hp : endorsable principal deviceID y = true
    · rw [if_pos hp, ds.eq_of_key hy hd ((hid y hp).trans (hid d hab).symm)]
      exact .inl rfl
    · rw [if_neg hp]
      refine .inr ⟨hy, fun heq => hp ?_⟩
      rwa [ds.eq_of_key hy hd heq]
  · rintro (rfl | ⟨hx, hne⟩)
    · exact ⟨d, hd, if_pos hab⟩
    · refine ⟨x, hx, if_neg fun hp => hne ?_⟩
      exact (hid x hp).trans (hid d hab).symm

/-! ### What sessions go by -/

/-- The same row later, as far as sessions and links go by it. -/
structure Device.Same (d d' : Device) : Prop where
  deviceID : d'.deviceID = d.deviceID
  principal : d'.principal = d.principal
  ed25519Public : d'.ed25519Public = d.ed25519Public
  active : d'.active = true → d.active = true

theorem Device.Same.refl (d : Device) : d.Same d := ⟨rfl, rfl, rfl, id⟩

theorem Device.Same.trans {d' d'' : Device} (h : d.Same d') (h' : d'.Same d'') : d.Same d'' :=
  ⟨h'.deviceID.trans h.deviceID, h'.principal.trans h.principal,
    h'.ed25519Public.trans h.ed25519Public, fun hact => h.active (h'.active hact)⟩

theorem Device.Continues.same {d' : Device} (h : d.Continues d') : d.Same d' :=
  ⟨h.deviceID, h.principal, h.ed25519Public, h.active⟩

/-- The rows of before are still there, and at most one was added. -/
structure Grown (ds : Devices) (added : Option Device) (ds' : Devices) : Prop where
  successor : ∀ d ∈ ds.rows, ∃ d' ∈ ds'.rows, d.Same d'
  origin : ∀ d' ∈ ds'.rows, (∃ d ∈ ds.rows, d.Same d') ∨ added = some d'

theorem Continued.grown (h : Continued ds ds') (added : Option Device) : Grown ds added ds' where
  successor d hd := (h.successor d hd).imp fun _ h => ⟨h.1, h.2.same⟩
  origin d' hd' := .inl ((h.origin d' hd').imp fun _ h => ⟨h.1, h.2.same⟩)

variable {id key : String}

theorem Grown.owned {added : Option Device} (h : Grown ds added ds')
    (hd : ∃ d ∈ ds.rows, d.deviceID = id ∧ d.principal = principal) :
    ∃ d ∈ ds'.rows, d.deviceID = id ∧ d.principal = principal := by
  obtain ⟨d, hd, rfl, rfl⟩ := hd
  obtain ⟨d', hd', hsm⟩ := h.successor d hd
  exact ⟨d', hd', hsm.deviceID, hsm.principal⟩

theorem Grown.held {added : Option Device} (h : Grown ds added ds')
    (hd : ∃ d ∈ ds.rows, d.deviceID = id ∧ d.principal = principal ∧ d.ed25519Public = key) :
    ∃ d ∈ ds'.rows, d.deviceID = id ∧ d.principal = principal ∧ d.ed25519Public = key := by
  obtain ⟨d, hd, rfl, rfl, rfl⟩ := hd
  obtain ⟨d', hd', hsm⟩ := h.successor d hd
  exact ⟨d', hd', hsm.deviceID, hsm.principal, hsm.ed25519Public⟩

/-- The row that a call registers. -/
def DeviceCall.added [DeviceKeys] (drawn : Drawn) (ds : Devices) : DeviceCall → Option Device
  | .add d limit =>
    match addDevice drawn ds d limit with
    | .ok (_, row) => some row
    | .error _ => none
  | _ => none

theorem addDevice_grown [DeviceKeys] {d : NewDevice}
    (h : addDevice drawn ds d limit = .ok (ds', row)) : Grown ds (some row) ds' := by
  obtain ⟨-, hi, -, -⟩ := addDevice_ok h
  constructor
  · intro x hx
    exact ⟨x, (Table.mem_insert hi).mpr (.inl hx), .refl x⟩
  intro x hx
  rcases (Table.mem_insert hi).mp hx with hold | rfl
  · exact .inl ⟨x, hold, .refl x⟩
  · exact .inr rfl

theorem endorseDevice_grown
    (h : endorseDevice ds principal deviceID approverID signature = .ok (ds', row)) :
    Grown ds none ds' := by
  obtain ⟨d, hd, -, rfl, hrw⟩ := endorseDevice_ok h
  have hsm : d.Same (endorsed approverID signature d) := ⟨rfl, rfl, rfl, id⟩
  constructor
  · intro x hx
    by_cases hid : x.deviceID = d.deviceID
    · obtain rfl := ds.eq_of_key hx hd hid
      exact ⟨_, (hrw _).mpr (.inl rfl), hsm⟩
    · exact ⟨x, (hrw x).mpr (.inr ⟨hx, hid⟩), .refl x⟩
  · intro x hx
    rcases (hrw x).mp hx with rfl | ⟨hold, -⟩
    · exact .inl ⟨d, hd, hsm⟩
    · exact .inl ⟨x, hold, .refl x⟩

theorem perform_grown [DeviceKeys] (drawn : Drawn) (ds : Devices) (call : DeviceCall) :
    Grown ds (call.added drawn ds) (call.perform drawn ds) := by
  rcases perform_cases drawn ds call with h | ⟨d, limit, row, rfl, h⟩ | ⟨_, _, _, _, _, rfl, h⟩
  · exact h.grown _
  · have hg := addDevice_grown h
    rwa [DeviceCall.added, h]
  · exact endorseDevice_grown h

theorem run_successor [DeviceKeys] (history : List (Drawn × DeviceCall)) (hd : d ∈ ds.rows) :
    ∃ d' ∈ (Machine.run deviceStep ds history).rows, d.Same d' := by
  refine Machine.run_invariant (P := fun ds' : Devices => ∃ d' ∈ ds'.rows, d.Same d')
    (fun ds' i h => ?_) ⟨d, hd, .refl d⟩ history
  obtain ⟨d', hd', hsm⟩ := h
  obtain ⟨d'', hd'', hsm'⟩ := (perform_grown i.1 ds' i.2).successor d' hd'
  exact ⟨d'', hd'', hsm.trans hsm'⟩

/-- Whatever is called, a device keeps its key and account, and once ended it stays ended. -/
theorem devices_permanent [DeviceKeys] (ds : Devices) (history : List (Drawn × DeviceCall)) :
    let ds' := Machine.run deviceStep ds history
    ∀ d ∈ ds.rows, ∃ d' ∈ ds'.rows, d.Same d' :=
  fun _ hd => run_successor history hd

/-- So an identifier has one owner over a whole history, as `World.owned` takes for granted. -/
theorem exists_owner [DeviceKeys] (ds : Devices) (history : List (Drawn × DeviceCall)) :
    ∃ owner : String → String, ∀ before after, history = before ++ after →
      ∀ d ∈ (Machine.run deviceStep ds before).rows, d.principal = owner d.deviceID := by
  refine ⟨fun id => ((Machine.run deviceStep ds history).get id).elim "" (·.principal), ?_⟩
  rintro before after rfl d hd
  obtain ⟨d', hd', hsm⟩ := run_successor after hd
  rw [← Machine.run_append] at hd'
  dsimp only
  rw [← hsm.deviceID, Table.get_of_mem hd']
  exact hsm.principal.symm

section Keys

variable [DeviceKeys] {text : String}

theorem canonicalDeviceKey_publicKeyText {key : Bytes} (hk : key.length = 32) :
    canonicalDeviceKey (publicKeyText key) = some (publicKeyText key) := by
  have hdev : deviceKey (publicKeyText key) = some key := by
    rw [deviceKey, ← publicKeyPEM_eq_bytes, Keys.pem_publicKeyPEM key hk]
    exact if_pos ⟨rfl, DeviceKeys.headers_publicKeyPEM key, hk⟩
  rw [canonicalDeviceKey, hdev, map_some]

theorem length_of_deviceKey {key : Bytes} (h : deviceKey text = some key) : key.length = 32 := by
  unfold deviceKey at h
  split at h
  · simp at h
  split at h
  · rename_i hcn
    cases h
    exact hcn.2.2
  · simp at h

/-- The stored spelling is the spelling of itself. -/
theorem storedKey_storedKey (text : String) : storedKey (storedKey text) = storedKey text := by
  rw [storedKey.eq_def text, canonicalDeviceKey]
  cases h : deviceKey text with
  | none =>
    rw [map_none, getD_none, storedKey, canonicalDeviceKey, h]
    rfl
  | some =>
    rw [map_some, getD_some, storedKey,
      canonicalDeviceKey_publicKeyText (length_of_deviceKey h), getD_some]

theorem storedKey_eq_empty (h : storedKey text = "") : text = "" := by
  rw [storedKey, canonicalDeviceKey] at h
  cases hk : deviceKey text with
  | none => rwa [hk] at h
  | some =>
    rw [hk, map_some, getD_some] at h
    have hls := congrArg String.toList h
    rw [publicKeyText, String.toList_ofList] at hls
    have hend : Browser.closingMark ++ ['\n'] = [] := (append_eq_nil_iff.mp hls).2
    exact absurd (append_eq_nil_iff.mp hend).2 (cons_ne_nil _ _)

theorem storedKey_empty : storedKey "" = "" := by
  rw [storedKey, canonicalDeviceKey]
  cases hk : deviceKey "" with
  | none => rfl
  | some =>
    unfold deviceKey at hk
    split at hk
    · simp at hk
    · rename_i block hpem
      have hin := (Keys.pem_opening _ _ hpem).length_le
      exact absurd hin (by decide)

/-- The rows have identifiers, and distinct keys in their stored spelling. -/
structure Spelled (ds : Devices) : Prop where
  identified : ∀ d ∈ ds.rows, d.deviceID ≠ ""
  named : ∀ d ∈ ds.rows, d.ed25519Public ≠ ""
  spelled : ∀ d ∈ ds.rows, storedKey d.ed25519Public = d.ed25519Public
  unique : ∀ d ∈ ds.rows, ∀ d' ∈ ds.rows, d.ed25519Public = d'.ed25519Public → d = d'

theorem spelled_empty : Spelled Table.empty := by
  constructor <;> simp [Table.empty]

/-- Under the stored spelling there is at most one row, and a lookup finds it. -/
theorem Spelled.deviceByKey_eq_some (h : Spelled ds) :
    deviceByKey ds key = some d ↔ d ∈ ds.rows ∧ d.ed25519Public = storedKey key := by
  have hfd : ∀ text x, ds.rows.find? (fun d => decide (d.ed25519Public = text)) = some x →
      x ∈ ds.rows ∧ x.ed25519Public = text := fun text x hx =>
    ⟨mem_of_find?_eq_some hx, of_decide_eq_true (find?_some hx :)⟩
  constructor
  · intro hd
    rw [deviceByKey, or_eq_some_iff] at hd
    rcases hd with hd | ⟨-, hd⟩
    · exact hfd _ _ hd
    · obtain ⟨hm, hk⟩ := hfd _ _ hd
      exact ⟨hm, by rw [← hk, h.spelled d hm]⟩
  · rintro ⟨hm, hk⟩
    rw [deviceByKey]
    cases hx : ds.rows.find? (fun d => decide (d.ed25519Public = storedKey key)) with
    | none => exact absurd (decide_eq_true hk) (find?_eq_none.mp hx d hm)
    | some x =>
      obtain ⟨hxm, hxk⟩ := hfd _ _ hx
      rw [some_or, h.unique x hxm d hm (hxk.trans hk.symm)]

theorem Spelled.grown {added : Option Device} (h : Spelled ds) (hg : Grown ds added ds')
    (had : ∀ d, added = some d → d.deviceID ≠ "" ∧ d.ed25519Public ≠ "" ∧
      storedKey d.ed25519Public = d.ed25519Public ∧
      ∀ r ∈ ds.rows, r.ed25519Public ≠ d.ed25519Public) : Spelled ds' := by
  have hrow : ∀ d ∈ ds'.rows, d.deviceID ≠ "" ∧ d.ed25519Public ≠ "" ∧
      storedKey d.ed25519Public = d.ed25519Public := by
    intro d hd
    rcases hg.origin d hd with ⟨x, hx, hsm⟩ | hn
    · rw [hsm.deviceID, hsm.ed25519Public]
      exact ⟨h.identified x hx, h.named x hx, h.spelled x hx⟩
    · exact ⟨(had d hn).1, (had d hn).2.1, (had d hn).2.2.1⟩
  refine ⟨fun d hd => (hrow d hd).1, fun d hd => (hrow d hd).2.1, fun d hd => (hrow d hd).2.2,
    fun d hd d' hd' hk => ?_⟩
  rcases hg.origin d hd with ⟨x, hx, hsm⟩ | hn <;>
    rcases hg.origin d' hd' with ⟨x', hx', hsm'⟩ | hnew'
  · have hxx : x = x' := h.unique x hx x' hx'
      (hsm.ed25519Public.symm.trans (hk.trans hsm'.ed25519Public))
    subst hxx
    exact ds'.eq_of_key hd hd' (hsm.deviceID.trans hsm'.deviceID.symm)
  · exact absurd (hsm.ed25519Public.symm.trans hk) ((had d' hnew').2.2.2 x hx)
  · exact absurd (hsm'.ed25519Public.symm.trans hk.symm) ((had d hn).2.2.2 x' hx')
  · exact some.inj (hn.symm.trans hnew')

theorem newRow_spelled {d : NewDevice} (h : addDevice drawn ds d limit = .ok (ds', row)) :
    row.ed25519Public = storedKey d.ed25519Public ∧ row.principal = d.principal ∧
      row.ed25519Public ≠ "" ∧ storedKey row.ed25519Public = row.ed25519Public ∧
      ∀ r ∈ ds.rows, r.ed25519Public ≠ row.ed25519Public := by
  obtain ⟨rfl, -, -, hks⟩ := addDevice_ok h
  simp only [addDevice, bind_eq_ok, ensure_eq_ok] at h
  obtain ⟨-, hreq, -⟩ := h
  exact ⟨rfl, rfl, fun hemp => hreq.2 (storedKey_eq_empty hemp), storedKey_storedKey _, hks⟩

end Keys

end

/-! ### Concrete keys -/

namespace Sample

@[reducible]
def deviceKeys : DeviceKeys where
  toKeys := sampleKeys
  headers _ := false
  sha256 b := b
  headers_publicKeyPEM _ := rfl

/-- A call that finds no passkeys and no users. -/
def drawn (uuid : String) : Drawn := ⟨0, uuid, [], [], fun _ => 0⟩

end Sample

end Noxa.Store

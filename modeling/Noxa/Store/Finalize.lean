import Noxa.Store.Attempts

/-!
# Accepting an attempt

`finalizeOlmAttempt`: a staged attempt is judged against the current rosters and its uploaded parts,
and is rejected with a reason or accepted. Acceptance stores the message, one delivery for each
copy, and for the first copy of a session the session and the one-time key that opened it. A quota
that is full is an error, which leaves the attempt staged.

## Main definitions

* `judge` — the checks that end in a rejection
* `checkQuotas` — the limits on pending copies
* `sessionFor`, `deliverCopy`, `deliver` — what acceptance stores
* `finalizeOlmAttempt` — the call
-/

namespace Noxa.Store

open Directory Admission Fallible

variable [Setting]

/-! ### The verdict -/

inductive Verdict
  | reject (reason : String)
  | accept (copies : List Copy)

/-- The uploaded parts in order, all of them. -/
def collectParts (ledger : Ledger) (lane : Lane) (id : String) (m : Manifest) :
    Except Err (List Bytes) := do
  let rows := ledger.parts.rows.filter fun row => decide (row.lane = lane ∧ row.attemptID = id)
  ensure (∀ row ∈ rows, row.number < m.parts.length) .invalid
  (List.range m.parts.length).mapM fun i =>
    found ((rows.find? (·.number = i)).map (·.data)) .incomplete

variable (db : Db) (mail : Mail) (keyring : Keyring) (env : Env) (now : Int) (a : Source)
  (m : Manifest) (c : Copy)

/-- The message of an account under a logical identifier. -/
def findMessage (server sender logicalID : String) : Option Message :=
  mail.messages.rows.find? fun msg =>
    decide (msg.lane.server = server ∧ msg.sender = sender ∧ msg.logicalID = logicalID)

/-- An edit or a deletion refers to an accepted chat message of the same conversation. -/
def referenceOK : Bool :=
  match m.purpose with
  | .edit | .delete =>
    (findMessage mail a.server a.principal m.reference).any fun old =>
      decide (old.manifest.purpose = .chat ∧ old.manifest.scope = m.scope ∧
        old.manifest.peer = m.peer ∧ old.manifest.conversation = m.conversation)
  | _ => true

/-- The checks of the uploaded parts. -/
def judgeParts (parts : List Bytes) : Verdict :=
  match openParts m parts with
  | none => .reject "invalid"
  | some copies =>
    if ¬ copies.all (checkEnvelope m) then .reject "binding"
    else if (findMessage db.mail a.server a.principal m.logicalID).isSome then
      .reject "logical-accepted"
    else if ¬ referenceOK db.mail a m then .reject "reference"
    else .accept copies

def judge (id : String) : Except Err Verdict :=
  match admissionPrincipals db.world a m.scope m.peer m.conversation m.revision m.epoch with
  | .error e => do
    sourceAuthority db a true
    if e = .conflict ∨ e = .authority ∨ e = .noRows then pure (.reject "membership") else throw e
  | .ok ps => do
    let snap ← readSnapshot db a m ps
    sourceAuthority db a true
    if m.deadline ≤ env.clock 0 then pure (.reject "deadline")
    else if equalCoverage m snap = false then pure (.reject "roster")
    else do
      let parts ← collectParts db.ledger a.lane id m
      pure (judgeParts db a m parts)

/-! ### Quotas -/

def olmPendingGlobalBytes : ℕ := 2 ^ 30

def olmPendingAccountBytes : ℕ := 128 * 2 ^ 20

def olmPendingSenderBytes : ℕ := 128 * 2 ^ 20

def olmPendingSenderControlBytes : ℕ := 4 * 2 ^ 20

def olmPendingAccountControlBytes : ℕ := 4 * 2 ^ 20

def olmPendingDeviceBytes : ℕ := 64 * 2 ^ 20

def olmPendingDeviceCopies : ℕ := 4096

def olmPendingDeviceControlCopies : ℕ := 256

def maxPendingControls : ℕ := 64

/-- Chat stops a sixteenth below each limit. -/
def pendingLimit (limit : ℕ) (control : Bool) : ℕ := if control then limit else limit - limit / 16

/-- The pending deliveries of a kind. -/
def pending (p : Delivery → Bool) : List Delivery :=
  mail.deliveries.rows.filter fun d => !d.received && p d

def pendingBytes (p : Delivery → Bool) : ℕ :=
  ((pending mail p).map (·.copy.length)).sum

/-- The queue of one device. -/
def checkDeviceQuota (control : Bool) (c : Copy) : Except Err PUnit := do
  let copyLimit := olmPendingDeviceCopies - if control then 0 else olmPendingDeviceControlCopies
  ensure ((pending mail (·.device = c.device)).length < copyLimit ∧
    pendingBytes mail (·.device = c.device) + c.envelope.length + 1024 ≤
      pendingLimit olmPendingDeviceBytes control) .limit
  if control then
    ensure ((pending mail fun d => decide (d.device = c.device) && d.control &&
      (mail.messages.get d.messageID).any (·.lane.device = a.device)).length < maxPendingControls)
      .limit

def checkQuotas (control : Bool) (copies : List Copy) : Except Err PUnit := do
  let incoming := (copies.map (·.envelope.length)).sum
  let perAccount := fun p => ((copies.filter (·.principal = p)).map (·.envelope.length)).sum
  ensure (pendingBytes mail (fun _ => true) + incoming ≤
    pendingLimit olmPendingGlobalBytes control) .limit
  if control then do
    ensure (pendingBytes mail (fun d => decide (d.sender = a.principal) && d.control) + incoming ≤
      olmPendingSenderControlBytes) .limit
    ensure (∀ c ∈ copies, pendingBytes mail (fun d => decide (d.principal = c.principal) &&
      d.control) + perAccount c.principal ≤ olmPendingAccountControlBytes) .limit
  else do
    ensure (pendingBytes mail (fun d => decide (d.sender = a.principal) && !d.control) + incoming ≤
      olmPendingSenderBytes) .limit
    ensure (∀ c ∈ copies, pendingBytes mail (·.principal = c.principal) + perAccount c.principal ≤
      pendingLimit olmPendingAccountBytes false) .limit
  copies.forM (checkDeviceQuota mail a control)

/-! ### Acceptance -/

/-- The session between the sender and the device of a copy, opened by either. -/
def findSession : Option Session :=
  keyring.sessions.rows.find? fun s =>
    decide (s.id = ⟨a.server, a.device, a.accountEpoch, c.device, c.accountEpoch, c.sessionID⟩ ∨
      s.id = ⟨a.server, c.device, c.accountEpoch, a.device, a.accountEpoch, c.sessionID⟩)

/-- The key row is claimed by this session under the copy's claim. -/
def Claim.names (claim : Claim) (a : Source) (claimID : String) : Bool :=
  decide (claim.requestID = claimID ∧ claim.claimedBy = a.principal ∧
    claim.claimedDevice = a.device ∧ claim.claimedEpoch = a.accountEpoch)

/-- The one-time key that a copy claims to have used. -/
def findClaimed : Option (KeyRow × Claim) :=
  keyring.keys.rows.findSome? fun k =>
    match k.claim with
    | none => none
    | some claim =>
      if k.id.device = c.device ∧ k.id.accountEpoch = c.accountEpoch ∧ k.server = a.server ∧
        claim.names a c.claimID = true then some (k, claim) else none

/-- Set the state of one key. -/
def setLifecycle (keys : Table KeyRow KeyRow.id) (id : KeyID) (lifecycle : Lifecycle) :
    Table KeyRow KeyRow.id :=
  keys.update (fun k => k.id = id) (fun k => { k with lifecycle := lifecycle }) fun _ => rfl

/-- The first copy of a session: its key is admitted. -/
def openSession (deliveryID : String) : Except Err Keyring := do
  ensure (c.claimID ≠ "") .conflict
  let (k, claim) ← found (findClaimed keyring a c) .conflict
  ensure (k.lifecycle = .reserved ∧ m.deadline ≤ claim.claimUntil ∧ now < claim.claimUntil)
    .conflict
  let account ← found (keyring.accounts.get a.device) .noRows
  let sessions ← found (keyring.sessions.insert
    { id := ⟨a.server, a.device, a.accountEpoch, c.device, c.accountEpoch, c.sessionID⟩,
      claimID := c.claimID, initialDelivery := deliveryID, sourceBundle := account.lastBundle,
      targetBundle := k.bundle }) .sql
  pure { keyring with keys := setLifecycle keyring.keys k.id .admitted, sessions := sessions }

/-- The session of a copy: the one there is, or a new one. -/
def sessionFor (deliveryID : String) : Except Err Keyring :=
  match findSession keyring a c with
  | some session => do
    ensure (c.claimID = "" ∨ c.claimID = session.claimID) .conflict
    pure keyring
  | none => openSession keyring now a m c deliveryID

/-- Add a row to `olm_deliveries`: its identifier is new, and so is its device for the message. -/
def insertDelivery (deliveries : Table Delivery Delivery.id) (d : Delivery) :
    Option (Table Delivery Delivery.id) :=
  if d.copy.length ≤ 32768 ∧
      ∀ d' ∈ deliveries.rows, ¬ (d'.messageID = d.messageID ∧ d'.device = d.device) then
    deliveries.insert d
  else none

/-- One copy. The identifiers after the first are those of the deliveries. -/
def deliverCopy (s : Mail × Keyring) (ci : Copy × ℕ) : Except Err (Mail × Keyring) := do
  let c := ci.1
  let deliveryID := env.uuid (ci.2 + 1)
  let keyring ← sessionFor s.2 (env.clock (ci.2 + 1)) a m c deliveryID
  let deliveries ← found (insertDelivery s.1.deliveries
    { id := deliveryID, messageID := env.uuid 0, principal := c.principal, device := c.device,
      accountEpoch := c.accountEpoch, copy := Setting.copyBytes c,
      digest := Crypto.digest (Setting.copyBytes c), sender := a.principal,
      control := m.purpose = .control }) .sql
  pure ({ s.1 with deliveries := deliveries }, keyring)

/-- Add a row to `olm_messages`: a new identifier, and a new logical one. -/
def insertMessage (msg : Message) : Option (Table Message Message.id) :=
  if (findMessage mail msg.lane.server msg.sender msg.logicalID).isNone then
    mail.messages.insert msg
  else none

/-- The order in which the copies are stored. -/
def inDeviceOrder (copies : List Copy) : List Copy :=
  copies.insertionSort fun c c' => c.device ≤ c'.device

def deliver (copies : List Copy) : Except Err (Mail × Keyring) := do
  let messages ← found (insertMessage mail
    { id := env.uuid 0, lane := a.lane, sender := a.principal, logicalID := m.logicalID,
      manifest := m }) .sql
  (inDeviceOrder copies).zipIdx.foldlM (deliverCopy env a m)
    ({ mail with messages := messages }, keyring)

/-! ### The call -/

/-- The receipt, and the devices that got a copy in this call. -/
abbrev Finalized := Receipt × List (String × String)

def finalizeOlmAttempt (id : String) : Except Err (Db × Finalized) := do
  match ← loadAttempt db.ledger a id with
  | .absent => throw .noRows
  | .retired r => do
    sourceAuthority db a true
    pure (db, r, [])
  | .found m r =>
    if r.state ≠ staging then do
      sourceAuthority db a true
      pure (db, r, [])
    else do
      match ← judge db env a m id with
      | .reject reason =>
        let r := { r with state := .rejected, reason := reason }
        pure ({ db with ledger := saveReceipt db.ledger a.lane r }, r, [])
      | .accept copies => do
        checkQuotas db.mail a (m.purpose = .control) copies
        let (mail, keyring) ← deliver db.mail db.keyring env a m copies
        let r := { r with state := .accepted, messageID := env.uuid 0 }
        pure ({ db with
            ledger := saveReceipt db.ledger a.lane r, mail := mail, keyring := keyring },
          r, (inDeviceOrder copies).map fun c => (c.principal, c.device))

end Noxa.Store

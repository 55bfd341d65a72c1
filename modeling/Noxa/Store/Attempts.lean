import Noxa.Store.Authority

/-!
# Attempts

The calls that move an attempt without accepting it: beginning, uploading a part, aborting,
expiring, and retiring its receipt (`olm_admission.go`, `olm_expiry.go`, `olm_retirement.go`). A
call that fails leaves the database as it was, so a call is a function to `Except Err`.

## Main definitions

* `loadAttempt`, `saveReceipt`, `insertAttempt`, `expireOlmAttempts` — the shared steps
* `beginOlmAttempt`, `putOlmPart`, `abortOlmAttempt`, `retireOlmReceipt` — the calls
-/

namespace Noxa.Store

open Directory Admission Fallible

variable [Setting]

/-- The text of a manifest. An invalid one has none. -/
def manifestText (m : Manifest) : Bytes := if m.validate then Wire.manifestBytes m else []

def receipt (m : Manifest) (state : ReceiptState) (reason : String) : Receipt where
  state := state
  attemptID := m.attemptID
  digest := m.digest
  server := m.server
  accountEpoch := m.accountEpoch
  logicalID := m.logicalID
  reason := reason

/-- The outcome of looking for an attempt. -/
inductive Loaded
  | retired (r : Receipt)
  | absent
  | found (m : Manifest) (r : Receipt)

variable (ledger : Ledger) (db : Db) (env : Env) (a : Source) (m : Manifest)

def loadAttempt (id : String) : Except Err Loaded := do
  let seq ← found (attemptSequence id) .invalid
  if seq ≤ ledger.fences a.lane then
    pure (.retired ⟨retired, id, "", a.server, a.accountEpoch, "", "", ""⟩)
  else match (ledger.attempts.get (a.lane, id)).filter (·.sender = a.principal) with
    | none => pure .absent
    | some row => pure (.found row.manifest row.receipt)

/-- Store a receipt. An attempt that has left staging needs its parts no longer. -/
def saveReceipt (lane : Lane) (r : Receipt) : Ledger :=
  { ledger with
    attempts := ledger.attempts.update (fun row => row.key = (lane, r.attemptID))
      (fun row => { row with state := r.state, receipt := r }) fun _ => rfl
    parts := if r.state ≠ staging then
        ledger.parts.delete fun part => decide (part.lane = lane ∧ part.attemptID = r.attemptID)
      else ledger.parts }

/-! ### Expiry -/

/-- `ORDER BY deadline, device_id`, and then as the database likes. -/
def ExpiresBefore (x y : Attempt) : Prop :=
  x.manifest.deadline < y.manifest.deadline ∨ (x.manifest.deadline = y.manifest.deadline ∧
    (x.lane.device < y.lane.device ∨
      (x.lane.device = y.lane.device ∧ env.tie x.key ≤ env.tie y.key)))

instance : DecidableRel (ExpiresBefore env) := fun _ _ =>
  inferInstanceAs (Decidable (_ ∨ _))

def expiring (limit : ℕ) (device : String) : List Attempt :=
  ((ledger.attempts.rows.filter fun row =>
    decide (row.state = staging) && (decide (device = "") || decide (row.lane.device = device)) &&
      decide (row.manifest.deadline ≤ env.epoch)).insertionSort (ExpiresBefore env)).take limit

def expireRow (row : Attempt) : Ledger :=
  saveReceipt ledger row.lane { row.receipt with state := .rejected, reason := "deadline" }

def expireOlmAttempts (limit : ℕ) (device : String) : Ledger :=
  (expiring ledger env limit device).foldl expireRow ledger

/-! ### Inserting -/

def insertAttempt (state : ReceiptState) : Except Err (Ledger × Receipt) := do
  let r := receipt m state ""
  let seq := (attemptSequence m.attemptID).getD 0
  ensure (ledger.fences a.lane < seq) .retired
  ensure (seq ≤ ledger.fences a.lane + 10000) .limit
  let ledger := expireOlmAttempts (expireOlmAttempts ledger env 4 a.device) env 200 ""
  let own := ledger.attempts.rows.filter (·.lane.device = a.device)
  let open_ := ledger.attempts.rows.filter (·.state = staging)
  ensure (own.length < 10000 ∧ (state = staging → own.countP (·.state = staging) < 4 ∧
    open_.length < 1024 ∧
    (open_.map fun row => (manifestText row.manifest).length).sum < 128 * 1024 * 1024)) .limit
  let attempts ← found (ledger.attempts.insert
    { lane := a.lane, sender := a.principal, attemptID := m.attemptID, manifest := m,
      state := state, receipt := r }) .sql
  pure ({ ledger with attempts := attempts }, r)

/-! ### The calls -/

def maxControlTTL : Int := 300

def beginOlmAttempt : Except Err (Ledger × Receipt) := do
  ensure (m.validate = true) .invalid
  ensure (a.matches m) .authority
  match ← loadAttempt db.ledger a m.attemptID with
  | .retired r => do
    sourceAuthority db a true
    pure (db.ledger, r)
  | .found old r => do
    sourceAuthority db a true
    ensure (manifestText m = manifestText old) .conflict
    pure (db.ledger, r)
  | .absent => do
    sourceAuthority db a true
    let now := env.clock 0
    ensure (now < m.deadline ∧ m.deadline ≤ now + 3600 ∧
      (m.purpose = .control → m.deadline ≤ now + maxControlTTL)) .invalid
    insertAttempt db.ledger env a m staging

/-- Store a part, `ON CONFLICT DO NOTHING`. -/
def addPart (row : PartRow) : Ledger :=
  { ledger with parts := (ledger.parts.insert row).getD ledger.parts }

/-- The second component is the error that is reported after the transaction was committed. -/
def putOlmPart (id : String) (index : ℕ) (data : Bytes) : Except Err (Ledger × Option Err) := do
  ensure (validText id = true ∧ data.length ≤ maxPartBytes ∧ index < maxParts) .invalid
  match ← loadAttempt db.ledger a id with
  | .retired _ => do
    sourceAuthority db a true
    throw .retired
  | .absent => throw .noRows
  | .found m r => do
    sourceAuthority db a true
    let part ← found m.parts[index]? .conflict
    ensure (part.length = data.length ∧ part.digest = Crypto.digest data) .conflict
    if r.state = .accepted then pure (db.ledger, none)
    else do
      ensure (r.state = staging) .conflict
      if m.deadline ≤ env.clock 0 then
        pure (saveReceipt db.ledger a.lane { r with state := .rejected, reason := "deadline" },
          some .conflict)
      else
        pure (addPart db.ledger ⟨a.lane, id, index, data⟩, none)

def abortOlmAttempt : Except Err (Ledger × Receipt) := do
  ensure (m.validate = true) .invalid
  ensure (a.matches m) .authority
  match ← loadAttempt db.ledger a m.attemptID with
  | .retired r => do
    sourceAuthority db a false
    pure (db.ledger, r)
  | .found old r => do
    sourceAuthority db a false
    ensure (manifestText m = manifestText old) .conflict
    if r.state = staging then
      pure (saveReceipt db.ledger a.lane { r with state := .aborted }, { r with state := .aborted })
    else pure (db.ledger, r)
  | .absent => do
    sourceAuthority db a false
    insertAttempt db.ledger env a m .aborted

/-! ### Retirement -/

/-- The loop over the numbers after the fence. -/
def advanceFence (attempts : Table Attempt Attempt.key) (lane : Lane) : ℕ → Int → Int
  | 0, through => through
  | n + 1, through =>
    match attempts.get (lane, toString (through + 1)) with
    | none => through
    | some row =>
      if row.acked = false ∨ row.state = staging then through
      else advanceFence attempts lane n (through + 1)

/-- Set the acknowledgement of one attempt. -/
def acknowledge (lane : Lane) (id : String) : Ledger :=
  { ledger with
    attempts := ledger.attempts.update (fun row => row.key = (lane, id))
      (fun row => { row with acked := true }) fun _ => rfl }

/-- Move the fence over what it can, and drop what lies below it. -/
def retire (lane : Lane) : Ledger :=
  let through := advanceFence ledger.attempts lane 200 (ledger.fences lane)
  { ledger with
    attempts := ledger.attempts.delete fun row => decide (row.lane = lane) &&
      (attemptSequence row.attemptID).any (· ≤ through) && row.acked
    fences := Function.update ledger.fences lane through }

def retireOlmReceipt (id digest : String) : Except Err (Ledger × Int) := do
  match ← loadAttempt db.ledger a id with
  | .absent => throw .noRows
  | .retired _ => do
    sourceAuthority db a false
    let ledger := retire db.ledger a.lane
    pure (ledger, ledger.fences a.lane)
  | .found _ r => do
    sourceAuthority db a false
    ensure (r.state ≠ staging ∧ r.digest = digest) .conflict
    let ledger := retire (acknowledge db.ledger a.lane id) a.lane
    pure (ledger, ledger.fences a.lane)

end Noxa.Store

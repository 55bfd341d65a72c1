import Mathlib.Data.List.AList
import Noxa.Admission.Manifest
import Noxa.Lib.Fallible

/-!
# The records of the durable store

The local store of ratchet state (`internal/e2ee/durable`) is a table of records, each with a
revision, and one control record. A caller reads a snapshot, computes new values and commits them
against the snapshot's revisions.

A record's data is its decoded value, one constructor of `Value` for each kind: the bytes are opened
under the record's own key and revision, so what is read is what was written. Lengths of encoded
values and the texts that are hashed enter as the class `Codec`.

## Main definitions

* `Ref`, `Value`, `Record` — a record's name, data and revision
* `Control`, `Db` — the control record and the whole store
* `Snapshot` — what a caller read, with the fence of that moment
-/

namespace Noxa.Durable

open Text Directory Admission

/-- The errors of the store. `failed` is an error of the database or of the random source. -/
inductive Error
  | conflict
  | fenced
  | revoked
  | corrupt
  | exhausted
  | invalid
  | failed
  deriving DecidableEq, Repr

def maxFanout : ℕ := 160

def maxReads : ℕ := 512

def maxRecordBytes : ℕ := 2 * 1024 * 1024

def maxBatchBytes : ℕ := 32 * 1024 * 1024

def maxNamespaceBytes : ℕ := 128 * 1024 * 1024

def maxRecords : ℕ := 100000

def maxRevision : ℕ := 9007199254740991

structure Namespace where
  server : String
  principal : String
  device : String
  deriving DecidableEq, Repr

/-- The kinds of a reference; `other` is a kind the store does not know. -/
inductive Kind
  | account
  | session
  | trust
  | outbox
  | inbox
  | publication
  | claim
  | obligation
  | transition
  | logical
  | other (text : String)
  deriving DecidableEq, Repr

structure Ref where
  kind : Kind
  id : String
  deriving DecidableEq, Repr

def validID (s : String) : Bool :=
  s ≠ "" ∧ s.utf8ByteSize ≤ 512 ∧ ¬ s.toList.any isControl

def validRef (r : Ref) : Bool :=
  match r.kind with
  | .other _ => false
  | _ => validID r.id

/-! ### Values -/

structure TrustRecord where
  revoked : Bool
  value : Bytes
  deriving DecidableEq, Repr

def devicePairScope : String := "device-pair"

/-- The record of the session that a wire copy names. -/
def sessionRef (coreSessionID : String) : String := "olm:" ++ coreSessionID

structure SessionContext where
  localAccountID : String
  localEpoch : Int
  peerEpoch : Int
  peerPrincipal : String
  peerDevice : String
  peerIdentity : String
  scope : String
  protocol : String
  deriving DecidableEq, Repr

structure SessionClaim where
  claimID : String
  claimUntil : Int
  deriving DecidableEq, Repr

structure SessionState where
  snapshot : Bytes
  context : SessionContext
  createdAt : Int
  retired : Bool := false
  pending : Option SessionClaim := none
  deriving DecidableEq, Repr

structure SendCandidate where
  sessionID : String
  trustID : String
  replaces : String := ""
  state : Bytes := []
  envelope : Bytes
  context : SessionContext
  trustRevision : ℕ := 0
  claim : Option SessionClaim := none
  deriving DecidableEq, Repr

structure AttemptDescriptor where
  manifest : Manifest
  parts : List Bytes
  deriving DecidableEq, Repr

/-- The status of a send: `result` once an attempt has a receipt. -/
inductive Status
  | pending
  | sent
  | result (state : ReceiptState)
  deriving DecidableEq, Repr

structure SentBatch where
  attempt : Option AttemptDescriptor
  receipt : Option Receipt := none
  packets : List SendCandidate
  status : Status
  archive : Bytes
  deriving DecidableEq, Repr

structure Received where
  digest : String
  archive : Bytes
  deriving DecidableEq, Repr

structure PublicationRecord where
  accountID : String
  payload : Bytes
  deriving DecidableEq, Repr

structure ClaimRecord where
  accountID : String
  accountEpoch : Int
  trustID : String
  trustRevision : ℕ
  request : Bytes
  deriving DecidableEq, Repr

structure OTKObligation where
  accountID : String
  publicationID : String
  expiresAt : Int
  consumed : Bool := false
  closed : Bool := false
  closureProof : String := ""
  accountEpoch : Int
  keyID : String
  publicKey : String
  deriving DecidableEq, Repr

structure AccountTransition where
  accountID : String
  reset : Reset
  bundle : Bundle
  receipt : Option ResetReceipt := none
  recovery : Bool := false
  fromEpoch : Int := 0
  abandoned : Bool := false
  deriving DecidableEq, Repr

structure LogicalRecord where
  attemptID : String
  state : Status
  deriving DecidableEq, Repr

structure KeyClosure where
  server : String
  device : String
  accountEpoch : Int
  keyID : String
  state : String
  proof : String
  deriving DecidableEq, Repr

inductive Value
  | account (state : Bytes)
  | session (state : SessionState)
  | trust (record : TrustRecord)
  | outbox (batch : SentBatch)
  | inbox (record : Received)
  | publication (record : PublicationRecord)
  | claim (record : ClaimRecord)
  | obligation (record : OTKObligation)
  | transition (record : AccountTransition)
  | logical (record : LogicalRecord)
  deriving DecidableEq, Repr

namespace Value

/-! Reading the value of a record of a known kind. -/

def session? : Value → Option SessionState
  | session s => some s
  | _ => none

def trust? : Value → Option TrustRecord
  | trust t => some t
  | _ => none

def outbox? : Value → Option SentBatch
  | outbox b => some b
  | _ => none

def inbox? : Value → Option Received
  | inbox r => some r
  | _ => none

def publication? : Value → Option PublicationRecord
  | publication p => some p
  | _ => none

def claim? : Value → Option ClaimRecord
  | claim c => some c
  | _ => none

def obligation? : Value → Option OTKObligation
  | obligation o => some o
  | _ => none

def transition? : Value → Option AccountTransition
  | transition t => some t
  | _ => none

def logical? : Value → Option LogicalRecord
  | logical l => some l
  | _ => none

end Value

/-- The lengths of encoded values and the texts whose digests are compared. -/
class Codec extends Wire where
  encodedSize : Value → ℕ
  bundleBytes : Bundle → Bytes
  resetBytes : Reset → Bytes
  closureBytes : KeyClosure → Bytes

/-- The length of a record's data. An account is stored as the caller gave it. -/
def Value.size [Codec] : Value → ℕ
  | .account b => b.length
  | v => Codec.encodedSize v

/-! ### The store -/

/-- A record that exists has a positive revision. -/
structure Record where
  revision : ℕ
  data : Value
  revision_pos : 0 < revision
  deriving DecidableEq, Repr

/-- The revision of a record that may be absent. -/
def revisionOf : Option Record → ℕ
  | none => 0
  | some r => r.revision

structure RetiredMark where
  epoch : Int
  through : Int := 0
  above : List Int := []
  deriving DecidableEq, Repr

structure Control where
  fence : ℕ
  active : Bool
  count : Int := 0
  bytes : Int := 0
  outstanding : Int := 0
  accountID : String := ""
  accountEpoch : Int := 0
  sendingBlocked : Bool := false
  nextAttempt : Int := 0
  retired : Option RetiredMark := none
  deriving DecidableEq, Repr

structure Db where
  records : AList fun _ : Ref => Record
  controlRevision : ℕ
  control : Control
  deriving DecidableEq

/-- The store that `Open` creates. -/
def Db.fresh : Db where
  records := ∅
  controlRevision := 1
  control := { fence := 1, active := true, accountID := "local", accountEpoch := 1 }

def Db.get (db : Db) (r : Ref) : Option Record := db.records.lookup r

def Db.revision (db : Db) (r : Ref) : ℕ := revisionOf (db.get r)

/-- What a caller read. A record that was absent is there as `none`. -/
structure Snapshot where
  ns : Namespace
  fence : ℕ
  records : AList fun _ : Ref => Option Record
  deriving DecidableEq

theorem Db.revision_eq_zero {db : Db} {r : Ref} : db.revision r = 0 ↔ db.get r = none := by
  unfold Db.revision
  cases h : db.get r with
  | none => simp [revisionOf]
  | some rec => simpa [revisionOf] using Nat.pos_iff_ne_zero.mp rec.revision_pos

end Noxa.Durable

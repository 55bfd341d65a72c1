import Noxa.Lib.Fallible
import Noxa.Lib.Machine
import Noxa.Lib.Table
import Noxa.Admission.Manifest
import Noxa.Directory.Signed

/-!
# The tables of the store

The rows that the encrypted-message calls of `internal/store` read and write, with the primary keys
of the migrations. The database is cut by what a call can change: the ledger of attempts, the mail
that was accepted, the keyring of the device directory, and the world, which only other calls
change. A record that the source keeps as JSON is kept as its value.

A principal without a row in `olm_rosters` reads as version 1, which is the row its first reader
creates, and an account without a row in `olm_attempt_fences` reads as 0. Both tables are functions.

## Main definitions

* `Device`, `Group`, `World` — devices, roster versions and private groups
* `Attempt`, `PartRow`, `Ledger` — attempts to send
* `Message`, `Delivery`, `Mail` — accepted messages and their copies
* `Account`, `Publication`, `KeyRow`, `Session`, `Keyring` — the device directory
* `Db`, `Env`, `Err` — the database, what a call draws from outside, and its errors
-/

namespace Noxa.Store

open Directory Admission

/-- The encodings a row is stored with, and the account each device identifier was drawn for: the
identifiers are random, so one never changes hands. -/
class Setting extends Wire, Signatures where
  copyBytes : Copy → Bytes
  bundleBytes : Bundle → Bytes
  resetBytes : Reset → Bytes
  /-- The JSON text of a key state: server, device, account epoch, key and state. -/
  lifecycleBytes : String → String → Int → String → String → Bytes
  /-- The type and the content of a PEM block. -/
  pemBlock : String → Option (String × Bytes)
  owner : String → String

/-! ### The world -/

inductive DeviceKind
  | desktop
  | web
  deriving DecidableEq, Repr

/-- A row of `user_devices`. Times are in microseconds. -/
structure Device where
  deviceID : String
  principal : String
  kind : DeviceKind
  ed25519Public : String
  x25519Public : String
  firstDevice : Bool
  approvedBy : String := ""
  approvalSignature : Bytes := []
  lastSeenAt : Int := 0
  expiryWarnedAt : Option Int := none
  revokedAt : Option Int := none
  deriving DecidableEq, Repr

def Device.active (d : Device) : Bool := d.revokedAt.isNone

/-- The condition under which the message calls take a device for one of its account. -/
def Device.confirmed (d : Device) : Bool :=
  d.active && (d.firstDevice || decide (d.approvalSignature ≠ []))

/-- A member of a private group. -/
structure Member where
  uniqueID : String
  pending : Bool
  joinedEpoch : Int
  deriving DecidableEq, Repr

/-- What admission reads of a private group. A member has one row. -/
structure Group where
  revision : Int
  epoch : Int
  members : List Member
  nodup : (members.map (·.uniqueID)).Nodup

/-- The outcome of reading a group by a text, which may not be the text of an identifier. -/
inductive GroupLookup
  | malformed
  | missing
  | found (group : Group)

/-- A version of a roster: `CHECK(version BETWEEN 1 AND 9007199254740991)`. -/
abbrev RosterVersion := { n : Int // 1 ≤ n ∧ n ≤ maxSafe }

variable [Setting]

/-- What the message calls read and other calls change. A device never changes its owner. -/
structure World where
  devices : Table Device Device.deviceID
  owned : ∀ d ∈ devices.rows, d.principal = Setting.owner d.deviceID
  rosters : String → RosterVersion
  group : String → GroupLookup

/-! ### The ledger of attempts -/

/-- The account whose attempts are numbered together. -/
structure Lane where
  server : String
  device : String
  accountEpoch : Int
  deriving DecidableEq, Repr

def staging : ReceiptState := .other "staging"

def retired : ReceiptState := .other "retired"

/-- A row of `olm_attempts`. -/
structure Attempt where
  lane : Lane
  sender : String
  attemptID : String
  manifest : Manifest
  state : ReceiptState
  receipt : Receipt
  acked : Bool := false
  deriving DecidableEq, Repr

def Attempt.key (row : Attempt) : Lane × String := (row.lane, row.attemptID)

/-- A row of `olm_parts`. -/
structure PartRow where
  lane : Lane
  attemptID : String
  number : ℕ
  data : Bytes
  deriving DecidableEq, Repr

def PartRow.key (row : PartRow) : Lane × String × ℕ := (row.lane, row.attemptID, row.number)

structure Ledger where
  attempts : Table Attempt Attempt.key
  parts : Table PartRow PartRow.key
  fences : Lane → Int

/-! ### Accepted mail -/

/-- A row of `olm_messages`. -/
structure Message where
  id : String
  lane : Lane
  sender : String
  logicalID : String
  manifest : Manifest
  deriving DecidableEq, Repr

/-- A row of `olm_deliveries`. -/
structure Delivery where
  id : String
  messageID : String
  principal : String
  device : String
  accountEpoch : Int
  copy : Bytes
  digest : String
  sender : String
  control : Bool
  received : Bool := false
  deriving DecidableEq, Repr

structure Mail where
  messages : Table Message Message.id
  deliveries : Table Delivery Delivery.id

/-! ### The keyring -/

/-- A row of `olm_directory_state`. -/
structure Account where
  device : String
  identity : String
  signing : String
  generation : Int
  highwater : Int
  lastBundle : Bundle
  accountEpoch : Int
  deriving DecidableEq, Repr

/-- A row of `olm_directory_publications`. The bundle holds its time of expiry. -/
structure Publication where
  device : String
  generation : Int
  server : String
  bundle : Bundle
  deriving DecidableEq, Repr

def Publication.key (row : Publication) : String × Int := (row.device, row.generation)

inductive Lifecycle
  | available
  | reserved
  | admitted
  | received
  | closed
  deriving DecidableEq, Repr

def Lifecycle.text : Lifecycle → String
  | .available => "available"
  | .reserved => "reserved"
  | .admitted => "admitted"
  | .received => "received"
  | .closed => "closed"

/-- A key of these states is still owed by its device. -/
def Lifecycle.unresolved : Lifecycle → Bool
  | .available | .reserved | .admitted => true
  | .received | .closed => false

/-- The columns that a claim sets together. -/
structure Claim where
  claimedBy : String
  claimedDevice : String
  claimUntil : Int
  requestID : String
  claimedAt : Int
  claimedEpoch : Int
  deriving DecidableEq, Repr

/-- What identifies a one-time key. -/
structure KeyID where
  device : String
  accountEpoch : Int
  keyID : String
  deriving DecidableEq, Repr

/-- A row of `olm_directory_keys`. -/
structure KeyRow where
  id : KeyID
  generation : Int
  principal : String
  server : String
  bundle : Bundle
  lifecycle : Lifecycle := .available
  claim : Option Claim := none
  deriving DecidableEq, Repr

/-- The primary key of `olm_sessions`. -/
structure SessionID where
  server : String
  sourceDevice : String
  sourceEpoch : Int
  targetDevice : String
  targetEpoch : Int
  sessionID : String
  deriving DecidableEq, Repr

structure Session where
  id : SessionID
  claimID : String
  initialDelivery : String
  sourceBundle : Bundle
  targetBundle : Bundle
  deriving DecidableEq, Repr

/-- A row of `olm_account_history`. -/
structure PastAccount where
  device : String
  accountEpoch : Int
  identity : String
  signing : String
  highwater : Int
  deriving DecidableEq, Repr

def PastAccount.key (row : PastAccount) : String × Int := (row.device, row.accountEpoch)

/-- A row of `olm_resets`. -/
structure ResetRow where
  device : String
  transitionID : String
  record : Reset
  receipt : ResetReceipt
  deriving DecidableEq, Repr

def ResetRow.key (row : ResetRow) : String × String := (row.device, row.transitionID)

structure Keyring where
  accounts : Table Account Account.device
  publications : Table Publication Publication.key
  keys : Table KeyRow KeyRow.id
  sessions : Table Session Session.id
  history : Table PastAccount PastAccount.key
  resets : Table ResetRow ResetRow.key

/-! ### The database and its calls -/

structure Db where
  world : World
  ledger : Ledger
  mail : Mail
  keyring : Keyring

/-- The database before the first message. -/
def Db.initial (world : World) : Db where
  world := world
  ledger := ⟨.empty, .empty, fun _ => 0⟩
  mail := ⟨.empty, .empty⟩
  keyring := ⟨.empty, .empty, .empty, .empty, .empty, .empty⟩

/-- What a call draws from outside: the successive readings of the server's clock in seconds, the
time of the transaction in microseconds, fresh identifiers, the order of rows and texts that the
source leaves to the database, and the rows that `SKIP LOCKED` passes over. -/
structure Env where
  clock : ℕ → Int
  now : Int
  uuid : ℕ → String
  tie : Lane × String → ℕ
  collation : String → ℕ
  skipped : String → Bool

/-- `EXTRACT(EPOCH FROM now())::bigint`, which rounds. -/
def Env.epoch (env : Env) : Int := (env.now + 500000) / 1000000

/-- Seconds as a time of the database. -/
def micros (seconds : Int) : Int := seconds * 1000000

/-- The errors of the calls. `sql` is a failure of the database itself, such as a broken
constraint. -/
inductive Err
  | invalid
  | invalidBundle
  | authority
  | conflict
  | accountChanged
  | exhausted
  | limit
  | retired
  | incomplete
  | noRows
  | sql
  deriving DecidableEq, Repr

/-- The authenticated session a call is made by. -/
structure Source where
  server : String
  principal : String
  device : String
  signing : String
  accountEpoch : Int
  allowGroups : Bool
  deriving DecidableEq, Repr

def Source.lane (a : Source) : Lane := ⟨a.server, a.device, a.accountEpoch⟩

def Source.matches (a : Source) (m : Manifest) : Prop :=
  a.server = m.server ∧ a.principal = m.sender ∧ a.device = m.device ∧
    a.accountEpoch = m.accountEpoch

instance (a : Source) (m : Manifest) : Decidable (a.matches m) :=
  inferInstanceAs (Decidable (_ ∧ _))

end Noxa.Store

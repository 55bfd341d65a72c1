import Noxa.Directory.Bundle

/-!
# Message manifests

The wire form of one encrypted message (`internal/e2ee/admission`): a manifest names the sender,
the attempt, the devices that get a copy and the parts in which the copies travel; `openParts`
takes the parts apart again and checks that every target has exactly one copy.

Bytes are lists. JSON enters as the class `Wire`: nothing here depends on what the bytes look like,
only on which value they decode to.

## Main definitions

* `Manifest`, `Copy`, `Receipt` — the records
* `attemptSequence` — the number of an attempt
* `Manifest.validate`, `openParts`, `checkEnvelope` — the checks

## Main results

* `attemptSequence_some` — an accepted attempt id is the numeral of a number in range
-/

namespace Noxa.Admission

open Text Directory

def admissionVersion : String := "noxa-olm-admission-v1"

def maxTargets : ℕ := 160

def maxPartBytes : ℕ := 512 * 1024

def maxWireBytes : ℕ := 4 * 1024 * 1024

def maxEnvelopeBytes : ℕ := 24 * 1024

def maxParts : ℕ := 8

def maxManifestBytes : ℕ := 128 * 1024

def maxControlEnvelopeBytes : ℕ := 12 * 1024

structure Roster where
  principal : String
  version : Int
  deriving DecidableEq, Repr

structure Target where
  principal : String
  device : String
  accountEpoch : Int
  identity : String := ""
  isLocal : Bool := false
  deriving DecidableEq, Repr

structure Part where
  digest : String
  length : Int
  deriving DecidableEq, Repr

inductive Purpose
  | chat
  | edit
  | delete
  | control
  | other (text : String)
  deriving DecidableEq, Repr

inductive Scope
  | direct
  | group
  | other (text : String)
  deriving DecidableEq, Repr

structure Manifest where
  version : String
  server : String
  sender : String
  device : String
  accountEpoch : Int
  attemptID : String
  logicalID : String
  purpose : Purpose
  reference : String := ""
  scope : Scope
  peer : String := ""
  conversation : String := ""
  revision : Int := 0
  epoch : Int := 0
  deadline : Int
  rosters : List Roster
  targets : List Target
  parts : List Part
  deriving DecidableEq, Repr

structure Copy where
  principal : String
  device : String
  accountEpoch : Int
  sessionID : String
  claimID : String := ""
  envelope : Bytes
  deriving DecidableEq, Repr

inductive ReceiptState
  | accepted
  | rejected
  | aborted
  | other (text : String)
  deriving DecidableEq, Repr

structure Receipt where
  state : ReceiptState
  attemptID : String
  digest : String
  server : String
  accountEpoch : Int
  logicalID : String
  messageID : String := ""
  reason : String := ""
  deriving DecidableEq, Repr

/-- What an envelope is bound to (`ratchet.Binding`). -/
structure Binding where
  server : String
  conversation : String
  sender : String
  senderDevice : String
  recipient : String
  recipientDevice : String
  messageID : String
  purpose : String
  deriving DecidableEq, Repr

/-- The public part of an envelope (`ratchet.Envelope`). -/
structure Envelope where
  version : String
  sessionID : String
  binding : Binding
  message : Bytes
  deriving DecidableEq, Repr

/-- The encodings: the JSON text of a manifest and of a pair of texts, and strict decoding of a part
and of an envelope. -/
class Wire extends Crypto where
  manifestBytes : Manifest → Bytes
  pairText : String → String → String
  decodeCopies : Bytes → Option (List Copy)
  decodeEnvelope : Bytes → Option Envelope
  jsonValid : Bytes → Bool

/-! ### Attempt numbers -/

def safe (n : Int) : Bool := 0 < n ∧ n ≤ maxSafe

/-- The number of an attempt: a canonical numeral in range. -/
def attemptSequence (id : String) : Option Int :=
  match parseInt id with
  | none => none
  | some n => if safe n ∧ toString n = id then some n else none

theorem attemptSequence_some {id : String} {n : Int} (h : attemptSequence id = some n) :
    id = toString n ∧ 0 < n ∧ n ≤ maxSafe := by
  unfold attemptSequence at h
  split at h
  · simp at h
  split at h
  · rename_i hsf
    cases h
    exact ⟨hsf.2.symm, by simpa [safe] using hsf.1⟩
  · simp at h

/-! ### Manifests -/

/-- The single non-local target of a control, if its principal is the peer. -/
def controlTarget (m : Manifest) : Option Target :=
  if m.purpose ≠ .control ∨ m.targets.length ≠ 2 then none
  else match m.targets.find? (!·.isLocal) with
    | none => none
    | some t => if t.principal = m.peer then some t else none

def validPurpose (m : Manifest) : Bool :=
  match m.purpose with
  | .chat => m.reference = ""
  | .edit | .delete => validText m.reference
  | .control => m.reference = "" ∧ m.scope = .direct ∧ m.targets.length = 2
  | .other _ => false

def validScope (m : Manifest) : Bool :=
  match m.scope with
  | .direct => validText m.peer ∧ m.conversation = "" ∧ m.revision = 0 ∧ m.epoch = 0 ∧
      m.rosters.length ≤ 2
  | .group => validText m.conversation ∧ m.peer = "" ∧ safe m.revision ∧ safe m.epoch
  | .other _ => false

/-- The checks of the rosters, with the principals seen so far. -/
def rostersOK (seen : List String) : List Roster → Bool
  | [] => true
  | r :: rest => validText r.principal && safe r.version && decide (r.principal ∉ seen) &&
      rostersOK (r.principal :: seen) rest

/-- The checks of the targets, with the devices seen so far. -/
def targetsOK (m : Manifest) (seen : List String) : List Target → Bool
  | [] => true
  | t :: rest =>
    decide (t.principal ∈ m.rosters.map (·.principal)) && validText t.device &&
      safe t.accountEpoch && validText t.identity && decide (t.device ∉ seen) &&
      (!t.isLocal || decide (t.principal = m.sender ∧ t.device = m.device ∧
        t.accountEpoch = m.accountEpoch)) &&
      targetsOK m (t.device :: seen) rest

def partOK (p : Part) : Bool := fingerprint p.digest ∧ 2 ≤ p.length ∧ p.length ≤ maxPartBytes

variable [Wire]

def Manifest.validate (m : Manifest) : Bool :=
  (attemptSequence m.attemptID).isSome &&
    decide (m.version = admissionVersion) && decide (m.server.utf8ByteSize = 75) &&
    validServer m.server && safe m.accountEpoch && safe m.deadline &&
    decide (1 ≤ m.targets.length ∧ m.targets.length ≤ maxTargets) &&
    decide (1 ≤ m.rosters.length ∧ m.rosters.length ≤ 16) &&
    decide (1 ≤ m.parts.length ∧ m.parts.length ≤ maxParts) &&
    validText m.sender && validText m.device && validText m.attemptID && validText m.logicalID &&
    validPurpose m && validScope m && rostersOK [] m.rosters &&
    decide (m.sender ∈ m.rosters.map (·.principal)) &&
    (decide (m.scope ≠ .direct) || decide (m.peer ∈ m.rosters.map (·.principal))) &&
    targetsOK m [] m.targets && decide (m.targets.countP (·.isLocal) = 1) &&
    (decide (m.purpose ≠ .control) || (controlTarget m).isSome) &&
    m.parts.all partOK &&
    decide ((Wire.manifestBytes m).length ≤ maxManifestBytes ∧
      (Wire.manifestBytes m).length + (m.parts.map (·.length)).sum ≤ (maxWireBytes : Int))

/-- The digest of a manifest's text. An invalid manifest has no text. -/
def Manifest.digest (m : Manifest) : String :=
  Crypto.digest (if m.validate then Wire.manifestBytes m else [])

/-- The largest envelope of one copy. -/
def envelopeLimit (m : Manifest) : ℕ :=
  if m.purpose = .control then maxControlEnvelopeBytes else maxEnvelopeBytes

/-- Take the copies of one part out of the targets that still wait for one. -/
def takeCopies (m : Manifest) : List Target → List Copy → Option (List Target)
  | targets, [] => some targets
  | targets, c :: cs =>
    match targets.find? (·.device = c.device) with
    | none => none
    | some t =>
      if t.principal ≠ c.principal ∨ t.accountEpoch ≠ c.accountEpoch ∨ ¬ validText c.sessionID ∨
          c.envelope.length < 2 ∨ envelopeLimit m < c.envelope.length ∨
          ¬ Wire.jsonValid c.envelope ∨ (c.claimID ≠ "" ∧ ¬ validText c.claimID) then none
      else takeCopies m (targets.filter (·.device ≠ c.device)) cs

/-- The loop over the parts. -/
def openLoop (m : Manifest) : List Target → List (Part × Bytes) → Option (List Target × List Copy)
  | targets, [] => some (targets, [])
  | targets, (p, b) :: rest =>
    if b.length ≠ p.length ∨ Crypto.digest b ≠ p.digest ∨ b.length = 0 ∨
        maxPartBytes < b.length then none
    else match Wire.decodeCopies b with
      | none => none
      | some cs =>
        match takeCopies m targets cs with
        | none => none
        | some left =>
          match openLoop m left rest with
          | none => none
          | some (final, copies) => some (final, cs ++ copies)

/-- The copies in the parts of a valid manifest, one for every target but the local one. -/
def openParts (m : Manifest) (parts : List Bytes) : Option (List Copy) :=
  if ¬ m.validate ∨ parts.length ≠ m.parts.length then none
  else match openLoop m (m.targets.filter (!·.isLocal)) (m.parts.zip parts) with
    | none => none
    | some (left, copies) => if left = [] then some copies else none

/-! ### Envelopes -/

/-- `ratchet.Version`. -/
def ratchetVersion : String := "noxa-olm-v1"

def expectedBinding (m : Manifest) (t : Target) : Binding where
  server := m.server
  conversation :=
    if m.scope = .direct then
      "direct:" ++ if m.sender ≤ m.peer then Wire.pairText m.sender m.peer
        else Wire.pairText m.peer m.sender
    else "group:" ++ m.conversation
  sender := m.sender
  senderDevice := m.device
  recipient := t.principal
  recipientDevice := t.device
  messageID := m.logicalID
  purpose := match m.purpose with
    | .chat => "message"
    | .control => "media-key"
    | .edit => "edit"
    | .delete => "delete"
    | .other text => text

/-- White space that `bytes.TrimSpace` removes at the ends of a JSON text, which are ASCII. -/
def isJsonSpace (b : UInt8) : Bool := b ∈ [9, 10, 11, 12, 13, 32]

def trimSpace (b : Bytes) : Bytes :=
  ((b.dropWhile isJsonSpace).reverse.dropWhile isJsonSpace).reverse

def checkEnvelope (m : Manifest) (c : Copy) : Bool :=
  match Wire.decodeEnvelope c.envelope with
  | none => false
  | some e =>
    decide (c.envelope.length ≠ 0 ∧ c.envelope.length ≤ maxEnvelopeBytes) &&
      decide (e.version = ratchetVersion) && decide (e.sessionID = c.sessionID) &&
      decide (e.binding = expectedBinding m ⟨c.principal, c.device, c.accountEpoch, "", false⟩) &&
      decide (2 ≤ (trimSpace e.message).length)

end Noxa.Admission

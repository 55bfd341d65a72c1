import Noxa.Directory.Signed
import Noxa.Lib.Closure
import Noxa.Lib.Framing

/-!
# What identity keys sign

The messages that are signed with the Ed25519 key of a device: the answer to a login challenge
(`internal/auth/identity.go`), the approval of another device and the statement that hands it the
server binding (`internal/netproto/devices.go`), the delegation to a passkey
(`internal/netproto/passkey_proof.go`, `internal/deviceproof`) and the header of a history chunk
(`internal/netproto/history_envelope.go`). Directory records are in `Noxa.Directory`.

Fields are byte strings, as in the source, except in the entries of a device listing: these come out
of a JSON decoder, which yields valid UTF-8 only.

PEM, URLs and JSON are library functions and enter as the class `Keys`. Of PEM the proofs use that
it undoes the canonical encoding and that there is no block without its opening line.

## Main definitions

* `signLoginChallenge`, `verifyLoginChallenge` — logging in
* `deviceApprovalTranscript`, `deviceLinkBindingTranscript` — linking devices
* `PasskeyCertificate.transcript`, `certificateIssuer` — passkeys
* `historyChunkTranscript`, `encodeHistoryChunk`, `decodeHistoryChunk` — copying history
-/

namespace Noxa.Identity

open Directory Text Framing

/-- What `url.Parse` reads of a URL. -/
structure URL where
  scheme : Bytes
  host : Bytes
  hostname : Bytes
  user : Bool
  path : Bytes
  rawQuery : Bytes
  fragment : Bytes
  deriving DecidableEq, Repr

/-- The signed header of a chunk of history. -/
structure HistoryHeader where
  v : Bytes
  source : Bytes
  target : Bytes
  transfer : Bytes
  seq : Int
  total : Int
  digest : Bytes
  signature : Bytes
  deriving DecidableEq, Repr

/-- The one canonical PEM spelling of a public key: `pem.EncodeToMemory` of the raw key, which fits
on one line. -/
def publicKeyPEM (key : Bytes) : Bytes :=
  bytes "-----BEGIN PUBLIC KEY-----\n" ++ bytes (String.ofList (Base64.encode key)) ++
    bytes "\n-----END PUBLIC KEY-----\n"

/-- The library functions: `pem.Decode` with the type and the contents of the block it finds,
`ed25519.Sign`, whether a key is a point of small order, `url.Parse`, and the JSON of a header. -/
class Keys extends Signatures where
  pem : Bytes → Option (String × Bytes)
  sign : Bytes → Bytes → Bytes
  smallOrder : Bytes → Bool
  parseURL : Bytes → Option URL
  marshalHeader : HistoryHeader → Option Bytes
  unmarshalHeader : Bytes → Option HistoryHeader
  pem_publicKeyPEM : ∀ key, key.length = 32 → pem (publicKeyPEM key) = some ("PUBLIC KEY", key)
  pem_opening : ∀ text block, pem text = some block → bytes "-----BEGIN " <:+: text
  smallOrder_of_signingPoint : ∀ key, Crypto.signingPoint key = true → smallOrder key = false

variable [Keys]

/-! ### Keys -/

def loadPublicKey (publicKey : Bytes) : Option Bytes :=
  match Keys.pem publicKey with
  | none => none
  | some (type, key) =>
    if type = "PUBLIC KEY" ∧ key.length = 32 ∧ Keys.smallOrder key = false then some key else none

def loadPrivateKey (privateKey : Bytes) : Option Bytes :=
  match Keys.pem privateKey with
  | none => none
  | some (type, key) => if type = "PRIVATE KEY" ∧ key.length = 64 then some key else none

def signChallenge (privateKey challenge : Bytes) : Option Bytes :=
  match loadPrivateKey privateKey with
  | none => none
  | some key => if challenge = [] then none else some (Keys.sign key challenge)

def verifyChallenge (publicKey challenge signature : Bytes) : Bool :=
  match loadPublicKey publicKey with
  | none => false
  | some key =>
    decide (challenge ≠ []) && decide (signature ≠ []) &&
      Signatures.verifies key challenge signature

/-! ### Logging in -/

def loginChallengeSize : ℕ := 32

def loginChallengeDomain : Bytes := bytes "noxa-auth-challenge-v1\n"

def loginChallengeMessage (challenge : Bytes) : Bytes := loginChallengeDomain ++ challenge

/-- What a client agrees to answer. -/
def safeChallenge (challenge : Bytes) : Bool :=
  decide (challenge.length = loginChallengeSize) && !(bytes "noxa-").isPrefixOf challenge

def signLoginChallenge (privateKey challenge : Bytes) : Option Bytes :=
  if safeChallenge challenge then signChallenge privateKey (loginChallengeMessage challenge)
  else none

/-- The new form of the answer, or the old one over the challenge itself. -/
def verifyLoginChallenge (publicKey challenge signature : Bytes) : Bool :=
  decide (challenge ≠ []) &&
    (verifyChallenge publicKey (loginChallengeMessage challenge) signature ||
      verifyChallenge publicKey challenge signature)

/-! ### Linking devices -/

def deviceApprovalTranscript (principal approverDeviceID ed25519Public x25519Public : Bytes) :
    Bytes :=
  lines 10 [bytes "noxa-device-approval-v1", principal, approverDeviceID, ed25519Public]
    x25519Public

def deviceLinkBindingTranscript
    (principal approverDeviceID ed25519Public x25519Public serverBinding : Bytes) : Bytes :=
  lines 10 [bytes "noxa-device-link-binding-v1", principal, approverDeviceID, ed25519Public,
    x25519Public] serverBinding

/-- The text `tls-sha256:` and 64 lower-case hexadecimal digits. -/
def validServerBinding (b : Bytes) : Bool :=
  decide (b.length = 75) && (bytes "tls-sha256:").isPrefixOf b &&
    (b.drop 11).all fun c => decide ((48 ≤ c ∧ c ≤ 57) ∨ (97 ≤ c ∧ c ≤ 102))

/-- An entry of a device listing. -/
structure DMDevice where
  revokedAt : Int
  deviceID : String
  kind : String
  ed25519Public : String
  x25519Public : String
  firstDevice : Bool
  approvedBy : String
  approvalSignature : Bytes
  deriving DecidableEq, Repr

/-- What an entry says was approved. -/
def DMDevice.approval (d : DMDevice) (principal : Bytes) : Bytes :=
  deviceApprovalTranscript principal (bytes d.approvedBy) (bytes d.ed25519Public)
    (bytes d.x25519Public)

/-! ### Passkeys -/

structure PasskeyCertificate where
  principal : Bytes
  issuer : Bytes
  credentialID : Bytes
  algorithm : Int
  publicKey : Bytes
  rpID : Bytes
  origin : Bytes
  signature : Bytes
  chain : List DMDevice
  deriving DecidableEq, Repr

def PasskeyCertificate.transcript (c : PasskeyCertificate) : Bytes :=
  lines 10 [bytes "noxa-passkey-delegation-v1", c.principal, c.issuer, c.credentialID,
    bytes (String.ofList (Base64.encode c.publicKey)), c.rpID, c.origin] (numeral c.algorithm)

/-- A text on one line, neither empty nor long. -/
def fieldOK (f : Bytes) : Bool :=
  decide (f ≠ [] ∧ f.length ≤ 2048 ∧ 13 ∉ f ∧ 10 ∉ f)

/-- The checks of the fields of a certificate. -/
def PasskeyCertificate.fieldsOK (c : PasskeyCertificate) : Bool :=
  [c.principal, c.issuer, c.credentialID, c.rpID, c.origin].all fieldOK &&
    (match Keys.parseURL c.origin with
      | none => false
      | some origin =>
        decide (origin.scheme = bytes "https" ∧ origin.host ≠ [] ∧ origin.user = false ∧
          origin.path = [] ∧ origin.rawQuery = [] ∧ origin.fragment = []) &&
          (decide (origin.hostname = c.rpID) ||
            (bytes "." ++ c.rpID).isSuffixOf origin.hostname)) &&
    decide (c.publicKey.length ≤ 4096) && decide (c.signature.length = 64)

/-- The key of a device of the chain. -/
def chainKey (chain : List DMDevice) (id : String) : Option Bytes :=
  match chain.find? (·.deviceID = id) with
  | none => none
  | some d => loadPublicKey (bytes d.ed25519Public)

/-- The approval of a device of the chain holds, if its approver does. -/
def chainApproval (chain : List DMDevice) (principal : Bytes) (d : DMDevice) : Bool :=
  (loadPublicKey (bytes d.ed25519Public)).isSome && (chainKey chain d.approvedBy).any fun key =>
      Signatures.verifies key (d.approval principal) d.approvalSignature

/-- The source walks over a map of the chain, in no fixed order; the outcome does not depend on
it. -/
def certificateIssuer (c : PasskeyCertificate) (principal pinned : Bytes) : Option Bytes :=
  if c.principal = principal ∧ pinned.length = 32 ∧ 0 < c.chain.length ∧ c.chain.length ≤ 32 ∧
      c.fieldsOK = true ∧ (∀ d ∈ c.chain, d.deviceID ≠ "") ∧ (c.chain.map (·.deviceID)).Nodup then
    match c.chain.filter (·.firstDevice) with
    | [root] =>
      if loadPublicKey (bytes root.ed25519Public) = some pinned then
        match Closure.close (·.deviceID) (·.approvedBy) (chainApproval c.chain principal) c.chain
          (c.chain.length + 1) [root.deviceID] with
        | none => none
        | some trusted =>
          match c.chain.find? fun d => bytes d.deviceID = c.issuer with
          | none => none
          | some issuer =>
            match loadPublicKey (bytes issuer.ed25519Public) with
            | none => none
            | some key =>
              if issuer.deviceID ∈ trusted ∧
                Signatures.verifies key c.transcript c.signature = true then some key else none
      else none
    | _ => none
  else none

/-! ### History -/

def historyEnvelopeVersion : Bytes := bytes "noxa-history-v1"

def maxHistoryChunks : Int := 256

def historyField (f : Bytes) : Bool := decide (f ≠ [] ∧ f.length ≤ 128 ∧ 13 ∉ f ∧ 10 ∉ f)

def HistoryHeader.wellFormed (h : HistoryHeader) : Bool :=
  decide (h.v = historyEnvelopeVersion) && historyField h.source && historyField h.target &&
    historyField h.transfer &&
    decide (0 ≤ h.seq ∧ 1 ≤ h.total ∧ h.total ≤ maxHistoryChunks ∧ h.seq < h.total) &&
    decide (h.digest.length = 64)

def historyChunkTranscript (h : HistoryHeader) : Option Bytes :=
  if h.wellFormed then
    some (lines 10 [bytes "noxa-history-chunk-v1", h.source, h.target, h.transfer, numeral h.seq,
      numeral h.total] h.digest)
  else none

/-- The header as it is sent, and the envelope. -/
def encodeHistoryChunk (h : HistoryHeader) (records : Bytes) (sign : Bytes → Option Bytes) :
    Option (HistoryHeader × Bytes) := do
  let h := { h with v := historyEnvelopeVersion, digest := bytes (Crypto.digest records) }
  let t ← historyChunkTranscript h
  let signature ← sign t
  let h := { h with signature := signature }
  let head ← Keys.marshalHeader h
  pure (h, head ++ 10 :: records)

def decodeHistoryChunk (plain : Bytes) : Option (HistoryHeader × Bytes) :=
  if 10 ∈ plain ∧ (bytes "\x7b\"v\":\"noxa-history-v1\"").isPrefixOf plain then do
    let h ← Keys.unmarshalHeader (plain.takeWhile (· ≠ 10))
    let records := (plain.dropWhile (· ≠ 10)).drop 1
    let _ ← historyChunkTranscript h
    if h.digest = bytes (Crypto.digest records) then pure (h, records) else none
  else none

end Noxa.Identity

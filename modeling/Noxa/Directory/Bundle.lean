import Noxa.Lib.Base64
import Noxa.Lib.Text

/-!
# Directory bundles

The signed records of the key directory (`internal/e2ee/olmdir`): a bundle publishes the account and
the one-time keys of a device, a reset moves a device to a new account epoch. Each has a transcript,
the text that is signed, which exists only for well-formed records.

SHA-256 and the two curves enter as the class `Crypto`.

## Main definitions

* `validText`, `raw`, `keyNumber`, `validCurve`, `validSigning` — the checks of single fields
* `Bundle.transcript`, `publicationDigest` — what is signed, and its digest
* `Reset`, `ResetReceipt` — a change of account epoch
-/

namespace Noxa.Directory

open Text

abbrev Bytes := List UInt8

/-- The largest integer that is exact in every client, `2 ^ 53 - 1`. -/
def maxSafe : Int := 9007199254740991

def version : String := "noxa-olm-directory-v1"

def protocol : String := "noxa-olm-v1"

def maxKeys : ℕ := 100

/-- Seven days, in seconds. -/
def maxLifetime : Int := 7 * 24 * 3600

/-- The library functions: hexadecimal SHA-256, whether an X25519 agreement with a public key
succeeds, and whether bytes are the canonical encoding of an Edwards point that is not of small
order. -/
class Crypto where
  digest : Bytes → String
  agrees : Bytes → Bool
  signingPoint : Bytes → Bool

/-! ### Fields -/

/-- A `String` is valid UTF-8 by construction. -/
def validText (s : String) : Bool :=
  s ≠ "" ∧ s.utf8ByteSize ≤ 128 ∧ ¬ s.toList.any isControl

/-- A lower-case hexadecimal SHA-256. -/
def fingerprint (s : String) : Bool :=
  s.toList.length = 64 ∧ s.toList.all fun c => ('0' ≤ c ∧ c ≤ '9') ∨ ('a' ≤ c ∧ c ≤ 'f')

/-- The text `tls-sha256:` and a fingerprint. -/
def validServer (s : String) : Bool :=
  s.toList.take 11 = "tls-sha256:".toList ∧ fingerprint (String.ofList (s.toList.drop 11))

/-- Canonical base64 of `n` bytes without padding. -/
def raw (s : String) (n : ℕ) : Option Bytes :=
  if s.utf8ByteSize ≠ (n * 8 + 5) / 6 then none
  else match Base64.decode (s.toList ++ List.replicate ((4 - s.toList.length % 4) % 4) '=') with
    | none => none
    | some b =>
      if b.length = n ∧ (Base64.encode b).filter (· ≠ '=') = s.toList then some b else none

def bigEndian (b : Bytes) : ℕ := b.foldl (fun n x => 256 * n + x.toNat) 0

/-- The identifier of a one-time key, within a signed 64-bit integer. -/
def keyNumber (id : String) : Option Int :=
  match raw id 8 with
  | none => none
  | some b => if bigEndian b < 2 ^ 63 then some (bigEndian b) else none

/-- Little-endian bytes are below `2 ^ 255 - 19`. The source compares byte by byte from the top. -/
def belowPrime (b : Bytes) : Bool := bigEndian b.reverse < 2 ^ 255 - 19

variable [Crypto]

def validCurve (s : String) : Bool :=
  match raw s 32 with
  | none => false
  | some b => belowPrime b && Crypto.agrees b

def validSigning (s : String) : Bool :=
  match raw s 32 with
  | none => false
  | some b => Crypto.signingPoint b

/-! ### Bundles -/

structure Key where
  id : String
  key : String
  deriving DecidableEq, Repr

structure Bundle where
  version : String
  protocol : String
  server : String
  principal : String
  deviceID : String
  accountEpoch : Int
  generation : Int
  issuedAt : Int
  expiresAt : Int
  identity : String
  signing : String
  oneTimeKeys : List Key
  signature : Bytes
  deriving DecidableEq, Repr

/-- The checks of the one-time keys, with the identifiers and the public keys seen so far. -/
def keysOK (identity : String) (seen pubs : List String) : List Key → Bool
  | [] => true
  | k :: rest =>
    (keyNumber k.id).isSome && decide (k.id ∉ seen) && decide (k.key ∉ pubs) &&
      decide (k.key ≠ identity) && validCurve k.key &&
      keysOK identity (k.id :: seen) (k.key :: pubs) rest

/-- Fields with their lengths in bytes, one after another. -/
def joinFields (fields : List String) : Bytes :=
  fields.flatMap fun f => (numbered f.utf8ByteSize f).toUTF8.data.toList

def Bundle.wellFormed (b : Bundle) : Bool :=
  decide (b.version = Directory.version) && decide (b.protocol = Directory.protocol) &&
    validServer b.server && validText b.principal && validText b.deviceID &&
    decide (1 ≤ b.accountEpoch ∧ b.accountEpoch ≤ maxSafe) &&
    decide (1 ≤ b.generation ∧ b.generation ≤ maxSafe) &&
    decide (1 ≤ b.issuedAt ∧ b.issuedAt < b.expiresAt ∧ b.expiresAt ≤ maxSafe ∧
      b.expiresAt - b.issuedAt ≤ maxLifetime) &&
    validCurve b.identity && validSigning b.signing &&
    decide (1 ≤ b.oneTimeKeys.length ∧ b.oneTimeKeys.length ≤ maxKeys) &&
    keysOK b.identity [] [] b.oneTimeKeys

def Bundle.transcript (b : Bundle) : Option Bytes :=
  if b.wellFormed then
    some (joinFields ([b.version, b.protocol, b.server, b.principal, b.deviceID,
      toString b.accountEpoch, toString b.generation, toString b.issuedAt, toString b.expiresAt,
      b.identity, b.signing, toString b.oneTimeKeys.length] ++
        b.oneTimeKeys.flatMap fun k => [k.id, k.key]))
  else none

/-! ### Resets -/

structure Reset where
  version : String
  server : String
  principal : String
  device : String
  transitionID : String
  oldEpoch : Int
  oldIdentity : String
  oldSigning : String
  newEpoch : Int
  newIdentity : String
  newSigning : String
  generation : Int
  publicationDigest : String
  reason : String
  signature : Bytes
  deriving DecidableEq, Repr

structure ResetReceipt where
  server : String
  device : String
  transitionID : String
  accountEpoch : Int
  digest : String
  publicationDigest : String
  deriving DecidableEq, Repr

def publicationDigest (b : Bundle) : Option String :=
  match b.transcript with
  | none => none
  | some t => if b.signature.length = 64 then some (Crypto.digest (t ++ b.signature)) else none

end Noxa.Directory

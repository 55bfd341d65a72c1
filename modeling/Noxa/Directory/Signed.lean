import Noxa.Authorization.Policy
import Noxa.Directory.Bundle

/-!
# Signed records of the key directory

The transcript of a reset, and the verification of bundles and resets under the signing key of the
device that published them (`internal/e2ee/olmdir`). Ed25519 enters as the class `Signatures`.

## Main definitions

* `Reset.transcript` — what a device signs to move to a new account epoch
* `Bundle.verify`, `Reset.verify` — the checks of a reader
-/

namespace Noxa.Directory

/-- `ed25519.Verify`, for a key, a message and a signature. -/
class Signatures extends Crypto where
  verifies : Bytes → Bytes → Bytes → Bool

def resetVersion : String := "noxa-olm-reset-v1"

section Transcript

variable [Crypto]

/-- `OldEpoch` is an `int64`, and the epoch after the largest one is the smallest. -/
def Reset.wellFormed (r : Reset) : Bool :=
  decide (r.version = resetVersion) && validServer r.server && validText r.principal &&
    validText r.device && validText r.transitionID &&
    decide (1 ≤ r.oldEpoch ∧ r.oldEpoch < 2 ^ 63) &&
    decide (r.newEpoch = Authorization.int64 (r.oldEpoch + 1) ∧ r.newEpoch ≤ maxSafe) &&
    decide (2 ≤ r.generation ∧ r.generation ≤ maxSafe) &&
    validCurve r.oldIdentity && validSigning r.oldSigning &&
    validCurve r.newIdentity && validSigning r.newSigning &&
    decide (r.oldIdentity ≠ r.newIdentity) && fingerprint r.publicationDigest &&
    decide (r.reason = "lost" ∨ r.reason = "restored")

def Reset.transcript (r : Reset) : Option Bytes :=
  if r.wellFormed then
    some (joinFields [r.version, r.server, r.principal, r.device, r.transitionID,
      toString r.oldEpoch, r.oldIdentity, r.oldSigning, toString r.newEpoch, r.newIdentity,
      r.newSigning, toString r.generation, r.publicationDigest, r.reason])
  else none

end Transcript

variable [Signatures]

/-- `now` is in seconds. -/
def Bundle.verify (b : Bundle) (key : Bytes) (server principal device : String) (now : Int) :
    Bool :=
  match b.transcript with
  | none => false
  | some t =>
    decide (b.server = server) && decide (b.principal = principal) &&
      decide (b.deviceID = device) && decide (key.length = 32) &&
      decide (b.signature.length = 64) && decide (b.issuedAt ≤ now + 300) &&
      decide (now < b.expiresAt) && Signatures.verifies key t b.signature

/-- The account that is left is the one the reader holds. -/
def Reset.verify (r : Reset) (key : Bytes) (server principal device : String) (epoch : Int)
    (identity signing : String) : Bool :=
  match r.transcript with
  | none => false
  | some t =>
    decide (r.server = server) && decide (r.principal = principal) &&
      decide (r.device = device) && decide (r.oldEpoch = epoch) &&
      decide (r.oldIdentity = identity) && decide (r.oldSigning = signing) &&
      decide (key.length = 32) && decide (r.signature.length = 64) &&
      Signatures.verifies key t r.signature

variable {key : Bytes} {server principal device identity signing : String} {r : Reset} {epoch : Int}

/-- A verified bundle is of the device it was verified for. -/
theorem Bundle.device_of_verify {b : Bundle} {now : Int}
    (h : b.verify key server principal device now = true) :
    b.deviceID = device ∧ 1 ≤ b.accountEpoch := by
  unfold Bundle.verify at h
  split at h
  · simp at h
  · rename_i t ht
    simp only [Bundle.transcript, Option.ite_none_right_eq_some, Bundle.wellFormed,
      Bool.and_eq_true, decide_eq_true_eq] at h ht
    exact ⟨h.1.1.1.1.1.2, ht.1.1.1.1.1.1.1.2.1⟩

section

variable (h : r.verify key server principal device epoch identity signing = true)

include h

theorem Reset.wellFormed_of_verify : r.wellFormed = true := by
  cases hw : r.wellFormed with
  | true => rfl
  | false =>
    unfold Reset.verify at h
    rw [Reset.transcript, hw] at h
    exact h

theorem Reset.origin_of_verify : r.server = server ∧ r.oldEpoch = epoch := by
  unfold Reset.verify at h
  split at h
  · simp at h
  · simp only [Bool.and_eq_true, decide_eq_true_eq] at h
    exact ⟨h.1.1.1.1.1.1.1.1, h.1.1.1.1.1.2⟩

theorem Reset.epochs_of_verify : (1 ≤ epoch ∧ epoch < 2 ^ 63) ∧
    r.newEpoch = Authorization.int64 (epoch + 1) := by
  have hwl := Reset.wellFormed_of_verify h
  unfold Reset.wellFormed at hwl
  simp only [Bool.and_eq_true, decide_eq_true_eq] at hwl
  rw [← (Reset.origin_of_verify h).2]
  exact ⟨hwl.1.1.1.1.1.1.1.1.1.2, hwl.1.1.1.1.1.1.1.1.2.1⟩

/-- A verified reset leads from the epoch it was checked against to the next one, unless there is
none. -/
theorem Reset.newEpoch_of_verify (hnew : 0 ≤ r.newEpoch) : r.newEpoch = epoch + 1 := by
  obtain ⟨⟨hone, hla⟩, hnx⟩ := Reset.epochs_of_verify h
  by_cases hwrp : epoch + 1 < 2 ^ 63
  · rw [hnx]
    exact Authorization.int64_of_small (by omega) hwrp
  · obtain rfl : epoch = 2 ^ 63 - 1 := by omega
    exact absurd (hnx ▸ hnew) (by decide)

end

end Noxa.Directory

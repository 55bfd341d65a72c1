import Noxa.Directory.Signed
import Noxa.Lib.Framing

/-!
# What a directory signature says

A transcript is a sequence of frames, so the fields of the record can be read back from it: bundles
with one transcript agree in everything but the signature, and so do resets. The version is the
first field and keeps the two kinds apart.

## Main definitions

* `Bundle.fields`, `Reset.fields` — the fields of a transcript

## Main results

* `joinFields_injective` — the fields can be read back
* `Bundle.transcript_injective`, `Reset.transcript_injective` — one transcript, one record
-/

namespace Noxa.Directory

open Text Framing List

/-- The length of a field is a numeral that ends in a colon. -/
theorem joinFields_eq_frames (fields : List String) :
    joinFields fields = frames (fun n => numeral n) 58 (fields.map bytes) := by
  rw [joinFields, frames, flatMap_map]
  refine flatMap_congr fun f _ => ?_
  have hcol : bytes ":" = [58] := rfl
  rw [frame, length_bytes]
  show bytes (numbered f.utf8ByteSize f) = _
  rw [numbered, bytes_append, bytes_append, hcol, append_assoc]
  rfl

theorem colon_not_mem_numeral (n : Int) : 58 ∉ numeral n := by
  intro h
  rcases mem_numeral h with h | ⟨-, h⟩ <;> exact absurd h (by decide)

theorem joinFields_injective : Function.Injective joinFields := by
  intro fields fields' h
  rw [joinFields_eq_frames, joinFields_eq_frames] at h
  have htag : Function.Injective fun n : ℕ => numeral n :=
    fun n m hnm => Int.ofNat.inj (numeral_injective hnm)
  exact map_injective_iff.mpr bytes_injective
    (frames_injective htag (fun n => colon_not_mem_numeral n) h)

/-- The fields of a bundle that are signed. -/
def Bundle.fields (b : Bundle) : List String :=
  [b.version, b.protocol, b.server, b.principal, b.deviceID, toString b.accountEpoch,
    toString b.generation, toString b.issuedAt, toString b.expiresAt, b.identity, b.signing,
    toString b.oneTimeKeys.length] ++ b.oneTimeKeys.flatMap fun k => [k.id, k.key]

theorem keyFields_injective {keys keys' : List Key}
    (h : (keys.flatMap fun k => [k.id, k.key]) = keys'.flatMap fun k => [k.id, k.key]) :
    keys = keys' := by
  induction keys generalizing keys' with
  | nil =>
    cases keys' with
    | nil => rfl
    | cons k' keys' => simp at h
  | cons k keys ih =>
    cases keys' with
    | nil => simp at h
    | cons k' keys' =>
      simp only [flatMap_cons, cons_append, nil_append, cons.injEq] at h
      obtain ⟨hid, hkey, hrs⟩ := h
      obtain rfl : k = k' := by
        cases k
        cases k'
        simp_all
      rw [ih hrs]

variable {b b' : Bundle}

theorem Bundle.fields_injective (h : b.fields = b'.fields) :
    b' = { b with signature := b'.signature } := by
  simp only [Bundle.fields, cons_append, nil_append, cons.injEq] at h
  obtain ⟨hv, hpr, hs, hpn, hd, hep, hg, hiss, hexp, hidn, hsgn, -, hks⟩ := h
  cases b
  cases b'
  obtain rfl := toString_injective hep
  obtain rfl := toString_injective hg
  obtain rfl := toString_injective hiss
  obtain rfl := toString_injective hexp
  obtain rfl := keyFields_injective hks
  subst hv hpr hs hpn hd hidn hsgn
  rfl

def Reset.fields (r : Reset) : List String :=
  [r.version, r.server, r.principal, r.device, r.transitionID, toString r.oldEpoch, r.oldIdentity,
    r.oldSigning, toString r.newEpoch, r.newIdentity, r.newSigning, toString r.generation,
    r.publicationDigest, r.reason]

variable {r r' : Reset}

theorem Reset.fields_injective (h : r.fields = r'.fields) :
    r' = { r with signature := r'.signature } := by
  simp only [Reset.fields, cons.injEq] at h
  obtain ⟨hv, hs, hpn, hd, htr, hold, hol, holdS, hnew, hnw, hne, hg, hdig, hrsn, -⟩ := h
  cases r
  cases r'
  obtain rfl := toString_injective hold
  obtain rfl := toString_injective hnew
  obtain rfl := toString_injective hg
  subst hv hs hpn hd htr hol holdS hnw hne hdig hrsn
  rfl

variable [Crypto]

/-! ### Bundles -/

variable {t : Bytes}

theorem Bundle.transcript_eq_some (h : b.transcript = some t) :
    b.wellFormed = true ∧ t = joinFields b.fields := by
  rw [Bundle.transcript, Option.ite_none_right_eq_some] at h
  exact ⟨h.1, (Option.some.inj h.2).symm⟩

theorem Bundle.transcript_injective (h : b.transcript = some t)
    (h' : b'.transcript = some t) : b' = { b with signature := b'.signature } := by
  obtain ⟨-, rfl⟩ := Bundle.transcript_eq_some h
  obtain ⟨-, heq⟩ := Bundle.transcript_eq_some h'
  exact Bundle.fields_injective (joinFields_injective heq)

theorem Bundle.version_of_wellFormed (h : b.wellFormed = true) : b.version = Directory.version := by
  unfold Bundle.wellFormed at h
  simp only [Bool.and_eq_true, decide_eq_true_eq] at h
  exact h.1.1.1.1.1.1.1.1.1.1.1

/-! ### Resets -/

theorem Reset.transcript_eq_some (h : r.transcript = some t) :
    r.wellFormed = true ∧ t = joinFields r.fields := by
  rw [Reset.transcript, Option.ite_none_right_eq_some] at h
  exact ⟨h.1, (Option.some.inj h.2).symm⟩

theorem Reset.transcript_injective (h : r.transcript = some t)
    (h' : r'.transcript = some t) : r' = { r with signature := r'.signature } := by
  obtain ⟨-, rfl⟩ := Reset.transcript_eq_some h
  obtain ⟨-, heq⟩ := Reset.transcript_eq_some h'
  exact Reset.fields_injective (joinFields_injective heq)

theorem Reset.version_of_wellFormed (h : r.wellFormed = true) : r.version = resetVersion := by
  unfold Reset.wellFormed at h
  simp only [Bool.and_eq_true, decide_eq_true_eq] at h
  exact h.1.1.1.1.1.1.1.1.1.1.1.1.1.1

end Noxa.Directory

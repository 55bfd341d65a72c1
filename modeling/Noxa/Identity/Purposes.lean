import Noxa.Directory.Transcripts
import Noxa.Identity.Messages

/-!
# One signature, one purpose

A message that an identity key signs opens with a text that only its kind has, so no message is of
two kinds. Within a kind, the fields can be read back from the message.

A server challenge has 32 bytes, and the legacy form of a login is a signature over the challenge
itself. So it matters that no other message has 32 bytes. Approvals and binding statements can be
that short only if they are about texts that are no keys.

## Main definitions

* `Statement` — a message with its fields
* `Purpose`, `Purpose.opening` — the kinds and what they open with

## Main results

* `Statement.purpose_of_message` — no message is of two kinds
* `Statement.length_ne` — no message has the length of a challenge
* `transcripts_injective` — directory records and history headers
* `identity_signatures_single_purpose` — all kinds
-/

namespace Noxa.Identity

open Directory Text Framing List

variable [Keys]

inductive Purpose
  | login
  | approval
  | binding
  | passkey
  | history
  | bundle
  | reset
  deriving DecidableEq, Repr

/-- What every message of the kind opens with. -/
def Purpose.opening : Purpose → Bytes
  | .login => loginChallengeDomain
  | .approval => bytes "noxa-device-approval-v1"
  | .binding => bytes "noxa-device-link-binding-v1"
  | .passkey => bytes "noxa-passkey-delegation-v1"
  | .history => bytes "noxa-history-chunk-v1"
  | .bundle => bytes "21:noxa-olm-directory-v1"
  | .reset => bytes "17:noxa-olm-reset-v1"

inductive Statement
  | login (challenge : Bytes)
  | approval (principal approverDeviceID ed25519Public x25519Public : Bytes)
  | binding (principal approverDeviceID ed25519Public x25519Public serverBinding : Bytes)
  | passkey (c : PasskeyCertificate)
  | history (h : HistoryHeader)
  | bundle (b : Bundle)
  | reset (r : Reset)

def Statement.purpose : Statement → Purpose
  | .login _ => .login
  | .approval .. => .approval
  | .binding .. => .binding
  | .passkey _ => .passkey
  | .history _ => .history
  | .bundle _ => .bundle
  | .reset _ => .reset

/-- What is signed, if the checks in front of it pass. -/
def Statement.message : Statement → Option Bytes
  | .login challenge =>
    if safeChallenge challenge then some (loginChallengeMessage challenge) else none
  | .approval principal approverDeviceID ed25519Public x25519Public =>
    some (deviceApprovalTranscript principal approverDeviceID ed25519Public x25519Public)
  | .binding principal approverDeviceID ed25519Public x25519Public serverBinding =>
    some (deviceLinkBindingTranscript principal approverDeviceID ed25519Public x25519Public
      serverBinding)
  | .passkey c => if c.fieldsOK then some c.transcript else none
  | .history h => historyChunkTranscript h
  | .bundle b => b.transcript
  | .reset r => r.transcript

open Statement

/-! ### Kinds -/

variable {m : Bytes}

section

omit [Keys]

/-- Whatever opens two messages of different kinds, it differs before either opening ends. -/
theorem Purpose.opening_injective {p q : Purpose} (hp : p.opening <+: m)
    (hq : q.opening <+: m) : p = q := by
  have hapt : ∀ p q : Purpose, p.opening <+: q.opening → p = q := by
    intro p q
    cases p <;> cases q <;> decide +kernel
  rcases prefix_or_prefix_of_prefix hp hq with h | h
  · exact hapt p q h
  · exact (hapt q p h).symm

theorem lines_opening (tag : Bytes) (fields : List Bytes) (last : Bytes) :
    tag <+: lines 10 (tag :: fields) last :=
  ⟨_, rfl⟩

theorem historyChunkTranscript_eq_some {h : HistoryHeader} {t : Bytes}
    (ht : historyChunkTranscript h = some t) : h.wellFormed = true ∧
      t = lines 10 [bytes "noxa-history-chunk-v1", h.source, h.target, h.transfer, numeral h.seq,
        numeral h.total] h.digest := by
  unfold historyChunkTranscript at ht
  split at ht
  · rename_i hwl
    exact ⟨hwl, (Option.some.inj ht).symm⟩
  · simp at ht

theorem joinFields_cons (f : String) (fields : List String) :
    joinFields (f :: fields) = bytes (numbered f.utf8ByteSize f) ++ joinFields fields := rfl

theorem length_joinFields_ge (fields : List String) :
    2 * fields.length ≤ (joinFields fields).length := by
  induction fields with
  | nil => exact Nat.zero_le _
  | cons f fields ih =>
    have hnum := length_pos_iff.mpr (numeral_ne_nil f.utf8ByteSize)
    have hcol : (bytes ":").length = 1 := rfl
    rw [joinFields_cons, numbered, bytes_append, bytes_append, length_append, length_append,
      length_append, hcol, length_cons]
    rw [numeral] at hnum
    omega

theorem break_not_mem_numeral (n : Int) : 10 ∉ numeral n := by
  intro h
  rcases mem_numeral h with h | ⟨h, -⟩ <;> exact absurd h (by decide)

theorem break_not_mem_base64 (b : Bytes) : 10 ∉ bytes (String.ofList (Base64.encode b)) := by
  have hcd := Base64.forall_mem_encode (b := b) (p := fun c => c.toNat ≤ 127 ∧ c.toNat ≠ 10)
    (by rw [Base64.alphabet_eq]; decide) (by decide)
  intro h
  exact (code_of_mem_bytes (P := (· ≠ 10)) (by simpa using hcd) 10 h).2 rfl

theorem break_not_mem_serverBinding {b : Bytes} (h : validServerBinding b = true) : 10 ∉ b := by
  simp only [validServerBinding, Bool.and_eq_true, all_eq_true, decide_eq_true_eq] at h
  obtain ⟨⟨-, hop⟩, hdg⟩ := h
  obtain ⟨rest, rfl⟩ := isPrefixOf_iff_prefix.mp hop
  intro hm
  rcases mem_append.mp hm with hm | hm
  · exact absurd hm (by decide +kernel)
  · have hdr : (bytes "tls-sha256:" ++ rest).drop 11 = rest := rfl
    rcases hdg 10 hm with hdig | hdig <;> exact absurd hdig (by decide)

theorem historyChunkTranscript_injective {h h' : HistoryHeader} {t : Bytes}
    (ht : historyChunkTranscript h = some t) (ht' : historyChunkTranscript h' = some t) :
    h' = { h with signature := h'.signature } := by
  have htag : 10 ∉ bytes "noxa-history-chunk-v1" := by decide +kernel
  have hbrk : ∀ h : HistoryHeader, h.wellFormed = true → h.v = historyEnvelopeVersion ∧
      10 ∉ h.source ∧ 10 ∉ h.target ∧ 10 ∉ h.transfer := by
    intro h hwl
    simp only [HistoryHeader.wellFormed, historyField, Bool.and_eq_true, decide_eq_true_eq] at hwl
    obtain ⟨⟨⟨⟨⟨hv, hsrc⟩, htgt⟩, htfr⟩, -⟩, -⟩ := hwl
    exact ⟨hv, hsrc.2.2.2, htgt.2.2.2, htfr.2.2.2⟩
  obtain ⟨hwl, rfl⟩ := historyChunkTranscript_eq_some ht
  obtain ⟨hwl', heq⟩ := historyChunkTranscript_eq_some ht'
  obtain ⟨hv, hsrc, htgt, htfr⟩ := hbrk h hwl
  obtain ⟨hv', hsrc', htgt', htfr'⟩ := hbrk h' hwl'
  obtain ⟨hfld, hdi⟩ := lines_injective heq rfl
    (by simp [htag, hsrc, htgt, htfr, break_not_mem_numeral])
    (by simp [htag, hsrc', htgt', htfr', break_not_mem_numeral])
  simp only [List.cons.injEq, and_true, true_and] at hfld
  obtain ⟨hs, ht, htr, hseq, htot⟩ := hfld
  have hseq := numeral_injective hseq
  have htot := numeral_injective htot
  cases h
  cases h'
  simp_all

variable {p p' a a' e e' x x' : Bytes} (hp : 10 ∉ p) (hp' : 10 ∉ p') (ha : 10 ∉ a) (ha' : 10 ∉ a')
  (hx : 10 ∉ x) (hx' : 10 ∉ x')

include hp hp' ha ha' hx hx'

theorem deviceApprovalTranscript_injective
    (h : deviceApprovalTranscript p a e x = deviceApprovalTranscript p' a' e' x') :
    p = p' ∧ a = a' ∧ e = e' ∧ x = x' := by
  have htag : 10 ∉ bytes "noxa-device-approval-v1" := by decide +kernel
  have hl : lines 10 [bytes "noxa-device-approval-v1", p, a] (e ++ 10 :: x) =
    lines 10 [bytes "noxa-device-approval-v1", p', a'] (e' ++ 10 :: x') := h
  obtain ⟨hfld, hla⟩ := lines_injective hl rfl (by simp [htag, hp, ha]) (by simp [htag, hp', ha'])
  obtain ⟨he, hxeq⟩ := append_separator_injective_right hx hx' hla
  simp only [List.cons.injEq, and_true, true_and] at hfld
  exact ⟨hfld.1, hfld.2, he, hxeq⟩

theorem deviceLinkBindingTranscript_injective {s s' : Bytes} (hs : 10 ∉ s) (hs' : 10 ∉ s')
    (h : deviceLinkBindingTranscript p a e x s = deviceLinkBindingTranscript p' a' e' x' s') :
    p = p' ∧ a = a' ∧ e = e' ∧ x = x' ∧ s = s' := by
  have htag : 10 ∉ bytes "noxa-device-link-binding-v1" := by decide +kernel
  have hl : lines 10 [bytes "noxa-device-link-binding-v1", p, a] (e ++ 10 :: (x ++ 10 :: s)) =
    lines 10 [bytes "noxa-device-link-binding-v1", p', a'] (e' ++ 10 :: (x' ++ 10 :: s')) := h
  obtain ⟨hfld, hla⟩ := lines_injective hl rfl (by simp [htag, hp, ha]) (by simp [htag, hp', ha'])
  -- the signing key may hold line breaks, so the two fields after it are cut off from the end
  have hcut : (e ++ 10 :: x) ++ 10 :: s = (e' ++ 10 :: x') ++ 10 :: s' := by simpa using hla
  obtain ⟨hex, hseq⟩ := append_separator_injective_right hs hs' hcut
  obtain ⟨he, hxeq⟩ := append_separator_injective_right hx hx' hex
  simp only [List.cons.injEq, and_true, true_and] at hfld
  exact ⟨hfld.1, hfld.2, he, hxeq, hseq⟩

end

variable {s : Statement}

theorem Statement.message_opening (h : s.message = some m) : s.purpose.opening <+: m := by
  cases s with
  | login challenge =>
    simp only [message] at h
    split at h
    · cases h
      exact ⟨challenge, rfl⟩
    · simp at h
  | approval | binding =>
    cases h
    exact lines_opening _ _ _
  | passkey =>
    simp only [message] at h
    split at h
    · cases h
      exact lines_opening _ _ _
    · simp at h
  | history =>
    obtain ⟨-, rfl⟩ := historyChunkTranscript_eq_some h
    exact lines_opening _ _ _
  | bundle =>
    obtain ⟨hwl, rfl⟩ := Bundle.transcript_eq_some h
    rw [Bundle.fields, cons_append, joinFields_cons, Bundle.version_of_wellFormed hwl]
    exact ⟨_, rfl⟩
  | reset =>
    obtain ⟨hwl, rfl⟩ := Reset.transcript_eq_some h
    rw [Reset.fields, joinFields_cons, Reset.version_of_wellFormed hwl]
    exact ⟨_, rfl⟩

/-- No message is of two kinds. -/
theorem Statement.purpose_of_message {s' : Statement} (h : s.message = some m)
    (h' : s'.message = some m) : s.purpose = s'.purpose :=
  Purpose.opening_injective (message_opening h) (message_opening h')

/-! ### Fields -/

theorem PasskeyCertificate.breaks {c : PasskeyCertificate} (h : c.fieldsOK = true) :
    ∀ f ∈ [c.principal, c.issuer, c.credentialID, c.rpID, c.origin], f ≠ [] ∧ 10 ∉ f := by
  simp only [PasskeyCertificate.fieldsOK, Bool.and_eq_true, all_eq_true] at h
  intro f hf
  have hok := h.1.1.1 f hf
  rw [fieldOK, decide_eq_true_eq] at hok
  exact ⟨hok.1, hok.2.2.2⟩

theorem PasskeyCertificate.transcript_injective {c c' : PasskeyCertificate} (h : c.fieldsOK = true)
    (h' : c'.fieldsOK = true) (heq : c.transcript = c'.transcript) :
    c' = { c with signature := c'.signature, chain := c'.chain } := by
  have htag : 10 ∉ bytes "noxa-passkey-delegation-v1" := by decide +kernel
  have hbrk := PasskeyCertificate.breaks h
  have hbrk' := PasskeyCertificate.breaks h'
  simp only [forall_mem_cons, not_mem_nil, false_implies, implies_true, and_true] at hbrk hbrk'
  obtain ⟨hfld, hal⟩ := lines_injective heq rfl
    (by simp [htag, hbrk, break_not_mem_base64]) (by simp [htag, hbrk', break_not_mem_base64])
  simp only [List.cons.injEq, and_true, true_and] at hfld
  obtain ⟨hpn, his, hcr, hk, hrp, hor⟩ := hfld
  have hpub : c.publicKey = c'.publicKey :=
    Base64.encode_injective (String.ofList_injective (bytes_injective hk))
  have halg : c.algorithm = c'.algorithm := numeral_injective hal
  cases c
  cases c'
  simp_all

/-! ### Lengths -/

/-- What an approval or a binding statement gives as the signing key is one. -/
def Statement.AboutKeys : Statement → Prop
  | .approval _ _ ed25519Public _ => (loadPublicKey ed25519Public).isSome
  | .binding _ _ ed25519Public _ _ => (loadPublicKey ed25519Public).isSome
  | _ => True

theorem length_of_loadPublicKey {text : Bytes} (h : (loadPublicKey text).isSome) :
    11 ≤ text.length := by
  unfold loadPublicKey at h
  split at h
  · simp at h
  · rename_i type key hpem
    exact (Keys.pem_opening text _ hpem).length_le

theorem Statement.length_ne (hks : s.AboutKeys)
    (h : s.message = some m) : m.length ≠ loginChallengeSize := by
  have hop := (message_opening h).length_le
  rw [loginChallengeSize]
  cases s with
  | login =>
    simp only [message] at h
    split at h
    · rename_i hsf
      cases h
      have hdom : loginChallengeDomain.length = 23 := rfl
      simp only [safeChallenge, Bool.and_eq_true, loginChallengeSize] at hsf
      rw [loginChallengeMessage, length_append, hdom, of_decide_eq_true hsf.1]
      omega
    · simp at h
  | approval =>
    cases h
    have hk := length_of_loadPublicKey hks
    have htag : (bytes "noxa-device-approval-v1").length = 23 := rfl
    simp only [deviceApprovalTranscript, length_lines, map_cons, map_nil, sum_cons,
      sum_nil, length_cons, length_nil, htag]
    omega
  | binding =>
    cases h
    have hk := length_of_loadPublicKey hks
    have htag : (bytes "noxa-device-link-binding-v1").length = 27 := rfl
    simp only [deviceLinkBindingTranscript, length_lines, map_cons, map_nil,
      sum_cons, sum_nil, length_cons, length_nil, htag]
    omega
  | passkey =>
    simp only [message] at h
    split at h
    · rename_i hok
      cases h
      have hfld := fun f hf => length_pos_iff.mpr (PasskeyCertificate.breaks hok f hf).1
      simp only [forall_mem_cons] at hfld
      have htag : (bytes "noxa-passkey-delegation-v1").length = 26 := rfl
      simp only [PasskeyCertificate.transcript, length_lines, map_cons, map_nil,
        sum_cons, sum_nil, length_cons, length_nil, htag]
      omega
    · simp at h
  | history =>
    obtain ⟨hwl, rfl⟩ := historyChunkTranscript_eq_some h
    simp only [HistoryHeader.wellFormed, Bool.and_eq_true, decide_eq_true_eq] at hwl
    simp only [length_lines, hwl.2]
    omega
  | bundle b =>
    obtain ⟨hwl, rfl⟩ := Bundle.transcript_eq_some h
    have hrs := length_joinFields_ge (b.fields.drop 1)
    have hver : (bytes (numbered version.utf8ByteSize version)).length = 24 := rfl
    have hfld : b.fields = version :: b.fields.drop 1 :=
      congrArg (· :: b.fields.drop 1) (Bundle.version_of_wellFormed hwl)
    have hcnt : 11 ≤ (b.fields.drop 1).length := by simp [Bundle.fields]
    rw [hfld, joinFields_cons, length_append, hver]
    omega
  | reset r =>
    obtain ⟨hwl, rfl⟩ := Reset.transcript_eq_some h
    have hrs := length_joinFields_ge (r.fields.drop 1)
    have hver : (bytes (numbered resetVersion.utf8ByteSize resetVersion)).length = 20 := rfl
    have hfld : r.fields = resetVersion :: r.fields.drop 1 :=
      congrArg (· :: r.fields.drop 1) (Reset.version_of_wellFormed hwl)
    have hcnt : (r.fields.drop 1).length = 13 := rfl
    rw [hfld, joinFields_cons, length_append, hver]
    omega

/-! ### Directory records and history headers -/

/-- A header as it leaves the encoder or the decoder. -/
def HistoryHeader.Accepted (h : HistoryHeader) : Prop :=
  (∃ h₀ records sign plain, encodeHistoryChunk h₀ records sign = some (h, plain)) ∨
    ∃ plain records, decodeHistoryChunk plain = some (h, records)

theorem HistoryHeader.Accepted.transcript {h : HistoryHeader} (hacc : h.Accepted) :
    ∃ t, historyChunkTranscript h = some t := by
  rcases hacc with ⟨h₀, records, sign, plain, henc⟩ | ⟨plain, records, hd⟩
  · simp only [encodeHistoryChunk, Option.bind_eq_bind, Option.bind_eq_some_iff, Option.pure_def,
      Option.some.injEq, Prod.mk.injEq] at henc
    obtain ⟨t, ht, signature, -, head, -, rfl, -⟩ := henc
    exact ⟨t, ht⟩
  · unfold decodeHistoryChunk at hd
    split at hd
    · simp only [Option.bind_eq_bind, Option.bind_eq_some_iff] at hd
      obtain ⟨h', -, t, ht, hd⟩ := hd
      split at hd
      · obtain ⟨rfl, -⟩ := Prod.mk.inj (Option.some.inj hd)
        exact ⟨t, ht⟩
      · simp at hd
    · simp at hd

/-- **Transcripts determine what was signed.** Bundles, resets and accepted history headers with one
transcript agree in everything but the signature, and no transcript is of two of these kinds. -/
theorem transcripts_injective :
    (∀ (b b' : Bundle) t, b.transcript = some t → b'.transcript = some t →
      b' = { b with signature := b'.signature }) ∧
    (∀ (r r' : Reset) t, r.transcript = some t → r'.transcript = some t →
      r' = { r with signature := r'.signature }) ∧
    (∀ (b : Bundle) (r : Reset) t, b.transcript = some t → r.transcript ≠ some t) ∧
    (∀ h : HistoryHeader, h.Accepted → ∃ t, historyChunkTranscript h = some t ∧
      (∀ h' : HistoryHeader, h'.Accepted → historyChunkTranscript h' = some t →
        h' = { h with signature := h'.signature }) ∧
      (∀ b : Bundle, b.transcript ≠ some t) ∧ ∀ r : Reset, r.transcript ≠ some t) := by
  refine ⟨fun b b' t => Bundle.transcript_injective, fun r r' t => Reset.transcript_injective,
    fun b r t hb hr => ?_, fun h hacc => ?_⟩
  · have hkd : (bundle b).purpose = (reset r).purpose :=
      purpose_of_message hb hr
    simp [purpose] at hkd
  · obtain ⟨t, ht⟩ := hacc.transcript
    refine ⟨t, ht, fun h' _ ht' => historyChunkTranscript_injective ht ht', fun b hb => ?_,
      fun r hr => ?_⟩
    · have hkd : (history h).purpose = (bundle b).purpose :=
        purpose_of_message ht hb
      simp [purpose] at hkd
    · have hkd : (history h).purpose = (reset r).purpose :=
        purpose_of_message ht hr
      simp [purpose] at hkd

/-! ### Every kind -/

/-- What is accepted as an answer to a challenge is a signature over one of two messages, neither of
which is signed for another purpose. -/
theorem purpose_of_verifyLoginChallenge {publicKey challenge signature : Bytes}
    (hsz : challenge.length = loginChallengeSize)
    (h : verifyLoginChallenge publicKey challenge signature = true) :
    ∃ m, verifyChallenge publicKey m signature = true ∧
      (m = loginChallengeMessage challenge ∨ m = challenge) ∧
      ∀ s : Statement, s.AboutKeys → s.message = some m → s.purpose = .login := by
  rw [verifyLoginChallenge, Bool.and_eq_true, Bool.or_eq_true] at h
  rcases h.2 with hnew | hleg
  · refine ⟨_, hnew, .inl rfl, fun s _ hmsg => ?_⟩
    exact Purpose.opening_injective (message_opening hmsg) ⟨challenge, rfl⟩
  · exact ⟨_, hleg, .inr rfl, fun s hks hmsg => absurd hsz (length_ne hks hmsg)⟩

theorem message_of_signLoginChallenge {privateKey challenge signature : Bytes}
    (h : signLoginChallenge privateKey challenge = some signature) :
    ∃ m key, (login challenge).message = some m ∧ loadPrivateKey privateKey = some key ∧
      signature = Keys.sign key m := by
  rw [signLoginChallenge, signChallenge] at h
  split at h
  · rename_i hsf
    split at h
    · simp at h
    · rename_i key hk
      split at h
      · simp at h
      · exact ⟨_, key, if_pos hsf, hk, (Option.some.inj h).symm⟩
  · simp at h

theorem message_of_certificateIssuer {c : PasskeyCertificate} {principal pinned key : Bytes}
    (h : certificateIssuer c principal pinned = some key) :
    ∃ m, (passkey c).message = some m ∧ Signatures.verifies key m c.signature = true := by
  unfold certificateIssuer at h
  split at h
  · rename_i hfld
    refine ⟨_, if_pos hfld.2.2.2.2.1, ?_⟩
    grind
  · simp at h

omit [Keys] in
/-- Statements about texts that are no keys can have the length of a challenge. -/
theorem statements_of_challenge_size :
    (deviceLinkBindingTranscript [] [] [] [] []).length = loginChallengeSize ∧
      (deviceApprovalTranscript (bytes "p") (bytes "a") (bytes "e") (bytes "xx")).length
        = loginChallengeSize :=
  ⟨rfl, rfl⟩

/-- **A signature serves one purpose.** No message is of two kinds. No message has the length of a
challenge, if approvals and binding statements are about public keys, so only a signature over a
login message or over the challenge itself answers a challenge. Approvals, binding statements and
certificates determine their fields. -/
theorem identity_signatures_single_purpose :
    (∀ (s s' : Statement) m, s.message = some m → s'.message = some m → s.purpose = s'.purpose) ∧
    (∀ (s : Statement) m, s.AboutKeys → s.message = some m → m.length ≠ loginChallengeSize) ∧
    (∀ publicKey challenge signature : Bytes, challenge.length = loginChallengeSize →
      verifyLoginChallenge publicKey challenge signature = true →
        ∃ m, verifyChallenge publicKey m signature = true ∧
          (m = loginChallengeMessage challenge ∨ m = challenge) ∧
          ∀ s : Statement, s.AboutKeys → s.message = some m → s.purpose = .login) ∧
    (∀ privateKey challenge signature : Bytes,
      signLoginChallenge privateKey challenge = some signature →
        ∃ m key, (login challenge).message = some m ∧ loadPrivateKey privateKey = some key ∧
          signature = Keys.sign key m) ∧
    (∀ (c : PasskeyCertificate) (principal pinned key : Bytes),
      certificateIssuer c principal pinned = some key →
        ∃ m, (passkey c).message = some m ∧ Signatures.verifies key m c.signature = true) ∧
    (∀ p a e x p' a' e' x' : Bytes, 10 ∉ p → 10 ∉ a → 10 ∉ x → 10 ∉ p' → 10 ∉ a' → 10 ∉ x' →
      deviceApprovalTranscript p a e x = deviceApprovalTranscript p' a' e' x' →
        p = p' ∧ a = a' ∧ e = e' ∧ x = x') ∧
    (∀ p a e x b p' a' e' x' b' : Bytes, 10 ∉ p → 10 ∉ a → 10 ∉ x → validServerBinding b = true →
      10 ∉ p' → 10 ∉ a' → 10 ∉ x' → validServerBinding b' = true →
      deviceLinkBindingTranscript p a e x b = deviceLinkBindingTranscript p' a' e' x' b' →
        p = p' ∧ a = a' ∧ e = e' ∧ x = x' ∧ b = b') ∧
    ∀ c c' : PasskeyCertificate, c.fieldsOK = true → c'.fieldsOK = true →
      c.transcript = c'.transcript →
        c' = { c with signature := c'.signature, chain := c'.chain } := by
  refine ⟨fun s s' m => purpose_of_message, fun s m => length_ne,
    fun publicKey challenge signature => purpose_of_verifyLoginChallenge,
    fun privateKey challenge signature => message_of_signLoginChallenge,
    fun c principal pinned key => message_of_certificateIssuer, ?_, ?_,
    fun c c' => PasskeyCertificate.transcript_injective⟩
  · intro p a e x p' a' e' x' hp ha hx hp' ha' hx'
    exact deviceApprovalTranscript_injective hp hp' ha ha' hx hx'
  · intro p a e x b p' a' e' x' b' hp ha hx hb hp' ha' hx' hb'
    exact deviceLinkBindingTranscript_injective hp hp' ha ha' hx hx'
      (break_not_mem_serverBinding hb) (break_not_mem_serverBinding hb')

end Noxa.Identity

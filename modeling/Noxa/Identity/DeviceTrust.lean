import Noxa.Identity.Trust

/-!
# Two readers of a device listing

`devicetrust.Verify` reads the entries of a listing as Go does, `trustedDevices` of
`mobile/src/core/dm-trust.js` as a browser does: lengths are counted in UTF-16 units, base64 is
decoded loosely and compared with its canonical spelling afterwards, and PEM is taken apart with
regular expressions. Both walk the listing with `Checks.listing`. The validators of keys and the
verification of signatures are taken to be the same functions on both sides.

## Main definitions

* `checks`, `verify` — the reader in Go
* `Browser.checks`, `trustedDevices` — the reader in a browser
* `DMDevice.Canonical`, `DMDevice.wire` — entries that both can read

## Main results

* `verify_approval_closure` — what `verify` accepts and returns, and that the browser agrees
-/

namespace Noxa.Identity

open Directory Text List Base64

section Definitions

variable [Keys]

/-! ### In Go -/

/-- The entry is not revoked and its keys are canonical and valid. -/
def usable (d : DMDevice) : Option TrustedDevice :=
  if 256 < d.ed25519Public.utf8ByteSize ∨ d.x25519Public.utf8ByteSize ≠ 44 then none
  else
    match loadPublicKey (bytes d.ed25519Public), Base64.decode d.x25519Public.toList with
    | some k, some x =>
      if d.revokedAt ≠ 0 ∨ x.length ≠ 32 ∨ Base64.encode x ≠ d.x25519Public.toList ∨
          validSigning (String.ofList (Base64.encodeRaw k)) = false ∨
          validCurve (String.ofList (Base64.encodeRaw x)) = false then none
      else some ⟨d.deviceID, d.kind, k, x, d.firstDevice⟩
    | _, _ => none

def checks (principal : String) : Checks DMDevice where
  id := DMDevice.deviceID
  first := DMDevice.firstDevice
  approvedBy := DMDevice.approvedBy
  validID := validText
  usable := usable
  approves key d := decide (d.approvalSignature.length = 64) &&
    Signatures.verifies key.signing (d.approval (bytes principal)) d.approvalSignature

/-- The first device holds the keys of the account. -/
def pinned (signing encryption : Bytes) (first : TrustedDevice) : Bool :=
  decide (signing.length = 32 ∧ first.signing = signing ∧ first.encryption = encryption)

/-- `devicetrust.Verify`, with a bound on its rounds. A refused listing is `some none`. -/
def verify (rounds : ℕ) (principal : String) (signing encryption : Bytes) (list : List DMDevice) :
    Option (Option (List TrustedDevice)) :=
  if validText principal = false ∨ 64 < list.length then some none
  else if list = [] then some (some [])
  else (checks principal).listing (pinned signing encryption) rounds list

/-! ### In a browser -/

/-- An entry as it is sent: the signature is a text. -/
structure WireDevice where
  revokedAt : Int
  deviceID : String
  kind : String
  ed25519Public : String
  x25519Public : String
  firstDevice : Bool
  approvedBy : String
  approvalSignature : String
  deriving DecidableEq, Repr

namespace Browser

/-- The encoder never fails on a text without lone surrogates. -/
def validText (s : String) : Bool :=
  decide (utf16Length s ≤ 128) && decide (0 < s.utf8ByteSize) && decide (s.utf8ByteSize ≤ 128) &&
    !s.toList.any isControl

def openingMark : List Char := "-----BEGIN PUBLIC KEY-----".toList

def closingMark : List Char := "-----END PUBLIC KEY-----".toList

/-- Remove every mark, from left to right. The number counts the characters of a mark that are still
to be skipped. -/
def removeMarks : ℕ → List Char → List Char
  | _, [] => []
  | skip + 1, _ :: cs => removeMarks skip cs
  | 0, c :: cs =>
    if openingMark.isPrefixOf (c :: cs) then removeMarks (openingMark.length - 1) cs
    else if closingMark.isPrefixOf (c :: cs) then removeMarks (closingMark.length - 1) cs
    else c :: removeMarks 0 cs

def ed25519FromPEM (pem : String) : Option Bytes :=
  match Base64.atob ((removeMarks 0 pem.toList).filter fun c => !isWhiteSpace c) with
  | none => none
  | some raw => if raw.length = 32 then some raw else none

def approvalTranscript (principal approverID edPublicPEM xPublicB64 : String) : Bytes :=
  bytes ("noxa-device-approval-v1\n" ++ principal ++ "\n" ++ approverID ++ "\n" ++ edPublicPEM ++
    "\n" ++ xPublicB64)

/-- The padding is dropped from the end with a regular expression. -/
def unpadded (b : Bytes) : String := String.ofList ((Base64.encode b).rdropWhile (· = '='))

def usable (d : WireDevice) : Option TrustedDevice :=
  if 256 < utf16Length d.ed25519Public ∨ utf16Length d.x25519Public ≠ 44 then none
  else
    match ed25519FromPEM d.ed25519Public, Base64.atob d.x25519Public.toList with
    | some k, some x =>
      if d.revokedAt ≠ 0 ∨ Base64.encode x ≠ d.x25519Public.toList ∨
          validSigning (unpadded k) = false ∨ validCurve (unpadded x) = false then none
      else some ⟨d.deviceID, d.kind, k, x, d.firstDevice⟩
    | _, _ => none

def checks (principal : String) : Checks WireDevice where
  id := WireDevice.deviceID
  first := WireDevice.firstDevice
  approvedBy := WireDevice.approvedBy
  validID := validText
  usable := usable
  approves key d :=
    match Base64.atob d.approvalSignature.toList with
    | none => false
    | some signature =>
      decide (signature.length = 64) &&
        decide (Base64.encode signature = d.approvalSignature.toList) &&
        Signatures.verifies key.signing
          (approvalTranscript principal d.approvedBy d.ed25519Public d.x25519Public) signature

/-- The first device holds the keys of the account. -/
def pinned (signing encryption : Bytes) (root : TrustedDevice) : Bool :=
  decide (root.signing = signing ∧ root.encryption = encryption)

end Browser

/-- A refused listing gives no devices. -/
def trustedDevices (rounds : ℕ) (principal : String) (devices : List WireDevice)
    (pinnedSigningKey authenticatedEncryptionKey : Bytes) : Option (List TrustedDevice) :=
  if Browser.validText principal = false ∨ 64 < devices.length then some []
  else ((Browser.checks principal).listing
    (Browser.pinned pinnedSigningKey authenticatedEncryptionKey) rounds devices).map (·.getD [])

end Definitions

/-- What is asked of an entry in Go. -/
theorem usable_inv [Keys] {d : DMDevice} {device : TrustedDevice} (h : usable d = some device) :
    ∃ k x, loadPublicKey (bytes d.ed25519Public) = some k ∧ d.revokedAt = 0 ∧
      Base64.encode x = d.x25519Public.toList ∧
      validSigning (String.ofList (Base64.encodeRaw k)) = true ∧
      validCurve (String.ofList (Base64.encodeRaw x)) = true ∧
      device = ⟨d.deviceID, d.kind, k, x, d.firstDevice⟩ := by
  rw [usable] at h
  split at h
  · simp at h
  split at h
  · rename_i k x hk hx
    split at h
    · simp at h
    rename_i hchk
    simp only [not_or, ne_eq, not_not, Bool.not_eq_false] at hchk
    obtain ⟨hcur, -, hs, hsgn, hcrv⟩ := hchk
    exact ⟨k, x, hk, hcur, hs, hsgn, hcrv, (Option.some.inj h).symm⟩
  · simp at h

/-! ### Entries both can read -/

/-- The key is in the canonical spelling. -/
def DMDevice.Canonical (d : DMDevice) : Prop :=
  ∃ key : Bytes, key.length = 32 ∧ bytes d.ed25519Public = publicKeyPEM key

/-- The entry as it is sent, with the canonical spelling of the signature. -/
def DMDevice.wire (d : DMDevice) : WireDevice where
  revokedAt := d.revokedAt
  deviceID := d.deviceID
  kind := d.kind
  ed25519Public := d.ed25519Public
  x25519Public := d.x25519Public
  firstDevice := d.firstDevice
  approvedBy := d.approvedBy
  approvalSignature := String.ofList (Base64.encode d.approvalSignature)

theorem Browser.validText_eq (s : String) : Browser.validText s = Directory.validText s := by
  have hl := utf16Length_le s
  have he : 0 < s.utf8ByteSize ↔ s ≠ "" := by
    rw [Nat.pos_iff_ne_zero, ne_eq, String.utf8ByteSize_eq_zero_iff]
  rw [Bool.eq_iff_iff, Browser.validText, Directory.validText]
  simp only [Bool.and_eq_true, decide_eq_true_eq, he]
  constructor
  · rintro ⟨⟨⟨-, hne⟩, hsz⟩, hctl⟩
    exact ⟨hne, hsz, by simpa using hctl⟩
  · rintro ⟨hne, hsz, hctl⟩
    exact ⟨⟨⟨by omega, hne⟩, hsz⟩, by simpa using hctl⟩

theorem Browser.unpadded_eq (b : Bytes) :
    Browser.unpadded b = String.ofList (Base64.encodeRaw b) := by
  rw [Browser.unpadded, rdropWhile_encode]

/-- The canonical spelling, as a text. -/
def publicKeyText (key : Bytes) : String :=
  String.ofList (Browser.openingMark ++ ('\n' :: Base64.encode key ++ ['\n']) ++
    (Browser.closingMark ++ ['\n']))

theorem publicKeyPEM_eq_bytes (key : Bytes) : publicKeyPEM key = bytes (publicKeyText key) := by
  have hop : "-----BEGIN PUBLIC KEY-----\n" =
      String.ofList (Browser.openingMark ++ ['\n']) := by decide
  have hcls : "\n-----END PUBLIC KEY-----\n" =
      String.ofList ('\n' :: (Browser.closingMark ++ ['\n'])) := by decide
  have htx : publicKeyText key = String.ofList (Browser.openingMark ++ ['\n']) ++
      String.ofList (Base64.encode key) ++
      String.ofList ('\n' :: (Browser.closingMark ++ ['\n'])) := by
    rw [publicKeyText, ← String.ofList_append, ← String.ofList_append]
    simp
  rw [publicKeyPEM, hop, hcls, htx, bytes_append, bytes_append]

theorem DMDevice.Canonical.exists_eq {d : DMDevice} (h : d.Canonical) :
    ∃ key : Bytes, key.length = 32 ∧ d.ed25519Public = publicKeyText key := by
  obtain ⟨key, hl, hkey⟩ := h
  exact ⟨key, hl, bytes_injective (hkey.trans (publicKeyPEM_eq_bytes key))⟩

namespace Browser

theorem removeMarks_cons {c : Char} (hc : c ≠ '-') (cs : List Char) :
    removeMarks 0 (c :: cs) = c :: removeMarks 0 cs := by
  have hmk : ∀ mark : List Char, mark.head? = some '-' → mark.isPrefixOf (c :: cs) = false := by
    intro mark hmk
    cases mark with
    | nil => simp at hmk
    | cons m mark =>
      rw [List.head?_cons, Option.some.injEq] at hmk
      rw [List.isPrefixOf, hmk, Bool.and_eq_false_iff]
      exact .inl (by simpa using fun h => hc h.symm)
  rw [removeMarks, hmk openingMark (by decide), hmk closingMark (by decide)]
  rfl

theorem removeMarks_append {cs : List Char} (hcs : '-' ∉ cs) (rest : List Char) :
    removeMarks 0 (cs ++ rest) = cs ++ removeMarks 0 rest := by
  induction cs with
  | nil => rfl
  | cons c cs ih =>
    rw [mem_cons, not_or] at hcs
    rw [cons_append, removeMarks_cons (fun h => hcs.1 h.symm), ih hcs.2, cons_append]

theorem removeMarks_skip (skipped rest : List Char) :
    removeMarks skipped.length (skipped ++ rest) = removeMarks 0 rest := by
  induction skipped with
  | nil => rfl
  | cons c skipped ih =>
    rw [length_cons, cons_append, removeMarks]
    exact ih

theorem removeMarks_mark {mark : List Char} (h : mark = openingMark ∨ mark = closingMark)
    (rest : List Char) : removeMarks 0 (mark ++ rest) = removeMarks 0 rest := by
  have hmk : mark.isPrefixOf (mark ++ rest) = true := by
    rw [ isPrefixOf_iff_prefix]
    exact prefix_append _ _
  have hcn : mark ++ rest = '-' :: (mark.tail ++ rest) := by rcases h with rfl | rfl <;> rfl
  rw [hcn] at hmk ⊢
  rw [removeMarks]
  rcases h with rfl | rfl
  · rw [if_pos hmk]
    exact removeMarks_skip openingMark.tail rest
  · have hop : openingMark.isPrefixOf ('-' :: (closingMark.tail ++ rest)) = false := rfl
    rw [hop, if_neg (by simp), if_pos hmk]
    exact removeMarks_skip closingMark.tail rest

/-- A browser takes the canonical spelling apart. -/
theorem ed25519FromPEM_publicKeyText {key : Bytes} (hkey : key.length = 32) :
    ed25519FromPEM (publicKeyText key) = some key := by
  have hbd : '-' ∉ '\n' :: Base64.encode key ++ ['\n'] := by
    have hds := forall_mem_encode (b := key) (p := (· != '-')) (by rw [alphabet_eq]; decide)
      (by decide)
    simp only [cons_append, mem_cons, mem_append, not_mem_nil, or_false]
    rintro (h | h | h)
    · exact absurd h (by decide)
    · exact absurd (hds _ h) (by decide)
    · exact absurd h (by decide)
  have hm : removeMarks 0 (publicKeyText key).toList =
      ('\n' :: Base64.encode key ++ ['\n']) ++ ['\n'] := by
    rw [publicKeyText, String.toList_ofList, append_assoc, removeMarks_mark (.inl rfl),
      removeMarks_append hbd, removeMarks_mark (.inr rfl)]
    rfl
  have hsp : (removeMarks 0 (publicKeyText key).toList).filter (fun c => !isWhiteSpace c) =
      Base64.encode key := by
    have hbre : isWhiteSpace '\n' = true := by decide
    have hkp := filter_encode (p := fun c => !isWhiteSpace c)
      (by rw [alphabet_eq]; decide) (by decide) key
    rw [hm]
    simp [hbre, hkp]
  rw [ed25519FromPEM, hsp, atob_encode]
  exact if_pos hkey

/-! ### Both read the same -/

theorem ascii_publicKeyText (key : Bytes) : ∀ c ∈ (publicKeyText key).toList, c.toNat ≤ 127 := by
  have hm : (openingMark ++ closingMark).all (fun c => decide (c.toNat ≤ 127)) = true := by
    decide
  have hmk : ∀ c ∈ openingMark ++ closingMark, c.toNat ≤ 127 :=
    fun c hc => of_decide_eq_true (all_eq_true.mp hm c hc)
  intro c hc
  rw [publicKeyText, String.toList_ofList] at hc
  simp only [cons_append, mem_cons, mem_append, not_mem_nil, or_false] at hc
  rcases hc with (h | rfl | h | rfl) | h | rfl
  · exact hmk c (mem_append_left _ h)
  · decide
  · exact ascii_of_mem_encode h
  · decide
  · exact hmk c (mem_append_right _ h)
  · decide

theorem length_publicKeyText {key : Bytes} (hkey : key.length = 32) :
    (publicKeyText key).toList.length ≤ 256 := by
  have hop : openingMark.length = 26 := by decide
  have hcls : closingMark.length = 24 := by decide
  rw [publicKeyText, String.toList_ofList]
  simp only [length_append, length_cons, length_nil, length_encode, hkey, hop, hcls]
  omega

theorem raw_encodeRaw {b b' : Bytes} {n : ℕ}
    (h : raw (String.ofList (Base64.encodeRaw b)) n = some b') : b'.length = n ∧ b' = b := by
  rw [raw] at h
  split at h
  · simp at h
  split at h
  · simp at h
  rename_i b'' _
  split at h
  · rename_i hb
    cases h
    rw [filter_pad_encode, String.toList_ofList] at hb
    exact ⟨hb.1, encodeRaw_injective hb.2⟩
  · simp at h

theorem approvalTranscript_eq (principal : String) (d : DMDevice) :
    approvalTranscript principal d.approvedBy d.ed25519Public d.x25519Public =
      d.approval (bytes principal) := by
  have hbre : bytes "\n" = [10] := by decide
  have hdom : bytes "noxa-device-approval-v1\n" = bytes "noxa-device-approval-v1" ++ [10] := by
    decide
  rw [approvalTranscript, DMDevice.approval, deviceApprovalTranscript]
  simp only [bytes_append, hbre, hdom, Framing.lines_cons, Framing.lines_nil,
    append_assoc, cons_append, nil_append]

section Agree

variable [Keys] {x key : Bytes} {d : DMDevice} {device : TrustedDevice} (hkey : key.length = 32)
  (hd : d.ed25519Public = publicKeyText key)

/-- A curve key that is valid has the length of one. -/
theorem length_of_validCurve (h : validCurve (String.ofList (Base64.encodeRaw x)) = true) :
    x.length = 32 := by
  rw [validCurve] at h
  split at h
  · simp at h
  · rename_i b hb
    obtain ⟨hl, rfl⟩ := raw_encodeRaw hb
    exact hl

/-- A valid key passes the test against points of small order. -/
theorem loadPublicKey_publicKeyPEM (hkey : key.length = 32)
    (hv : validSigning (String.ofList (Base64.encodeRaw key)) = true) :
    loadPublicKey (publicKeyPEM key) = some key := by
  have hpo : Crypto.signingPoint key = true := by
    rw [validSigning] at hv
    split at hv
    · simp at hv
    · rename_i b hb
      obtain ⟨-, rfl⟩ := raw_encodeRaw hb
      exact hv
  rw [loadPublicKey, Keys.pem_publicKeyPEM key hkey]
  exact if_pos ⟨rfl, hkey, Keys.smallOrder_of_signingPoint key hpo⟩

theorem key_of_loadPublicKey {k : Bytes} (hkey : key.length = 32)
    (h : loadPublicKey (publicKeyPEM key) = some k) : k = key := by
  rw [loadPublicKey, Keys.pem_publicKeyPEM key hkey] at h
  dsimp only at h
  split at h
  · exact (Option.some.inj h).symm
  · simp at h

/-- What both ask of an entry with a canonical key. -/
structure Usable (d : DMDevice) (key x : Bytes) : Prop where
  current : d.revokedAt = 0
  spelled : Base64.encode x = d.x25519Public.toList
  signing : validSigning (String.ofList (Base64.encodeRaw key)) = true
  curve : validCurve (String.ofList (Base64.encodeRaw x)) = true

theorem Usable.ascii (h : Usable d key x) : ∀ c ∈ d.x25519Public.toList, c.toNat ≤ 127 := by
  intro c hc
  rw [← h.spelled] at hc
  exact ascii_of_mem_encode hc

theorem Usable.length (h : Usable d key x) : d.x25519Public.toList.length = 44 := by
  rw [← h.spelled, length_encode, length_of_validCurve h.curve]

include hkey hd in
theorem usable_eq_some : Identity.usable d = some device ↔
      ∃ x, Usable d key x ∧ device = ⟨d.deviceID, d.kind, key, x, d.firstDevice⟩ := by
  have hsz : ¬ 256 < d.ed25519Public.utf8ByteSize := by
    rw [hd, utf8ByteSize_of_ascii (ascii_publicKeyText key)]
    exact Nat.not_lt.mpr (length_publicKeyText hkey)
  have hby : bytes d.ed25519Public = publicKeyPEM key := by
    rw [hd, publicKeyPEM_eq_bytes]
  constructor
  · intro h
    obtain ⟨k, x, hk, hcur, hs, hsgn, hcrv, rfl⟩ := usable_inv h
    rw [hby] at hk
    obtain rfl := key_of_loadPublicKey hkey hk
    exact ⟨x, ⟨hcur, hs, hsgn, hcrv⟩, rfl⟩
  · rintro ⟨x, hx, rfl⟩
    have hl : d.x25519Public.utf8ByteSize = 44 := by
      rw [utf8ByteSize_of_ascii hx.ascii, hx.length]
    rw [Identity.usable, if_neg (by simp [hsz, hl]), hby,
      loadPublicKey_publicKeyPEM hkey hx.signing, ← hx.spelled, decode_encode]
    exact if_neg (by simp [hx.current, hx.signing, hx.curve, length_of_validCurve hx.curve])

include hkey hd in
theorem usable_wire_eq_some : usable d.wire = some device ↔
      ∃ x, Usable d key x ∧ device = ⟨d.deviceID, d.kind, key, x, d.firstDevice⟩ := by
  have hsz : ¬ 256 < utf16Length d.ed25519Public := by
    rw [hd, utf16Length_of_ascii (ascii_publicKeyText key)]
    exact Nat.not_lt.mpr (length_publicKeyText hkey)
  have hpem : ed25519FromPEM d.wire.ed25519Public = some key := by
    rw [DMDevice.wire, hd, ed25519FromPEM_publicKeyText hkey]
  constructor
  · intro h
    rw [usable, hpem] at h
    split at h
    · simp at h
    split at h
    · rename_i k x hk hx
      cases hk
      split at h
      · simp at h
      rename_i hchk
      simp only [not_or, ne_eq, not_not, Bool.not_eq_false, unpadded_eq] at hchk
      obtain ⟨hcur, hs, hsgn, hcrv⟩ := hchk
      exact ⟨x, ⟨hcur, hs, hsgn, hcrv⟩, (Option.some.inj h).symm⟩
    · simp at h
  · rintro ⟨x, hx, rfl⟩
    have hl : utf16Length d.x25519Public = 44 := by
      rw [utf16Length_of_ascii hx.ascii, hx.length]
    have hx' : Base64.atob d.wire.x25519Public.toList = some x := by
      rw [DMDevice.wire, ← hx.spelled, atob_encode]
    rw [usable, if_neg (by simp [DMDevice.wire, hsz, hl]), hpem, hx']
    exact if_neg (by
      simp [DMDevice.wire, hx.current, hx.spelled, hx.signing, hx.curve, unpadded_eq])

theorem usable_wire (hd : d.Canonical) : usable d.wire = Identity.usable d := by
  obtain ⟨key, hkey, hd⟩ := hd.exists_eq
  refine Option.ext fun device => ?_
  rw [usable_eq_some hkey hd, usable_wire_eq_some hkey hd]

theorem approves_wire (principal : String) (key : TrustedDevice) (d : DMDevice) :
    (checks principal).approves key d.wire = (Identity.checks principal).approves key d := by
  have hsig : d.wire.approvalSignature.toList = Base64.encode d.approvalSignature :=
    String.toList_ofList
  have htsc : approvalTranscript principal d.wire.approvedBy d.wire.ed25519Public
      d.wire.x25519Public = d.approval (bytes principal) := approvalTranscript_eq principal d
  simp only [checks, Identity.checks, hsig, atob_encode, htsc, decide_true, Bool.and_true]

/-- Entries with canonical keys are the same to both. -/
theorem checks_agree (principal : String) :
    (checks principal).comap (fun d : Subtype DMDevice.Canonical => d.1.wire) =
      (Identity.checks principal).comap (fun d : Subtype DMDevice.Canonical => d.1) := by
  have hv : validText = Directory.validText := funext validText_eq
  have hus : (fun d : Subtype DMDevice.Canonical => usable d.1.wire) =
      fun d : Subtype DMDevice.Canonical => Identity.usable d.1 := funext fun d => usable_wire d.2
  have happroves : (fun key (d : Subtype DMDevice.Canonical) =>
      (checks principal).approves key d.1.wire) =
      fun key (d : Subtype DMDevice.Canonical) => (Identity.checks principal).approves key d.1 :=
    funext fun key => funext fun d => approves_wire principal key d.1
  simp only [Checks.comap, happroves]
  simp only [checks, Identity.checks, hv, hus]
  rfl

end Agree

end Browser

/-! ### What is accepted and returned -/

section Main

variable [Keys]

theorem checks_lawful (principal : String) : (checks principal).Lawful where
  nonempty := show validText "" = false by decide
  id d device h := by
    obtain ⟨k, x, -, -, -, -, -, rfl⟩ := usable_inv h
    rfl

theorem length_key_of_loadPublicKey {text k : Bytes} (h : loadPublicKey text = some k) :
    k.length = 32 := by
  rw [loadPublicKey] at h
  split at h
  · simp at h
  split at h
  · rename_i hkey
    cases h
    exact hkey.2.1
  · simp at h

variable {list : List DMDevice} {principal : String} {signing encryption : Bytes} {rounds : ℕ}

/-- A browser finds the same devices, and none where Go refuses. -/
theorem trustedDevices_wire (hls : ∀ d ∈ list, d.Canonical) :
    trustedDevices rounds principal (list.map DMDevice.wire) signing encryption =
      (verify rounds principal signing encryption list).map (·.getD []) := by
  have hatt : (list.attachWith DMDevice.Canonical hls).map (fun d => d.1) = list :=
    attachWith_map_subtype_val hls
  have hwr : (list.attachWith DMDevice.Canonical hls).map (fun d => d.1.wire) =
      list.map DMDevice.wire := by
    have hmap := congrArg (List.map DMDevice.wire) hatt
    rw [map_map] at hmap
    exact hmap
  -- the length of the pinned key need not be asked about: it is that of a usable one
  have hpin : ∀ d device, usable d = some device →
      Browser.pinned signing encryption device = pinned signing encryption device := by
    intro d device h
    obtain ⟨k, x, hk, -, -, -, -, rfl⟩ := usable_inv h
    have hl := length_key_of_loadPublicKey hk
    rw [Browser.pinned, pinned, decide_eq_decide]
    constructor
    · rintro ⟨rfl, hx⟩
      exact ⟨hl, rfl, hx⟩
    · exact fun h => h.2
  have hlst : (Browser.checks principal).listing (Browser.pinned signing encryption) rounds
      (list.map DMDevice.wire) =
        (checks principal).listing (pinned signing encryption) rounds list := by
    calc (Browser.checks principal).listing (Browser.pinned signing encryption) rounds
          (list.map DMDevice.wire)
        = (checks principal).listing (Browser.pinned signing encryption) rounds list := by
          rw [← hwr, Checks.listing_map, Browser.checks_agree, ← Checks.listing_map, hatt]
      _ = (checks principal).listing (pinned signing encryption) rounds list :=
          Checks.listing_congr (checks_lawful principal) hpin
  rw [trustedDevices, verify, Browser.validText_eq, length_map]
  split
  · rfl
  split
  · rename_i he
    rw [he]
    rfl
  · rw [hlst]

/-- What `verify` accepts. An empty listing has no first device and is accepted all the same. -/
def Accepts (principal : String) (signing encryption : Bytes) (list : List DMDevice) : Prop :=
  validText principal = true ∧ list.length ≤ 64 ∧ (list = [] ∨ ∃ root first,
    (checks principal).Accepted (pinned signing encryption) list root first)

theorem verify_of_accepts (h : Accepts principal signing encryption list)
    (hrn : list.length + 1 ≤ rounds) :
    ∃ out, verify rounds principal signing encryption list = some (some out) ∧
      (out.map (·.id)).Nodup ∧
      ∀ device, device ∈ out ↔ ∃ d, (checks principal).Approved list d ∧
        usable d = some device := by
  obtain ⟨hpn, hl, hls⟩ := h
  have hg : ¬ (validText principal = false ∨ 64 < list.length) := by
    rw [hpn]
    simpa using hl
  rw [verify, if_neg hg]
  by_cases he : list = []
  · refine ⟨[], by rw [if_pos he], nodup_nil, fun device => ?_⟩
    refine ⟨fun h => absurd h (by simp), ?_⟩
    rintro ⟨d, hd, -⟩
    exact absurd hd.mem (by simp [he])
  · obtain ⟨root, first, ha⟩ := hls.resolve_left he
    rw [if_neg he]
    exact ha.result (checks_lawful principal) hrn

theorem verify_of_not_accepts (h : ¬ Accepts principal signing encryption list) :
    verify rounds principal signing encryption list = some none := by
  rw [verify]
  split
  · rfl
  rename_i hg
  rw [not_or, Bool.not_eq_false, Nat.not_lt] at hg
  have hls : ¬ (list = [] ∨ ∃ root first,
      (checks principal).Accepted (pinned signing encryption) list root first) :=
    fun hls => h ⟨hg.1, hg.2, hls⟩
  rw [not_or] at hls
  rw [if_neg hls.1]
  exact Checks.listing_refused (checks_lawful principal)
    (fun root first ha => hls.2 ⟨root, first, ha⟩) rounds

theorem verify_eq_some_iff (hrn : list.length + 1 ≤ rounds) :
    (∃ out, verify rounds principal signing encryption list = some (some out)) ↔
      Accepts principal signing encryption list := by
  constructor
  · rintro ⟨out, ho⟩
    by_contra h
    rw [verify_of_not_accepts h] at ho
    simp at ho
  · intro h
    obtain ⟨out, ho, -⟩ := verify_of_accepts h hrn
    exact ⟨out, ho⟩

theorem Accepts.perm {list' : List DMDevice} (hpm : list.Perm list')
    (h : Accepts principal signing encryption list) :
    Accepts principal signing encryption list' := by
  obtain ⟨hpn, hl, hls⟩ := h
  refine ⟨hpn, hpm.length_eq ▸ hl, ?_⟩
  rcases hls with rfl | ⟨root, first, ha⟩
  · exact .inl hpm.nil_eq.symm
  refine .inr ⟨root, first, ⟨fun d hd => ha.valid d (hpm.mem_iff.mpr hd),
    (hpm.map _).nodup_iff.mp ha.nodup, ?_, ha.usable, ha.accepts⟩⟩
  have hflt := hpm.filter (checks principal).first
  rw [ha.single] at hflt
  exact hflt.singleton_eq.symm

/-- **Device trust is the closure of the pinned first device under approvals.** The walk always
ends. A listing is accepted exactly if the account's name is a valid text, there are at most 64
entries, and, unless there are none, the identifiers are valid and distinct, there is one first
device and it is usable and holds the pinned keys. What is returned is then the least set with the
first device and every usable one that a device of the set approved, each once, whatever the order
of the entries. Where keys and signatures have their canonical spelling, the browser returns the
same, and nothing for what is refused. -/
theorem verify_approval_closure (principal : String) (signing encryption : Bytes)
    (list : List DMDevice) (rounds : ℕ) (hrn : list.length + 1 ≤ rounds) :
    (verify rounds principal signing encryption list).isSome = true ∧
    ((∃ out, verify rounds principal signing encryption list = some (some out)) ↔
      Accepts principal signing encryption list) ∧
    (∀ out, verify rounds principal signing encryption list = some (some out) →
      (out.map (·.id)).Nodup ∧ ∀ device, device ∈ out ↔
        ∃ d, (checks principal).Approved list d ∧ usable d = some device) ∧
    (∀ list' out, list.Perm list' →
      verify rounds principal signing encryption list = some (some out) →
        ∃ out', verify rounds principal signing encryption list' = some (some out') ∧
          out.Perm out') ∧ ((∀ d ∈ list, d.Canonical) →
      trustedDevices rounds principal (list.map DMDevice.wire) signing encryption =
        (verify rounds principal signing encryption list).map (·.getD [])) := by
  have hres : ∀ out, verify rounds principal signing encryption list = some (some out) →
      (out.map (·.id)).Nodup ∧ ∀ device, device ∈ out ↔
        ∃ d, (checks principal).Approved list d ∧ usable d = some device := by
    intro out ho
    obtain ⟨out', ho', hsc⟩ :=
      verify_of_accepts ((verify_eq_some_iff hrn).mp ⟨out, ho⟩) hrn
    rw [ho, Option.some.injEq, Option.some.injEq] at ho'
    rwa [ho']
  refine ⟨?_, verify_eq_some_iff hrn, hres, ?_, trustedDevices_wire⟩
  · by_cases h : Accepts principal signing encryption list
    · obtain ⟨out, ho, -⟩ := verify_of_accepts h hrn
      rw [ho]
      rfl
    · rw [verify_of_not_accepts h]
      rfl
  · intro list' out hpm ho
    have hac := ((verify_eq_some_iff hrn).mp ⟨out, ho⟩).perm hpm
    have hrn' : list'.length + 1 ≤ rounds := by rwa [← hpm.length_eq]
    obtain ⟨out', ho', hnd', hmem'⟩ := verify_of_accepts hac hrn'
    obtain ⟨hnd, hmem⟩ := hres out ho
    refine ⟨out', ho', (perm_ext_iff_of_nodup hnd.of_map hnd'.of_map).mpr ?_⟩
    intro device
    rw [hmem, hmem']
    refine exists_congr fun d => and_congr_left' ⟨fun hd => ?_, fun hd => ?_⟩
    · exact hd.mono fun _ => hpm.mem_iff.mp
    · exact hd.mono fun _ => hpm.mem_iff.mpr

end Main

/-! ### An instance -/

namespace Sample

/-- Reads the canonical spelling only. -/
def pem (text : Bytes) : Option (String × Bytes) :=
  match Base64.decode (((text.drop 27).take (text.length - 53)).map fun b =>
    Char.ofNat b.toNat) with
  | none => none
  | some key => if publicKeyPEM key = text then some ("PUBLIC KEY", key) else none

variable (key : Bytes)

theorem body_publicKeyPEM : ((publicKeyPEM key).drop 27).take ((publicKeyPEM key).length - 53) =
      bytes (String.ofList (Base64.encode key)) := by
  have hop : (bytes "-----BEGIN PUBLIC KEY-----\n").length = 27 := by decide
  have hcls : (bytes "\n-----END PUBLIC KEY-----\n").length = 26 := by decide
  have hl : (publicKeyPEM key).length =
      (bytes (String.ofList (Base64.encode key))).length + 53 := by
    rw [publicKeyPEM, length_append, length_append, hop, hcls]
    omega
  rw [hl, Nat.add_sub_cancel, publicKeyPEM, append_assoc, ← hop, drop_left, take_left]

theorem chars_encode :
    (bytes (String.ofList (Base64.encode key))).map (fun b => Char.ofNat b.toNat) =
      Base64.encode key := by
  have hch : ∀ c ∈ Base64.encode key, Char.ofNat (UInt8.ofNat c.toNat).toNat = c := by
    intro c hc
    have hascii := ascii_of_mem_encode hc
    rw [UInt8.toNat_ofNat', Nat.mod_eq_of_lt (by omega), Char.ofNat_toNat]
  rw [bytes_of_ascii (by simpa using fun c => ascii_of_mem_encode), String.toList_ofList, map_map]
  exact (map_congr_left hch).trans (map_id _)

theorem pem_publicKeyPEM : pem (publicKeyPEM key) = some ("PUBLIC KEY", key) := by
  unfold pem
  rw [body_publicKeyPEM, chars_encode, decode_encode]
  exact if_pos rfl

theorem pem_opening {text : Bytes} {block : String × Bytes} (h : pem text = some block) :
    bytes "-----BEGIN " <:+: text := by
  have hop : bytes "-----BEGIN PUBLIC KEY-----\n" =
      bytes "-----BEGIN " ++ bytes "PUBLIC KEY-----\n" := by decide
  unfold pem at h
  split at h
  · simp at h
  split at h
  · rename_i key _ htx
    refine ⟨[], bytes "PUBLIC KEY-----\n" ++ (bytes (String.ofList (Base64.encode key)) ++
      bytes "\n-----END PUBLIC KEY-----\n"), ?_⟩
    rw [← htx, publicKeyPEM, hop, nil_append, append_assoc, append_assoc]
  · simp at h

end Sample

/-- Every key is valid and signs every message with its own bytes, twice. -/
@[reducible]
def sampleKeys : Keys where
  digest _ := ""
  agrees _ := true
  signingPoint _ := true
  verifies key _ signature := decide (signature = key ++ key)
  pem := Sample.pem
  sign key _ := key ++ key
  smallOrder _ := false
  parseURL _ := none
  marshalHeader _ := none
  unmarshalHeader _ := none
  pem_publicKeyPEM key _ := Sample.pem_publicKeyPEM key
  pem_opening _ _ h := Sample.pem_opening h
  smallOrder_of_signingPoint _ _ := rfl

/-- A key of one repeated byte. -/
def sampleKey (b : UInt8) : Bytes := List.replicate 32 b

/-- An entry with that key, approved by another one of this kind. -/
def sampleDevice (id : String) (b : UInt8) (first : Bool) (approvedBy : String) (approver : UInt8) :
    DMDevice where
  revokedAt := 0
  deviceID := id
  kind := "mobile"
  ed25519Public := publicKeyText (sampleKey b)
  x25519Public := String.ofList (Base64.encode (sampleKey b))
  firstDevice := first
  approvedBy := approvedBy
  approvalSignature := sampleKey approver ++ sampleKey approver

/-- The approved device comes before the first one, and one entry approves itself. -/
def sampleListing : List DMDevice :=
  [sampleDevice "b" 2 false "a" 1, sampleDevice "x" 4 false "x" 4, sampleDevice "a" 1 true "" 0]

theorem verify_empty_listing :
    @verify sampleKeys 1 "p" (sampleKey 1) (sampleKey 1) [] = some (some []) ∧
      ([] : List DMDevice).filter (·.firstDevice) = [] := by
  decide +kernel

/-- The two devices that are found in it. -/
def sampleTrusted : List TrustedDevice :=
  [⟨"a", "mobile", sampleKey 1, sampleKey 1, true⟩,
    ⟨"b", "mobile", sampleKey 2, sampleKey 2, false⟩]

theorem verify_sampleListing : (sampleTrusted.map (·.id)).Nodup ∧ ∀ device, device ∈ sampleTrusted ↔
      ∃ d, (@checks sampleKeys "p").Approved sampleListing d ∧ @usable sampleKeys d = some device :=
  (@verify_approval_closure sampleKeys "p" (sampleKey 1) (sampleKey 1) sampleListing 4
    (by decide)).2.2.1 sampleTrusted (by decide +kernel)

end Noxa.Identity

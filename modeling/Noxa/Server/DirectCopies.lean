import Noxa.Store.Authority
import Noxa.Store.Devices

/-!
# Which devices a direct message must reach

A direct message is sealed once for every device of its recipient. The server asks for a copy for
each device that is active and either the first one or carries an approval signature
(`internal/server/dm_devices.go`); a sender covers the devices it can verify from the listing the
server gives it (`Noxa.Identity.verify`), which follows approvals from the first device through the
devices that are listed. The two agree as long as no device is left whose approver is gone.

## Main definitions

* `dmDevices`, `sendDirectCopies` — what the server lists and what it asks for
* `HonestStep` — approvals are signed by the approver, and keys are valid
* `Agree` — senders verify exactly the devices that the server asks for
* `Linked` — an active device is reached from the first one through active devices

## Main results

* `Sound` and `run_sound` — what the table of devices keeps in honest histories
* `direct_devices_agree_iff` — when the two agree
-/

namespace Noxa.Server

open List

open Fallible Store Identity Directory Machine

/-! ### The server -/

def kindText : DeviceKind → String
  | .desktop => "desktop"
  | .web => "web"

/-- The entry of a device in a listing. -/
def dmDevice (d : Device) : DMDevice where
  revokedAt := 0
  deviceID := d.deviceID
  kind := kindText d.kind
  ed25519Public := d.ed25519Public
  x25519Public := d.x25519Public
  firstDevice := d.firstDevice
  approvedBy := d.approvedBy
  approvalSignature := d.approvalSignature

/-- The device is the first one or has an approval. A device linked with a passkey has neither. -/
def vouched (d : Device) : Bool := d.firstDevice || decide (d.approvalSignature ≠ [])

/-- The devices of an account that can receive direct messages. -/
def dmDevices (ds : Devices) (principal : String) : List DMDevice :=
  if principal = "" then []
  else ((listDevices ds principal false).filter fun d =>
    vouched d && decide (d.x25519Public ≠ "")).map dmDevice

structure DMCopy where
  deviceID : String
  text : String
  deriving DecidableEq, Repr

/-- What a direct message says about where it goes. -/
structure ChatSend where
  toClientID : String := ""
  toUniqueID : String
  text : String := ""
  recipientPublicKey : String := ""
  copies : List DMCopy
  dmAction : String := ""
  refClientMsgID : String := ""
  deriving DecidableEq, Repr

def maxDMCopies : ℕ := 24

def maxChatBytes : ℕ := 16 * 1024

def validDMAction (action ref : String) : Bool :=
  if action = "" then decide (ref = "")
  else if action = "edit" ∨ action = "delete" then
    decide (ref ≠ "") && decide (ref.utf8ByteSize ≤ 128)
  else false

/-- How a message is refused. -/
inductive Refusal
  | malformed (message : String)
  | permissionDenied (message : String)
  | staleDevices (message : String)
  deriving DecidableEq, Repr

def changed : Refusal :=
  .staleDevices "direct-message devices changed; refresh them before retrying"

/-- The device a copy goes to, with its account. The devices of the recipient go before one's
own. -/
def target (own recipient : List DMDevice) (principal toUniqueID deviceID : String) :
    Option (DMDevice × String) :=
  ((recipient.find? fun d => decide (d.deviceID = deviceID)).map (·, toUniqueID)).or
    ((own.find? fun d => decide (d.deviceID = deviceID)).map (·, principal))

/-- One round of the loop over the copies, with the devices seen so far. -/
def checkCopy (own recipient : List DMDevice) (principal toUniqueID : String) (seen : List String)
    (c : DMCopy) : Except Refusal (List String) := do
  ensure ((target own recipient principal toUniqueID c.deviceID).isSome = true ∧
    c.deviceID ∉ seen) changed
  ensure (c.text ≠ "" ∧ c.text.utf8ByteSize ≤ maxChatBytes) (.malformed "chat message too large")
  pure (c.deviceID :: seen)

/-- The checks of a direct message, and the devices its copies are delivered to. -/
def sendDirectCopies (ds : Devices) (principal senderDevice : String) (msg : ChatSend) :
    Except Refusal (List String) := do
  ensure (msg.toUniqueID ≠ "" ∧ msg.toClientID = "" ∧ msg.text = "" ∧ msg.recipientPublicKey = "" ∧
    msg.copies.length ≤ maxDMCopies ∧ validDMAction msg.dmAction msg.refClientMsgID = true)
    (.malformed "invalid direct-message copies")
  ensure (senderDevice ≠ "") (.permissionDenied "this device is not registered for direct messages")
  let recipient := dmDevices ds msg.toUniqueID
  ensure (recipient ≠ [])
    (.staleDevices "the recipient has no devices; send one copy to the account key")
  let own := if msg.toUniqueID ≠ principal then dmDevices ds principal else recipient
  ensure (∃ t ∈ target own recipient principal msg.toUniqueID senderDevice, t.2 = principal)
    (.permissionDenied "confirm this device on your desktop before sending direct messages")
  let seen ← msg.copies.foldlM (checkCopy own recipient principal msg.toUniqueID) []
  ensure (∀ d ∈ recipient, d.deviceID ∈ seen) changed
  pure seen

/-! ### Honest histories -/

section Honest

variable [DeviceKeys]

/-- The keys of a device are valid, and its approval is signed with the key of the approver. -/
structure Honest (ds : Devices) (d : Device) : Prop where
  valid : validText d.deviceID = true
  usable : ∃ key, usable (dmDevice d) = some key
  approval : d.approvalSignature ≠ [] → ∃ a ∈ ds.rows, a.deviceID = d.approvedBy ∧
    a.principal = d.principal ∧ ∀ key, Identity.usable (dmDevice a) = some key →
      (checks d.principal).approves key (dmDevice d) = true

/-- The approver of a row was itself the first device or approved, as the handlers check. -/
def VouchedApproval (ds : Devices) (row : Device) : Prop :=
  row.approvalSignature ≠ [] → ∃ a ∈ ds.rows, a.deviceID = row.approvedBy ∧ vouched a = true

/-- The row a call returns, if it succeeds. -/
def Returned (P : Device → Prop) : Except DeviceErr (Devices × Device) → Prop
  | .ok (_, row) => P row
  | .error _ => True

/-- The row a call registers or confirms has a property. -/
def RowStep (P : Devices → Device → Prop) (ds : Devices) (i : Drawn × DeviceCall) : Prop :=
  match i.2 with
  | .add d limit => Returned (P ds) (addDevice i.1 ds d limit)
  | .endorse principal deviceID approverID signature =>
    Returned (P ds) (endorseDevice ds principal deviceID approverID signature)
  | _ => True

def HonestStep (ds : Devices) (i : Drawn × DeviceCall) : Prop := RowStep Honest ds i

def VouchedStep (ds : Devices) (i : Drawn × DeviceCall) : Prop := RowStep VouchedApproval ds i

variable {ds ds' : Devices} {principal : String} {key : TrustedDevice} {rank : String → ℕ}

omit [DeviceKeys] in
theorem Returned.row {P : Device → Prop} {x : Except DeviceErr (Devices × Device)} {row : Device}
    (h : Returned P x) (hx : x = .ok (ds, row)) : P row := by
  rw [hx] at h
  exact h

instance (ds : Devices) (row : Device) : Decidable (VouchedApproval ds row) :=
  inferInstanceAs (Decidable (_ → _))

/-- Honesty as a test. -/
def honest (ds : Devices) (d : Device) : Bool :=
  validText d.deviceID && (Identity.usable (dmDevice d)).isSome &&
    (d.approvalSignature.isEmpty || ds.rows.any fun a => decide (a.deviceID = d.approvedBy) &&
      decide (a.principal = d.principal) && (Identity.usable (dmDevice a)).all fun key =>
        (checks d.principal).approves key (dmDevice d))

variable {d d' row root : Device} {drawn : Drawn} {limit : Int} {deviceID approverID : String}
  {signature : Bytes} {history : List (Drawn × DeviceCall)}

theorem honest_iff : honest ds d = true ↔ Honest ds d := by
  simp only [honest, Bool.and_eq_true, Bool.or_eq_true, List.isEmpty_iff, any_eq_true,
    decide_eq_true_eq, Option.isSome_iff_exists, Option.all_eq_true, and_assoc, or_iff_not_imp_left]
  constructor
  · rintro ⟨hval, hus, hap⟩
    exact ⟨hval, hus, hap⟩
  · intro h
    exact ⟨h.valid, h.usable, h.approval⟩

instance (ds : Devices) (d : Device) : Decidable (Honest ds d) := decidable_of_iff _ honest_iff

instance (P : Device → Prop) [DecidablePred P] :
    ∀ x : Except DeviceErr (Devices × Device), Decidable (Returned P x)
  | .ok (_, row) => inferInstanceAs (Decidable (P row))
  | .error _ => inferInstanceAs (Decidable True)

instance (P : Devices → Device → Prop) [∀ ds d, Decidable (P ds d)] (ds : Devices) :
    ∀ i : Drawn × DeviceCall, Decidable (RowStep P ds i)
  | (_, .add _ _) => inferInstanceAs (Decidable (Returned _ _))
  | (_, .endorse _ _ _ _) => inferInstanceAs (Decidable (Returned _ _))
  | (_, .signOut _ _) | (_, .revoke _ _) | (_, .reset _ _) | (_, .revokeIdle _ _)
  | (_, .warnIdle _ _) | (_, .touch _ _) => inferInstanceAs (Decidable True)

instance (ds : Devices) (i : Drawn × DeviceCall) : Decidable (HonestStep ds i) :=
  inferInstanceAs (Decidable (RowStep _ _ _))

instance (ds : Devices) (i : Drawn × DeviceCall) : Decidable (VouchedStep ds i) :=
  inferInstanceAs (Decidable (RowStep _ _ _))

/-! ### What honest histories keep -/

/-- Every row has a later one with the same keys. -/
def KeysStay (ds ds' : Devices) : Prop :=
  ∀ a ∈ ds.rows, ∃ a' ∈ ds'.rows, a'.deviceID = a.deviceID ∧ a'.principal = a.principal ∧
    usable (dmDevice a') = usable (dmDevice a)

theorem Honest.mono (h : KeysStay ds ds') (hd : Honest ds d) : Honest ds' d where
  valid := hd.valid
  usable := hd.usable
  approval hsig := by
    obtain ⟨a, ha, hid, hpn, happroves⟩ := hd.approval hsig
    obtain ⟨a', ha', hid', hpn', hus⟩ := h a ha
    refine ⟨a', ha', hid'.trans hid, hpn'.trans hpn, fun key hkey => ?_⟩
    exact happroves key (hus ▸ hkey)

/-- What the table keeps: accounts have names and at most one active first device, and the rows are
honest. -/
structure Sound (ds : Devices) : Prop where
  named : ∀ d ∈ ds.rows, d.principal ≠ ""
  first : ∀ d ∈ ds.rows, ∀ d' ∈ ds.rows, d.principal = d'.principal → d.active = true →
    d'.active = true → d.firstDevice = true → d'.firstDevice = true → d = d'
  honest : ∀ d ∈ ds.rows, Honest ds d

omit [DeviceKeys] in
theorem dmDevice_continues (h : d.Continues d') : dmDevice d' = dmDevice d := by
  rw [dmDevice, dmDevice, h.deviceID, h.kind, h.ed25519Public, h.x25519Public, h.firstDevice,
    h.approvedBy, h.approvalSignature]

theorem keysStay_of_continued (h : Continued ds ds') : KeysStay ds ds' := by
  intro a ha
  obtain ⟨a', ha', hct⟩ := h.successor a ha
  exact ⟨a', ha', hct.deviceID, hct.principal, by rw [dmDevice_continues hct]⟩

/-- Rows that are rows of before, up to their approvals, keep what is said of accounts. -/
theorem Sound.of_origin (h : Sound ds) (hor : ∀ x ∈ ds'.rows, ∃ y ∈ ds.rows,
      x.deviceID = y.deviceID ∧ x.principal = y.principal ∧
      (x.active = true → y.active = true) ∧ x.firstDevice = y.firstDevice)
    (hh : ∀ x ∈ ds'.rows, Honest ds' x) : Sound ds' where
  named x hx := by
    obtain ⟨y, hy, -, hpn, -⟩ := hor x hx
    exact hpn ▸ h.named y hy
  first := by
    intro d₁ hd₁ d₂ hd₂ hpn hact₁ hact₂ hfst₁ hfst₂
    obtain ⟨e₁, he₁, hid₁, hp₁, ha₁, hf₁⟩ := hor d₁ hd₁
    obtain ⟨e₂, he₂, hid₂, hp₂, ha₂, hf₂⟩ := hor d₂ hd₂
    have heq := h.first e₁ he₁ e₂ he₂ (by rw [← hp₁, ← hp₂, hpn]) (ha₁ hact₁)
      (ha₂ hact₂) (hf₁ ▸ hfst₁) (hf₂ ▸ hfst₂)
    exact ds'.eq_of_key hd₁ hd₂ (by rw [hid₁, hid₂, heq])
  honest := hh

theorem Sound.continued (h : Sound ds) (hcon : Continued ds ds') : Sound ds' := by
  refine h.of_origin (fun x hx => ?_) fun x hx => ?_
  · obtain ⟨y, hy, hct⟩ := hcon.origin x hx
    exact ⟨y, hy, hct.deviceID, hct.principal, hct.active, hct.firstDevice⟩
  obtain ⟨y, hy, hct⟩ := hcon.origin x hx
  have hh := (h.honest y hy).mono (keysStay_of_continued hcon)
  refine ⟨hct.deviceID ▸ hh.valid, dmDevice_continues hct ▸ hh.usable, ?_⟩
  rw [hct.approvalSignature, hct.approvedBy, hct.principal, dmDevice_continues hct]
  exact hh.approval

theorem Sound.add {d : NewDevice} (h : Sound ds)
    (hadd : addDevice drawn ds d limit = .ok (ds', row)) (hr : Honest ds row) : Sound ds' := by
  obtain ⟨rfl, hins, hnm, -⟩ := addDevice_ok hadd
  have hst : KeysStay ds ds' := fun a ha =>
    ⟨a, (Table.mem_insert hins).mpr (.inl ha), rfl, rfl, rfl⟩
  -- a new first device finds no active one
  have hno : ∀ x ∈ ds.rows, x.principal = d.principal → x.active = true →
      (newRow drawn ds d).firstDevice = true → False := by
    intro x hx hpn hact hfst
    have hemp : listDevices ds d.principal false = [] := List.isEmpty_iff.mp hfst
    have hx' : x ∈ listDevices ds d.principal false := by
      simp [listDevices, hx, hpn, hact]
    rw [hemp] at hx'
    simp at hx'
  refine ⟨Table.forall_insert hins h.named hnm, Table.forall_insert hins (fun x hx => ?_) ?_,
    Table.forall_insert hins (fun x hx => (h.honest x hx).mono hst) (hr.mono hst)⟩
  · refine Table.forall_insert hins (h.first x hx) fun hpn hact _ _ hfst => ?_
    exact (hno x hx hpn hact hfst).elim
  · refine Table.forall_insert hins (fun x hx hpn _ hact hfst _ => ?_)
      fun _ _ _ _ _ => rfl
    exact (hno x hx hpn.symm hact hfst).elim

theorem Sound.endorse (h : Sound ds)
    (hend : endorseDevice ds principal deviceID approverID signature = .ok (ds', row))
    (hr : Honest ds row) : Sound ds' := by
  obtain ⟨d, hd, -, rfl, hm⟩ := endorseDevice_ok hend
  have hst : KeysStay ds ds' := by
    intro a ha
    by_cases hid : a.deviceID = d.deviceID
    · rw [ds.eq_of_key ha hd hid]
      exact ⟨_, (hm _).mpr (.inl rfl), rfl, rfl, rfl⟩
    · exact ⟨a, (hm a).mpr (.inr ⟨ha, hid⟩), rfl, rfl, rfl⟩
  refine h.of_origin (fun x hx => ?_) fun x hx => ?_
  · rcases (hm x).mp hx with rfl | ⟨hx, -⟩
    · exact ⟨d, hd, rfl, rfl, id, rfl⟩
    · exact ⟨x, hx, rfl, rfl, id, rfl⟩
  · rcases (hm x).mp hx with rfl | ⟨hx, -⟩
    · exact hr.mono hst
    · exact (h.honest x hx).mono hst

theorem sound_empty : Sound (Table.empty : Devices) := by
  constructor <;> simp [Table.empty]

theorem step_sound {i : Drawn × DeviceCall} (hi : HonestStep ds i) (h : Sound ds) :
    Sound (deviceStep ds i).1 := by
  obtain ⟨drawn, call⟩ := i
  rcases perform_cases drawn ds call with hcon | ⟨d, limit, row, rfl, hadd⟩ |
    ⟨principal, deviceID, approverID, signature, row, rfl, hend⟩
  · exact h.continued hcon
  · exact h.add hadd (hi.row hadd)
  · exact h.endorse hend (hi.row hend)

theorem run_sound (h : Along deviceStep HonestStep Table.empty history) :
    Sound (run deviceStep Table.empty history) :=
  run_invariant_along (fun _ _ => step_sound) sound_empty h

/-! ### Listings -/

/-- The device is listed to senders. -/
structure Listed (ds : Devices) (principal : String) (d : Device) : Prop where
  mem : d ∈ ds.rows
  principal : d.principal = principal
  active : d.active = true
  vouched : vouched d = true

/-- An active device is reached from the first one through listed devices. -/
inductive Linked (ds : Devices) (principal : String) : Device → Prop
  | first {d : Device} (hd : Listed ds principal d) (hfst : d.firstDevice = true) :
      Linked ds principal d
  | step {d a : Device} (hd : Listed ds principal d) (ha : Linked ds principal a)
      (hna : d.approvedBy = a.deviceID) (hs : d.approvalSignature ≠ []) :
      Linked ds principal d

omit [DeviceKeys] in
theorem Linked.listed (h : Linked ds principal d) : Listed ds principal d := by
  cases h with
  | first hd => exact hd
  | step hd => exact hd

theorem x25519Public_ne_of_usable {d : DMDevice} (h : usable d = some key) :
    d.x25519Public ≠ "" := by
  intro hemp
  obtain ⟨k, x, -, -, hx, -, hcrv, -⟩ := usable_inv h
  have hlen := congrArg List.length hx
  rw [hemp, Base64.length_encode, Browser.length_of_validCurve hcrv] at hlen
  exact absurd hlen (by decide)

theorem mem_dmDevices (h : Sound ds) (hp : principal ≠ "") {e : DMDevice} :
    e ∈ dmDevices ds principal ↔ ∃ d, Listed ds principal d ∧ dmDevice d = e := by
  rw [dmDevices, if_neg hp, mem_map]
  refine exists_congr fun d => and_congr_left fun _ => ?_
  simp only [listDevices, mem_filter, Bool.and_eq_true, decide_eq_true_eq, Bool.false_or]
  constructor
  · rintro ⟨⟨hm, hpn, hact⟩, hv, -⟩
    exact ⟨hm, hpn, hact, hv⟩
  · intro hd
    obtain ⟨key, hkey⟩ := (h.honest d hd.mem).usable
    exact ⟨⟨hd.mem, hd.principal, hd.active⟩, hd.vouched, x25519Public_ne_of_usable hkey⟩

omit [DeviceKeys] in
theorem ids_dmDevices (ds : Devices) (principal : String) :
    ((dmDevices ds principal).map (·.deviceID)).Nodup := by
  rw [dmDevices]
  split
  · exact nodup_nil
  · rw [map_map]
    exact ds.nodup.sublist ((filter_sublist.trans filter_sublist).map _)

/-- What a sender can verify is what is linked. -/
theorem approved_iff_linked (h : Sound ds) (hp : principal ≠ "") (hd : Listed ds principal d) :
    (checks principal).Approved (dmDevices ds principal) (dmDevice d) ↔ Linked ds principal d := by
  constructor
  · intro happ
    generalize he : dmDevice d = e at happ
    induction happ generalizing d with
    | first _ hfst =>
      rw [← he] at hfst
      exact .first hd hfst
    | step _ ha hna _ _ happroves ih =>
      rename_i e' a key device hm
      subst he
      obtain ⟨b, hb, rfl⟩ := (mem_dmDevices h hp).mp ha.mem
      refine .step hd (ih hb rfl) hna fun hemp => ?_
      have hlen : d.approvalSignature.length = 64 := by
        simp only [checks, Bool.and_eq_true, decide_eq_true_eq] at happroves
        exact happroves.1
      rw [hemp] at hlen
      exact absurd hlen (by decide)
  · intro hlnk
    clear hd
    induction hlnk with
    | first hd hfst => exact .first ((mem_dmDevices h hp).mpr ⟨_, hd, rfl⟩) hfst
    | step hd ha hna hs ih =>
      rename_i d a
      obtain ⟨b, hb, hid, -, happroves⟩ := (h.honest d hd.mem).approval hs
      obtain rfl : b = a := ds.eq_of_key hb ha.listed.mem (hid.trans hna)
      obtain ⟨key, hkey⟩ := (h.honest b hb).usable
      obtain ⟨device, hdev⟩ := (h.honest d hd.mem).usable
      refine .step ((mem_dmDevices h hp).mpr ⟨_, hd, rfl⟩) ih hna hkey hdev ?_
      rw [← hd.principal]
      exact happroves key hkey

/-- The first device of an account is active and holds its keys. -/
structure Rooted (ds : Devices) (principal : String) (root : Device) (key : TrustedDevice) :
    Prop where
  listed : Listed ds principal root
  first : root.firstDevice = true
  key : usable (dmDevice root) = some key

/-- Senders verify exactly the devices that the server asks for. -/
def Agree (ds : Devices) (principal : String) (signing encryption : Bytes) : Prop :=
  ∃ out, verify ((dmDevices ds principal).length + 1) principal signing encryption
      (dmDevices ds principal) = some (some out) ∧
    ∀ id, id ∈ out.map (·.id) ↔ id ∈ (dmDevices ds principal).map (·.deviceID)

theorem Rooted.accepted (h : Sound ds) (hrt : Rooted ds principal root key) :
    (checks principal).Accepted (pinned key.signing key.encryption) (dmDevices ds principal)
      (dmDevice root) key := by
  have hp : principal ≠ "" := hrt.listed.principal ▸ h.named root hrt.listed.mem
  have hm := fun e => mem_dmDevices h hp (e := e)
  have hnd := ids_dmDevices ds principal
  refine ⟨fun e he => ?_, hnd, ?_, hrt.key, ?_⟩
  · obtain ⟨d, hd, rfl⟩ := (hm e).mp he
    exact (h.honest d hd.mem).valid
  · refine perm_singleton.mp ((perm_ext_iff_of_nodup (hnd.of_map.filter _)
      (nodup_singleton _)).mpr fun e => ?_)
    rw [mem_filter, mem_singleton]
    constructor
    · rintro ⟨he, hfst⟩
      obtain ⟨d, hd, rfl⟩ := (hm e).mp he
      rw [h.first d hd.mem root hrt.listed.mem (hd.principal.trans hrt.listed.principal.symm)
        hd.active hrt.listed.active hfst hrt.first]
    · rintro rfl
      exact ⟨(hm _).mpr ⟨root, hrt.listed, rfl⟩, hrt.first⟩
  · obtain ⟨k, x, hk, -, -, -, -, rfl⟩ := usable_inv hrt.key
    exact decide_eq_true ⟨length_key_of_loadPublicKey hk, rfl, rfl⟩

theorem agree_iff (h : Sound ds) (hrt : Rooted ds principal root key) :
    Agree ds principal key.signing key.encryption ↔ validText principal = true ∧
      (dmDevices ds principal).length ≤ 64 ∧ ∀ d, Listed ds principal d →
        Linked ds principal d := by
  have hp : principal ≠ "" := hrt.listed.principal ▸ h.named root hrt.listed.mem
  have hm := fun e => mem_dmDevices h hp (e := e)
  have hlaw := checks_lawful principal
  constructor
  · rintro ⟨out, ho, hids⟩
    have hacc : Accepts principal key.signing key.encryption (dmDevices ds principal) :=
      (verify_eq_some_iff (le_rfl)).mp ⟨out, ho⟩
    obtain ⟨out', ho', -, hsc⟩ := verify_of_accepts hacc (le_rfl)
    rw [ho, Option.some.injEq, Option.some.injEq] at ho'
    subst ho'
    refine ⟨hacc.1, hacc.2.1, fun d hd => ?_⟩
    have hid : d.deviceID ∈ out.map (·.id) :=
      (hids _).mpr (mem_map.mpr ⟨dmDevice d, (hm _).mpr ⟨d, hd, rfl⟩, rfl⟩)
    obtain ⟨device, hdev, hdid⟩ := mem_map.mp hid
    obtain ⟨e, happ, hus⟩ := (hsc device).mp hdev
    obtain ⟨d', hd', rfl⟩ := (hm e).mp happ.mem
    have hsm : d'.deviceID = d.deviceID := (hlaw.id _ device hus).symm.trans hdid
    obtain rfl : d' = d := ds.eq_of_key hd'.mem hd.mem hsm
    exact (approved_iff_linked h hp hd).mp happ
  · rintro ⟨hval, hlen, hlnk⟩
    have hacc : Accepts principal key.signing key.encryption (dmDevices ds principal) :=
      ⟨hval, hlen, .inr ⟨_, _, hrt.accepted h⟩⟩
    obtain ⟨out, ho, -, hsc⟩ := verify_of_accepts hacc (le_rfl)
    refine ⟨out, ho, fun id => ?_⟩
    rw [mem_map, mem_map]
    constructor
    · rintro ⟨device, hdev, rfl⟩
      obtain ⟨e, happ, hus⟩ := (hsc device).mp hdev
      exact ⟨e, happ.mem, (hlaw.id e device hus).symm⟩
    · rintro ⟨e, he, rfl⟩
      obtain ⟨d, hd, rfl⟩ := (hm e).mp he
      obtain ⟨device, hdev⟩ := (h.honest d hd.mem).usable
      refine ⟨device, (hsc device).mpr ⟨_, ?_, hdev⟩, hlaw.id _ device hdev⟩
      exact (approved_iff_linked h hp hd).mpr (hlnk d hd)

/-! ### Approvers that are gone -/

/-- Approvals form no cycle: approvers come before those they approve, by some count. -/
structure Ranked (ds : Devices) (rank : String → ℕ) : Prop where
  lt : ∀ d ∈ ds.rows, d.firstDevice = false → d.approvalSignature ≠ [] →
    ∃ a ∈ ds.rows, a.deviceID = d.approvedBy ∧ vouched a = true ∧ rank a.deviceID < rank d.deviceID

/-- The approver of every listed device is active. -/
def NoOrphans (ds : Devices) (principal : String) : Prop :=
  ∀ d, Listed ds principal d → d.firstDevice = false →
    ∃ a ∈ ds.rows, a.deviceID = d.approvedBy ∧ a.active = true

theorem linked_iff_noOrphans (h : Sound ds) (hrk : Ranked ds rank) :
    (∀ d, Listed ds principal d → Linked ds principal d) ↔ NoOrphans ds principal := by
  constructor
  · intro hlnk d hd hfst
    cases hlnk d hd with
    | first _ hfst' => simp [hfst] at hfst'
    | step _ ha hna => exact ⟨_, ha.listed.mem, hna.symm, ha.listed.active⟩
  · intro horp d
    -- by the count of the device: an approver has a smaller one
    induction hn : rank d.deviceID using Nat.strong_induction_on generalizing d with
    | _ n ih =>
      intro hd
      by_cases hfst : d.firstDevice = true
      · exact .first hd hfst
      rw [Bool.not_eq_true] at hfst
      have hs : d.approvalSignature ≠ [] := by
        have hv := hd.vouched
        simpa [vouched, hfst] using hv
      obtain ⟨a, ha, hid, hv, hlt⟩ := hrk.lt d hd.mem hfst hs
      obtain ⟨a', ha', hid', hact⟩ := horp d hd hfst
      obtain rfl : a' = a := ds.eq_of_key ha' ha (hid'.trans hid.symm)
      obtain ⟨b, hb, hbid, hpn, -⟩ := (h.honest d hd.mem).approval hs
      obtain rfl : b = a' := ds.eq_of_key hb ha (hbid.trans hid.symm)
      refine .step hd (ih _ (hn ▸ hlt) b rfl ?_) hid.symm hs
      exact ⟨ha, hpn.trans hd.principal, hact, hv⟩

omit [DeviceKeys] in
theorem Ranked.continued (h : Ranked ds rank) (hcon : Continued ds ds') : Ranked ds' rank where
  lt := by
    intro d' hd' hfst hs
    obtain ⟨d, hd, hct⟩ := hcon.origin d' hd'
    obtain ⟨a, ha, hid, hv, hlt⟩ := h.lt d hd (hct.firstDevice ▸ hfst)
      (hct.approvalSignature ▸ hs)
    obtain ⟨a', ha', hct'⟩ := hcon.successor a ha
    refine ⟨a', ha', ?_, ?_, ?_⟩
    · rw [hct'.deviceID, hid, hct.approvedBy]
    · rw [vouched, hct'.firstDevice, hct'.approvalSignature]
      exact hv
    · rw [hct'.deviceID, hct.deviceID]
      exact hlt

omit [DeviceKeys] in
/-- A new or newly approved device counts one more than its approver. -/
theorem Ranked.count (h : Ranked ds rank) (hr : VouchedApproval ds row)
    (hm : ∀ x ∈ ds'.rows, x = row ∨ x ∈ ds.rows ∧ x.deviceID ≠ row.deviceID)
    (hoth : ∀ a ∈ ds.rows, vouched a = true → a.deviceID ≠ row.deviceID ∧ a ∈ ds'.rows) :
    ∃ rank', Ranked ds' rank' := by
  refine ⟨fun id => if id = row.deviceID then rank row.approvedBy + 1 else rank id, ⟨?_⟩⟩
  intro x hx hfst hs
  rcases hm x hx with rfl | ⟨hx, hne⟩
  · obtain ⟨a, ha, hid, hv⟩ := hr hs
    obtain ⟨hnot, ha'⟩ := hoth a ha hv
    refine ⟨a, ha', hid, hv, ?_⟩
    rw [if_neg hnot, if_pos rfl, hid]
    exact Nat.lt_succ_self _
  · obtain ⟨a, ha, hid, hv, hlt⟩ := h.lt x hx hfst hs
    obtain ⟨hnot, ha'⟩ := hoth a ha hv
    refine ⟨a, ha', hid, hv, ?_⟩
    rw [if_neg hnot, if_neg hne]
    exact hlt

theorem Ranked.add {d : NewDevice} (h : Ranked ds rank)
    (hadd : addDevice drawn ds d limit = .ok (ds', row)) (hr : VouchedApproval ds row) :
    ∃ rank', Ranked ds' rank' := by
  obtain ⟨-, hins, -, -⟩ := addDevice_ok hadd
  have hnew : ∀ a ∈ ds.rows, a.deviceID ≠ row.deviceID :=
    Table.get_eq_none.mp (Table.insert_eq_some hins).2
  refine h.count hr (fun x hx => ?_) fun a ha _ =>
    ⟨hnew a ha, (Table.mem_insert hins).mpr (.inl ha)⟩
  exact ((Table.mem_insert hins).mp hx).symm.imp_right fun hx => ⟨hx, hnew x hx⟩

omit [DeviceKeys] in
theorem Ranked.endorse (h : Ranked ds rank)
    (hend : endorseDevice ds principal deviceID approverID signature = .ok (ds', row))
    (hr : VouchedApproval ds row) : ∃ rank', Ranked ds' rank' := by
  obtain ⟨d, hd, hab, rfl, hm⟩ := endorseDevice_ok hend
  have hpln : vouched d = false := by
    rw [endorsable, Bool.and_eq_true, decide_eq_true_eq] at hab
    simp [vouched, hab.1.2.2.1, hab.1.2.2.2]
  refine h.count hr (fun x hx => (hm x).mp hx) fun a ha hv => ?_
  -- a device that was not vouched for has approved none
  have hne : a.deviceID ≠ d.deviceID := by
    intro hid
    rw [ds.eq_of_key ha hd hid, hpln] at hv
    simp at hv
  exact ⟨hne, (hm a).mpr (.inr ⟨ha, hne⟩)⟩

theorem run_ranked (h : Along deviceStep VouchedStep Table.empty history) :
    ∃ rank, Ranked (run deviceStep Table.empty history) rank := by
  refine run_invariant_along (P := fun ds : Devices => ∃ rank, Ranked ds rank) ?_ ?_ h
  · rintro ds ⟨drawn, call⟩ hi ⟨rank, hrk⟩
    rcases perform_cases drawn ds call with hcon | ⟨d, limit, row, rfl, hadd⟩ |
      ⟨principal, deviceID, approverID, signature, row, rfl, hend⟩
    · exact ⟨rank, hrk.continued hcon⟩
    · exact hrk.add hadd (hi.row hadd)
    · exact hrk.endorse hend (hi.row hend)
  · exact ⟨fun _ => 0, ⟨fun d hd => absurd hd (by simp [Table.empty])⟩⟩

end Honest

/-! ### What the server asks for -/

variable {own recipient : List DMDevice} {toUniqueID : String}

theorem target_isSome {principal id : String} (h : id ∈ (own ++ recipient).map (·.deviceID)) :
    (target own recipient principal toUniqueID id).isSome = true := by
  obtain ⟨d, hd, rfl⟩ := mem_map.mp h
  have hfd : ∀ l : List DMDevice, d ∈ l →
      (l.find? fun d' => decide (d'.deviceID = d.deviceID)).isSome = true :=
    fun l hl => List.find?_isSome.mpr ⟨d, hl, decide_eq_true rfl⟩
  rw [target, Option.isSome_or, Option.isSome_map, Option.isSome_map, Bool.or_eq_true]
  rcases mem_append.mp hd with hd | hd
  · exact .inr (hfd own hd)
  · exact .inl (hfd recipient hd)

/-- The devices seen are those of the copies so far. -/
theorem seen_of_foldlM {principal : String} {copies : List DMCopy} {seen : List String}
    (h : copies.foldlM (checkCopy own recipient principal toUniqueID) [] = .ok seen) :
    ∀ id, id ∈ seen ↔ id ∈ copies.map (·.deviceID) := by
  refine foldlM_ok_loop (P := fun (done : List DMCopy) (seen : List String) =>
    ∀ id, id ∈ seen ↔ id ∈ done.map (·.deviceID)) h ?_ ?_
  · intro done c seen seen' hsn hstp id
    simp only [checkCopy, bind_eq_ok, ensure_eq_ok, pure_eq_ok] at hstp
    obtain ⟨-, -, -, -, rfl⟩ := hstp
    rw [mem_cons, map_append, mem_append, hsn, map_singleton, mem_singleton, or_comm]
  · intro id
    exact Iff.rfl

/-- A message for distinct listed devices, all of the recipient's among them, is not refused as
stale. -/
theorem not_stale_of_covers {ds : Devices} {principal senderDevice : String} {msg : ChatSend}
    (hdis : (msg.copies.map (·.deviceID)).Nodup) (hkn : ∀ c ∈ msg.copies, c.deviceID ∈
      (dmDevices ds principal ++ dmDevices ds msg.toUniqueID).map (·.deviceID))
    (hcov : ∀ d ∈ dmDevices ds msg.toUniqueID, d.deviceID ∈ msg.copies.map (·.deviceID))
    (hne : dmDevices ds msg.toUniqueID ≠ []) (message : String) :
    sendDirectCopies ds principal senderDevice msg ≠ .error (.staleDevices message) := by
  intro h
  have hown : (if msg.toUniqueID ≠ principal then dmDevices ds principal
      else dmDevices ds msg.toUniqueID) = dmDevices ds principal := by
    split
    · rfl
    · rename_i heq
      rw [not_not.mp heq]
  simp only [sendDirectCopies, hown, bind_eq_error, ensure_eq_error, ensure_eq_ok] at h
  rcases h with ⟨-, h⟩ | ⟨-, -, ⟨-, h⟩ | ⟨-, -, ⟨hemp, -⟩ | ⟨-, -, ⟨-, h⟩ | ⟨-, -, h⟩⟩⟩⟩
  · simp at h
  · simp at h
  · exact hemp hne
  · simp at h
  · rcases h with h | ⟨seen, hsn, ⟨hmis, -⟩ | ⟨-, -, h⟩⟩
    · obtain ⟨done, c, rest, seen, hcps, hdn, hc⟩ := foldlM_error h
      simp only [checkCopy, bind_eq_error, ensure_eq_error, ensure_eq_ok] at hc
      rcases hc with ⟨hnot, -⟩ | ⟨-, -, ⟨-, hc⟩ | ⟨-, -, hc⟩⟩
      · refine hnot ⟨target_isSome (hkn c ?_), ?_⟩
        · rw [hcps]
          exact mem_append_right _ mem_cons_self
        rw [seen_of_foldlM hdn]
        rw [hcps, map_append, map_cons] at hdis
        have hspl := nodup_append.mp hdis
        exact fun hm => hspl.2.2 _ hm _ mem_cons_self rfl
      · simp at hc
      · simp [pure, Except.pure] at hc
    · exact hmis fun d hd => (seen_of_foldlM hsn _).mpr (hcov d hd)
    · simp [pure, Except.pure] at h

section Main

/-- The tables and the keys of devices, with the same signatures. -/
class Deployment extends Setting, DeviceKeys

variable [Deployment]

/-- The devices of a roster are the listed ones. -/
theorem roster_iff_listed {ds : Devices} {db : Db} (h : Sound ds) (hdb : db.world.devices = ds)
    {principal source : String} (hp : principal ≠ "") {snap : Snapshot}
    (hsna : readOlmRosterDevices db [principal] source [] = .ok snap) (id : String) :
    id ∈ snap.targets.map (·.device) ↔ id ∈ (dmDevices ds principal).map (·.deviceID) := by
  simp only [readOlmRosterDevices, bind_eq_ok, ensure_eq_ok, pure_eq_ok] at hsna
  obtain ⟨targets, hsca, -, -, rfl⟩ := hsna
  obtain ⟨rfl, -⟩ := foldlM_scanTarget hsca
  simp only [mem_map, mem_dmDevices h hp, exists_exists_and_eq_and]
  refine exists_congr fun d => and_congr_left fun _ => ?_
  rw [mem_rosterDevices, hdb, mem_singleton, Device.confirmed, Bool.and_eq_true]
  constructor
  · rintro ⟨hm, hpn, -, hact, hv⟩
    exact ⟨hm, hpn, hact, hv⟩
  · intro hd
    exact ⟨hd.mem, hd.principal, .inl rfl, hd.active, hd.vouched⟩

/-- **When senders and the server agree.** In every state of an honest history in which the first
device of an account is active and holds its keys, a sender verifies exactly the devices that the
server asks for if and only if the name of the account is a valid text, at most 64 devices are
listed, and approvals lead from the first device to every listed one through listed devices. If
approvers were vouched for when they approved, the last condition says that no listed device has an
approver that was ended. The roster for encrypted messages has the listed devices, and a message
that covers what its sender verified is not refused as stale where the two agree. -/
theorem direct_devices_agree_iff {history : List (Drawn × DeviceCall)}
    (hh : Along deviceStep HonestStep Table.empty history) {principal : String}
    {root : Device} {key : TrustedDevice}
    (hrt : Rooted (run deviceStep Table.empty history) principal root key) :
    let ds := run deviceStep Table.empty history
    (Agree ds principal key.signing key.encryption ↔ validText principal = true ∧
      (dmDevices ds principal).length ≤ 64 ∧
      ∀ d, Listed ds principal d → Linked ds principal d) ∧
    (Along deviceStep VouchedStep Table.empty history →
      ((∀ d, Listed ds principal d → Linked ds principal d) ↔ NoOrphans ds principal)) ∧
    (∀ (db : Db) source snap, db.world.devices = ds →
      readOlmRosterDevices db [principal] source [] = .ok snap →
        ∀ id, id ∈ snap.targets.map (·.device) ↔ id ∈ (dmDevices ds principal).map (·.deviceID)) ∧
    (Agree ds principal key.signing key.encryption →
      ∀ sender senderDevice msg out message, msg.toUniqueID = principal →
        verify ((dmDevices ds principal).length + 1) principal key.signing key.encryption
          (dmDevices ds principal) = some (some out) →
        (msg.copies.map (·.deviceID)).Nodup →
        (∀ c ∈ msg.copies, c.deviceID ∈
          (dmDevices ds sender ++ dmDevices ds principal).map (·.deviceID)) →
        (∀ device ∈ out, device.id ∈ msg.copies.map (·.deviceID)) →
          sendDirectCopies ds sender senderDevice msg ≠ .error (.staleDevices message)) := by
  intro ds
  have hsnd : Sound ds := run_sound hh
  have hp : principal ≠ "" := hrt.listed.principal ▸ hsnd.named root hrt.listed.mem
  refine ⟨agree_iff hsnd hrt, fun hv => ?_, fun db source snap hdb hsna =>
    roster_iff_listed hsnd hdb hp hsna, ?_⟩
  · obtain ⟨rank, hrk⟩ := run_ranked hv
    exact linked_iff_noOrphans hsnd hrk
  · rintro ⟨out, ho, hids⟩ sender senderDevice msg out' message rfl ho' hdis hkn hcov
    rw [ho, Option.some.injEq, Option.some.injEq] at ho'
    subst ho'
    refine not_stale_of_covers hdis hkn (fun e he => ?_) ?_ message
    · obtain ⟨device, hdev, hid⟩ :=
        mem_map.mp ((hids e.deviceID).mpr (mem_map.mpr ⟨e, he, rfl⟩))
      exact hid ▸ hcov device hdev
    · have hm : dmDevice root ∈ dmDevices ds msg.toUniqueID :=
        (mem_dmDevices hsnd hp).mpr ⟨root, hrt.listed, rfl⟩
      exact ne_nil_of_mem hm

end Main

/-! ### A device whose approver is gone -/

namespace Sample

open Store.Sample

@[reducible]
def deployment : Deployment where
  toDeviceKeys := deviceKeys
  manifestBytes _ := []
  pairText _ _ := ""
  decodeCopies _ := none
  decodeEnvelope _ := none
  jsonValid _ := true
  copyBytes _ := []
  bundleBytes _ := []
  resetBytes _ := []
  lifecycleBytes _ _ _ _ _ := []
  pemBlock _ := none
  owner _ := ""

def newDevice (b : UInt8) (approvedBy : String) (approvalSignature : Bytes) : NewDevice where
  principal := "p"
  kind := .web
  ed25519Public := publicKeyText (sampleKey b)
  x25519Public := String.ofList (Base64.encode (sampleKey b))
  approvedBy := approvedBy
  approvalSignature := approvalSignature

/-- The first device approves the second, which approves the third and is then revoked. -/
def history : List (Drawn × DeviceCall) :=
  [(drawn "a", .add (newDevice 1 "" []) 10),
    (drawn "b", .add (newDevice 2 "a" (sampleKey 1 ++ sampleKey 1)) 10),
    (drawn "c", .add (newDevice 3 "b" (sampleKey 2 ++ sampleKey 2)) 10),
    (drawn "", .revoke "p" "b")]

def devices : Devices := run (@deviceStep deviceKeys) Table.empty history

/-- The row of a device of the history. -/
def row (id : String) (b : UInt8) (first : Bool) (approvedBy : String) (signature : Bytes)
    (revokedAt : Option Int) : Device where
  deviceID := id
  principal := "p"
  kind := .web
  ed25519Public := publicKeyText (sampleKey b)
  x25519Public := String.ofList (Base64.encode (sampleKey b))
  firstDevice := first
  approvedBy := approvedBy
  approvalSignature := signature
  revokedAt := revokedAt

def root : Device := row "a" 1 true "" [] none

def gone : Device := row "b" 2 false "a" (sampleKey 1 ++ sampleKey 1) (some 0)

def orphan : Device := row "c" 3 false "b" (sampleKey 2 ++ sampleKey 2) none

def rootKey : TrustedDevice := ⟨"a", "web", sampleKey 1, sampleKey 1, true⟩

theorem honest_history :
    Along (@deviceStep deviceKeys) (@HonestStep deviceKeys) Table.empty history := by
  decide +kernel

theorem rows_devices : devices.rows = [root, gone, orphan] := by
  decide +kernel

theorem rooted : @Rooted deviceKeys devices "p" root rootKey := by
  refine @Rooted.mk deviceKeys _ _ _ _ ⟨?_, rfl, rfl, rfl⟩ rfl ?_
  · rw [rows_devices]
    exact mem_cons_self
  · decide +kernel

theorem dmDevices_devices : dmDevices devices "p" = [dmDevice root, dmDevice orphan] := by
  rw [dmDevices, listDevices, rows_devices]
  rfl

end Sample

open Sample

theorem third_device_unverifiable :
    Along (@deviceStep deviceKeys) (@HonestStep deviceKeys) Table.empty history ∧
    @Rooted deviceKeys devices "p" root rootKey ∧
    (dmDevices devices "p").map (·.deviceID) = ["a", "c"] ∧
    @verify deviceKeys.toKeys 3 "p" (sampleKey 1) (sampleKey 1)
      (dmDevices devices "p") = some (some [rootKey]) ∧
    sendDirectCopies devices "p" "a" ⟨"", "p", "", "", [⟨"a", "x"⟩], "", ""⟩ = .error changed := by
  refine ⟨honest_history, rooted, ?_, ?_, ?_⟩
  · rw [dmDevices_devices]
    rfl
  · rw [dmDevices_devices]
    decide +kernel
  · rw [sendDirectCopies, dmDevices_devices]
    decide +kernel

theorem direct_devices_agree_iff_third_device :
    ¬ @Agree deviceKeys devices "p" (sampleKey 1) (sampleKey 1) := by
  intro hagr
  obtain ⟨hiff, -⟩ := @direct_devices_agree_iff deployment history honest_history "p" root
    rootKey rooted
  have hrw := rows_devices
  have horph : Listed devices "p" orphan :=
    ⟨by rw [hrw]; simp, rfl, rfl, rfl⟩
  cases (hiff.mp hagr).2.2 orphan horph with
  | first _ hfst => exact absurd hfst (by decide)
  | step _ ha hna =>
    rename_i a
    have hgo : gone ∈ devices.rows := by rw [hrw]; simp
    have hact := ha.listed.active
    rw [devices.eq_of_key ha.listed.mem hgo hna.symm] at hact
    exact absurd hact (by decide)

end Noxa.Server

import Noxa.Server.DeviceSessions

/-!
# Envelopes for the devices of a group

A message to a private group has an envelope for each member and further ones for single devices,
under the unique ID of the member and the device ID with a slash between. The server cuts the key at
the first slash. A unique ID is base64 of base64 text. The inner text is ASCII without the codes
that end in the bits of a plus or a slash, so that no six bits of it are theirs.

## Main definitions

* `ConversationSend.validate` — the check of a message
* `ConversationSend.deviceRows` — the rows that are stored for devices

## Main results

* `device_envelope_keys_parse_back`
-/

namespace Noxa.Server

open Store Fallible Text List

structure ConversationMember where
  uniqueID : String
  pending : Bool

structure Conversation where
  epoch : Int
  members : List ConversationMember

def Conversation.member (c : Conversation) (uid : String) : Option ConversationMember :=
  c.members.find? (·.uniqueID = uid)

structure ConversationSend where
  epoch : Int
  reference : String
  envelopes : AList fun _ : String => String
  deviceEnvelopes : AList fun _ : String => String

inductive ConversationErr
  | invalid
  | denied
  | conflict

def maxConversationMembers : ℕ := 16

def maxConversationDeviceEnvelopes : ℕ := 48

def deviceEnvelopeKey (uid deviceID : String) : String := uid ++ "/" ++ deviceID

def validEnvelope (body : String) : Bool :=
  body.utf8ByteSize ≤ 24000 && (Base64.decode body.toList).any fun raw =>
    40 ≤ raw.length && raw.length ≤ 18000 && Base64.encode raw = body.toList

/-- `strings.Cut`, at a character. -/
def cut (s : String) (sep : Char) : String × String × Bool :=
  match s.toList.dropWhile (· ≠ sep) with
  | [] => (s, "", false)
  | _ :: after => (String.ofList (s.toList.takeWhile (· ≠ sep)), String.ofList after, true)

/-- The check of an entry of `DeviceEnvelopes`. -/
def Conversation.validDevice (c : Conversation) (key body : String) : Bool :=
  let (uid, device, found) := cut key '/'
  found && device ≠ "" && device.utf8ByteSize ≤ 64 && (c.member uid).any (!·.pending) &&
    validEnvelope body

def ConversationSend.validate (m : ConversationSend) (c : Conversation) (actor : String) :
    Except ConversationErr Unit := do
  ensure ((c.member actor).any (!·.pending)) .denied
  ensure (m.epoch = c.epoch) .conflict
  ensure (m.reference ≠ "" ∧ m.reference.utf8ByteSize ≤ 128 ∧ m.envelopes.keys ≠ [] ∧
    m.envelopes.keys.length ≤ maxConversationMembers) .invalid
  let recipients := c.members.filter (!·.pending)
  ensure (∀ r ∈ recipients, (m.envelopes.lookup r.uniqueID).any validEnvelope) .invalid
  ensure (recipients.length = m.envelopes.keys.length ∧
    m.deviceEnvelopes.keys.length ≤ maxConversationDeviceEnvelopes) .invalid
  ensure (∀ e ∈ m.deviceEnvelopes.entries, c.validDevice e.1 e.2) .invalid

/-- What `SendConversation` stores for the devices: recipient, device and envelope. -/
def ConversationSend.deviceRows (m : ConversationSend) : List (String × String × String) :=
  m.deviceEnvelopes.entries.map fun e =>
    let (recipient, device, _) := cut e.1 '/'
    (recipient, device, e.2)

theorem cut_deviceEnvelopeKey {uid : String} (h : '/' ∉ uid.toList) (device : String) :
    cut (deviceEnvelopeKey uid device) '/' = (uid, device, true) := by
  have hls : (deviceEnvelopeKey uid device).toList = uid.toList ++ '/' :: device.toList := by
    simp [deviceEnvelopeKey]
  have hall : ∀ c ∈ uid.toList, decide (c ≠ '/') = true :=
    fun c hc => decide_eq_true fun heq => h (heq ▸ hc)
  rw [cut, hls, dropWhile_append_of_pos hall, takeWhile_append_of_pos hall]
  simp

/-- The unique ID for a digest. -/
def doubleBase64 (digest : List UInt8) : String :=
  String.ofList (Base64.encode (bytes (String.ofList (Base64.encode digest))))

theorem plain_doubleBase64 {digest : List UInt8} {c : Char}
    (hc : c ∈ (doubleBase64 digest).toList) : c ≠ '+' ∧ c ≠ '/' := by
  have hcd := Base64.forall_mem_encode (b := digest)
    (p := fun c => c.toNat ≤ 127 ∧ c.toNat % 64 < 62) (by rw [Base64.alphabet_eq]; decide)
      (by decide)
  rw [doubleBase64, String.toList_ofList] at hc
  exact Base64.plain_of_mem_encode
    (code_of_mem_bytes (P := (· % 64 < 62)) (by simpa using hcd)) c hc

section

variable [DeviceKeys]

/-- The unique ID of some public key. -/
def KeyDerived (uid : String) : Prop :=
  ∃ publicKeyPEM, uniqueIDFromPublicKey publicKeyPEM = some uid

theorem KeyDerived.cut_key {uid : String} (h : KeyDerived uid) (device : String) :
    cut (deviceEnvelopeKey uid device) '/' = (uid, device, true) := by
  obtain ⟨pem, hpem⟩ := h
  obtain ⟨key, -, rfl⟩ := Option.map_eq_some_iff.mp hpem
  exact cut_deviceEnvelopeKey (fun hc => (plain_doubleBase64 hc).2 rfl) device

/-- **The server finds the member and the device that a key was made for.** -/
theorem device_envelope_keys_parse_back :
    (∀ digest, '/' ∉ (doubleBase64 digest).toList ∧ '+' ∉ (doubleBase64 digest).toList) ∧
    (∀ uid uid' device device', KeyDerived uid → KeyDerived uid' →
      deviceEnvelopeKey uid device = deviceEnvelopeKey uid' device' →
        uid = uid' ∧ device = device') ∧
    ∀ uid device, KeyDerived uid → device ≠ "" →
      cut (deviceEnvelopeKey uid device) '/' = (uid, device, true) ∧
      (∀ (c : Conversation) body, c.validDevice (deviceEnvelopeKey uid device) body =
        (device.utf8ByteSize ≤ 64 && (c.member uid).any (!·.pending) && validEnvelope body)) ∧
      ∀ (m : ConversationSend) body,
        m.deviceEnvelopes.lookup (deviceEnvelopeKey uid device) = some body →
          (uid, device, body) ∈ m.deviceRows := by
  refine ⟨fun digest => ⟨fun h => (plain_doubleBase64 h).2 rfl, fun h =>
    (plain_doubleBase64 h).1 rfl⟩,
    fun uid uid' device device' h h' heq => ?_, fun uid device h hdev => ⟨h.cut_key device, ?_, ?_⟩⟩
  · have hcut := h.cut_key device
    rw [heq, h'.cut_key device'] at hcut
    cases hcut
    exact ⟨rfl, rfl⟩
  · intro c body
    simp [Conversation.validDevice, h.cut_key device, hdev]
  · intro m body hbd
    refine mem_map.mpr ⟨⟨_, body⟩, AList.mem_lookup_iff.mp hbd, ?_⟩
    simp only [h.cut_key device]

end

open Store.Sample Identity

theorem device_envelope_keys_parse_back_phone :
    @KeyDerived deviceKeys (doubleBase64 (sampleKey 1)) ∧
      cut (deviceEnvelopeKey (doubleBase64 (sampleKey 1)) "phone") '/' =
        (doubleBase64 (sampleKey 1), "phone", true) := by
  have hkey : @KeyDerived deviceKeys (doubleBase64 (sampleKey 1)) :=
    ⟨publicKeyText (sampleKey 1), by decide +kernel⟩
  exact ⟨hkey, ((@device_envelope_keys_parse_back deviceKeys).2.2 _ "phone" hkey (by decide)).1⟩

end Noxa.Server

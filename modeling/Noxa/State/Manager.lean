import Noxa.Lib.Machine
import Noxa.Lib.SetMap
import Noxa.Lib.Table
import Noxa.State.Types

/-!
# The state manager

`state.Manager` keeps who is where in several maps at once: each client has its channel, each
channel its set of members and their number, speaking clients have an entry, and subscriptions are
kept in both directions. Every method holds the lock of the manager, so a history is a list of
calls.

The maps of sets are `SetMap`s. A loop over such a set has one effect for each element, so it is
written as one change of the whole map. What `RemoveChannels` returns is in order in the source and
a set here. The counter of membership transitions that only diagnostics read is left out.

Three of the maps say where a client is, and a client that is moved into a channel keeps its
speaking entry if it was in no channel before. So the entry can name another channel than the client
(`speaking_entry_left_behind`), and the results are about histories without such a move.

## Main definitions

* `Manager`, `ManagerCall`, `managerStep` — the maps and the calls
* `Coherent` — what the maps say about each other
* `ManagerStep` — what is added is new, and nobody is moved into a channel while speaking outside

## Main results

* `Coherent.step` — calls keep the maps coherent
* `manager_coherent` — the same, with the capacity of channels
-/

namespace Noxa.State

open Machine Table SetMap

/-! ### The maps -/

structure SpeakingState where
  clientID : String
  channelID : Int
  startedAt : Int
  deriving DecidableEq, Repr

structure Manager where
  clients : Table Client Client.clientID := Table.empty
  channels : Table Channel Channel.channelID := Table.empty
  membership : SetMap Int String := SetMap.empty
  speaking : Table SpeakingState SpeakingState.clientID := Table.empty
  subs : SetMap String Int := SetMap.empty
  subsByChannel : SetMap Int String := SetMap.empty

inductive StateErr
  | clientNotFound
  | channelNotFound
  | channelFull
  | notInChannel
  | textChannel
  deriving DecidableEq, Repr

/-- A client in another channel, with a new token. -/
def Client.moved (channelID : Int) (token : String) (c : Client) : Client :=
  { c with
    channelID := channelID, presenceToken := token, handRaisedOrder := 0, handCalled := false }

def Client.silent (c : Client) : Client := { c with isSpeaking := false }

/-- The moderation flags that are given. -/
def Client.moderated (muted deafened : Option Bool) (c : Client) : Client :=
  { c with
    serverMuted := muted.getD c.serverMuted
    serverDeafened := deafened.getD c.serverDeafened
    voiceRevision := c.voiceRevision + 1 }

def Client.voiced (c : Client) : Client := { c with isSpeaking := true }

/-- Being deaf includes being muted. -/
def Client.selfSet (muted deafened : Bool) (c : Client) : Client :=
  { c with selfMuted := muted || deafened, selfDeafened := deafened }

/-- A channel with another number of clients. -/
def Channel.counted (change : Int) (ch : Channel) : Channel :=
  { ch with clientCount := ch.clientCount + change }

/-! No change is one of an identity. -/

theorem Client.moved_clientID (k : Int) (token : String) (c : Client) :
    (c.moved k token).clientID = c.clientID := rfl

theorem Client.silent_clientID (c : Client) : c.silent.clientID = c.clientID := rfl

theorem Client.voiced_clientID (c : Client) : c.voiced.clientID = c.clientID := rfl

theorem Channel.counted_channelID (change : Int) (ch : Channel) :
    (ch.counted change).channelID = ch.channelID := rfl

/-- What consumers invalidate after a removal. -/
structure RemoveChannelsResult where
  members : Finset (String × Int)
  subscriberIDs : Finset String

namespace Manager

def updateClient (clients : Table Client Client.clientID) (clientID : String) (f : Client → Client)
    (hf : ∀ c, (f c).clientID = c.clientID) : Table Client Client.clientID :=
  clients.update (fun c => decide (c.clientID = clientID)) f hf

variable (m : Manager) (clientID : String)

/-- Take a client out of the members of a channel. -/
def dropMember (channelID : Int) : Manager :=
  match m.membership channelID with
  | none => m
  | some _ =>
    { m with
      membership := m.membership.remove channelID clientID
      channels := m.channels.update
        (fun ch => decide (ch.channelID = channelID) && decide (ch.clientCount > 0))
        (Channel.counted (-1)) (Channel.counted_channelID _) }

def stopSpeakingLocked : Manager :=
  { m with
    clients := updateClient m.clients clientID Client.silent Client.silent_clientID
    speaking := m.speaking.delete fun e => decide (e.clientID = clientID) }

def addClient (c : Client) : Manager := { m with clients := m.clients.put c }

def addChannel (ch : Channel) : Manager := { m with channels := m.channels.put ch }

def dropSubsLocked : Manager :=
  { m with
    subsByChannel := m.subsByChannel.removeAll (m.subs.elems clientID) clientID
    subs := m.subs.drop clientID }

def removeClient : Manager × Option Client :=
  match m.clients.get clientID with
  | none => (m, none)
  | some c =>
    let m := if c.channelID ≠ 0 then m.dropMember clientID c.channelID else m
    let m := { m with speaking := m.speaking.delete fun e => decide (e.clientID = clientID) }
    let m := m.dropSubsLocked clientID
    ({ m with clients := m.clients.delete fun c => decide (c.clientID = clientID) }, some c)

/-- Each client that is put out of the channel gets a token of its own. -/
def removeChannelLocked (token : String → String) (channelID : Int) : Manager :=
  let m := { m with
    clients := m.clients.update (fun c => decide (c.clientID ∈ m.membership.elems channelID))
      (fun c => c.moved 0 (token c.clientID)) fun c => c.moved_clientID 0 _
    membership := m.membership.drop channelID }
  let m := { m with
    clients := m.clients.update
      (fun c => m.speaking.rows.any fun e =>
        decide (e.clientID = c.clientID) && decide (e.channelID = channelID))
      Client.silent Client.silent_clientID
    speaking := m.speaking.delete fun e => decide (e.channelID = channelID) }
  { m with
    subs := m.subs.removeAll (m.subsByChannel.elems channelID) channelID
    subsByChannel := m.subsByChannel.drop channelID
    channels := m.channels.delete fun ch => decide (ch.channelID = channelID) }

def removeChannels (token : String → String) (channelIDs : List Int) :
    Manager × RemoveChannelsResult :=
  channelIDs.foldl (fun (m, r) channelID =>
    (m.removeChannelLocked token channelID,
      { members := r.members ∪ (m.membership.elems channelID).image fun id => (id, channelID)
        subscriberIDs := r.subscriberIDs ∪ m.subsByChannel.elems channelID }))
    (m, ⟨∅, ∅⟩)

def leaveChannel (token : String) : Manager × Except StateErr Unit :=
  match m.clients.get clientID with
  | none => (m, .error .clientNotFound)
  | some c =>
    if c.channelID = 0 then (m, .error .notInChannel)
    else
      let m := m.dropMember clientID c.channelID
      let m := if m.speaking.get clientID ≠ none then m.stopSpeakingLocked clientID else m
      ({ m with
        clients := updateClient m.clients clientID (Client.moved 0 token)
          (Client.moved_clientID 0 token) },
        .ok ())

def moveClient (targetChannelID : Int) (enforceCapacity : Bool) (token : String) :
    Manager × Except StateErr Unit :=
  match m.clients.get clientID with
  | none => (m, .error .clientNotFound)
  | some c =>
    match m.channels.get targetChannelID with
    | none => (m, .error .channelNotFound)
    | some ch =>
      if ch.textOnly = true ∨ ch.systemKind = "home" then (m, .error .textChannel)
      else if c.channelID = targetChannelID then (m, .ok ())
      else if enforceCapacity = true ∧ ch.maxClients > 0 ∧
          ((m.membership.elems targetChannelID).card : Int) ≥ ch.maxClients then
        (m, .error .channelFull)
      else
        let m :=
          if c.channelID ≠ 0 then
            let m := m.dropMember clientID c.channelID
            if m.speaking.get clientID ≠ none then m.stopSpeakingLocked clientID else m
          else m
        ({ m with
          clients := updateClient m.clients clientID (Client.moved targetChannelID token)
            (Client.moved_clientID targetChannelID token)
          membership := m.membership.add targetChannelID clientID
          channels := m.channels.update (fun ch => decide (ch.channelID = targetChannelID))
            (Channel.counted 1) (Channel.counted_channelID 1) },
          .ok ())

def subscribe (channelIDs : List Int) : Manager :=
  if m.clients.get clientID = none then m
  else channelIDs.foldl (fun m channelID =>
    if m.channels.get channelID = none then m
    else { m with
      subs := m.subs.add clientID channelID
      subsByChannel := m.subsByChannel.add channelID clientID }) m

def unsubscribe (channelIDs : List Int) : Manager :=
  match m.subs clientID with
  | none => m
  | some set =>
    let (set, subsByChannel) := channelIDs.foldl (fun (set, subsByChannel) channelID =>
      (set.erase channelID, subsByChannel.remove channelID clientID)) (set, m.subsByChannel)
    { m with subs := m.subs.store clientID set, subsByChannel := subsByChannel }

/-- A client that is muted or deaf does not start to speak. -/
def setSpeaking (speaking : Bool) (now : Int) : Manager :=
  match m.clients.get clientID with
  | none => m
  | some c =>
    if speaking = true ∧ c.serverMuted = false ∧ c.selfMuted = false ∧ c.selfDeafened = false then
      { m with
        clients := updateClient m.clients clientID Client.voiced Client.voiced_clientID
        speaking := m.speaking.put ⟨clientID, c.channelID, now⟩ }
    else m.stopSpeakingLocked clientID

def setServerVoiceState (muted deafened : Option Bool) : Manager × Except StateErr Client :=
  match m.clients.get clientID with
  | none => (m, .error .clientNotFound)
  | some c =>
    let m := { m with
      clients := updateClient m.clients clientID (Client.moderated muted deafened)
        (fun _ => rfl) }
    if (c.moderated muted deafened).serverMuted = true then
      (m.stopSpeakingLocked clientID, .ok (c.moderated muted deafened).silent)
    else (m, .ok (c.moderated muted deafened))

def setAudioState (muted deafened : Bool) : Manager × Bool :=
  match m.clients.get clientID with
  | none => (m, false)
  | some _ =>
    let m := { m with
      clients := updateClient m.clients clientID (Client.selfSet muted deafened)
        (fun _ => rfl) }
    if (muted || deafened) = true then (m.stopSpeakingLocked clientID, true) else (m, true)

end Manager

/-! ### Calls -/

/-- The calls, with what they draw. -/
inductive ManagerCall
  | addClient (c : Client)
  | addChannel (ch : Channel)
  | moveClient (clientID : String) (targetChannelID : Int) (token : String)
  | moveClientWithinCapacity (clientID : String) (targetChannelID : Int) (token : String)
  | leaveChannel (clientID : String) (token : String)
  | removeClient (clientID : String)
  | removeChannels (channelIDs : List Int) (token : String → String)
  | subscribe (clientID : String) (channelIDs : List Int)
  | unsubscribe (clientID : String) (channelIDs : List Int)
  | setSpeaking (clientID : String) (speaking : Bool) (now : Int)
  | setServerVoiceState (clientID : String) (muted deafened : Option Bool)
  | setAudioState (clientID : String) (muted deafened : Bool)

inductive ManagerReply
  | done
  | moved (r : Except StateErr Unit)
  | removed (c : Option Client)
  | channels (r : RemoveChannelsResult)
  | voice (r : Except StateErr Client)
  | changed (b : Bool)

def managerStep (m : Manager) : ManagerCall → Manager × ManagerReply
  | .addClient c => (m.addClient c, .done)
  | .addChannel ch => (m.addChannel ch, .done)
  | .moveClient clientID target token =>
    ((m.moveClient clientID target false token).1,
      .moved (m.moveClient clientID target false token).2)
  | .moveClientWithinCapacity clientID target token =>
    ((m.moveClient clientID target true token).1,
      .moved (m.moveClient clientID target true token).2)
  | .leaveChannel clientID token =>
    ((m.leaveChannel clientID token).1, .moved (m.leaveChannel clientID token).2)
  | .removeClient clientID => ((m.removeClient clientID).1, .removed (m.removeClient clientID).2)
  | .removeChannels channelIDs token =>
    ((m.removeChannels token channelIDs).1, .channels (m.removeChannels token channelIDs).2)
  | .subscribe clientID channelIDs => (m.subscribe clientID channelIDs, .done)
  | .unsubscribe clientID channelIDs => (m.unsubscribe clientID channelIDs, .done)
  | .setSpeaking clientID speaking now => (m.setSpeaking clientID speaking now, .done)
  | .setServerVoiceState clientID muted deafened =>
    ((m.setServerVoiceState clientID muted deafened).1,
      .voice (m.setServerVoiceState clientID muted deafened).2)
  | .setAudioState clientID muted deafened =>
    ((m.setAudioState clientID muted deafened).1,
      .changed (m.setAudioState clientID muted deafened).2)

/-! ### Coherence -/

/-- Channels, members and counts. -/
structure Members (clients : Table Client Client.clientID)
    (channels : Table Channel Channel.channelID) (membership : SetMap Int String) : Prop where
  seated : ∀ c ∈ clients.rows, ∀ k, c.clientID ∈ membership.elems k ↔ c.channelID = k ∧ 0 < k
  nonneg : ∀ c ∈ clients.rows, 0 ≤ c.channelID
  known : ∀ k, ∀ id ∈ membership.elems k, id ∈ clients.rows.map (·.clientID)
  homes : ∀ k, (membership.elems k).Nonempty → k ∈ channels.rows.map (·.channelID)
  counted : ∀ ch ∈ channels.rows, ch.clientCount = (membership.elems ch.channelID).card
  positive : ∀ k ∈ channels.rows.map (·.channelID), 0 < k
  noEmpty : membership.NoEmpty

/-- Subscriptions in both directions, of clients and to channels that are there. -/
structure Subscribed (clients : List String) (channels : List Int) (subs : SetMap String Int)
    (subsByChannel : SetMap Int String) : Prop where
  inverse : subs.Inverse subsByChannel
  known : ∀ id, ∀ k ∈ subs.elems id, id ∈ clients ∧ k ∈ channels
  noEmpty : subs.NoEmpty
  noEmpty_byChannel : subsByChannel.NoEmpty

/-- A client speaks when it has an entry, which is for its channel, and it is not muted then. -/
structure Heard (speaking : List SpeakingState) (c : Client) : Prop where
  entry : c.isSpeaking = true ↔ ∃ e ∈ speaking, e.clientID = c.clientID
  place : ∀ e ∈ speaking, e.clientID = c.clientID → e.channelID = c.channelID
  open_mic : c.isSpeaking = true → c.serverMuted = false ∧ c.selfMuted = false ∧
    c.selfDeafened = false

/-- Who is speaking, and where. -/
structure Speaking (clients : Table Client Client.clientID)
    (speaking : Table SpeakingState SpeakingState.clientID) : Prop where
  heard : ∀ c ∈ clients.rows, Heard speaking.rows c
  known : ∀ e ∈ speaking.rows, e.clientID ∈ clients.rows.map (·.clientID)

structure Coherent (m : Manager) : Prop where
  members : Members m.clients m.channels m.membership
  subscribed : Subscribed (m.clients.rows.map (·.clientID))
    (m.channels.rows.map (·.channelID)) m.subs
    m.subsByChannel
  speaking : Speaking m.clients m.speaking

/-! ### Leaving and joining -/

/-- As `Members`, without one client, who is in no channel. -/
structure Vacated (clients : Table Client Client.clientID)
    (channels : Table Channel Channel.channelID)
    (membership : SetMap Int String) (id : String) : Prop where
  absent : ∀ k, id ∉ membership.elems k
  seated : ∀ c ∈ clients.rows, c.clientID ≠ id → ∀ k, c.clientID ∈ membership.elems k ↔
    c.channelID = k ∧ 0 < k
  nonneg : ∀ c ∈ clients.rows, 0 ≤ c.channelID
  known : ∀ k, ∀ id ∈ membership.elems k, id ∈ clients.rows.map (·.clientID)
  homes : ∀ k, (membership.elems k).Nonempty → k ∈ channels.rows.map (·.channelID)
  counted : ∀ ch ∈ channels.rows, ch.clientCount = (membership.elems ch.channelID).card
  positive : ∀ k ∈ channels.rows.map (·.channelID), 0 < k
  noEmpty : membership.NoEmpty

variable {m : Manager} {clients clients' : Table Client Client.clientID}
  {channels : Table Channel Channel.channelID} {membership : SetMap Int String}
  {speaking : Table SpeakingState SpeakingState.clientID} {id : String} {k : Int} {c c' : Client}
  {f : Client → Client} (hf : ∀ c, (f c).clientID = c.clientID)
  (hpl : ∀ c, (f c).channelID = c.channelID)

namespace Manager

theorem dropMember_keys :
    (m.dropMember id k).channels.rows.map (·.channelID) = m.channels.rows.map (·.channelID) := by
  rw [dropMember]
  split
  · rfl
  · exact keys_update (by intro _; rfl)

theorem dropMember_membership : (m.dropMember id k).membership = m.membership.remove k id := by
  rw [dropMember, SetMap.remove]
  cases hk : m.membership k with
  | none => rfl
  | some => dsimp only

/-- The other maps are left alone. -/
theorem dropMember_kept :
    (m.dropMember id k).clients = m.clients ∧ (m.dropMember id k).speaking = m.speaking ∧
      (m.dropMember id k).subs = m.subs ∧ (m.dropMember id k).subsByChannel = m.subsByChannel := by
  rw [dropMember]
  split <;> exact ⟨rfl, rfl, rfl, rfl⟩

/-- Who is there after a change of one client. -/
theorem mem_updateClient (hc' : c' ∈ (updateClient clients id f hf).rows) :
    (∃ c ∈ clients.rows, c.clientID = id ∧ f c = c') ∨ (c' ∈ clients.rows ∧ c'.clientID ≠ id) := by
  obtain ⟨c, hc, rfl⟩ := (mem_update hf).mp hc'
  by_cases hid : c.clientID = id
  · rw [if_pos (decide_eq_true hid)]
    exact .inl ⟨c, hc, hid, rfl⟩
  · rw [if_neg (by simp [hid])]
    exact .inr ⟨hc, hid⟩

@[simp]
theorem keys_updateClient :
    (updateClient clients id f hf).rows.map (·.clientID) = clients.rows.map (·.clientID) :=
  keys_update hf

/-- The channel that is left counts one less. -/
theorem dropMember_count (hin : id ∈ m.membership.elems k)
    (hcn : ∀ ch ∈ m.channels.rows, ch.clientCount = (m.membership.elems ch.channelID).card) :
    ∀ ch ∈ (m.dropMember id k).channels.rows,
      ch.clientCount = ((m.membership.remove k id).elems ch.channelID).card := by
  intro ch hch
  rw [dropMember] at hch
  cases hk : m.membership k with
  | none =>
    rw [elems_of_none hk] at hin
    exact absurd hin (Finset.notMem_empty _)
  | some =>
    rw [hk] at hch
    obtain ⟨x, hx, rfl⟩ := (mem_update (by intro _; rfl)).mp hch
    have hcnt := hcn x hx
    have hcr : 0 < (m.membership.elems k).card := Finset.card_pos.mpr ⟨_, hin⟩
    by_cases hcha : x.channelID = k
    · have hps : x.clientCount > 0 := by rw [hcnt, hcha]; omega
      rw [if_pos (by simp [hcha, hps])]
      simp only [Channel.counted, hcha, elems_remove, if_true, Finset.card_erase_of_mem hin, hcnt]
      omega
    · rw [if_neg (by simp [hcha]), elems_remove, if_neg hcha]
      exact hcnt

end Manager

open Manager

theorem Members.dropMember (h : Members m.clients m.channels m.membership)
    (hc : c ∈ m.clients.rows) (hin : c.channelID ≠ 0) :
    Vacated m.clients (m.dropMember c.clientID c.channelID).channels
      (m.dropMember c.clientID c.channelID).membership c.clientID := by
  have hnn := h.nonneg c hc
  have hmem : c.clientID ∈ m.membership.elems c.channelID :=
    (h.seated c hc _).mpr ⟨rfl, by omega⟩
  rw [dropMember_membership]
  refine ⟨fun k hk => ?_, fun x hx hne k => ?_, h.nonneg, fun k id hid => ?_, fun k hk => ?_,
    dropMember_count hmem h.counted, ?_, h.noEmpty.remove _ _⟩
  · obtain ⟨hk, hoth⟩ := mem_remove.mp hk
    exact hoth ⟨((h.seated c hc k).mp hk).1.symm, rfl⟩
  · rw [mem_remove, h.seated x hx k]
    simp [hne]
  · exact h.known k id (mem_remove.mp hid).1
  · rw [dropMember_keys]
    obtain ⟨x, hx⟩ := hk
    exact h.homes k ⟨x, (mem_remove.mp hx).1⟩
  · rw [dropMember_keys]
    exact h.positive

/-- A client that is in no channel leaves none. -/
theorem Members.vacated (h : Members clients channels membership) (hc : c ∈ clients.rows)
    (ho : c.channelID = 0) : Vacated clients channels membership c.clientID :=
  { h with
    absent k hk := by
      obtain ⟨heq, hp⟩ := (h.seated c hc k).mp hk
      omega
    seated x hx _ := h.seated x hx }

/-- Clients that are where they were, one of them perhaps in another channel. -/
structure Resettled (clients clients' : Table Client Client.clientID) (id : String) (k : Int) :
    Prop where
  others : ∀ c' ∈ clients'.rows, c'.clientID ≠ id →
    ∃ c ∈ clients.rows, c.clientID = c'.clientID ∧ c.channelID = c'.channelID
  self : ∀ c' ∈ clients'.rows, c'.clientID = id → c'.channelID = k
  keys : ∀ x, x ∈ clients.rows.map (·.clientID) → x ≠ id → x ∈ clients'.rows.map (·.clientID)

include hpl in
/-- A change of clients that leaves them where they are. -/
theorem unmoved_of_update {p : Client → Bool} (hc' : c' ∈ (clients.update p f hf).rows) :
    ∃ c ∈ clients.rows, c.clientID = c'.clientID ∧ c.channelID = c'.channelID := by
  obtain ⟨c, hc, rfl⟩ := (mem_update hf).mp hc'
  refine ⟨c, hc, (key_ite hf c).symm, ?_⟩
  split
  · exact (hpl c).symm
  · rfl

section

variable (h : Vacated clients channels membership id)

include h

/-- It does not matter to the others where the client is. -/
theorem Vacated.resettle (hk : 0 ≤ k) (hcls : Resettled clients clients' id k) :
    Vacated clients' channels membership id :=
  { h with
    seated c' hc' hne j := by
      obtain ⟨c, hc, hid, hpl⟩ := hcls.others c' hc' hne
      rw [← hid, ← hpl]
      exact h.seated c hc (hid ▸ hne) j
    nonneg c' hc' := by
      by_cases hid : c'.clientID = id
      · exact hcls.self c' hc' hid ▸ hk
      · obtain ⟨c, hc, -, hpl⟩ := hcls.others c' hc' hid
        exact hpl ▸ h.nonneg c hc
    known j x hx := hcls.keys x (h.known j x hx) fun heq => h.absent j (heq ▸ hx) }

/-- The client stays outside, or is gone. -/
theorem Vacated.outside
    (hcls : Resettled clients clients' id 0) : Members clients' channels membership :=
  have h := h.resettle le_rfl hcls
  { h with
    seated c' hc' k := by
      by_cases hid : c'.clientID = id
      · rw [hid, hcls.self c' hc' hid]
        exact iff_of_false (h.absent k) (by omega)
      · exact h.seated c' hc' hid k }

/-- The client joins a channel, which counts one more. -/
theorem Vacated.join (hcls : Resettled clients clients' id k)
    (hid : id ∈ clients'.rows.map (·.clientID))
    (hk : k ∈ channels.rows.map (·.channelID)) :
    Members clients' (channels.update (fun ch => decide (ch.channelID = k)) (Channel.counted 1)
      (Channel.counted_channelID 1)) (membership.add k id) :=
  have hp := h.positive k hk
  have h := h.resettle hp.le hcls
  { seated c' hc' j := by
      rw [mem_add]
      by_cases heq : c'.clientID = id
      · rw [heq, hcls.self c' hc' heq, or_iff_left (h.absent j), and_iff_left rfl, eq_comm]
        exact (and_iff_left_of_imp fun hj => hj ▸ hp).symm
      · rw [← h.seated c' hc' heq j]
        simp [heq]
    nonneg := h.nonneg
    known j x hx := by
      rcases mem_add.mp hx with ⟨-, rfl⟩ | hx
      · exact hid
      · exact h.known j x hx
    homes j hj := by
      rw [keys_update]
      obtain ⟨x, hx⟩ := hj
      rcases mem_add.mp hx with ⟨rfl, -⟩ | hx
      · exact hk
      · exact h.homes j ⟨x, hx⟩
    counted ch hch := by
      obtain ⟨x, hx, rfl⟩ := (mem_update (by intro _; rfl)).mp hch
      have hcnt := h.counted x hx
      by_cases hcha : x.channelID = k
      · rw [if_pos (decide_eq_true hcha)]
        simp only [Channel.counted, hcha, elems_add, if_true,
          Finset.card_insert_of_notMem (h.absent k), hcnt]
        omega
      · rw [if_neg (by simp [hcha]), elems_add, if_neg hcha]
        exact hcnt
    positive := by
      rw [keys_update]
      exact h.positive
    noEmpty := h.noEmpty.add _ _ }

end

/-! ### Clients that stay -/

include hpl in
theorem Members.update (h : Members clients channels membership) {p : Client → Bool} :
    Members (clients.update p f hf) channels membership :=
  { h with
    seated c' hc' k := by
      obtain ⟨c, hc, hid, hcha⟩ := unmoved_of_update hf hpl hc'
      rw [← hid, ← hcha]
      exact h.seated c hc k
    nonneg c' hc' := by
      obtain ⟨c, hc, -, hcha⟩ := unmoved_of_update hf hpl hc'
      exact hcha ▸ h.nonneg c hc
    known k x hx := by
      rw [keys_update]
      exact h.known k x hx }

theorem Resettled.updateClient (hk : ∀ c ∈ clients.rows, c.clientID = id → (f c).channelID = k) :
    Resettled clients (updateClient clients id f hf) id k where
  others c' hc' hne := by
    rcases mem_updateClient _ hc' with ⟨c, -, hid, rfl⟩ | ⟨hc, -⟩
    · exact absurd ((hf c).trans hid) hne
    · exact ⟨c', hc, rfl, rfl⟩
  self c' hc' heq := by
    rcases mem_updateClient _ hc' with ⟨c, hc, hid, rfl⟩ | ⟨-, hne⟩
    · exact hk c hc hid
    · exact absurd heq hne
  keys x hx _ := by
    rw [keys_updateClient]
    exact hx

theorem Resettled.deleted :
    Resettled clients (clients.delete fun c => decide (c.clientID = id)) id 0 where
  others c' hc' _ := ⟨c', (mem_delete.mp hc').1, rfl, rfl⟩
  self _ hc' heq := absurd heq (of_decide_eq_false (mem_delete.mp hc').2)
  keys _ hx hne := mem_keys_delete hx fun _ _ hid => decide_eq_false (hid ▸ hne)

/-! ### Speaking -/

/-- As `Speaking`, without one client. -/
structure SpeakingBut (clients : Table Client Client.clientID)
    (speaking : Table SpeakingState SpeakingState.clientID) (id : String) : Prop where
  heard : ∀ c ∈ clients.rows, c.clientID ≠ id → Heard speaking.rows c
  known : ∀ e ∈ speaking.rows, e.clientID ≠ id → e.clientID ∈ clients.rows.map (·.clientID)

section

variable {speaking : List SpeakingState}

/-- What the others hear only depends on their entries. -/
theorem Heard.congr {speaking' : List SpeakingState} (h : Heard speaking c)
    (hsm : ∀ e : SpeakingState, e.clientID = c.clientID → (e ∈ speaking' ↔ e ∈ speaking)) :
    Heard speaking' c where
  entry := h.entry.trans (exists_congr fun e => and_congr_left fun hid => (hsm e hid).symm)
  place e he hid := h.place e ((hsm e hid).mp he) hid
  open_mic := h.open_mic

theorem Heard.of_same (h : Heard speaking c) (hid : c'.clientID = c.clientID)
    (hpl : c'.channelID = c.channelID)
    (hspk : c'.isSpeaking = c.isSpeaking)
    (hmic : c'.serverMuted = c.serverMuted ∧ c'.selfMuted = c.selfMuted ∧
      c'.selfDeafened = c.selfDeafened) : Heard speaking c' where
  entry := by
    rw [hspk, hid]
    exact h.entry
  place := by
    rw [hid, hpl]
    exact h.place
  open_mic := by
    rw [hspk, hmic.1, hmic.2.1, hmic.2.2]
    exact h.open_mic

/-- A client without an entry is heard nowhere. -/
theorem Heard.of_silent (hsil : c.isSpeaking = false)
    (hno : ∀ e ∈ speaking, e.clientID ≠ c.clientID) : Heard speaking c where
  entry := iff_of_false (by simp [hsil]) fun ⟨e, he, hid⟩ => hno e he hid
  place e he hid := absurd hid (hno e he)
  open_mic h := absurd (hsil.symm.trans h) (by decide)

theorem Heard.silent_of_none (h : Heard speaking c)
    (hno : ∀ e ∈ speaking, e.clientID ≠ c.clientID) : c.isSpeaking = false := by
  by_contra hspg
  obtain ⟨e, he, hid⟩ := h.entry.mp (by simpa using hspg)
  exact hno e he hid

end

theorem no_entry_of_delete {e : SpeakingState}
    (he : e ∈ (speaking.delete fun e => decide (e.clientID = id)).rows) : e.clientID ≠ id :=
  of_decide_eq_false (mem_delete.mp he).2

theorem Speaking.but (h : Speaking clients speaking) (id : String) :
    SpeakingBut clients speaking id :=
  ⟨fun c hc _ => h.heard c hc, fun e he _ => h.known e he⟩

section

variable (h : SpeakingBut clients speaking id)

include h

theorem SpeakingBut.everyone (hh : ∀ c ∈ clients.rows, c.clientID = id → Heard speaking.rows c)
    (hkn : ∀ e ∈ speaking.rows, e.clientID = id → id ∈ clients.rows.map (·.clientID)) :
    Speaking clients speaking where
  heard c hc := by
    by_cases hid : c.clientID = id
    · exact hh c hc hid
    · exact h.heard c hc hid
  known e he := by
    by_cases hid : e.clientID = id
    · rw [hid]
      exact hkn e he hid
    · exact h.known e he hid

theorem SpeakingBut.update : SpeakingBut (updateClient clients id f hf) speaking id where
  heard c' hc' hne := by
    rcases mem_updateClient hf hc' with ⟨c, -, hid, rfl⟩ | ⟨hc, -⟩
    · exact absurd ((hf c).trans hid) hne
    · exact h.heard c' hc hne
  known e he hne := by
    rw [keys_updateClient]
    exact h.known e he hne

theorem SpeakingBut.delete_entry :
    SpeakingBut clients (speaking.delete fun e => decide (e.clientID = id)) id where
  heard c hc hne := (h.heard c hc hne).congr fun e he => by
    rw [mem_delete, he]
    simp [hne]
  known e he := h.known e (mem_delete.mp he).1

/-- The client stops, whatever its flags were. -/
theorem SpeakingBut.stop : Speaking (updateClient clients id Client.silent Client.silent_clientID)
      (speaking.delete fun e => decide (e.clientID = id)) := by
  refine (h.delete_entry.update _).everyone (fun c' hc' hid => ?_) fun e he hid =>
    absurd hid (no_entry_of_delete he)
  rcases mem_updateClient _ hc' with ⟨c, -, -, rfl⟩ | ⟨-, hne⟩
  · refine Heard.of_silent rfl fun e he => ?_
    rw [hid]
    exact no_entry_of_delete he
  · exact absurd hid hne

/-- The client is gone. -/
theorem SpeakingBut.delete : Speaking (clients.delete fun c => decide (c.clientID = id))
      (speaking.delete fun e => decide (e.clientID = id)) where
  heard c hc := by
    obtain ⟨hc, hne⟩ := mem_delete.mp hc
    exact h.delete_entry.heard c hc (of_decide_eq_false hne)
  known e he := by
    have hne := no_entry_of_delete he
    exact mem_keys_delete (h.delete_entry.known e he hne) fun c _ hid =>
      decide_eq_false (hid ▸ hne)

end

/-- A change of one client that it is still heard after. -/
theorem Speaking.update (h : Speaking clients speaking)
    (hh : ∀ c ∈ clients.rows, c.clientID = id → Heard speaking.rows c →
    Heard speaking.rows (f c)) :
    Speaking (updateClient clients id f hf) speaking := by
  refine ((h.but id).update hf).everyone (fun c' hc' hid => ?_) fun e he hid => ?_
  · rcases mem_updateClient hf hc' with ⟨c, hc, heq, rfl⟩ | ⟨-, hne⟩
    · exact hh c hc heq (h.heard c hc)
    · exact absurd hid hne
  · rw [keys_updateClient, ← hid]
    exact h.known e he

/-- A silent client may be moved. -/
theorem Speaking.moved (h : Speaking clients speaking)
    (hno : ∀ e ∈ speaking.rows, e.clientID ≠ id) (k : Int) (token : String) :
    Speaking (updateClient clients id (Client.moved k token) (Client.moved_clientID k token))
      speaking := by
  refine h.update _ fun c hc hid hc' => ?_
  have hno' : ∀ e ∈ speaking.rows, e.clientID ≠ c.clientID := by
    rw [hid]
    exact hno
  exact .of_silent (hc'.silent_of_none hno') hno'

theorem Speaking.start (h : Speaking clients speaking) (hc : c ∈ clients.rows) (now : Int)
    (hmic : c.serverMuted = false ∧ c.selfMuted = false ∧ c.selfDeafened = false) :
    Speaking (updateClient clients c.clientID Client.voiced Client.voiced_clientID)
      (speaking.put ⟨c.clientID, c.channelID, now⟩) := by
  have hot : SpeakingBut clients (speaking.put ⟨c.clientID, c.channelID, now⟩) c.clientID := by
    refine ⟨fun x hx hne => (h.heard x hx).congr fun e he => ?_, fun e he hne => ?_⟩
    · have hoth : e.clientID ≠ c.clientID := he ▸ hne
      rw [mem_put, and_iff_left hoth]
      exact or_iff_right fun heq => hoth (heq ▸ rfl)
    · rcases mem_put.mp he with rfl | ⟨he, -⟩
      · exact absurd rfl hne
      · exact h.known e he
  refine (hot.update _).everyone (fun c' hc' hid => ?_) fun _ _ _ => ?_
  · rcases mem_updateClient _ hc' with ⟨x, hx, hxid, rfl⟩ | ⟨-, hne⟩
    swap
    · exact absurd hid hne
    obtain rfl := clients.eq_of_key hx hc hxid
    refine ⟨⟨fun _ => ⟨_, mem_put.mpr (.inl rfl), rfl⟩, fun _ => rfl⟩, fun e he hid => ?_,
      fun _ => hmic⟩
    rcases mem_put.mp he with rfl | ⟨-, hne⟩
    · rfl
    · exact absurd hid hne
  · rw [keys_updateClient]
    exact List.mem_map_of_mem hc

/-! ### Removing a channel -/

section

/-- What the removal of a channel makes of a client. -/
structure PutOut (m : Manager) (k : Int) (c c' : Client) : Prop where
  clientID : c'.clientID = c.clientID
  channelID : c'.channelID = if c.clientID ∈ m.membership.elems k then 0 else c.channelID
  silenced : (∃ e ∈ m.speaking.rows, e.clientID = c.clientID ∧ e.channelID = k) →
    c'.isSpeaking = false
  kept : (¬ ∃ e ∈ m.speaking.rows, e.clientID = c.clientID ∧ e.channelID = k) →
    c'.isSpeaking = c.isSpeaking
  mic : c'.serverMuted = c.serverMuted ∧ c'.selfMuted = c.selfMuted ∧
    c'.selfDeafened = c.selfDeafened

variable {token : String → String}

theorem Manager.removeChannel_client (hc' : c' ∈ (m.removeChannelLocked token k).clients.rows) :
    ∃ c ∈ m.clients.rows, PutOut m k c c' := by
  rw [removeChannelLocked] at hc'
  obtain ⟨c₁, hc₁, rfl⟩ := (mem_update Client.silent_clientID).mp hc'
  obtain ⟨c, hc, hmvd⟩ := (mem_update fun c => c.moved_clientID 0 _).mp hc₁
  -- the first loop changes no flag, the second only one
  have hfst : c₁.clientID = c.clientID ∧
      c₁.channelID = (if c.clientID ∈ m.membership.elems k then 0 else c.channelID) ∧
      c₁.isSpeaking = c.isSpeaking ∧ c₁.serverMuted = c.serverMuted ∧
      c₁.selfMuted = c.selfMuted ∧ c₁.selfDeafened = c.selfDeafened := by
    rw [← hmvd]
    by_cases hin : c.clientID ∈ m.membership.elems k <;> simp [hin, Client.moved]
  obtain ⟨hid, hpl, hspk, hmic⟩ := hfst
  refine ⟨c, hc, ?_⟩
  by_cases hsp : ∃ e ∈ m.speaking.rows, e.clientID = c.clientID ∧ e.channelID = k
  · rw [if_pos (by simpa [hid] using hsp)]
    exact ⟨hid, hpl, fun _ => rfl, fun hnot => absurd hsp hnot, hmic⟩
  · rw [if_neg (by simpa [hid] using hsp)]
    exact ⟨hid, hpl, fun h => absurd h hsp, fun _ => hspk, hmic⟩

theorem Manager.removeChannel_clients :
    (m.removeChannelLocked token k).clients.rows.map (·.clientID) = m.clients.rows.map
      (·.clientID) := by
  rw [removeChannelLocked, keys_update, keys_update]

theorem Manager.removeChannel_channel {ch : Channel} :
    ch ∈ (m.removeChannelLocked token k).channels.rows ↔ ch ∈ m.channels.rows ∧
      ch.channelID ≠ k := by
  rw [removeChannelLocked, mem_delete, decide_eq_false_iff_not]

theorem Members.removeChannel (h : Members m.clients m.channels m.membership) :
    Members (m.removeChannelLocked token k).clients (m.removeChannelLocked token k).channels
      (m.membership.drop k) := by
  refine ⟨fun c' hc' j => ?_, fun c' hc' => ?_, fun j x hx => ?_, fun j hj => ?_, fun ch hch => ?_,
    fun j hj => ?_, h.noEmpty.drop k⟩
  · obtain ⟨c, hc, ho⟩ := removeChannel_client hc'
    have hsea := h.seated c hc
    rw [mem_drop, ho.clientID, ho.channelID, hsea j]
    split
    · next hin =>
      obtain ⟨rfl, hp⟩ := (hsea k).mp hin
      omega
    · next hin =>
      rw [hsea k] at hin
      omega
  · obtain ⟨c, hc, ho⟩ := removeChannel_client hc'
    rw [ho.channelID]
    split
    · exact le_rfl
    · exact h.nonneg c hc
  · rw [removeChannel_clients]
    exact h.known j x (mem_drop.mp hx).1
  · obtain ⟨x, hx⟩ := hj
    obtain ⟨hx, hne⟩ := mem_drop.mp hx
    exact mem_keys_delete (h.homes j ⟨x, hx⟩) fun ch _ hid => decide_eq_false (hid ▸ hne)
  · obtain ⟨hch, hne⟩ := removeChannel_channel.mp hch
    rw [elems_drop, if_neg hne]
    exact h.counted ch hch
  · obtain ⟨ch, hch, rfl⟩ := List.mem_map.mp hj
    exact h.positive _ (List.mem_map_of_mem (removeChannel_channel.mp hch).1)

/-- Who was in the channel speaks nowhere, and the others as before. -/
theorem Speaking.removeChannel (h : Speaking m.clients m.speaking)
    (hm : Members m.clients m.channels m.membership) :
    Speaking (m.removeChannelLocked token k).clients
      (m.speaking.delete fun e => decide (e.channelID = k)) := by
  refine ⟨fun c' hc' => ?_, fun e he => ?_⟩
  · obtain ⟨c, hc, ho⟩ := removeChannel_client hc'
    have hh := h.heard c hc
    by_cases hpl : c.channelID = k
    · -- its entries are those of the channel
      refine .of_silent ?_ fun e he hid => ?_
      · by_cases hsp : ∃ e ∈ m.speaking.rows, e.clientID = c.clientID ∧ e.channelID = k
        · exact ho.silenced hsp
        · rw [ho.kept hsp]
          refine hh.silent_of_none fun e he hid => hsp ⟨e, he, hid, ?_⟩
          rw [hh.place e he hid, hpl]
      · obtain ⟨he, hne⟩ := mem_delete.mp he
        refine of_decide_eq_false hne ?_
        rw [hh.place e he (hid.trans ho.clientID), hpl]
    · have hin : c.clientID ∉ m.membership.elems k := fun hin =>
        hpl ((hm.seated c hc k).mp hin).1
      have hqt : ¬ ∃ e ∈ m.speaking.rows, e.clientID = c.clientID ∧ e.channelID = k := by
        rintro ⟨e, he, hid, rfl⟩
        exact hpl (hh.place e he hid).symm
      have hsm : ∀ e : SpeakingState, e.clientID = c.clientID →
          (e ∈ (m.speaking.delete fun e => decide (e.channelID = k)).rows ↔
            e ∈ m.speaking.rows) := by
        intro e hid
        rw [mem_delete]
        refine and_iff_left_of_imp fun he => decide_eq_false ?_
        rw [hh.place e he hid]
        exact hpl
      refine (hh.congr hsm).of_same ho.clientID ?_ (ho.kept hqt) ho.mic
      rw [ho.channelID, if_neg hin]
  · rw [removeChannel_clients]
    exact h.known e (mem_delete.mp he).1

end

/-! ### Subscriptions -/

section

variable {clients clients' : List String} {channels channels' : List Int} {subs : SetMap String Int}
  {subsByChannel : SetMap Int String}

section

variable (h : Subscribed clients channels subs subsByChannel)

include h

theorem Subscribed.mono (hcls : clients ⊆ clients') (hchs : channels ⊆ channels') :
    Subscribed clients' channels' subs subsByChannel :=
  { h with known id k hk := ⟨hcls (h.known id k hk).1, hchs (h.known id k hk).2⟩ }

theorem Subscribed.add (hid : id ∈ clients) (hk : k ∈ channels) :
    Subscribed clients channels (subs.add id k) (subsByChannel.add k id) where
  inverse := h.inverse.add id k
  known x j hj := by
    rcases mem_add.mp hj with ⟨rfl, rfl⟩ | hj
    · exact ⟨hid, hk⟩
    · exact h.known x j hj
  noEmpty := h.noEmpty.add id k
  noEmpty_byChannel := h.noEmpty_byChannel.add k id

/-- The subscriptions of a client that is gone. -/
theorem Subscribed.dropClient (hcls : ∀ x ∈ clients, x ≠ id → x ∈ clients') :
    Subscribed clients' channels (subs.drop id) (subsByChannel.removeAll (subs.elems id) id) where
  inverse := h.inverse.drop id
  known x k hk := by
    obtain ⟨hk, hne⟩ := mem_drop.mp hk
    exact ⟨hcls x (h.known x k hk).1 hne, (h.known x k hk).2⟩
  noEmpty := h.noEmpty.drop id
  noEmpty_byChannel := h.noEmpty_byChannel.removeAll _ id

/-- The subscriptions to a channel that is gone. -/
theorem Subscribed.dropChannel (hchs : ∀ j ∈ channels, j ≠ k → j ∈ channels') :
    Subscribed clients channels' (subs.removeAll (subsByChannel.elems k) k)
      (subsByChannel.drop k) where
  inverse := (h.inverse.symm.drop k).symm
  known x j hj := by
    obtain ⟨hin, hne⟩ := mem_removeAll.mp hj
    refine ⟨(h.known x j hin).1, hchs j (h.known x j hin).2 ?_⟩
    rintro rfl
    exact hne ⟨(h.inverse x j).mp hin, rfl⟩
  noEmpty := h.noEmpty.removeAll _ k
  noEmpty_byChannel := h.noEmpty_byChannel.drop k

end

variable (id) (ks : List Int)

/-- The loop of `Unsubscribe`. -/
theorem unsubscribe_fold (set : Finset Int) :
    (ks.foldl (fun (set, subsByChannel) k => (set.erase k, SetMap.remove subsByChannel k id))
      (set, subsByChannel)) =
      (set \ ks.toFinset, ks.foldl (fun subsByChannel k => SetMap.remove subsByChannel k id)
        subsByChannel) := by
  induction ks generalizing set subsByChannel with
  | nil => simp
  | cons k ks ih =>
    rw [List.foldl_cons, List.foldl_cons, ih, List.toFinset_cons, Finset.sdiff_insert,
      Finset.erase_sdiff_comm]

theorem mem_foldl_remove {j : Int} {x : String} :
    x ∈ (ks.foldl (fun subsByChannel k => SetMap.remove subsByChannel k id) subsByChannel).elems j ↔
      x ∈ subsByChannel.elems j ∧ ¬ (j ∈ ks ∧ x = id) := by
  induction ks generalizing subsByChannel with
  | nil => simp
  | cons k ks ih =>
    rw [List.foldl_cons, ih, mem_remove, List.mem_cons]
    tauto

theorem noEmpty_foldl_remove (h : subsByChannel.NoEmpty) :
    (ks.foldl (fun subsByChannel k => SetMap.remove subsByChannel k id) subsByChannel).NoEmpty := by
  induction ks generalizing subsByChannel with
  | nil => exact h
  | cons k ks ih => exact ih (h.remove k id)

theorem Subscribed.unsubscribe (h : Subscribed clients channels subs subsByChannel) :
    Subscribed clients channels (subs.store id (subs.elems id \ ks.toFinset))
      (ks.foldl (fun subsByChannel k => SetMap.remove subsByChannel k id) subsByChannel) where
  inverse x k := by
    rw [elems_store, mem_foldl_remove, ← h.inverse x k]
    by_cases hx : x = id
    · simp [hx]
    · simp [hx]
  known x k hk := by
    refine h.known x k ?_
    rw [elems_store] at hk
    split at hk
    · next hx =>
      rw [hx]
      exact (Finset.mem_sdiff.mp hk).1
    · exact hk
  noEmpty := h.noEmpty.store id _
  noEmpty_byChannel := noEmpty_foldl_remove id ks h.noEmpty_byChannel

end

/-! ### Calls keep the maps coherent -/

section

variable {m' : Manager}

/-- A manager in which one client has left its channel and stopped speaking. -/
structure Freed (m m' : Manager) (id : String) : Prop where
  vacated : Vacated m'.clients m'.channels m'.membership id
  speaking : Speaking m'.clients m'.speaking
  no_entry : ∀ e ∈ m'.speaking.rows, e.clientID ≠ id
  clients : m'.clients.rows.map (·.clientID) = m.clients.rows.map (·.clientID)
  channels : m'.channels.rows.map (·.channelID) = m.channels.rows.map (·.channelID)
  subs : m'.subs = m.subs
  subsByChannel : m'.subsByChannel = m.subsByChannel

/-- What `LeaveChannel` and `moveClient` do first, if the client is in a channel. -/
def Manager.left (m : Manager) (c : Client) : Manager :=
  if c.channelID ≠ 0 then
    if (m.dropMember c.clientID c.channelID).speaking.get c.clientID ≠ none then
      (m.dropMember c.clientID c.channelID).stopSpeakingLocked c.clientID
    else m.dropMember c.clientID c.channelID
  else m

/-- What `moveClient` does last. -/
def Manager.joined (m : Manager) (id : String) (k : Int) (token : String) : Manager :=
  { m with
    clients := updateClient m.clients id (Client.moved k token) (Client.moved_clientID k token)
    membership := m.membership.add k id
    channels := m.channels.update (fun ch => decide (ch.channelID = k)) (Channel.counted 1)
      (Channel.counted_channelID 1) }

/-- A channel that a client can be moved into: it has voice, and room. -/
def Manager.Admits (m : Manager) (enforce : Bool) (ch : Channel) : Prop :=
  ¬ (ch.textOnly = true ∨ ch.systemKind = "home") ∧ (enforce = true → 0 < ch.maxClients →
    ((m.membership.elems ch.channelID).card : Int) < ch.maxClients)

/-- A client that is moved leaves its channel for one that admits it. -/
theorem Manager.moveClient_cases (m : Manager) (id : String) (k : Int) (enforce : Bool)
    (token : String) : (∃ r, m.moveClient id k enforce token = (m, r)) ∨
    ∃ c ∈ m.clients.rows, c.clientID = id ∧ ∃ ch ∈ m.channels.rows, ch.channelID = k ∧
      m.Admits enforce ch ∧
      m.moveClient id k enforce token = ((m.left c).joined id k token, .ok ()) := by
  rw [moveClient]
  cases hg : m.clients.get id with
  | none => exact .inl ⟨_, rfl⟩
  | some c =>
    obtain ⟨hc, rfl⟩ := get_eq_some.mp hg
    cases hcha : m.channels.get k with
    | none => exact .inl ⟨_, rfl⟩
    | some ch =>
      obtain ⟨hch, rfl⟩ := get_eq_some.mp hcha
      dsimp only
      split
      · exact .inl ⟨_, rfl⟩
      rename_i hvoi
      split
      · exact .inl ⟨_, rfl⟩
      split
      · exact .inl ⟨_, rfl⟩
      rename_i hfu
      refine .inr ⟨c, hc, rfl, ch, hch, rfl, ⟨hvoi, fun henf hmax => ?_⟩, rfl⟩
      by_contra hrm
      exact hfu ⟨henf, hmax, not_lt.mp hrm⟩

theorem Coherent.freed (h : Coherent m) (hc : c ∈ m.clients.rows) (hin : c.channelID ≠ 0) :
    Freed m (m.left c) c.clientID := by
  rw [Manager.left, if_pos hin]
  have hv := h.members.dropMember hc hin
  have hks := @dropMember_keys m c.clientID c.channelID
  obtain ⟨hcls, hspg, hsb, hb⟩ := @dropMember_kept m c.clientID c.channelID
  rw [← hcls] at hv
  have hh := h.speaking
  rw [← hcls, ← hspg] at hh
  split
  · refine ⟨hv.resettle (h.members.nonneg c hc) (.updateClient Client.silent_clientID
        fun x hx hid => ?_), (hh.but _).stop,
      fun e he => no_entry_of_delete he, by simp [stopSpeakingLocked, hcls], hks, hsb,
      hb⟩
    rw [hcls] at hx
    rw [m.clients.eq_of_key hx hc hid]
    rfl
  · next hent =>
    exact ⟨hv, hh, get_eq_none.mp (not_not.mp hent), by rw [hcls], hks, hsb, hb⟩

/-- A silent client outside needs to leave nothing. -/
theorem Coherent.free (h : Coherent m) (hc : c ∈ m.clients.rows) (ho : c.channelID = 0)
    (hsil : c.isSpeaking = false) : Freed m (m.left c) c.clientID := by
  rw [Manager.left, if_neg (not_not.mpr ho)]
  refine ⟨h.members.vacated hc ho, h.speaking, fun e he hid => ?_, rfl, rfl, rfl, rfl⟩
  exact absurd (hsil.symm.trans ((h.speaking.heard c hc).entry.mpr ⟨e, he, hid⟩)) (by decide)

theorem Coherent.leaveChannel (h : Coherent m) (id token : String) :
    Coherent (m.leaveChannel id token).1 := by
  rw [Manager.leaveChannel]
  cases hg : m.clients.get id with
  | none => exact h
  | some c =>
    obtain ⟨hc, rfl⟩ := get_eq_some.mp hg
    by_cases hin : c.channelID = 0
    · simp only [if_pos hin]
      exact h
    simp only [if_neg hin]
    have hfrd := h.freed hc hin
    rw [Manager.left, if_pos hin] at hfrd
    refine ⟨hfrd.vacated.outside (.updateClient (Client.moved_clientID 0 token) fun _ _ _ => rfl),
      ?_,
      hfrd.speaking.moved hfrd.no_entry 0 token⟩
    rw [keys_updateClient, hfrd.clients, hfrd.channels, hfrd.subs, hfrd.subsByChannel]
    exact h.subscribed

theorem Freed.join (hfrd : Freed m m' id) (h : Coherent m)
    (hid : id ∈ m.clients.rows.map (·.clientID)) (hk : k ∈ m.channels.rows.map (·.channelID))
    (token : String) : Coherent (m'.joined id k token) := by
  rw [Manager.joined]
  refine ⟨hfrd.vacated.join (.updateClient (Client.moved_clientID k token) fun _ _ _ => rfl) ?_ ?_,
    ?_,
    hfrd.speaking.moved hfrd.no_entry k token⟩
  · rw [keys_updateClient, hfrd.clients]
    exact hid
  · rw [hfrd.channels]
    exact hk
  · rw [keys_updateClient, keys_update, hfrd.clients, hfrd.channels, hfrd.subs, hfrd.subsByChannel]
    exact h.subscribed

/-- A client that a channel admits does not speak outside. Its entry would be left behind. -/
def QuietOutside (m : Manager) (clientID : String) (k : Int) (enforce : Bool) : Prop :=
  ∀ c ∈ m.clients.get clientID, ∀ ch ∈ m.channels.get k, m.Admits enforce ch →
    c.channelID = 0 → c.isSpeaking = false

/-- What is added is new, and nobody is moved into a channel while speaking outside. -/
def ManagerStep (m : Manager) : ManagerCall → Prop
  | .addClient c =>
    m.clients.get c.clientID = none ∧ c.channelID = 0 ∧ c.isSpeaking = false
  | .addChannel ch => m.channels.get ch.channelID = none ∧ 0 < ch.channelID ∧ ch.clientCount = 0
  | .moveClient id k _ => QuietOutside m id k false
  | .moveClientWithinCapacity id k _ => QuietOutside m id k true
  | _ => True

instance (m : Manager) (enforce : Bool) : DecidablePred (m.Admits enforce) :=
  fun _ => inferInstanceAs (Decidable (_ ∧ _))

instance (m : Manager) (id : String) (k : Int) (enforce : Bool) :
    Decidable (QuietOutside m id k enforce) :=
  inferInstanceAs (Decidable (∀ c ∈ m.clients.get id, ∀ ch ∈ m.channels.get k, _))

instance (m : Manager) : DecidablePred (ManagerStep m)
  | .addClient _ => inferInstanceAs (Decidable (_ ∧ _))
  | .addChannel _ => inferInstanceAs (Decidable (_ ∧ _))
  | .moveClient .. => inferInstanceAs (Decidable (QuietOutside ..))
  | .moveClientWithinCapacity .. => inferInstanceAs (Decidable (QuietOutside ..))
  | .leaveChannel .. | .removeClient .. | .removeChannels .. | .subscribe .. | .unsubscribe ..
  | .setSpeaking .. | .setServerVoiceState .. | .setAudioState .. =>
    inferInstanceAs (Decidable True)

section

variable (h : Coherent m)

include h

variable (id)

theorem Coherent.moveClient (k : Int) (enforce : Bool) (token : String)
    (hqt : QuietOutside m id k enforce) : Coherent (m.moveClient id k enforce token).1 := by
  rcases m.moveClient_cases id k enforce token with
    ⟨r, heq⟩ | ⟨c, hc, rfl, ch, hch, rfl, hadm, heq⟩
  · rw [heq]
    exact h
  rw [heq]
  have hfrd : Freed m (m.left c) c.clientID := by
    by_cases hin : c.channelID = 0
    · exact h.free hc hin (hqt c (get_of_mem hc) ch (get_of_mem hch) hadm hin)
    · exact h.freed hc hin
  exact hfrd.join h (List.mem_map_of_mem hc) (List.mem_map_of_mem hch) token

theorem Coherent.removeClient : Coherent (m.removeClient id).1 := by
  rw [Manager.removeClient]
  cases hg : m.clients.get id with
  | none => exact h
  | some c =>
    obtain ⟨hc, rfl⟩ := get_eq_some.mp hg
    have hgo : ∀ x ∈ m.clients.rows.map (·.clientID), x ≠ c.clientID →
        x ∈ (m.clients.delete fun x => decide (x.clientID = c.clientID)).rows.map (·.clientID) :=
      Resettled.deleted.keys
    by_cases hin : c.channelID = 0
    · simp only [hin, ne_eq, not_true, if_false, dropSubsLocked]
      exact ⟨(h.members.vacated hc hin).outside .deleted,
        h.subscribed.dropClient hgo, (h.speaking.but _).delete⟩
    · obtain ⟨hcls, hspg, hsb, hb⟩ := @dropMember_kept m c.clientID c.channelID
      simp only [ne_eq, hin, not_false_iff, if_true, dropSubsLocked, hcls, hspg, hsb, hb]
      refine ⟨(h.members.dropMember hc hin).outside .deleted, ?_, (h.speaking.but _).delete⟩
      rw [dropMember_keys]
      exact h.subscribed.dropClient hgo

variable (token : String → String)

theorem Coherent.removeChannelLocked (k : Int) : Coherent (m.removeChannelLocked token k) := by
  refine ⟨h.members.removeChannel, ?_, h.speaking.removeChannel h.members⟩
  rw [removeChannel_clients]
  exact h.subscribed.dropChannel fun j hj hne =>
    mem_keys_delete hj fun ch _ hid => decide_eq_false (hid ▸ hne)

variable (ks : List Int)

/-- The loop of `RemoveChannels`. -/
theorem Coherent.removeChannels : Coherent (m.removeChannels token ks).1 := by
  rw [Manager.removeChannels]
  generalize (⟨∅, ∅⟩ : RemoveChannelsResult) = r
  induction ks generalizing m r with
  | nil => exact h
  | cons k ks ih => exact ih (h.removeChannelLocked token k) _

/-- The loop of `Subscribe` changes no client and no channel. -/
theorem Coherent.subscribe : Coherent (m.subscribe id ks) := by
  rw [Manager.subscribe]
  split
  · exact h
  rename_i hg
  obtain ⟨c, hg⟩ := Option.ne_none_iff_exists'.mp hg
  obtain ⟨hc, rfl⟩ := get_eq_some.mp hg
  clear * - h hc
  induction ks generalizing m with
  | nil => exact h
  | cons k ks ih =>
    rw [List.foldl_cons]
    split
    · exact ih h hc
    rename_i hch
    obtain ⟨ch, hfnd⟩ := Option.ne_none_iff_exists'.mp hch
    obtain ⟨hmem, rfl⟩ := get_eq_some.mp hfnd
    have hsb := h.subscribed.add (List.mem_map_of_mem hc) (List.mem_map_of_mem hmem)
    exact ih ⟨h.members, hsb, h.speaking⟩ hc

theorem Coherent.unsubscribe : Coherent (m.unsubscribe id ks) := by
  rw [Manager.unsubscribe]
  cases hset : m.subs id with
  | none => exact h
  | some =>
    have hsb := h.subscribed.unsubscribe id ks
    rw [elems_of_some hset] at hsb
    simp only [unsubscribe_fold]
    exact ⟨h.members, hsb, h.speaking⟩

include hpl in
/-- A client that stops speaking, after a change of its flags. -/
theorem Coherent.stopped :
    Coherent ({ m with clients := updateClient m.clients id f hf }.stopSpeakingLocked id) where
  members := (h.members.update hf hpl).update Client.silent_clientID fun _ => rfl
  subscribed := by
    simp only [stopSpeakingLocked, keys_updateClient]
    exact h.subscribed
  speaking := ((h.speaking.but id).update hf).stop

theorem Coherent.stopSpeakingLocked : Coherent (m.stopSpeakingLocked id) where
  members := h.members.update Client.silent_clientID fun _ => rfl
  subscribed := by
    simp only [Manager.stopSpeakingLocked, keys_updateClient]
    exact h.subscribed
  speaking := (h.speaking.but id).stop

include hpl in
/-- A change of the flags of a client that it is still heard after. -/
theorem Coherent.flags (hh : ∀ c ∈ m.clients.rows, c.clientID = id → Heard m.speaking.rows c →
    Heard m.speaking.rows (f c)) :
    Coherent { m with clients := updateClient m.clients id f hf } where
  members := h.members.update hf hpl
  subscribed := by
    simp only [keys_updateClient]
    exact h.subscribed
  speaking := h.speaking.update hf hh

theorem Coherent.setSpeaking (speaking : Bool) (now : Int) :
    Coherent (m.setSpeaking id speaking now) := by
  rw [Manager.setSpeaking]
  cases hg : m.clients.get id with
  | none => exact h
  | some =>
    obtain ⟨hc, rfl⟩ := get_eq_some.mp hg
    dsimp only
    split
    · next hmic =>
      refine ⟨h.members.update Client.voiced_clientID fun _ => rfl, ?_,
        h.speaking.start hc now hmic.2⟩
      rw [keys_updateClient]
      exact h.subscribed
    · exact h.stopSpeakingLocked _

theorem Coherent.setServerVoiceState
    (muted deafened : Option Bool) : Coherent (m.setServerVoiceState id muted deafened).1 := by
  rw [Manager.setServerVoiceState]
  cases hg : m.clients.get id with
  | none => exact h
  | some =>
    obtain ⟨hc, rfl⟩ := get_eq_some.mp hg
    dsimp only
    split
    · exact h.stopped _ _ fun _ => rfl
    rename_i hmut
    refine h.flags _ _ (fun _ => rfl) fun x hx hid hh => ?_
    obtain rfl := m.clients.eq_of_key hx hc hid
    -- the mute flag is off afterwards, the others are as they were
    exact ⟨hh.entry, hh.place, fun hspk =>
      ⟨by simpa using hmut, (hh.open_mic hspk).2⟩⟩

theorem Coherent.setAudioState (muted deafened : Bool) :
    Coherent (m.setAudioState id muted deafened).1 := by
  rw [Manager.setAudioState]
  cases hg : m.clients.get id with
  | none => exact h
  | some =>
    dsimp only
    split
    · exact h.stopped _ _ fun _ => rfl
    rename_i hmut
    refine h.flags _ _ (fun _ => rfl) fun x hx hid hh => ?_
    have hmut : muted = false ∧ deafened = false := by simpa using hmut
    exact ⟨hh.entry, hh.place, fun hspk =>
      ⟨(hh.open_mic hspk).1, by simp [Client.selfSet, hmut], hmut.2⟩⟩

theorem Coherent.addClient (hn : m.clients.get c.clientID = none) (ho : c.channelID = 0)
    (hsil : c.isSpeaking = false) : Coherent (m.addClient c) := by
  have hfr := get_eq_none.mp hn
  have hks : m.clients.rows.map (·.clientID) ⊆ (m.clients.put c).rows.map (·.clientID) :=
    fun _ => mem_keys_put
  have hunk : c.clientID ∉ m.clients.rows.map (·.clientID) := by
    intro hmem
    obtain ⟨r, hr, hid⟩ := List.mem_map.mp hmem
    exact hfr r hr hid
  refine ⟨{ h.members with
      seated := forall_put (fun k => ?_) h.members.seated
      nonneg := forall_put ho.ge h.members.nonneg
      known k x hx := hks (h.members.known k x hx) },
    h.subscribed.mono hks (List.Subset.refl _),
    ⟨forall_put ?_ h.speaking.heard, fun e he => hks (h.speaking.known e he)⟩⟩
  · exact iff_of_false (fun hmem => hunk (h.members.known k _ hmem)) (by omega)
  · exact .of_silent hsil fun e he hid => hunk (hid ▸ h.speaking.known e he)

theorem Coherent.addChannel {ch : Channel}
    (hn : m.channels.get ch.channelID = none) (hp : 0 < ch.channelID)
    (hemp : ch.clientCount = 0) : Coherent (m.addChannel ch) := by
  have hfr := get_eq_none.mp hn
  have hks : m.channels.rows.map (·.channelID) ⊆ (m.channels.put ch).rows.map (·.channelID) :=
    fun _ => mem_keys_put
  -- members of a channel that is not there would have been without a home
  have hno : m.membership.elems ch.channelID = ∅ := by
    by_contra hne
    obtain ⟨r, hr, hid⟩ := List.mem_map.mp
      (h.members.homes _ (Finset.nonempty_iff_ne_empty.mpr hne))
    exact hfr r hr hid
  refine ⟨{ h.members with
      homes k hk := hks (h.members.homes k hk)
      counted := forall_put (by rw [hemp, Manager.addChannel, hno]; rfl) h.members.counted
      positive := List.forall_mem_map.mpr
        (forall_put hp (List.forall_mem_map.mp h.members.positive)) },
    h.subscribed.mono (List.Subset.refl _) hks, h.speaking⟩

theorem Coherent.step (call : ManagerCall) (hs : ManagerStep m call) :
    Coherent (managerStep m call).1 := by
  cases call with
  | addClient => exact h.addClient hs.1 hs.2.1 hs.2.2
  | addChannel => exact h.addChannel hs.1 hs.2.1 hs.2.2
  | moveClient id k token => exact h.moveClient id k false token hs
  | moveClientWithinCapacity id k token => exact h.moveClient id k true token hs
  | leaveChannel id token => exact h.leaveChannel id token
  | removeClient id => exact h.removeClient id
  | removeChannels ks token => exact h.removeChannels token ks
  | subscribe id ks => exact h.subscribe id ks
  | unsubscribe id ks => exact h.unsubscribe id ks
  | setSpeaking id speaking now => exact h.setSpeaking id speaking now
  | setServerVoiceState id muted deafened => exact h.setServerVoiceState id muted deafened
  | setAudioState id muted deafened => exact h.setAudioState id muted deafened

end

theorem Coherent.init : Coherent {} where
  members := ⟨by simp [Table.empty], by simp [Table.empty], by simp, by simp, by simp [Table.empty],
    by simp [Table.empty], noEmpty_empty⟩
  subscribed := ⟨fun _ _ => by simp, by simp, noEmpty_empty, noEmpty_empty⟩
  speaking := ⟨by simp [Table.empty], by simp [Table.empty]⟩

end

/-! ### Capacity -/

theorem Manager.left_membership (m : Manager) (c : Client) (j : Int) :
    (m.left c).membership.elems j ⊆ m.membership.elems j := by
  rw [left]
  split
  · have hlf : (m.dropMember c.clientID c.channelID).membership.elems j ⊆
      m.membership.elems j := by
      intro x hx
      rw [dropMember_membership] at hx
      exact (mem_remove.mp hx).1
    split <;> exact hlf
  · exact Finset.Subset.refl _

/-! ### Histories -/

/-- In every history in which what is added is new and nobody is moved into a channel while speaking
outside, the maps are coherent, and a move within capacity overfills no channel and changes nothing
when it fails. -/
theorem manager_coherent {calls : List ManagerCall} (h : Along managerStep ManagerStep {} calls) :
    Coherent (run managerStep {} calls) ∧
    ∀ m, m = run managerStep {} calls → ∀ id k token, (∀ ch ∈ m.channels.rows, 0 < ch.maxClients →
        (((m.moveClient id k true token).1.membership.elems ch.channelID).card : Int) ≤
        ch.maxClients ∨
        ((m.moveClient id k true token).1.membership.elems ch.channelID).card ≤
          (m.membership.elems ch.channelID).card) ∧
      ∀ e, (m.moveClient id k true token).2 = .error e → (m.moveClient id k true token).1 = m := by
  refine ⟨run_invariant_along (P := Coherent)
    (fun _ call hs hm => hm.step call hs) Coherent.init h,
    fun m _ id k token => ?_⟩
  rcases m.moveClient_cases id k true token with
    ⟨r, heq⟩ | ⟨c, -, -, target, htgt, rfl, ⟨-, hrm⟩, heq⟩
  · rw [heq]
    exact ⟨fun _ _ _ => .inr le_rfl, fun _ _ => rfl⟩
  · rw [heq]
    refine ⟨fun ch hch hmax => ?_, fun _ he => nomatch he⟩
    have hcr := Finset.card_le_card (m.left_membership c ch.channelID)
    rw [Manager.joined, elems_add]
    by_cases hk : ch.channelID = target.channelID
    · obtain rfl := m.channels.eq_of_key hch htgt hk
      left
      rw [if_pos rfl]
      have hins := Finset.card_insert_le id ((m.left c).membership.elems ch.channelID)
      have hle := hrm rfl hmax
      omega
    · rw [if_neg hk]
      exact .inr hcr

namespace Sample

def ada : Client := { clientID := "ada", userID := 1, uniqueID := "u1" }

def bob : Client := { clientID := "bob", userID := 2, uniqueID := "u2" }

def lounge : Channel := { channelID := 1, maxClients := 1 }

end Sample

open Sample

theorem manager_coherent_lounge :
    Along managerStep ManagerStep {} [.addClient ada, .addClient bob, .addChannel lounge,
      .moveClientWithinCapacity "ada" 1 "t1", .setSpeaking "ada" true 5,
      .moveClientWithinCapacity "bob" 1 "t2", .subscribe "bob" [1, 2]] ∧
    Coherent (run managerStep {} [.addClient ada, .addClient bob, .addChannel lounge,
      .moveClientWithinCapacity "ada" 1 "t1", .setSpeaking "ada" true 5,
      .moveClientWithinCapacity "bob" 1 "t2", .subscribe "bob" [1, 2]]) := by
  refine ⟨?h, (manager_coherent ?h).1⟩
  decide +kernel

/-- A client that starts to speak outside and is then moved into a channel has an entry that names
no channel. -/
theorem speaking_entry_left_behind :
    let m := run managerStep {} [.addClient ada, .addChannel lounge, .setSpeaking "ada" true 5,
      .moveClient "ada" 1 "t1"]
    (m.clients.get "ada").map (·.channelID) = some 1 ∧
      (m.speaking.get "ada").map (·.channelID) = some 0 := by
  decide +kernel

end Noxa.State

import Mathlib.Data.List.Sort

/-!
# Channels and clients in memory

The records `state.Manager` keeps for channels and connected clients, the order in which it lists
channels, and who is hidden from the member lists. A server state is what the manager's two maps
hold at one moment; the order of the lists stands for the order in which the maps are iterated.

A client's connection, metadata, encryption key and movement counter are not read by anything
modelled here and are left out.
-/

namespace Noxa.State

/-- A connected client. Times are counted in nanoseconds. -/
structure Client where
  clientID : String
  userID : Int
  uniqueID : String
  nickname : String := ""
  /-- 0 means no channel -/
  channelID : Int := 0
  presenceToken : String := ""
  isSpeaking : Bool := false
  handCalled : Bool := false
  handRaisedOrder : ℕ := 0
  prioritySpeaker : Bool := false
  sharing : Bool := false
  selfMuted : Bool := false
  selfDeafened : Bool := false
  serverMuted : Bool := false
  serverDeafened : Bool := false
  voiceRevision : Int := 0
  status : String := ""
  statusMessage : String := ""
  hideLobbyPresence : Bool := false
  isBot : Bool := false
  onMobile : Bool := false
  mediaDevice : String := ""
  connectedAt : Int := 0
  deriving DecidableEq, Repr

/-- A channel. -/
structure Channel where
  channelID : Int
  parentID : Int := 0
  name : String := ""
  topic : String := ""
  orderIndex : Int := 0
  channelType : Int := 0
  maxClients : Int := 0
  /-- derived, maintained by the manager -/
  clientCount : Int := 0
  createdAt : Int := 0
  passwordHash : String := ""
  hasIcon : Bool := false
  hasPassword : Bool := false
  recording : Bool := false
  opusBitrate : Int := 0
  opusFEC : Bool := false
  opusDTX : Bool := false
  opusStereo : Bool := false
  slowModeSeconds : Int := 0
  description : String := ""
  textOnly : Bool := false
  systemKind : String := ""
  deriving DecidableEq, Repr

/-- What the manager holds at one moment. -/
structure ServerState where
  channels : List Channel
  clients : List Client
  channels_nodup : (channels.map (·.channelID)).Nodup
  clients_nodup : (clients.map (·.clientID)).Nodup

namespace ServerState

variable (s : ServerState)

def getChannel (channelID : Int) : Option Channel :=
  s.channels.find? fun ch => ch.channelID = channelID

/-- The order of channels: parent, then order index, then id. -/
def channelLE (a b : Channel) : Bool :=
  if a.parentID ≠ b.parentID then a.parentID < b.parentID
  else if a.orderIndex ≠ b.orderIndex then a.orderIndex < b.orderIndex
  else a.channelID ≤ b.channelID

def channelTreeOrdered : List Channel := s.channels.insertionSort fun a b => channelLE a b

def presenceHidden (c : Client) : Bool :=
  if c.status = "invisible" then true
  else if !c.hideLobbyPresence then false
  else if c.channelID = 0 then true
  else match s.getChannel c.channelID with
    | none => false
    | some ch => ch.systemKind = "home"

/-- Channel `k` is the parent of channel `j`. -/
def ParentOf (k j : Int) : Prop :=
  k ≠ 0 ∧ ∃ ch ∈ s.channels, ch.channelID = j ∧ ch.parentID = k

/-- No channel is its own ancestor. -/
def Acyclic : Prop := ∀ k, ¬ Relation.TransGen s.ParentOf k k

theorem channelTreeOrdered_perm : s.channelTreeOrdered.Perm s.channels :=
  List.perm_insertionSort _ _

end ServerState

end Noxa.State

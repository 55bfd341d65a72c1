import Noxa.Authorization.Evaluate
import Noxa.Lib.Forest
import Noxa.Lib.Rank
import Noxa.State.Types

/-!
# Snapshots of the channel tree

A snapshot is what one viewer is sent of the server: the channel tree with the clients in it, and
totals. `buildSnapshot` builds the tree for everyone, filtering only hidden presence;
`buildRoleSnapshot` then walks it, drops the channels the viewer may not see, puts a visible child
of a hidden channel at the top, and recomputes everything that describes the tree.

A node of the Go tree is a `RoseTree` here, and attaching children through pointers is `grow`. The
generation time, the viewer's own last move (set elsewhere) and cancellation are left out.

## Main definitions

* `ClientInfo`, `NodeInfo`, `ChannelNode`, `TreeSnapshot` — what is sent
* `buildSnapshot` — the tree for everyone
* `visit`, `buildRoleSnapshot` — the tree for one viewer
-/

namespace Noxa.Snapshot

open Authorization Authorization.Capability Forest State

/-! ### The data -/

/-- Public cosmetics of a role. -/
structure RoleAppearance where
  id : Int
  name : String
  position : Int
  color : String
  icon : String
  hoist : Bool
  deriving DecidableEq, Repr

/-- What is sent of a client. -/
structure ClientInfo where
  isGuest : Bool
  userID : Int
  roles : List RoleAppearance := []
  clientID : String
  uniqueID : String
  nickname : String
  channelID : Int
  isSpeaking : Bool
  connectedAt : Int
  presenceToken : String
  handCalled : Bool
  handRaisedOrder : ℕ
  prioritySpeaker : Bool
  sharing : Bool
  selfMuted : Bool
  selfDeafened : Bool
  serverMuted : Bool
  serverDeafened : Bool
  voiceRevision : Int
  status : String
  statusMessage : String
  isBot : Bool
  onMobile : Bool
  mediaDevice : String
  deriving DecidableEq, Repr

structure ChannelAccess where
  canManageVoiceQueue : Bool
  restricted : Bool
  canConnect : Bool
  canManageAccess : Bool
  memberCount : ℕ
  guestCount : ℕ
  deriving DecidableEq, Repr

/-- A channel with the clients in it. -/
structure NodeInfo where
  channel : Channel
  clients : List ClientInfo
  access : Option ChannelAccess := none
  deriving DecidableEq, Repr

abbrev ChannelNode := RoseTree NodeInfo

inductive OwnAuthority
  | owner
  | administrator
  | guest
  | member
  deriving DecidableEq, Repr

structure TreeSnapshot where
  roleIcons : AList fun _ : Int => String
  supportsVoiceQueue : Bool
  ownAuthority : Option OwnAuthority
  canViewAuditLog : Bool
  canSetInvisible : Bool
  rootChannels : List ChannelNode
  unassignedClients : List ClientInfo
  totalClients : ℕ
  totalChannels : ℕ

/-! ### The tree for everyone -/

def clientToInfo (c : Client) : ClientInfo where
  clientID := c.clientID
  userID := c.userID
  isGuest := c.userID = 0
  uniqueID := c.uniqueID
  nickname := c.nickname
  channelID := c.channelID
  presenceToken := c.presenceToken
  isSpeaking := c.isSpeaking
  connectedAt := c.connectedAt
  prioritySpeaker := c.prioritySpeaker
  handRaisedOrder := c.handRaisedOrder
  handCalled := c.handCalled
  sharing := c.sharing
  selfMuted := c.selfMuted
  selfDeafened := c.selfDeafened
  serverMuted := c.serverMuted
  serverDeafened := c.serverDeafened
  voiceRevision := c.voiceRevision
  status := c.status
  statusMessage := c.statusMessage
  isBot := c.isBot
  onMobile := c.onMobile
  mediaDevice := c.mediaDevice

/-- Whether a client is listed at all for the viewer. -/
def listed (s : ServerState) (forAdmin : Bool) (viewerUniqueID : String) (c : Client) : Bool :=
  !(s.presenceHidden c && !forAdmin && c.uniqueID ≠ viewerUniqueID)

/-- The clients collected for a channel. Channel 0 has a list of its own. -/
def clientsIn (s : ServerState) (forAdmin : Bool) (viewerUniqueID : String) (channelID : Int) :
    List ClientInfo :=
  (s.clients.filter fun c => listed s forAdmin viewerUniqueID c && c.channelID = channelID).map
    clientToInfo

/-- The ranks of the raised hands in one channel replace the server-wide sequence. -/
def rankRaised (clients : List ClientInfo) : List ClientInfo :=
  let raised := clients.filter (0 < ·.handRaisedOrder)
  clients.map fun member =>
    if 0 < member.handRaisedOrder then
      { member with handRaisedOrder := Rank.rank (·.handRaisedOrder) raised member }
    else member

def nodeOf (s : ServerState) (forAdmin : Bool) (viewerUniqueID : String) (ch : Channel) :
    NodeInfo where
  channel := { ch with hasPassword := ch.passwordHash ≠ "" }
  clients :=
    if ch.channelID = 0 then [] else rankRaised (clientsIn s forAdmin viewerUniqueID ch.channelID)

def NodeInfo.id (n : NodeInfo) : Int := n.channel.channelID

/-- The parent a node names, if any. -/
def NodeInfo.parent (n : NodeInfo) : Option Int :=
  if n.channel.parentID = 0 then none else some n.channel.parentID

/-- Nodes whose parent is missing are treated as roots, to avoid losing them. -/
def buildSnapshot (s : ServerState) (forAdmin : Bool) (viewerUniqueID : String) : TreeSnapshot where
  roleIcons := ∅
  supportsVoiceQueue := true
  ownAuthority := none
  canViewAuditLog := false
  canSetInvisible := false
  rootChannels := forest NodeInfo.id NodeInfo.parent
    (s.channelTreeOrdered.map (nodeOf s forAdmin viewerUniqueID)) s.channelTreeOrdered.length
  unassignedClients := clientsIn s forAdmin viewerUniqueID 0
  totalClients := (s.clients.filter (listed s forAdmin viewerUniqueID)).length
  totalChannels := s.channelTreeOrdered.length

/-! ### The tree for one viewer -/

section Viewer

variable (e : RoleEvaluator) (actorID : Int) (uniqueID : String)

/-- A role of a member; an unknown one reads as the zero value. -/
def roleAppearance (id : Int) : RoleAppearance :=
  match e.roles.lookup id with
  | some r => ⟨r.id, r.name, r.position, r.color, r.icon, r.hoist⟩
  | none => ⟨0, "", 0, "", "", false⟩

/-- Assigned roles from highest to lowest. -/
def memberAppearance (userID : Int) : List RoleAppearance :=
  ((e.memberRoles userID).map (roleAppearance e)).insertionSort fun a b => b.position ≤ a.position

def roleImage (roleID : Int) : String :=
  match e.roles.lookup roleID with
  | some r => roleIconImage r.iconImage
  | none => ""

/-- The icons a member contributes to the snapshot. -/
def iconsOf (member : ClientInfo) : List (Int × String) :=
  (memberAppearance e member.userID).filterMap fun role =>
    if roleImage e role.id ≠ "" then some (role.id, roleImage e role.id) else none

/-- Whether the viewer sees connection details, and with them hidden presence. -/
def showStats : Bool := (e.evaluate actorID 0 viewConnectionInfo).allowed

def decorateMember (member : ClientInfo) : ClientInfo :=
  { member with
    roles := memberAppearance e member.userID
    prioritySpeaker := member.prioritySpeaker && decide (0 < member.channelID) &&
      (e.evaluate member.userID member.channelID prioritySpeaker).allowed
    sharing := member.sharing && decide (0 < member.channelID) &&
      (e.evaluate member.userID member.channelID shareScreen).allowed
    connectedAt :=
      if !showStats e actorID && decide (member.uniqueID ≠ uniqueID) then 0
      else member.connectedAt }

/-- Whether the viewer has `view_channel` in the channel. -/
def visible (channelID : Int) : Bool := (e.evaluate actorID channelID viewChannel).allowed

/-- A node as it is shown, under a visible parent or at the top. -/
def showNode (visibleParent : Option Int) (n : NodeInfo) : NodeInfo where
  channel := { n.channel with clientCount := n.clients.length, parentID := visibleParent.getD 0 }
  clients := n.clients.map (decorateMember e actorID uniqueID)
  access := some
    { canManageVoiceQueue := (e.evaluate actorID n.id muteMembers).allowed
      restricted := !(e.evaluate 0 n.id viewChannel).allowed || !(e.evaluate 0 n.id connect).allowed
      canConnect := (e.evaluate actorID n.id connect).allowed
      canManageAccess :=
        decide (0 < actorID) && (e.evaluate actorID n.id manageChannelAccess).allowed
      memberCount := n.clients.countP (0 < ·.userID)
      guestCount := n.clients.countP (¬ 0 < ·.userID) }

/-- What a visit adds: the nodes for the visible parent, the nodes for the top, the totals and the
icons, in the order the walk meets them. -/
structure Visited where
  attached : List ChannelNode := []
  roots : List ChannelNode := []
  totalChannels : ℕ := 0
  totalClients : ℕ := 0
  icons : List (Int × String) := []

def Visited.append (v w : Visited) : Visited where
  attached := v.attached ++ w.attached
  roots := v.roots ++ w.roots
  totalChannels := v.totalChannels + w.totalChannels
  totalClients := v.totalClients + w.totalClients
  icons := v.icons ++ w.icons

/-- A visible node, once its children have been visited. -/
def visitShown (visibleParent : Option Int) (n : NodeInfo) (below : Visited) : Visited :=
  let shown := RoseTree.node (showNode e actorID uniqueID visibleParent n) below.attached
  { attached := if visibleParent.isNone then [] else [shown]
    roots := if visibleParent.isNone then shown :: below.roots else below.roots
    totalChannels := below.totalChannels + 1
    totalClients := below.totalClients + n.clients.length
    icons := n.clients.flatMap (iconsOf e) ++ below.icons }

mutual

def visit (visibleParent : Option Int) : ChannelNode → Visited
  | .node n children =>
    if visible e actorID n.id then
      visitShown e actorID uniqueID visibleParent n (visitAll (some n.id) children)
    else visitAll none children

def visitAll (visibleParent : Option Int) : List ChannelNode → Visited
  | [] => {}
  | child :: children => (visit visibleParent child).append (visitAll visibleParent children)

end

def buildRoleSnapshot (s : ServerState) : TreeSnapshot :=
  let snapshot := buildSnapshot s (showStats e actorID) uniqueID
  let authority := e.evaluate actorID 0 administrator
  let visited := visitAll e actorID uniqueID none snapshot.rootChannels
  let icons := snapshot.unassignedClients.flatMap (iconsOf e) ++ visited.icons
  { snapshot with
    canSetInvisible := authority.allowed
    canViewAuditLog := (e.evaluate actorID 0 viewAuditLog).allowed
    ownAuthority := some <|
      if authority.reason = .owner then .owner
      else if authority.reason = .administrator then .administrator
      else if actorID = 0 then .guest
      else .member
    roleIcons := icons.foldl (fun icons icon => icons.insert icon.1 icon.2) ∅
    unassignedClients := snapshot.unassignedClients.map (decorateMember e actorID uniqueID)
    totalChannels := visited.totalChannels
    totalClients := snapshot.unassignedClients.length + visited.totalClients
    rootChannels := visited.roots }

end Viewer

end Noxa.Snapshot

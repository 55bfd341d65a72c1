import Noxa.Authorization.RoleChange

/-!
# Channel tree changes

`ApplyChannelTreeChange` (`internal/authorization/channel_changes.go`): creating, moving, deleting
and editing a channel, as far as the policy is concerned. Like a role change it is authorized
against the old policy and returns a separate validated snapshot.

## Main definitions

* `ChannelTreeChange` — the request
* `applyChannelTreeChange` — the operation
* `RoleEvaluator.channelSubtree` — a channel and everything below it
-/

namespace Noxa.Authorization

open Capability

/-- The kinds of tree change. Any text other than the known ones is refused. -/
inductive ChannelChangeKind
  | channelCreate
  | channelMove
  | channelDelete
  | channelEdit
  | unlisted (text : String)
  deriving DecidableEq, Repr

/-- One requested tree change. -/
structure ChannelTreeChange where
  kind : ChannelChangeKind
  expectedRevision : Int
  channelID : Int
  parentID : Int := 0
  temporary : Bool := false
  access : ChannelPolicy := .zero
  syncToParent : Bool := false
  orderIndex : Option Int := none
  deriving DecidableEq, Repr

/-- Whether `root` is met on the way from `id` to the top. The first argument bounds the walk. -/
def meetsAncestor (e : RoleEvaluator) (root : Int) : ℕ → Int → Bool
  | 0, _ => false
  | n + 1, id =>
    if id = 0 then false
    else if id = root then true
    else meetsAncestor e root n (e.channelOf id).parentID

/-- A channel and everything below it, in policy order. -/
def RoleEvaluator.channelSubtree (e : RoleEvaluator) (root : Int) : List Int :=
  (e.policy.channels.map (·.channelID)).filter (meetsAncestor e root (e.channels.keys.length + 1))

/-- The walk that limits the depth of the tree: at most 64 channels up to the top. -/
def depthWithin (e : RoleEvaluator) : ℕ → Int → Bool
  | 0, id => id = 0
  | n + 1, id => if id = 0 then true else depthWithin e n (e.channelOf id).parentID

section Drafts

variable [PngDecoder] (e : RoleEvaluator) (p : RolePolicy) (actorID : Int)
  (change : ChannelTreeChange)

/-- Other settings of a channel change elsewhere; the policy only checks the right to. -/
def draftChannelEdit : Except RoleError RolePolicy :=
  if ¬ (e.evaluate actorID change.channelID manageChannels).allowed then .error .forbidden
  else .ok p

/-- A new channel. A custom access list can bypass the restrictions of the parent even when it
is empty, so it counts as an access change in the parent. -/
def draftChannelCreate : Except RoleError RolePolicy :=
  if change.access.systemKind ≠ "" then .error .invalid
  else if change.channelID ∈ e.channels then .error .invalid
  else if change.access.channelID ≠ change.channelID ∨
      change.access.parentID ≠ change.parentID then .error .invalid
  else if ¬ ((e.evaluate actorID change.parentID manageChannels).allowed ∨ (change.temporary ∧
      (e.evaluate actorID change.parentID createTemporaryChannels).allowed)) then .error .forbidden
  else
    let next := { p with channels := p.channels ++ [change.access] }
    match newRoleEvaluator next with
    | .error err => .error (.invalidCandidate err)
    | .ok candidate =>
      if ¬ change.access.synced then
        if ¬ (e.evaluate actorID change.parentID manageChannelAccess).allowed then
          .error .forbidden
        else if authorizeOverrideChanges e actorID change.parentID
            (e.effectiveOverrides change.parentID) (candidate.effectiveOverrides change.channelID)
          then .ok next
        else .error .forbidden
      else .ok next

/-- The entry of a channel after a move. It keeps its effective access unless asked to sync. -/
def movedChannel (ch : ChannelPolicy) : ChannelPolicy :=
  if change.syncToParent then
    { ch with parentID := change.parentID, synced := true, overrides := [] }
  else { ch with
    parentID := change.parentID
    synced := false
    overrides := e.effectiveOverrides change.channelID }

/-- Move a channel with everything below it. -/
def draftChannelMove : Except RoleError RolePolicy :=
  if change.channelID ∉ e.channels then .error .invalid
  else if ¬ (e.evaluate actorID change.channelID manageChannels).allowed ∨
      ¬ (e.evaluate actorID change.parentID manageChannels).allowed then .error .forbidden
  else if ¬ (e.channelSubtree change.channelID).all
      fun id => (e.evaluate actorID id manageChannels).allowed then .error .forbidden
  else if change.syncToParent ∧
      ¬ (e.evaluate actorID change.channelID manageChannelAccess).allowed then .error .forbidden
  else
    let next := { p with
      channels := p.channels.map fun ch =>
        if ch.channelID = change.channelID then movedChannel e change ch else ch }
    match newRoleEvaluator next with
    | .error err => .error (.invalidCandidate err)
    | .ok candidate =>
      if authorizeChangedChannelAccess e candidate actorID then .ok next
      else .error .forbidden

/-- Delete a channel with everything below it. -/
def draftChannelDelete : Except RoleError RolePolicy :=
  if change.channelID ∉ e.channels then .error .invalid
  else
    let removed := e.channelSubtree change.channelID
    if ¬ removed.all fun id => (e.evaluate actorID id manageChannels).allowed then .error .forbidden
    else .ok { p with channels := p.channels.filter (·.channelID ∉ removed) }

/-- The draft of a tree change. -/
def draftChannelTreeChange : Except RoleError RolePolicy :=
  match change.kind with
  | .channelEdit => draftChannelEdit e p actorID change
  | .channelCreate => draftChannelCreate e p actorID change
  | .channelMove => draftChannelMove e p actorID change
  | .channelDelete => draftChannelDelete e p actorID change
  | .unlisted _ => .error .invalid

end Drafts

/-- Apply one tree change to a policy on behalf of an actor. System channels and the inside of
the `public` channel are out of reach. -/
def applyChannelTreeChange [PngDecoder] (p : RolePolicy) (actorID : Int)
    (change : ChannelTreeChange) : Except RoleError RolePolicy :=
  if change.orderIndex ≠ none ∧ change.kind ≠ .channelMove then .error .invalid
  else
    match newRoleEvaluator p with
    | .error err => .error (.invalidCurrent err)
    | .ok e =>
      if change.expectedRevision ≠ p.revision then .error .conflict
      else if actorID < 1 then .error .forbidden
      else if change.channelID ≤ 0 ∨ change.parentID < 0 then .error .invalid
      else if (e.channelOf change.channelID).systemKind ≠ "" then .error .forbidden
      else if (e.channelOf change.parentID).systemKind = "public" then .error .forbidden
      else
        match draftChannelTreeChange e p actorID change with
        | .error err => .error err
        | .ok draft =>
          let next := { draft with revision := int64 (draft.revision + 1) }
          match newRoleEvaluator next with
          | .error err => .error (.invalidCandidate err)
          | .ok validated =>
            if ¬ validated.channels.keys.all (depthWithin validated 64) then .error .invalid
            else .ok validated.policy

end Noxa.Authorization

import Noxa.Authorization.Evaluate

/-!
# Role changes

`ApplyRoleChange` (`internal/authorization/role_changes.go`): one atomic edit of a policy by an
authenticated actor, checked against the snapshot before the edit. Each kind of change has its
own guards and builds its own draft; the draft is then advanced by one revision, sorted and
validated again.

Loops whose every failure is the same error are written as a condition on all elements. The loop
of `rolesReorder` has two different errors and stays a recursion.

## Main definitions

* `RoleChange` — the request
* `applyRoleChange` — the operation
* `authorizeOverrideChanges`, `authorizeMemberChannelGains` — the guards on channel access
-/

namespace Noxa.Authorization

open Capability

/-- The kinds of change. Any text other than the known ones is refused. -/
inductive RoleChangeKind
  | roleCreate
  | roleUpdate
  | roleDelete
  | rolesReorder
  | memberRolesSet
  | channelAccessSet
  | defaultMemberRoleSet
  | ownerTransfer
  | unlisted (text : String)
  deriving DecidableEq, Repr

/-- One requested change. Role order is lowest first, including `@everyone`. -/
structure RoleChange where
  kind : RoleChangeKind
  expectedRevision : Int
  role : Role := ⟨0, "", 0, "", "", none, false, false, false, []⟩
  roleID : Int := 0
  roleIDs : List Int := []
  userID : Int := 0
  memberUniqueID : String := ""
  channel : ChannelPolicy := .zero
  deriving DecidableEq, Repr

/-- Why a change is refused. The last two carry the complaint of the validator. -/
inductive RoleError
  | forbidden
  | conflict
  | invalid
  | invalidCurrent (err : PolicyError)
  | invalidCandidate (err : PolicyError)
  deriving DecidableEq, Repr

/-! ### Guards -/

/-- The actor may hand out every capability in the list; only the owner hands out
`administrator`. -/
def canGrantCapabilities (e : RoleEvaluator) (actorID channelID : Int)
    (capabilities : List Capability) : Bool :=
  capabilities.all fun c =>
    ¬ (c = administrator ∧ actorID ≠ e.policy.ownerID) ∧ (e.evaluate actorID channelID c).allowed

/-- The capabilities of `after` that are not in `before`. -/
def addedCapabilities (before after : List Capability) : List Capability :=
  after.filter (· ∉ before)

/-- Every override that one of the two lists has and the other has not must be within the
actor's own authority in the channel. -/
def authorizeOverrideChanges (before : RoleEvaluator) (actorID channelID : Int)
    (oldOverrides newOverrides : List RoleOverride) : Bool :=
  if actorID = before.policy.ownerID ∨ oldOverrides = newOverrides then true
  else (oldOverrides ++ newOverrides).all fun o =>
    (o ∈ oldOverrides ∧ o ∈ newOverrides) ∨
      ((before.evaluate actorID channelID manageChannelAccess).allowed ∧
        (before.evaluate actorID channelID o.capability).allowed ∧
        (o.roleID ≠ 0 → before.canManageChannelRole actorID channelID o.roleID) ∧
        (o.userID ≠ 0 → before.canManageMember actorID o.userID))

/-- A parent edit also changes its synced descendants, so every channel is compared. -/
def authorizeChangedChannelAccess (before after : RoleEvaluator) (actorID : Int) : Bool :=
  if actorID = before.policy.ownerID then true
  else after.channels.keys.all fun id =>
    authorizeOverrideChanges before actorID id (before.effectiveOverrides id)
      (after.effectiveOverrides id)

/-- The catalogue entries that can be decided in a channel. -/
def channelCapabilities : List Capability :=
  (capabilityCatalog.filter (·.channel)).map (·.key)

/-- A membership change must not give the target a channel capability, in a channel with an
override of a changed role, that the actor cannot use there. -/
def authorizeMemberChannelGains (before after : RoleEvaluator) (actorID targetID : Int)
    (changed : List Int) : Bool :=
  if actorID = before.policy.ownerID then true
  else after.channels.keys.all fun id =>
    if (before.effectiveOverrides id ++ after.effectiveOverrides id).any (·.roleID ∈ changed) then
      channelCapabilities.all fun c =>
        (before.evaluate targetID id c).allowed ∨ ¬ (after.evaluate targetID id c).allowed ∨
          (before.evaluate actorID id c).allowed
    else true

/-- Some channel denies the role something. -/
def roleHasDenyOverride (p : RolePolicy) (roleID : Int) : Bool :=
  p.channels.any fun ch => ch.overrides.any fun o => o.roleID = roleID ∧ o.effect = .deny

/-! ### One draft per kind -/

section Drafts

variable [PngDecoder] (e : RoleEvaluator) (p : RolePolicy) (actorID : Int) (change : RoleChange)

/-- A new role is inserted below all assigned roles, which keep their order. -/
def draftRoleCreate : Except RoleError RolePolicy :=
  let owner := actorID = p.ownerID
  if change.role.id < 1 ∨ 250 ≤ p.roles.length then .error .invalid
  else if change.role.id ∈ e.roles then .error .invalid
  else if ¬ owner ∧ e.highestRole actorID = 0 then .error .forbidden
  else if ¬ canGrantCapabilities e actorID 0 change.role.permissions then .error .forbidden
  else if change.role.deletionProtected ∧ ¬ owner then .error .forbidden
  else
    let shifted := p.roles.map fun r =>
      if r.position > 0 then { r with position := int64 (r.position + 1) } else r
    let r := { change.role with
      deletionProtected := change.role.deletionProtected || administrator ∈ change.role.permissions
      position := 1 }
    .ok { p with roles := shifted ++ [r] }

/-- Replace a role, keeping its identifier and position. -/
def draftRoleUpdate : Except RoleError RolePolicy :=
  match e.roles.lookup change.role.id with
  | none => .error .invalid
  | some old =>
    if change.role.position ≠ old.position then .error .invalid
    else if ¬ e.canManageRole actorID old.id then .error .forbidden
    else if old.deletionProtected ≠ change.role.deletionProtected ∧ actorID ≠ p.ownerID then
      .error .forbidden
    else if ¬ canGrantCapabilities e actorID 0
        (addedCapabilities old.permissions change.role.permissions) then .error .forbidden
    else if old.id = p.everyoneID ∧ change.role.name ≠ "@everyone" then .error .invalid
    else
      let r := { change.role with iconImage := change.role.iconImage.or old.iconImage }
      .ok { p with roles := p.roles.map fun x => if x.id = old.id then r else x }

/-- The policy without a role, its assignments and its overrides. -/
def withoutRole (roleID : Int) : RolePolicy :=
  { p with
    roles := ((p.roles.filter (·.id ≠ roleID)).insertionSort (·.position ≤ ·.position)).mapIdx
      fun i r => { r with position := i }
    members := p.members.map fun m => { m with roleIDs := m.roleIDs.filter (· ≠ roleID) }
    channels := p.channels.map fun ch =>
      { ch with overrides := ch.overrides.filter (·.roleID ≠ roleID) }
    defaultMemberRoleID := if p.defaultMemberRoleID = roleID then 0 else p.defaultMemberRoleID }

/-- Delete a role. Deleting its denying overrides can give its members channel capabilities,
exactly as removing the role from each of them would. -/
def draftRoleDelete : Except RoleError RolePolicy :=
  if ((e.roles.lookup change.roleID).map (·.deletionProtected)).getD false then .error .forbidden
  else if change.roleID = p.everyoneID then .error .invalid
  else if ¬ e.canManageRole actorID change.roleID then .error .forbidden
  else
    let next := withoutRole p change.roleID
    if actorID ≠ p.ownerID ∧ roleHasDenyOverride p change.roleID then
      match newRoleEvaluator next with
      | .error err => .error (.invalidCandidate err)
      | .ok candidate =>
        if (p.members.filter fun m => change.roleID ∈ m.roleIDs).all fun m =>
            authorizeMemberChannelGains e candidate actorID m.userID [change.roleID] then .ok next
        else .error .forbidden
    else .ok next

/-- The loop over the requested order. -/
def reorderLoop : ℕ → List Int → List Role → List Int → Except RoleError (List Role)
  | _, _, roles, [] => .ok roles
  | position, seen, roles, id :: rest =>
    match e.roles.lookup id with
    | none => .error .invalid
    | some r =>
      if id ∈ seen then .error .invalid
      else if actorID ≠ p.ownerID ∧ r.position ≠ position ∧
          (¬ e.canManageRole actorID id ∨ e.highestRole actorID ≤ position) then .error .forbidden
      else
        reorderLoop (position + 1) (id :: seen)
          (roles.map fun x => if x.id = id then { x with position := position } else x) rest

/-- Give the roles a new order. -/
def draftRolesReorder : Except RoleError RolePolicy :=
  if change.roleIDs.length ≠ p.roles.length ∨ change.roleIDs = [] ∨
      change.roleIDs.head? ≠ some p.everyoneID then .error .invalid
  else
    match reorderLoop e p actorID 0 [] p.roles change.roleIDs with
    | .error err => .error err
    | .ok roles => .ok { p with roles := roles }

/-- The roles that a member gains or loses. -/
def changedRoles (old requested : List Int) : List Int :=
  (old ++ requested).filter fun id => (id ∈ old) ≠ (id ∈ requested)

/-- The assignments with those of one user replaced; a user without roles has no entry. -/
def setMemberRoles (members : List RoleMember) (userID : Int) (roleIDs : List Int) :
    List RoleMember :=
  let kept := members.filter (·.userID ≠ userID)
  if roleIDs = [] then kept else kept ++ [⟨userID, roleIDs⟩]

/-- Set the roles of one member. -/
def draftMemberRolesSet : Except RoleError RolePolicy :=
  if change.userID < 1 then .error .invalid
  else if ¬ e.canManageMember actorID change.userID then .error .forbidden
  else if change.roleIDs.length > p.roles.length then .error .invalid
  else if ¬ change.roleIDs.Nodup then .error .invalid
  else
    let changed := changedRoles (e.memberRoles change.userID) change.roleIDs
    if ¬ changed.all fun id => e.canManageRole actorID id ∧
        (id ∈ change.roleIDs → canGrantCapabilities e actorID 0 (e.permissionsOf id)) then
      .error .forbidden
    else
      let next := { p with members := setMemberRoles p.members change.userID change.roleIDs }
      if changed ≠ [] ∧ actorID ≠ p.ownerID then
        match newRoleEvaluator next with
        | .error err => .error (.invalidCandidate err)
        | .ok candidate =>
          if authorizeMemberChannelGains e candidate actorID change.userID changed then .ok next
          else .error .forbidden
      else .ok next

/-- Hand the server to another account; assignments stay as they are. -/
def draftOwnerTransfer : Except RoleError RolePolicy :=
  if actorID ≠ p.ownerID then .error .forbidden
  else if change.userID < 1 ∨ change.userID = p.ownerID then .error .invalid
  else .ok { p with ownerID := change.userID }

/-- Choose the role of newly registered members. -/
def draftDefaultMemberRoleSet : Except RoleError RolePolicy :=
  if actorID ≠ p.ownerID then .error .forbidden
  else .ok { p with defaultMemberRoleID := change.roleID }

/-- The parent a channel edit must name. The management view flattens a parent the actor cannot
see, so the request then has to say zero; the actual parent is kept. -/
def accessParentOK (old : ChannelPolicy) : Bool :=
  if old.parentID > 0 ∧ ¬ (e.evaluate actorID old.parentID viewChannel).allowed then
    change.channel.parentID = 0
  else old.parentID = change.channel.parentID

/-- Replace the access policy of a channel. Its place in the tree and its system kind stay. -/
def draftChannelAccessSet : Except RoleError RolePolicy :=
  match e.channels.lookup change.channel.channelID with
  | none => .error .invalid
  | some old =>
    if ¬ accessParentOK e actorID change old then .error .invalid
    else if ¬ (e.evaluate actorID old.channelID manageChannelAccess).allowed then .error .forbidden
    else
      let ch := { change.channel with parentID := old.parentID, systemKind := old.systemKind }
      let next := { p with
        channels := p.channels.map fun x => if x.channelID = old.channelID then ch else x }
      match newRoleEvaluator next with
      | .error err => .error (.invalidCandidate err)
      | .ok candidate =>
        if authorizeChangedChannelAccess e candidate actorID then .ok next
        else .error .forbidden

/-- The draft of a change. -/
def draftRoleChange : Except RoleError RolePolicy :=
  match change.kind with
  | .roleCreate => draftRoleCreate e p actorID change
  | .roleUpdate => draftRoleUpdate e p actorID change
  | .roleDelete => draftRoleDelete e p actorID change
  | .rolesReorder => draftRolesReorder e p actorID change
  | .memberRolesSet => draftMemberRolesSet e p actorID change
  | .ownerTransfer => draftOwnerTransfer p actorID change
  | .defaultMemberRoleSet => draftDefaultMemberRoleSet p actorID change
  | .channelAccessSet => draftChannelAccessSet e p actorID change
  | .unlisted _ => .error .invalid

end Drafts

/-- Apply one change to a policy on behalf of an actor. -/
def applyRoleChange [PngDecoder] (p : RolePolicy) (actorID : Int) (change : RoleChange) :
    Except RoleError RolePolicy :=
  if change.memberUniqueID ≠ "" then .error .invalid
  else
    match newRoleEvaluator p with
    | .error err => .error (.invalidCurrent err)
    | .ok e =>
      if change.expectedRevision ≠ p.revision then .error .conflict
      else if actorID < 1 then .error .forbidden
      else if change.kind ≠ .channelAccessSet ∧ ¬ (e.evaluate actorID 0 manageRoles).allowed then
        .error .forbidden
      else
        match draftRoleChange e p actorID change with
        | .error err => .error err
        | .ok draft =>
          let next := { draft with
            revision := int64 (draft.revision + 1)
            roles := draft.roles.insertionSort (·.position ≤ ·.position) }
          match newRoleEvaluator next with
          | .error err => .error (.invalidCandidate err)
          | .ok _ => .ok next

end Noxa.Authorization

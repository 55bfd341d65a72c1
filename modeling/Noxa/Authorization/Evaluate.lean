import Mathlib.Data.List.Sort
import Noxa.Authorization.Evaluator
import Noxa.Lib.Prerequisite

/-!
# Evaluating a capability

`Evaluate` decides one capability of one user in one scope
(`internal/authorization/roles.go`); scope zero is the server. A decision is settled early for
an unknown capability or scope, in a `home` channel, and for the owner and administrators.
Otherwise the grants of the user's roles are combined with the overrides of the channel, and an
allowed capability still needs everything it requires.

The recursion on requirements follows the catalogue, so its depth is bounded by
`Capability.rank`; `evaluateWithin` counts it down and `evaluate_eq` is the source's equation.

## Main definitions

* `evaluate` — the decision
* `effectiveOverrides` — the overrides a channel uses after following `synced`
-/

namespace Noxa.Authorization

open Capability

/-- Why a decision came out as it did. -/
inductive DecisionReason
  | notGranted
  | invalidContext
  | invalidScope
  | unknownChannel
  | homeChannel
  | owner
  | administrator
  | roleGrant
  | everyoneOverride
  | roleOverride
  | memberOverride
  | requires
  deriving DecidableEq, Repr

/-- The outcome of an evaluation. -/
structure RoleDecision where
  allowed : Bool := false
  reason : DecisionReason
  roleIDs : List Int := []
  channelID : Int := 0
  requirement : Option Capability := none
  revision : Int
  deriving DecidableEq, Repr

/-- Capabilities that mean nothing in a `home` channel, even for the owner. -/
def homeDenied : List Capability :=
  [connect, speak, shareCamera, shareScreen, whisper, prioritySpeaker, recordChannel, readHistory,
   sendMessages, mentionEveryone, manageMessages, bypassSlowmode, uploadFiles, downloadFiles,
   manageFiles]

/-- The channel whose overrides a synced channel follows, one step up. A parent that is missing
reads as the zero value, which is not synced. -/
def syncParent? (channels : ChannelMap) (ch : ChannelPolicy) : Option ChannelPolicy :=
  if ch.synced ∧ ch.parentID ≠ 0 then some ((channels.lookup ch.parentID).getD .zero) else none

namespace RoleEvaluator

variable (e : RoleEvaluator)

/-! ### Reading the indexes -/

/-- The roles assigned to a user. -/
def memberRoles (userID : Int) : List Int := (e.members.lookup userID).getD []

/-- The capabilities a role grants; an unknown role grants nothing. -/
def permissionsOf (roleID : Int) : List Capability :=
  ((e.roles.lookup roleID).map (·.permissions)).getD []

/-- `@everyone` and the assigned roles, in this order. -/
def roleIDsOf (userID : Int) : List Int := e.policy.everyoneID :: e.memberRoles userID

/-- The entry of a channel, or the zero value. -/
def channelOf (channelID : Int) : ChannelPolicy := (e.channels.lookup channelID).getD .zero

/-- The channel at which following `synced` ends. -/
def overrideSource (channelID : Int) : ChannelPolicy :=
  Chain.walk (syncParent? e.channels) e.channels.keys.length (e.channelOf channelID)

/-- The overrides that apply in a channel. -/
def effectiveOverrides (channelID : Int) :
    List RoleOverride := (e.overrideSource channelID).overrides

/-! ### Decisions that are settled early -/

/-- Unknown capabilities and scopes, and the fixed decisions of a `home` channel. -/
def scopeDecision (userID channelID : Int) (capability : Capability) :
    Option (Bool × DecisionReason) :=
  match capabilityInfo capability with
  | none => some (false, .invalidContext)
  | some info =>
    if userID < 0 ∨ channelID < 0 then some (false, .invalidContext)
    else if 0 < channelID ∧ ¬ info.channel then some (false, .invalidScope)
    else if channelID ≠ 0 ∧ channelID ∉ e.channels then some (false, .unknownChannel)
    else if (e.channelOf channelID).systemKind = "home" then
      if capability = viewChannel then some (true, .homeChannel)
      else if capability ∈ homeDenied then some (false, .homeChannel)
      else none
    else none

/-- The first of the user's roles that is an administrator. -/
def administratorRole? (userID : Int) : Option Int :=
  (e.roleIDsOf userID).find? fun id => administrator ∈ e.permissionsOf id

/-- Everything that ends an evaluation before grants are read. -/
def earlyDecision (userID channelID : Int) (capability : Capability) : Option RoleDecision :=
  match e.scopeDecision userID channelID capability with
  | some (allowed, reason) =>
    some { allowed := allowed, reason := reason, revision := e.policy.revision }
  | none =>
    if userID = e.policy.ownerID then
      some { allowed := true, reason := .owner, revision := e.policy.revision }
    else
      match e.administratorRole? userID with
      | some id =>
        some { allowed := true, reason := .administrator, roleIDs := [id],
               revision := e.policy.revision }
      | none => none

/-! ### Grants and overrides -/

section

variable (ch : ChannelPolicy) (userID : Int) (capability : Capability) (d : RoleDecision)

/-- The roles of the user that grant the capability. -/
def grantingRoles : List Int :=
  (e.roleIDsOf userID).filter fun id => capability ∈ e.permissionsOf id

/-- The server-wide decision. -/
def baseDecision : RoleDecision :=
  let ids := e.grantingRoles userID capability
  { allowed := ids ≠ []
    reason := if ids = [] then .notGranted else .roleGrant
    roleIDs := ids
    revision := e.policy.revision }

/-- Apply the override of `@everyone`. -/
def applyEveryone : RoleDecision :=
  ch.overrides.foldl (fun d o =>
    if o.capability = capability ∧ o.roleID = e.policy.everyoneID then
      { allowed := o.effect = .allow, reason := .everyoneOverride, roleIDs := [o.roleID],
        channelID := ch.channelID, revision := e.policy.revision }
    else d) d

/-- The overrides of the user's assigned roles for one capability. -/
def roleOverrides : List RoleOverride :=
  ch.overrides.filter fun o =>
    o.capability = capability ∧ o.roleID ≠ e.policy.everyoneID ∧ o.roleID ∈ e.memberRoles userID

/-- Apply the overrides of assigned roles; one that allows beats any that deny. -/
def applyRoles : RoleDecision :=
  let matching := e.roleOverrides ch userID capability
  let allows := (matching.filter (·.effect = .allow)).map (·.roleID)
  let denies := (matching.filter (·.effect ≠ .allow)).map (·.roleID)
  if allows ≠ [] then
    { allowed := true, reason := .roleOverride, roleIDs := allows, channelID := ch.channelID,
      revision := e.policy.revision }
  else if denies ≠ [] then
    { reason := .roleOverride, roleIDs := denies, channelID := ch.channelID,
      revision := e.policy.revision }
  else d

/-- Apply the override of the user itself. -/
def applyMember : RoleDecision :=
  ch.overrides.foldl (fun d o =>
    if 0 < userID ∧ o.userID = userID ∧ o.capability = capability then
      { allowed := o.effect = .allow, reason := .memberOverride, channelID := ch.channelID,
        revision := e.policy.revision }
    else d) d

end

/-- Grants of roles and, in a channel, the overrides on top of them. -/
def grantDecision (userID channelID : Int) (capability : Capability) : RoleDecision :=
  let base := e.baseDecision userID capability
  let d :=
    if 0 < channelID ∧ channelCapability capability then
      let ch := e.overrideSource channelID
      e.applyMember ch userID capability
        (e.applyRoles ch userID capability (e.applyEveryone ch capability base))
    else base
  { d with roleIDs := d.roleIDs.insertionSort (· ≤ ·) }

/-! ### Requirements -/

/-- Evaluation with a bound on the depth of the requirement recursion. -/
def evaluateWithin : ℕ → Int → Int → Capability → RoleDecision
  | 0, _, _, _ => { reason := .notGranted, revision := e.policy.revision }
  | n + 1, userID, channelID, capability =>
    match e.earlyDecision userID channelID capability with
    | some d => d
    | none =>
      let d := e.grantDecision userID channelID capability
      if d.allowed then
        match capability.requires.find? fun r =>
          ¬ (evaluateWithin n userID channelID r).allowed with
        | some r =>
          { evaluateWithin n userID channelID r with reason := .requires, requirement := some r }
        | none => d
      else d

/-- Decide a capability. Four levels are enough for every requirement chain of the catalogue. -/
def evaluate (userID channelID : Int) (capability : Capability) : RoleDecision :=
  e.evaluateWithin 4 userID channelID capability

/-! ### Hierarchy guards -/

/-- The position of a role; an unknown role reads as the zero value. -/
def positionOf (roleID : Int) : Int := ((e.roles.lookup roleID).map (·.position)).getD 0

/-- The highest position among the assigned roles. -/
def highestRole (userID : Int) : Int :=
  (e.memberRoles userID).foldl
    (fun position id => if e.positionOf id > position then e.positionOf id else position) 0

/-- The strict hierarchy guard over members. -/
def canManageMember (actorID targetID : Int) : Bool :=
  if actorID < 1 ∨ targetID < 0 ∨ actorID = targetID ∨ targetID = e.policy.ownerID then false
  else actorID = e.policy.ownerID ∨ e.highestRole actorID > e.highestRole targetID

/-- Whether the actor may edit or assign a role. -/
def canManageRole (actorID roleID : Int) : Bool :=
  match e.roles.lookup roleID with
  | none => false
  | some r =>
    if actorID < 1 then false
    else if actorID = e.policy.ownerID then true
    else roleID ≠ e.policy.everyoneID ∧ (e.evaluate actorID 0 manageRoles).allowed ∧
      e.highestRole actorID > r.position ∧ administrator ∉ r.permissions

/-- Whether the actor may write an override for a role in one channel. -/
def canManageChannelRole (actorID channelID roleID : Int) : Bool :=
  if actorID < 1 ∨ channelID < 0 ∨
      ¬ (e.evaluate actorID channelID manageChannelAccess).allowed then false
  else
    match e.roles.lookup roleID with
    | none => false
    | some r =>
      if actorID = e.policy.ownerID then true
      else if administrator ∈ r.permissions then false
      else roleID = e.policy.everyoneID ∨ e.highestRole actorID > r.position

end RoleEvaluator

end Noxa.Authorization

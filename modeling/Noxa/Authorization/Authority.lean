import Noxa.Authorization.Evaluate

/-!
# The authority

`Authority` holds the published policy of a running server and lets protected effects run against
its evaluator. It changes the policy through a backend (the database), and revokes what the new
policy no longer allows by a `reconcile` callback before it publishes.

Every call holds the policy gate (exclusively when it writes), so calls are atomic and a run is a
list of calls. What the surroundings decide in a call, that is whether its context is cancelled,
what the backend and the trusted callbacks answer and whether reconciliation succeeds, is part of
the call. A Go error is represented by what `errors.Is` finds in it.

## Main definitions

* `Authority`, `newAuthority` — the state and how it starts
* `publish`, `changeLifecyclePolicy`, `reloadExclusive` — the three writers
* `Call`, `Authority.step` — one call of any exported method, and what it does
-/

namespace Noxa.Authorization

open Capability

/-- A commit error, by the sentinel errors it wraps. -/
structure CommitError where
  unchanged : Bool := false
  forbidden : Bool := false
  invalid : Bool := false
  deriving DecidableEq, Repr

inductive AuthorityError
  | unavailable
  /-- `ErrAuthorizationUnavailable`, for a policy that has no evaluator -/
  | rejectedPolicy (err : PolicyError)
  /-- `ErrAuthorizationUnavailable`, after a failed reconciliation -/
  | reconcileFailed
  | busy
  | cancelled
  | forbidden
  | conflict
  | invalid
  | readFailed
  | validation
  | commit (err : CommitError)
  | policy (err : PolicyError)
  | enforcementPending (err : AuthorityError)
  deriving DecidableEq, Repr

/-- The empty policy that goes with an error. -/
def RolePolicy.zero : RolePolicy := ⟨0, 0, 0, 0, [], [], []⟩

/-- The published policy, the greatest revision known to be committed and, while the authority is
open, the evaluator that effects run against. -/
structure Authority where
  policy : RolePolicy
  revision : Int
  evaluator : Option RoleEvaluator

/-- What happens between the authority and its surroundings in one call. -/
inductive Event
  | committed (policy : RolePolicy) (err : Option CommitError)
  | loaded (read : Option RolePolicy)
  | reconciled (before after : RoleEvaluator) (succeeded : Bool)
  | effect (e : RoleEvaluator)

structure Output where
  events : List Event := []
  policy : RolePolicy := .zero
  error : Option AuthorityError := none
  /-- whether the method returns here -/
  done : Bool := true

/-- Whether `reconcile(before, after)` returns no error. -/
abbrev ReconcilePolicy := RoleEvaluator → RoleEvaluator → Bool

variable [PngDecoder]

/-- `configured` says that neither the backend nor the callback is nil. -/
def newAuthority (configured : Bool) (read : Option RolePolicy) :
    Except AuthorityError Authority :=
  if !configured then .error .unavailable
  else match read with
    | none => .error .readFailed
    | some p =>
      match newRoleEvaluator p with
      | .error err => .error (.policy err)
      | .ok e => .ok ⟨p, p.revision, some e⟩

/-! ### Writers -/

def publish (reconcile : ReconcilePolicy) (a : Authority) (p : RolePolicy) :
    Authority × List Event × Option AuthorityError :=
  let closed := { a with evaluator := none }
  match newRoleEvaluator a.policy with
  | .error err => (closed, [], some (.rejectedPolicy err))
  | .ok previous =>
    match newRoleEvaluator p with
    | .error err => (closed, [], some (.rejectedPolicy err))
    | .ok next =>
      if reconcile previous next then
        ({ a with policy := p, evaluator := some next }, [.reconciled previous next true], none)
      else (closed, [.reconciled previous next false], some .reconcileFailed)

section

variable (a : Authority) (cancelled : Bool)

/-- `rejected` is the answer of the validation callback, `commit` that of the commit callback
(`none` when the callback is nil). -/
def changeLifecyclePolicy (expectedRevision : Int) (rejected : Bool)
    (commit : Option (RolePolicy × Option CommitError)) (reconcile : ReconcilePolicy) :
    Authority × Output :=
  match commit with
  | none => (a, { error := some .invalid })
  | some (committed, err?) =>
    if cancelled then (a, { error := some .cancelled })
    else if a.evaluator.isNone then (a, { error := some .unavailable })
    else if rejected then (a, { error := some .validation })
    else if expectedRevision ≠ a.policy.revision then (a, { error := some .conflict })
    else match err? with
      | some err =>
        let log := [Event.committed committed (some err)]
        if err.unchanged ∧ committed.revision = 0 then
          (a, { events := log, error := some (.commit err) })
        else if committed.revision > a.revision then
          ({ a with revision := committed.revision, evaluator := none },
            { events := log, policy := committed,
              error := some (.enforcementPending (.commit err)) })
        -- a refusal is certain; any other error may hide a commit or a stale snapshot
        else if ¬ err.forbidden ∧ ¬ err.invalid then
          ({ a with evaluator := none }, { events := log, error := some (.commit err) })
        else (a, { events := log, error := some (.commit err) })
      | none =>
        let log := [Event.committed committed none]
        if committed.revision ≤ a.revision then
          ({ a with evaluator := none }, { events := log, error := some .unavailable })
        else
          match publish reconcile { a with revision := committed.revision } committed with
          | (a', events, some err) =>
            (a', { events := log ++ events, policy := committed,
                   error := some (.enforcementPending err) })
          | (a', events, none) => (a', { events := log ++ events, policy := a'.policy })

/-- Ordinary storage may return its candidate with an error; the candidate is dropped. -/
def dropCandidate : RolePolicy × Option CommitError → RolePolicy × Option CommitError
  | (_, some err) => (.zero, some err)
  | (p, none) => (p, none)

def changeRolePolicyValidated (expectedRevision : Int) (rejected : Bool)
    (answer : RolePolicy × Option CommitError) (reconcile : ReconcilePolicy) : Authority × Output :=
  changeLifecyclePolicy a cancelled expectedRevision rejected
    (some (dropCandidate answer)) reconcile

/-! ### Reloading -/

/-- `reflect.DeepEqual` tells a nil slice from an empty one, which the lists here do not. The
flags say where the compared values agree in that. -/
structure NilAgreement where
  policy : Bool := true
  roles : Bool := true
  channels : Bool := true
  member : Int → Bool := fun _ => true

def revokesMemberAccess (before after : RoleEvaluator) (userID : Int) : Bool :=
  (0 :: after.policy.channels.map (·.channelID)).any fun scope =>
    capabilityCatalog.any fun info =>
      (before.evaluate userID scope info.key).allowed &&
        !(after.evaluate userID scope info.key).allowed

/-- The loop over the members after the change; `none` stands for its `return false`. -/
def registrationLoop (same : Int → Bool) (userID defaultID : Int) :
    AList (fun _ : Int => RoleMember) → Bool → List RoleMember →
      Option (AList (fun _ : Int => RoleMember) × Bool)
  | old, added, [] => some (old, added)
  | old, added, member :: members =>
    match old.lookup member.userID with
    | some previous =>
      if same member.userID ∧ previous = member then
        registrationLoop same userID defaultID (old.erase member.userID) added members
      else none
    | none =>
      if added ∨ member.userID ≠ userID ∨ member.roleIDs ≠ [defaultID] then none
      else registrationLoop same userID defaultID old true members

def membersByID (members : List RoleMember) : AList fun _ : Int => RoleMember :=
  members.foldl (fun old member => old.insert member.userID member) ∅

def defaultRoleRegistrationOnly (agree : NilAgreement) (before after : RolePolicy)
    (userID : Int) : Bool :=
  if before.revision ≠ after.revision ∨ before.ownerID ≠ after.ownerID ∨
      before.everyoneID ≠ after.everyoneID ∨ before.defaultMemberRoleID ≤ 0 ∨
      before.defaultMemberRoleID ≠ after.defaultMemberRoleID ∨
      ¬ (agree.roles ∧ before.roles = after.roles) ∨
      ¬ (agree.channels ∧ before.channels = after.channels) ∨
      after.members.length ≠ before.members.length + 1 then false
  else
    match registrationLoop agree.member userID after.defaultMemberRoleID
      (membersByID before.members) false after.members with
    | none => false
    | some (old, added) => added && old.keys.isEmpty

/-- The comparison a refresh makes under a shared lease, to return early. -/
def refreshCompare (read : Option RolePolicy) (agree : NilAgreement) : Bool :=
  match read with
  | none => false
  | some p => a.evaluator.isSome && p.revision = a.revision && agree.policy && p = a.policy

/-- What `reload` does under the exclusive gate. `noLiveSession` is `none` for a nil callback. -/
def reloadExclusive (force cancelled : Bool) (read : Option RolePolicy) (agree : NilAgreement)
    (admittedUserID : Int) (noLiveSession : Option Bool) (reconcile : ReconcilePolicy) :
    Authority × Output :=
  if cancelled then (a, { error := some .cancelled })
  else
    let log := [Event.loaded read]
    match read with
    | none => ({ a with evaluator := none }, { events := log, error := some .readFailed })
    | some p =>
      let finish : Authority × Output :=
        match publish reconcile { a with revision := p.revision } p with
        | (a', events, err?) => (a', { events := log ++ events, error := err? })
      if p.revision < a.revision then
        ({ a with evaluator := none }, { events := log, error := some .unavailable })
      else match force, a.evaluator with
        | false, some current =>
          if agree.policy ∧ p = a.policy then (a, { events := log })
          else if admittedUserID > 0 ∧ noLiveSession = some true ∧
              defaultRoleRegistrationOnly agree a.policy p admittedUserID then
            match newRoleEvaluator p with
            | .error err =>
              ({ a with evaluator := none }, { events := log, error := some (.rejectedPolicy err) })
            | .ok next =>
              if !revokesMemberAccess current next admittedUserID then
                ({ a with policy := p, evaluator := some next }, { events := log })
              else finish
          else finish
        | _, _ => finish

/-! ### Effects -/

def withPolicy : Authority × Output :=
  if cancelled then (a, { error := some .cancelled })
  else match a.evaluator with
    | none => (a, { error := some .unavailable })
    | some e => (a, { events := [.effect e] })

def withAccess (actorID channelID : Int) (capability : Capability) : Authority × Output :=
  if cancelled then (a, { error := some .cancelled })
  else match a.evaluator with
    | none => (a, { error := some .unavailable })
    | some e =>
      if !(e.evaluate actorID channelID capability).allowed then (a, { error := some .forbidden })
      else (a, { events := [.effect e] })

def tryWithPolicy (busy : Bool) : Authority × Output :=
  if busy then (a, { error := some .busy })
  else match a.evaluator with
    | none => (a, { error := some .unavailable })
    | some e => (a, { events := [.effect e] })

def withExclusivePolicy (effectNil cancelled : Bool) : Authority × Output :=
  if effectNil then (a, { error := some .invalid })
  else withPolicy a cancelled

def rolePolicy : Authority × Output :=
  if cancelled then (a, { error := some .cancelled })
  else if a.evaluator.isNone then (a, { error := some .unavailable })
  else (a, { policy := a.policy })

/-! ### Calls -/

end

/-- One critical section of an exported method. `RefreshIfChanged` has two, the second only when the
first does not return, and other calls may run between them. -/
inductive Call
  | changeRolePolicyValidated (cancelled : Bool) (expectedRevision : Int) (rejected : Bool)
      (answer : RolePolicy × Option CommitError) (reconcile : ReconcilePolicy)
  | changeLifecyclePolicyValidated (cancelled : Bool) (expectedRevision : Int) (rejected : Bool)
      (commit : Option (RolePolicy × Option CommitError)) (reconcile : ReconcilePolicy)
  | reload (cancelled : Bool) (read : Option RolePolicy) (reconcile : ReconcilePolicy)
  | refreshCompare (read : Option RolePolicy) (agree : NilAgreement)
  | refreshExclusive (cancelled : Bool) (read : Option RolePolicy) (agree : NilAgreement)
      (admittedUserID : Int) (noLiveSession : Option Bool) (reconcile : ReconcilePolicy)
  | withPolicy (cancelled : Bool)
  | withAccess (cancelled : Bool) (actorID channelID : Int) (capability : Capability)
  | tryWithPolicy (busy : Bool)
  | withExclusivePolicy (effectNil cancelled : Bool)
  | rolePolicy (cancelled : Bool)

/-- The calls that read the policy back from the backend. -/
def Call.isReload : Call → Bool
  | .reload .. | .refreshExclusive .. => true
  | _ => false

def Authority.step (a : Authority) : Call → Authority × Output
  | .changeRolePolicyValidated cancelled expectedRevision rejected answer reconcile =>
    Authorization.changeRolePolicyValidated a cancelled expectedRevision rejected answer reconcile
  | .changeLifecyclePolicyValidated cancelled expectedRevision rejected commit reconcile =>
    changeLifecyclePolicy a cancelled expectedRevision rejected commit reconcile
  | .reload cancelled read reconcile => reloadExclusive a true cancelled read {} 0 none reconcile
  | .refreshCompare read agree =>
    (a, { done := Authorization.refreshCompare a read agree })
  | .refreshExclusive cancelled read agree admittedUserID noLiveSession reconcile =>
    reloadExclusive a false cancelled read agree admittedUserID noLiveSession reconcile
  | .withPolicy cancelled => Authorization.withPolicy a cancelled
  | .withAccess cancelled actorID channelID capability =>
    Authorization.withAccess a cancelled actorID channelID capability
  | .tryWithPolicy busy => Authorization.tryWithPolicy a busy
  | .withExclusivePolicy effectNil cancelled =>
    Authorization.withExclusivePolicy a effectNil cancelled
  | .rolePolicy cancelled => Authorization.rolePolicy a cancelled

end Noxa.Authorization

import Noxa.Authorization.Registration
import Noxa.Lib.Machine

/-!
# Runs of the authority

The authority is *open* while it has an evaluator. Whatever the backend and the callbacks answer, an
open authority evaluates its own policy at the greatest revision it knows, a policy is published
only after reconciliation against the last published one (or by a registration that takes nothing
from anyone), and a failure closes the authority until a reload publishes again.

## Main definitions

* `Consistent` — the invariant of the state
* `Failure` — the outcomes of a call that must close the authority
* `Publication` — what must have happened when a call ends with the authority open
* `lastPublished` — the policy of the last open state of a run

## Main results

* `step_transition` — the four things a call can do
* `authority_fails_closed` — the behaviour over runs
-/

namespace Noxa.Authorization

section Runs

variable [PngDecoder]

/-- An open authority evaluates its own policy, at the revision it has recorded. -/
structure Consistent (a : Authority) : Prop where
  valid : ∃ e, newRoleEvaluator a.policy = .ok e
  evaluator : ∀ e, a.evaluator = some e →
    newRoleEvaluator a.policy = .ok e ∧ a.policy.revision = a.revision

/-- The errors that wrap `ErrAuthorizationUnavailable`, a busy gate apart. -/
def AuthorityError.closes : AuthorityError → Bool
  | .unavailable | .rejectedPolicy _ | .reconcileFailed | .enforcementPending _ => true
  | _ => false

/-- The answers of the surroundings after which authority `a` must not go on. A commit error may
be ambiguous unless it is a refusal (`ErrRoleForbidden`, `ErrRoleInvalid`) or reports that nothing
was to be done; a policy with it whose revision is new has been committed in any case. -/
def Event.Fails (a : Authority) : Event → Prop
  | .committed p (some err) =>
    ¬ (err.unchanged = true ∧ p.revision = 0) ∧
      (a.revision < p.revision ∨ (err.forbidden = false ∧ err.invalid = false))
  | .committed p none => p.revision ≤ a.revision
  | .loaded none => True
  | .loaded (some p) => p.revision < a.revision
  | .reconciled _ _ succeeded => succeeded = false
  | .effect _ => False

/-- A call of authority `a` that failed, by an answer it got or by the error it returned. -/
def Failure (a : Authority) (out : Output) : Prop :=
  (∃ ev ∈ out.events, ev.Fails a) ∨ ∃ err, out.error = some err ∧ err.closes = true

/-! ### What one call does -/

/-- The four things a call can do: nothing to the state, close it, publish after reconciliation,
publish a registration. Effects run in the first case only, and only when the state is open. -/
inductive Transition (a : Authority) (reloads : Bool) : Authority × Output → Prop
  | stay (out : Output) (hfa : a.evaluator.isSome = true → ¬ Failure a out)
      (heff : ∀ e, .effect e ∈ out.events → a.evaluator = some e) : Transition a reloads (a, out)
  | close (revision : Int) (out : Output) (hle : a.revision ≤ revision)
      (heff : ∀ e, .effect e ∉ out.events) :
      Transition a reloads ({ a with revision := revision, evaluator := none }, out)
  | reconcile (p : RolePolicy) (before after : RoleEvaluator) (out : Output)
      (hop : a.evaluator.isSome = true ∨ reloads = true) (hle : a.revision ≤ p.revision)
      (hb : newRoleEvaluator a.policy = .ok before) (haft : newRoleEvaluator p = .ok after)
      (hrec : .reconciled before after true ∈ out.events) (hfa : ¬ Failure a out)
      (heff : ∀ e, .effect e ∉ out.events) :
      Transition a reloads (⟨p, p.revision, some after⟩, out)
  | register (p : RolePolicy) (userID : Int) (agree : NilAgreement) (before after : RoleEvaluator)
      (out : Output) (hop : a.evaluator = some before)
      (hon : defaultRoleRegistrationOnly agree a.policy p userID = true)
      (haft : newRoleEvaluator p = .ok after)
      (hrvk : revokesMemberAccess before after userID = false) (hfa : ¬ Failure a out)
      (heff : ∀ e, .effect e ∉ out.events) :
      Transition a reloads ({ a with policy := p, evaluator := some after }, out)

section

variable {a : Authority} {reloads : Bool} {err : AuthorityError}

theorem Transition.refused (h : err.closes = false) :
    Transition a reloads (a, { error := some err }) :=
  .stay _ (by simp [Failure, h]) (by simp)

theorem Transition.closed (h : a.evaluator = none) :
    Transition a reloads (a, { error := some err }) :=
  .stay _ (fun hop => by simp [h] at hop) (by simp)

end

/-- Publishing under a new revision either closes the authority or reconciles first. -/
theorem publish_cases (reconcile : ReconcilePolicy) (a : Authority) (p : RolePolicy) :
    (∃ events err, (∀ e, .effect e ∉ events) ∧ AuthorityError.closes err = true ∧
      publish reconcile a p = ({ a with evaluator := none }, events, some err)) ∨
    ∃ before after, newRoleEvaluator a.policy = .ok before ∧ newRoleEvaluator p = .ok after ∧
      publish reconcile a p =
        ({ a with policy := p, evaluator := some after }, [.reconciled before after true],
          none) := by
  rw [publish]
  split
  · exact .inl ⟨_, _, by simp, rfl, rfl⟩
  split
  · exact .inl ⟨_, _, by simp, rfl, rfl⟩
  split
  · exact .inr ⟨_, _, ‹_›, ‹_›, rfl⟩
  · exact .inl ⟨_, _, by simp, rfl, rfl⟩

theorem changeLifecyclePolicy_transition (a : Authority) (reloads cancelled : Bool)
    (expectedRevision : Int) (rejected : Bool) (commit : Option (RolePolicy × Option CommitError))
    (reconcile : ReconcilePolicy) : Transition a reloads
      (changeLifecyclePolicy a cancelled expectedRevision rejected commit reconcile) := by
  unfold changeLifecyclePolicy
  split
  · exact .refused rfl
  rename_i committed err?
  split
  · exact .refused rfl
  split
  · exact .closed (Option.isNone_iff_eq_none.mp ‹_›)
  split
  · exact .refused rfl
  split
  · exact .refused rfl
  rename_i hop _ _
  replace hop : a.evaluator.isSome = true := by simpa [Option.isSome_iff_ne_none] using hop
  split
  · rename_i err
    simp only
    split
    · exact .stay _ (fun _ => by simp_all [Failure, Event.Fails, AuthorityError.closes]) (by simp)
    split
    · exact .close _ _ (by omega) (by simp)
    split
    · exact .close a.revision _ le_rfl (by simp)
    · exact .stay _ (fun _ => by simp_all [Failure, Event.Fails, AuthorityError.closes]) (by simp)
  · simp only
    split
    · exact .close a.revision _ le_rfl (by simp)
    rename_i hnew
    push Not at hnew
    rcases publish_cases reconcile { a with revision := committed.revision } committed with
      ⟨events, err, heff, -, hpub⟩ | ⟨before, after, hb, haft, hpub⟩
    · rw [hpub]
      exact .close _ _ hnew.le (by simpa using heff)
    · rw [hpub]
      refine .reconcile committed before after _ (.inl hop) hnew.le hb haft (by simp) ?_ (by simp)
      simp [Failure, Event.Fails, hnew]

theorem reloadExclusive_transition (a : Authority) (force cancelled : Bool)
    (read : Option RolePolicy) (agree : NilAgreement) (admittedUserID : Int)
    (noLiveSession : Option Bool) (reconcile : ReconcilePolicy) : Transition a true
      (reloadExclusive a force cancelled read agree admittedUserID noLiveSession reconcile) := by
  unfold reloadExclusive
  split
  · exact .refused rfl
  simp only
  split
  · exact .close a.revision _ le_rfl (by simp)
  rename_i p
  split
  · exact .close a.revision _ le_rfl (by simp)
  rename_i hle
  push Not at hle
  -- the ordinary end of a reload
  have hf : Transition a true (let r := publish reconcile { a with revision := p.revision } p
      (r.1, ({ events := [Event.loaded (some p)] ++ r.2.1, error := r.2.2 } : Output))) := by
    rcases publish_cases reconcile { a with revision := p.revision } p with
      ⟨events, err, heff, -, hpub⟩ | ⟨before, after, hb, haft, hpub⟩
    · rw [hpub]
      exact .close _ _ hle (by simpa using heff)
    · rw [hpub]
      refine .reconcile p before after _ (.inr rfl) hle hb haft (by simp) ?_ (by simp)
      simp [Failure, Event.Fails, hle]
  split
  · rename_i current hop
    split
    · exact .stay _ (fun _ => by simp [Failure, Event.Fails, hle]) (by simp)
    split
    · rename_i hon
      split
      · exact .close a.revision _ le_rfl (by simp)
      rename_i next hnx
      split
      · rename_i hrvk
        exact .register p admittedUserID agree current next _ hop hon.2.2 hnx
          (by simpa using hrvk) (by simp [Failure, Event.Fails, hle]) (by simp)
      · exact hf
    · exact hf
  · exact hf

theorem withPolicy_transition (a : Authority) (reloads cancelled : Bool) :
    Transition a reloads (withPolicy a cancelled) := by
  unfold withPolicy
  split
  · exact .refused rfl
  split
  · exact .closed ‹_›
  · rename_i e he
    exact .stay _ (by simp [Failure, Event.Fails]) (by simp [he])

/-- **What a call can do.** -/
theorem step_transition (a : Authority) (c : Call) : Transition a c.isReload (a.step c) := by
  cases c with
  | changeRolePolicyValidated cancelled expectedRevision rejected answer reconcile =>
    exact changeLifecyclePolicy_transition a _ cancelled expectedRevision rejected
      (some (dropCandidate answer)) reconcile
  | changeLifecyclePolicyValidated => exact changeLifecyclePolicy_transition ..
  | reload cancelled read reconcile =>
    exact reloadExclusive_transition a true cancelled read {} 0 none reconcile
  | refreshExclusive => exact reloadExclusive_transition ..
  | refreshCompare => exact .stay _ (by simp [Failure]) (by simp)
  | withPolicy => exact withPolicy_transition ..
  | withAccess cancelled actorID channelID capability =>
    change Transition a _ (withAccess a cancelled actorID channelID capability)
    unfold withAccess
    split
    · exact .refused rfl
    split
    · exact .closed ‹_›
    rename_i e he
    split
    · exact .refused rfl
    · exact .stay _ (by simp [Failure, Event.Fails]) (by simp [he])
  | tryWithPolicy busy =>
    change Transition a _ (tryWithPolicy a busy)
    unfold tryWithPolicy
    split
    · exact .refused rfl
    split
    · exact .closed ‹_›
    · rename_i e he
      exact .stay _ (by simp [Failure, Event.Fails]) (by simp [he])
  | withExclusivePolicy effectNil cancelled =>
    change Transition a _ (withExclusivePolicy a effectNil cancelled)
    unfold withExclusivePolicy
    split
    · exact .refused rfl
    · exact withPolicy_transition ..
  | rolePolicy cancelled =>
    change Transition a _ (rolePolicy a cancelled)
    unfold rolePolicy
    split
    · exact .refused rfl
    split
    · exact .closed (Option.isNone_iff_eq_none.mp ‹_›)
    · exact .stay _ (by simp [Failure]) (by simp)

/-! ### What one call preserves -/

section Step

variable {a : Authority} {reloads : Bool} {result : Authority × Output}

theorem Transition.consistent (ha : Consistent a) (ht : Transition a reloads result) :
    Consistent result.1 := by
  cases ht with
  | stay => exact ha
  | close => exact ⟨ha.valid, by simp⟩
  | reconcile p before after out _ _ _ haft =>
    exact ⟨⟨after, haft⟩, by simp [haft]⟩
  | register p userID agree before after out hop hon haft =>
    obtain ⟨hb, hrev⟩ := ha.evaluator before hop
    have hreg := registersDefault_of_only (newRoleEvaluator_ok hb) hon
    refine ⟨⟨after, haft⟩, ?_⟩
    intro e he
    obtain rfl : after = e := Option.some.inj he
    refine ⟨haft, ?_⟩
    change p.revision = a.revision
    rw [hreg.rest]
    exact hrev

section

variable (ht : Transition a reloads result)

include ht

theorem Transition.revision_le : a.revision ≤ result.1.revision := by
  cases ht with
  | stay => exact le_rfl
  | close _ _ hle => exact hle
  | reconcile _ _ _ _ _ hle => exact hle
  | register => exact le_rfl

/-- A call that ends closed has not touched the published policy. -/
theorem Transition.policy_of_closed
    (hc : result.1.evaluator = none) : result.1.policy = a.policy := by
  cases ht with
  | stay => rfl
  | close => rfl
  | reconcile => simp at hc
  | register => simp at hc

theorem Transition.closed_of_failure (hfa : Failure a result.2) : result.1.evaluator = none := by
  cases ht with
  | stay out hn => simpa [hfa] using hn
  | close => rfl
  | reconcile _ _ _ _ _ _ _ _ _ hn => exact absurd hfa hn
  | register _ _ _ _ _ _ _ _ _ _ hn => exact absurd hfa hn

/-- A closed authority runs no effect and is reopened by a reload only. -/
theorem Transition.of_closed (hc : a.evaluator = none) :
    (∀ e, .effect e ∉ result.2.events) ∧ (result.1.evaluator = none ∨ reloads = true) := by
  cases ht with
  | stay out _ heff => exact ⟨fun e he => by simp [heff e he] at hc, .inl hc⟩
  | close _ _ _ heff => exact ⟨heff, .inl rfl⟩
  | reconcile _ _ _ _ hop _ _ _ _ _ heff => exact ⟨heff, .inr (by simpa [hc] using hop)⟩
  | register _ _ _ _ _ _ hop => simp [hc] at hop

end

end Step

/-! ### Publications -/

/-- What must have happened when a call of `a` ends in the open state `a'`: nothing, or a
successful reconciliation from the published policy to the new one, or a registration by which
nobody loses a capability in any scope. -/
def Publication (a a' : Authority) (events : List Event) (after : RoleEvaluator) : Prop :=
  a' = a ∨
    (∃ before, newRoleEvaluator a.policy = .ok before ∧ newRoleEvaluator a'.policy = .ok after ∧
      .reconciled before after true ∈ events) ∨
    ∃ before userID, a.evaluator = some before ∧ RegistersDefault a.policy a'.policy userID ∧
      ∀ u s k, (before.evaluate u s k).allowed = true → (after.evaluate u s k).allowed = true

variable {a : Authority}

theorem Transition.publication {reloads : Bool} {result : Authority × Output}
    (ha : Consistent a) (ht : Transition a reloads result) {after : RoleEvaluator}
    (hop : result.1.evaluator = some after) : Publication a result.1 result.2.events after := by
  cases ht with
  | stay => exact .inl rfl
  | close => simp at hop
  | reconcile p before next out _ _ hb hnx hrec =>
    obtain rfl : next = after := Option.some.inj hop
    exact .inr (.inl ⟨before, hb, hnx, hrec⟩)
  | register p userID agree before next out hcur hon hnx hrvk =>
    obtain rfl : next = after := Option.some.inj hop
    have hb := newRoleEvaluator_ok (ha.evaluator before hcur).1
    have hreg := registersDefault_of_only hb hon
    exact .inr (.inr ⟨before, userID, hcur, hreg,
      keeps_access hb (newRoleEvaluator_ok hnx) hreg hrvk⟩)

/-! ### Runs -/

/-- The state after a list of calls. -/
abbrev Authority.run (a : Authority) (calls : List Call) : Authority :=
  Machine.run Authority.step a calls

/-- The policy of the last state of a run from `a` that is open, and `p` when there is none. -/
def lastPublished (p : RolePolicy) (a : Authority) : List Call → RolePolicy
  | [] => if a.evaluator.isSome then a.policy else p
  | c :: calls =>
    lastPublished (if a.evaluator.isSome then a.policy else p) (a.step c).1 calls

theorem newAuthority_consistent {configured : Bool} {read : Option RolePolicy}
    (h : newAuthority configured read = .ok a) : Consistent a ∧ a.evaluator.isSome = true := by
  unfold newAuthority at h
  split at h
  · simp at h
  split at h
  · simp at h
  split at h
  · simp at h
  rename_i p e hp
  obtain rfl : _ = a := Except.ok.inj h
  refine ⟨⟨⟨e, hp⟩, ?_⟩, rfl⟩
  intro e' he'
  obtain rfl : e = e' := Option.some.inj he'
  exact ⟨hp, rfl⟩

theorem Authority.run_consistent (ha : Consistent a) (calls : List Call) :
    Consistent (a.run calls) :=
  Machine.run_invariant (fun s c hs => (step_transition s c).consistent hs) ha calls

/-- The policy the authority keeps is the last one it published. -/
theorem lastPublished_eq {p : RolePolicy}
    (hp : a.evaluator.isSome = true ∨ a.policy = p) (calls : List Call) :
    lastPublished p a calls = (a.run calls).policy := by
  have hcur : (if a.evaluator.isSome then a.policy else p) = a.policy := by
    rcases hp with hop | rfl
    · rw [if_pos hop]
    · exact ite_self _
  induction calls generalizing a p with
  | nil => exact hcur
  | cons c calls ih =>
    rw [lastPublished, hcur]
    have hstp : (a.step c).1.evaluator.isSome = true ∨ (a.step c).1.policy = a.policy := by
      cases hop : (a.step c).1.evaluator with
      | none => exact .inr ((step_transition a c).policy_of_closed hop)
      | some => exact .inl rfl
    refine ih hstp ?_
    rcases hstp with hop | hsm
    · rw [if_pos hop]
    · rw [hsm]
      exact ite_self _

/-- From a closed state, effects run only after a reload has published. -/
theorem effect_after_reload (hc : a.evaluator = none) (later : List Call)
    (d : Call) {e : RoleEvaluator} (he : .effect e ∈ ((a.run later).step d).2.events) :
    ∃ before r after, later = before ++ r :: after ∧ r.isReload = true ∧
      (a.run before).evaluator = none ∧ ((a.run before).step r).1.evaluator.isSome = true := by
  have hkp : ∀ (s : Authority) (c : Call), s.evaluator = none → (s.step c).1.evaluator = none ∨
        (c.isReload = true ∧ (s.step c).1.evaluator.isSome = true) := by
    intro s c hs
    cases hop : (s.step c).1.evaluator with
    | none => exact .inl rfl
    | some =>
      have hr := ((step_transition s c).of_closed hs).2
      exact .inr ⟨hr.resolve_left (by simp [hop]), by simp⟩
  rcases Machine.run_unless (P := fun s : Authority => s.evaluator = none) hkp hc later with
    h | ⟨before, r, after, hspl, hno, hr, hop⟩
  · exact absurd he (((step_transition _ d).of_closed h).1 e)
  · exact ⟨before, r, after, hspl, hr, hno, hop⟩

/-- **The authority fails closed.** In every run from a new authority, at every call: the revision
does not decrease; an open authority evaluates its own policy at its own revision; the policy is
the last published one; a policy is published only by reconciliation against it or by a
registration that takes nothing from anyone; and after a failure no effect runs before a reload has
published. -/
theorem authority_fails_closed {configured : Bool} {read : Option RolePolicy} {a₀ : Authority}
    (h₀ : newAuthority configured read = .ok a₀) (calls : List Call) (c : Call) :
    let a := a₀.run calls
    let a' := (a.step c).1
    let out := (a.step c).2
    a.revision ≤ a'.revision ∧
    (∀ e, a.evaluator = some e →
      newRoleEvaluator a.policy = .ok e ∧ a.policy.revision = a.revision) ∧
    a.policy = lastPublished a₀.policy a₀ calls ∧
    (∀ after, a'.evaluator = some after → Publication a a' out.events after) ∧
    (Failure a out → ∀ later d e, .effect e ∈ ((a'.run later).step d).2.events →
      ∃ before r after, later = before ++ r :: after ∧ r.isReload = true ∧
        ((a'.run before).step r).1.evaluator.isSome = true) := by
  intro a a' out
  have ha : Consistent a := Authority.run_consistent (newAuthority_consistent h₀).1 calls
  have ht : Transition a c.isReload (a.step c) := step_transition a c
  refine ⟨ht.revision_le, ha.evaluator, (lastPublished_eq (.inr rfl) calls).symm,
    fun after hop => ht.publication ha hop, ?_⟩
  intro hfa later d e he
  obtain ⟨before, r, after, hspl, hr, -, hop⟩ :=
    effect_after_reload (ht.closed_of_failure hfa) later d he
  exact ⟨before, r, after, hspl, hr, hop⟩

end Runs

/-- A role change at the published revision that the backend answers with the error `err`. -/
def failedChange (err : CommitError) : Call :=
  .changeRolePolicyValidated false 1 false (.zero, some err) fun _ _ => true

/-- A commit that ends in an error of no known kind closes a new authority at once. -/
theorem authority_fails_closed_lost_commit :
    let := PngDecoder.none
    ∃ a₀, newAuthority true (some roleFixture) = .ok a₀ ∧ Failure a₀ (a₀.step (failedChange {})).2 ∧
      ∀ d e, .effect e ∉ ((a₀.step (failedChange {})).1.step d).2.events := by
  let := PngDecoder.none
  obtain ⟨e, he⟩ := roleFixture_ok
  have h₀ : newAuthority true (some roleFixture) = .ok ⟨roleFixture, 1, some e⟩ := by
    simp only [newAuthority, he]
    rfl
  have hfa : Failure ⟨roleFixture, 1, some e⟩
      (Authority.step ⟨roleFixture, 1, some e⟩ (failedChange {})).2 :=
    .inl ⟨_, List.mem_singleton_self _, by simp [Event.Fails]⟩
  refine ⟨_, h₀, hfa, fun d e' he' => ?_⟩
  obtain ⟨before, r, after, hspl, -⟩ :=
    (authority_fails_closed h₀ [] (failedChange {})).2.2.2.2 hfa [] d e' he'
  simp at hspl

/-- A commit refused with `ErrRoleForbidden` is a failed commit too, but it leaves the authority
open, and the next effect runs without a reload. -/
theorem effect_after_refused_commit :
    let := PngDecoder.none
    ∃ a₀ p err e, newAuthority true (some roleFixture) = .ok a₀ ∧
      .committed p (some err) ∈ (a₀.step (failedChange { forbidden := true })).2.events ∧
      .effect e ∈
        ((a₀.step (failedChange { forbidden := true })).1.step (.withPolicy false)).2.events := by
  let := PngDecoder.none
  obtain ⟨e, he⟩ := roleFixture_ok
  have h₀ : newAuthority true (some roleFixture) = .ok ⟨roleFixture, 1, some e⟩ := by
    simp only [newAuthority, he]
    rfl
  exact ⟨_, _, _, e, h₀, List.mem_singleton_self _, List.mem_singleton_self _⟩

end Noxa.Authorization

import Noxa.Lib.Machine

/-!
# Activity of private groups

Typing indicators and shared read receipts go to the members a group has when the relay reads its
roster. The event is stamped after that, and then queued. Before it is delivered, the age of the
stamp and the record of the recipient's revocation are checked. A record is kept for thirty seconds.
All of this happens in different goroutines, so each is a step of its own here; a check reads the
time before it looks for a record.

## Main results

* `revoked_member_not_reached` — nothing that was stamped before a revocation is delivered after it
* `late_stamp_reaches_departed` — a relay that stamps its event after the revocation
-/

namespace Noxa.Server.ConversationActivity

open Machine Function

/-- Thirty seconds, in nanoseconds. -/
def conversationActivityRevocationWindow : Int := 30000000000

def conversationAccessKey (uid group : String) : String := uid ++ "\x00" ++ group

/-- An event for a recipient, with its stamp in milliseconds. -/
structure Event where
  recipient : String
  conversationID : String
  relayedAt : Int
  deriving DecidableEq

structure Relay where
  group : String
  audience : List String
  relayedAt : Option Int := none

structure State where
  clock : Int
  /-- The accepted members, with their groups. -/
  members : List (String × String) := []
  revoked : String → Option Int := fun _ => none
  relays : ℕ → Option Relay := fun _ => none
  queue : List Event := []

def revoke (s : State) (uid group : String) : State :=
  let kept key := (s.revoked key).filter fun time =>
    decide (s.clock - time ≤ conversationActivityRevocationWindow)
  { s with revoked := update kept (conversationAccessKey uid group) (some s.clock) }

def recent (s : State) (uid group : String) (now : Int) : Bool :=
  (s.revoked (conversationAccessKey uid group)).any fun time =>
    decide (now - time ≤ conversationActivityRevocationWindow)

/-- The check of an event that started at `now`. -/
def conversationActivityDeliverable (s : State) (event : Event) (now : Int) : Bool :=
  let age := now - event.relayedAt * 1000000
  event.conversationID ≠ "" &&
    (event.relayedAt = 0 || (0 ≤ age && age ≤ conversationActivityRevocationWindow)) &&
    !recent s event.recipient event.conversationID now

/-- The other accepted members, if the sender is one. -/
def conversationAudience (s : State) (uid group : String) : Option (List String) :=
  if (uid, group) ∈ s.members then
    some ((s.members.filter fun m => m.2 = group ∧ m.1 ≠ uid).map Prod.fst)
  else none

inductive Step
  | elapse (time : ℕ)
  | accept (uid group : String)
  | read (relay : ℕ) (uid group : String)
  | stamp (relay : ℕ)
  | send (relay : ℕ)
  | remove (uid group : String)
  | revoke (uid group : String)

def step (s : State) : Step → State × Unit
  | .elapse time => ({ s with clock := s.clock + time }, ())
  | .accept uid group => ({ s with members := (uid, group) :: s.members }, ())
  | .read relay uid group =>
    ({ s with
      relays := update s.relays relay ((conversationAudience s uid group).map fun audience =>
        { group, audience }) }, ())
  | .stamp relay =>
    ({ s with
      relays := update s.relays relay ((s.relays relay).map fun r =>
        { r with relayedAt := some (s.clock / 1000000) }) }, ())
  | .send relay =>
    match s.relays relay with
    | some ⟨group, audience, some relayedAt⟩ =>
      ({ s with
        relays := update s.relays relay none
        queue := s.queue ++ audience.map fun uid => ⟨uid, group, relayedAt⟩ }, ())
    | _ => (s, ())
  | .remove uid group => ({ s with members := s.members.filter (· ≠ (uid, group)) }, ())
  | .revoke uid group => (revoke s uid group, ())

/-- A record from `time` on is there, as long as one of that age is kept. -/
def Recorded (key : String) (time : Int) (s : State) : Prop :=
  s.clock - time ≤ conversationActivityRevocationWindow →
    ∃ t, time ≤ t ∧ t ≤ s.clock ∧ s.revoked key = some t

theorem Recorded.step {key : String} {time : Int} (s : State) (i : Step) (h : Recorded key time s) :
    Recorded key time (step s i).1 := by
  cases i with
  | elapse d =>
    intro ha
    dsimp only [ConversationActivity.step] at ha ⊢
    obtain ⟨t, hfr, hto, hr⟩ := h (by omega)
    exact ⟨t, hfr, by omega, hr⟩
  | revoke uid group =>
    intro ha
    obtain ⟨t, hfr, hto, hr⟩ := h ha
    dsimp only [ConversationActivity.step, revoke] at ha ⊢
    by_cases hkey : key = conversationAccessKey uid group
    · rw [hkey, update_self]
      exact ⟨s.clock, by omega, Int.le_refl _, rfl⟩
    · rw [update_of_ne hkey, hr]
      exact ⟨t, hfr, hto, Option.filter_eq_some_iff.mpr ⟨rfl, decide_eq_true (by omega)⟩⟩
  | send relay =>
    rw [ConversationActivity.step]
    split <;> exact h
  | accept | read | stamp | remove => exact h

/-- Whatever is done after the revocation, and whenever the check starts. It looks for the record
before the age limit is over, or starts after that. -/
theorem revoked_member_not_reached (start : Int) (before after : List Step) (uid group : String)
    (stamp now : Int) :
    let s := run step { clock := start } before
    let s' := run step (revoke s uid group) after
    stamp ≠ 0 → stamp * 1000000 ≤ s.clock → now ≤ s'.clock →
      (now - stamp * 1000000 ≤ conversationActivityRevocationWindow →
        s'.clock - stamp * 1000000 ≤ conversationActivityRevocationWindow) →
      conversationActivityDeliverable s' ⟨uid, group, stamp⟩ now = false := by
  intro s s' hst hbef hnow hprm
  have hr : Recorded (conversationAccessKey uid group) s.clock s' := by
    refine run_invariant Recorded.step (fun _ => ?_) after
    exact ⟨s.clock, Int.le_refl _, Int.le_refl _, by simp [revoke]⟩
  by_contra hps
  simp only [conversationActivityDeliverable, Bool.not_eq_false, Bool.and_eq_true, hst,
    decide_false, Bool.false_or, decide_eq_true_eq, Bool.not_eq_true'] at hps
  obtain ⟨⟨-, -, ha⟩, hnot⟩ := hps
  have hlt := hprm ha
  obtain ⟨t, hfr, hto, ht⟩ := hr (by omega)
  rw [recent, ht, Option.any_some, decide_eq_false_iff_not] at hnot
  omega

theorem revoked_member_not_reached_queued :
    let s := run step { clock := 1000000000 } [.accept "a" "g", .accept "b" "g", .read 0 "a" "g",
      .stamp 0, .send 0, .remove "b" "g"]
    conversationActivityDeliverable (revoke s "b" "g") ⟨"b", "g", 1000⟩ 1000000000 = false :=
  revoked_member_not_reached 1000000000 _ [] "b" "g" 1000 1000000000 (by decide) (by decide)
    (by decide) (by decide)

/-- The relay reads the roster, the member is removed and revoked, and the event is stamped a second
later. After another 29.5 seconds the record is too old, and the event is not. -/
theorem late_stamp_reaches_departed :
    let s := run step { clock := 1000000000 } [.accept "a" "g", .accept "b" "g", .read 0 "a" "g",
      .remove "b" "g", .revoke "b" "g", .elapse 1000000000, .stamp 0, .send 0, .elapse 29500000000]
    ∃ event ∈ s.queue, event.recipient = "b" ∧ ("b", "g") ∉ s.members ∧
      conversationActivityDeliverable s event s.clock = true := by
  decide

end Noxa.Server.ConversationActivity

import Noxa.Media.GuardedSteps

/-!
# The removal bound

A device that leaves the channel keeps the keys it was sent. From `REMOVAL_BOUND_MS` after the
roster that no longer has it, the sender must not encrypt under any epoch created before that
roster. This holds of every run in which the session stays visible and every roster announces its
removal (`announces`): a roster that takes away devices which were sent keys leaves a recipient, or
an earlier roster since the start had one.

The engine records the recipients of a roster only in `setRoster` of a running engine. The session
gives the first roster before `start`, so until a second one comes nothing is recorded, and a second
roster without recipients looks unchanged: no removal is noted and the epoch stays active until the
next renewal (`removal_missed`).

## Main definitions

* `Page.OnTime` — every removal timer whose time has come has fired
* `Page.EncryptsAfter` — every slot that encrypts does so under an epoch created after a given place

## Main results

* `removal_bound` — the bound, and what a roster that does not announce does
* `removal_missed` — a run in which a device that was sent the active epoch's keys is gone and the
  epoch stays active
-/

namespace Noxa.Media

/-- Every removal timer whose time has come has fired. -/
def Page.OnTime (s : Page) : Prop :=
  ∀ q ∈ s.engine.pendingRemovals, q.due = false → s.clock < q.deadline

instance (s : Page) : Decidable s.OnTime :=
  inferInstanceAs (Decidable (∀ q ∈ s.engine.pendingRemovals, q.due = false → s.clock < q.deadline))

/-- Each sender slot encrypts under nothing, or under an epoch created after place `seq` of the
order. -/
def Page.EncryptsAfter (s : Page) (seq : ℕ) : Prop :=
  ∀ slot ∈ slots, s.worker.active slot ≠ 0 →
    ∃ i ∈ s.issues, i.epoch = s.worker.active slot ∧ seq < i.created

instance (s : Page) (seq : ℕ) : Decidable (s.EncryptsAfter seq) :=
  inferInstanceAs (Decidable (∀ slot ∈ slots, s.worker.active slot ≠ 0 →
    ∃ i ∈ s.issues, i.epoch = s.worker.active slot ∧ seq < i.created))

/-- A page before its first engine. The clock and the last issued number are arbitrary. -/
def opened (owner : DeviceID) (clock issued : ℕ) : Page :=
  { owner, clock, issued }

/-- The step is one of a visible session, and its roster announces whom it takes away. -/
def Announced (s : Page) (i : Input) : Prop :=
  staysVisible s i = true ∧ announces s i = true

instance (s : Page) (i : Input) : Decidable (Announced s i) :=
  inferInstanceAs (Decidable (_ ∧ _))

/-- Past the bound, whoever left is excluded. -/
theorem Guarded.encryptsAfter {s : Page} (h : Guarded s.core) (hon : s.OnTime) {d : Departed}
    (hd : d ∈ s.departed) (hbd : d.time + removalBoundMs ≤ s.clock) : s.EncryptsAfter d.seq := by
  have hc : s.core.ClearFrom (d.seq + 1) := by
    rcases h.cover d hd with ⟨hc, -⟩ | ⟨q, hq, hseq, hdl⟩
    · exact hc
    -- The removal's timer has fired: its deadline has passed.
    have hdue : q.due = true := by
      by_contra hn
      have := hon q hq (by simpa using hn)
      omega
    exact hseq ▸ h.due q hq hdue
  intro slot _ hsl
  obtain ⟨m, hm, i, hi, hep, hcre⟩ := h.clear_active hc slot hsl
  exact ⟨i, hi, hep, by omega⟩

/-- In every state of a run whose steps are those of a visible session and announce whom they take
away: once the bound has passed since a recipient left, and until it is a recipient again, no sender
slot encrypts under an epoch created before it left. A roster that does not announce is treated as
if nothing had changed. -/
theorem removal_bound (owner : DeviceID) (clock issued : ℕ) (inputs : List Input)
    (h : Machine.Along step Announced (opened owner clock issued) inputs) :
    let s := Machine.run step (opened owner clock issued) inputs
    (s.OnTime → ∀ d ∈ s.departed, d.time + removalBoundMs ≤ s.clock → s.EncryptsAfter d.seq) ∧
      ∀ roster self, s.engine.self = some self → announces s ⟨.setRoster roster, 0, false⟩ = false →
        (setRoster s roster).engine.pendingRemovals = s.engine.pendingRemovals ∧
          (setRoster s roster).engine.debounce = s.engine.debounce := by
  intro s
  have hgrd : Guarded s.core :=
    Machine.run_invariant_along (P := fun s => Guarded s.core)
      (fun _ _ hi hs => next_guarded hi.1 hi.2 hs) (guarded_stopped (opened owner clock issued)) h
  exact ⟨fun hon d hd hbd => hgrd.encryptsAfter hon hd hbd,
    fun _ _ hsf hn => noteless_of_not_announces hgrd hsf hn⟩

/-! ## Two runs -/

section Runs

/-- A session of another user in channel 7. -/
def listener (clientID principal device : String) : Entry :=
  ⟨some 7, clientID, principal, device, "", false⟩

/-- A voice session starts with a known roster, and its first epoch is installed and activated: one
wait for the digest, eight for `setKey` and four for `activate`. -/
def joinChannel (roster : List Entry) : List Input :=
  [⟨.setRoster roster, 0, false⟩, ⟨.start 7 "c0", 0, false⟩, ⟨.fire .debounce, 1000, false⟩] ++
    List.replicate 13 ⟨.resume true, 1000, false⟩

/-- Of two listeners one leaves, and the server no longer answers. -/
def stalledRemoval : List Input :=
  joinChannel [listener "c1" "bob" "b1", listener "c2" "eve" "e1"] ++
    [⟨.advance 1000, 0, false⟩, ⟨.setRoster [listener "c1" "bob" "b1"], 0, false⟩,
      ⟨.advance 1200, 0, false⟩, ⟨.fire .debounce, 1200, false⟩, ⟨.advance 3200, 0, false⟩,
      ⟨.fire (.removal 2), 3200, false⟩]

theorem removal_bound_stalled :
    let s := Machine.run step (opened ⟨"me", "m1"⟩ 0 0) stalledRemoval
    (∃ d ∈ s.departed, d.device = ⟨"eve", "e1"⟩ ∧ d.time + removalBoundMs ≤ s.clock) ∧
      ∀ d ∈ s.departed, d.time + removalBoundMs ≤ s.clock → s.EncryptsAfter d.seq := by
  intro s
  have hmn := removal_bound ⟨"me", "m1"⟩ 0 0 stalledRemoval (by decide +kernel)
  exact ⟨by decide +kernel, hmn.1 (by decide +kernel)⟩

/-- The only listener leaves, and the roster that says so is the first one since the start. -/
def lastListenerLeaves : List Input :=
  joinChannel [listener "c1" "bob" "b1"] ++
    [⟨.advance 1000, 0, false⟩, ⟨.setRoster [], 0, false⟩, ⟨.advance 10000, 0, false⟩]

/-- Bob was sent the keys of epoch 1000 and left at time 1000. At time 10000 every timer has fired
on time, the session was always visible, and the microphone still encrypts under epoch 1000, created
before he left. -/
theorem removal_missed :
    let s := Machine.run step (opened ⟨"me", "m1"⟩ 0 0) lastListenerLeaves
    Machine.Along step (fun s i => staysVisible s i = true) (opened ⟨"me", "m1"⟩ 0 0)
        lastListenerLeaves ∧
      s.OnTime ∧ s.clock = 10000 ∧
      ⟨⟨"bob", "b1"⟩, 1000, ⟨0, 0⟩⟩ ∈ s.courier.sends ∧
      (⟨⟨"bob", "b1"⟩, 1000, 1⟩ : Departed) ∈ s.departed ∧
      s.worker.active .mic = 1000 ∧ s.issues.map (fun i => (i.epoch, i.created)) = [(1000, 1)] ∧
      ¬ s.EncryptsAfter 1 := by
  decide +kernel

end Runs

end Noxa.Media

import Noxa.Media.Deliveries
import Noxa.Media.Guarded

/-!
# Who can hold the keys of an epoch

A device holds the keys of an epoch when they, or keys they derive from, were sent to it. A ratchet
epoch's keys derive from the active epoch's, so everyone who was sent a key of the chain can compute
them. The engine continues a chain only while all of these are recipients, and gives out numbers so
that no two epochs of a device share one and no fresh epoch takes the number that receivers reserve
for a successor. None of this depends on the clock, on replies or on the session being visible.

## Main definitions

* `Ledger` — the epochs issued so far, and how their keys relate
* `Audience` — the invariant of a page

## Main results

* `Ledger.cons` — a further epoch
* `next_audience` — every step keeps the invariant
* `media_key_audience` — the devices that can derive an epoch's keys are in its snapshot, and the
  numbers of epochs
-/

namespace Noxa.Media

open List

/-! ## The ledger of epochs -/

/-- The epochs issued, newest first. -/
structure Ledger (issues : List Issue) (issued draws : ℕ) : Prop where
  increasing : issues.Pairwise fun later earlier => earlier.epoch < later.epoch
  apart : issues.Pairwise fun later earlier => later.fresh = true → later.epoch ≠ earlier.epoch + 1
  le_issued : ∀ i ∈ issues, i.epoch ≤ issued
  drawn : ∀ i ∈ issues, i.keys.root < draws
  /-- Along a chain the snapshots grow. -/
  nested : ∀ i ∈ issues, ∀ j ∈ issues, i.keys.root = j.keys.root → i.keys.steps ≤ j.keys.steps →
    i.snapshot ⊆ j.snapshot
  /-- Along a chain the keys are ratcheted in the order of the epochs. -/
  ordered : ∀ i ∈ issues, ∀ j ∈ issues, i.keys.root = j.keys.root → i.epoch ≤ j.epoch →
    i.keys.steps ≤ j.keys.steps

namespace Ledger

variable {issues : List Issue} {issued draws : ℕ}

theorem distinct (h : Ledger issues issued draws) : Distinct issues := by
  have hnd : (issues.map Issue.epoch).Nodup :=
    pairwise_map.mpr (h.increasing.imp fun hlt => hlt.ne')
  exact fun i hi j hj => inj_on_of_nodup_map hnd hi hj

/-- A further epoch: its number is above all others, by more than one if it is fresh, and its keys
are new or continue those of epochs whose snapshots it contains. -/
theorem cons (h : Ledger issues issued draws) {i : Issue} {draws' : ℕ} (hlt : issued < i.epoch)
    (hfr : i.fresh = true → issued + 1 < i.epoch) (hdrs : draws ≤ draws')
    (hrt : i.keys.root < draws') (hnew : ∀ j ∈ issues, j.keys.root = i.keys.root →
      j.keys.steps < i.keys.steps ∧ j.snapshot ⊆ i.snapshot) :
    Ledger (i :: issues) i.epoch draws' where
  increasing := pairwise_cons.mpr ⟨fun j hj => lt_of_le_of_lt (h.le_issued j hj) hlt, h.increasing⟩
  apart := pairwise_cons.mpr
    ⟨fun j hj hf => by have := h.le_issued j hj; have := hfr hf; omega, h.apart⟩
  le_issued := forall_mem_cons.mpr ⟨le_rfl, fun j hj => (h.le_issued j hj).trans hlt.le⟩
  drawn := forall_mem_cons.mpr ⟨hrt, fun j hj => lt_of_lt_of_le (h.drawn j hj) hdrs⟩
  nested a ha b hb hr hs := by
    rcases mem_cons.mp ha with rfl | ha' <;> rcases mem_cons.mp hb with rfl | hb'
    · exact fun _ hx => hx
    · exact absurd (hnew b hb' hr.symm).1 (by omega)
    · exact (hnew a ha' hr).2
    · exact h.nested a ha' b hb' hr hs
  ordered a ha b hb hr he := by
    rcases mem_cons.mp ha with rfl | ha' <;> rcases mem_cons.mp hb with rfl | hb'
    · exact le_rfl
    · have := h.le_issued b hb'
      omega
    · exact (hnew a ha' hr).1.le
    · exact h.ordered a ha' b hb' hr he

end Ledger

/-! ## The invariant -/

/-- The rekey in flight: its keys, its chain and whom it will address. -/
def RekeySealed (issues : List Issue) (r : Rekey) : Prop :=
  Carried issues r.epoch r.keys r.chain ∧ ∀ q ∈ r.recipients, Addressed issues r.epoch q.id

/-- A ratchet continues the chain of the newest epoch, all of whose holders it will address. -/
def HeadSealed (issues : List Issue) (issued : ℕ) (d : Draft) (head : Material) : Prop :=
  Carried issues head.epoch head.keys head.chain ∧ head.epoch = issued ∧ d.previous = issued ∧
    head.chain ⊆ recipientIDs d.recipients

structure AudienceFields (issues : List Issue) (issued draws epoch : ℕ) (courier : Courier)
    (phase : Phase) (worker : Worker) : Prop where
  ledger : Ledger issues issued draws
  courier : Delivers issues epoch courier
  ratcheting : ∀ d head, phase = .ratcheting d head → HeadSealed issues issued d head
  numbered : ∀ r, phase.rekey? = some r → RekeySealed issues r
  held : ∀ pid e, (worker pid).Holds e → ∃ i ∈ issues, i.epoch = e

/-- The invariant of a page. -/
def Audience (s : Page) : Prop :=
  AudienceFields s.issues s.issued s.draws s.engine.epoch s.courier s.engine.phase s.worker

section Mono

variable {issues : List Issue} {i : Issue} {epoch : ℕ} {keys : Keys} {id : DeviceID}

theorem Addressed.mono (h : Addressed issues epoch id) : Addressed (i :: issues) epoch id :=
  have ⟨j, hj, hrs⟩ := h
  ⟨j, mem_cons_of_mem _ hj, hrs⟩

theorem Sealed.mono (h : Sealed issues epoch keys id) : Sealed (i :: issues) epoch keys id :=
  have ⟨j, hj, hrs⟩ := h
  ⟨j, mem_cons_of_mem _ hj, hrs⟩

/-- A newer epoch of a chain is not one that the older keys derive from. -/
theorem Carried.mono {chain : List DeviceID} (h : Carried issues epoch keys chain)
    (hnew : ∀ j ∈ issues, j.keys.root = i.keys.root → j.keys.steps < i.keys.steps) :
    Carried (i :: issues) epoch keys chain := by
  obtain ⟨⟨k, hk, hep, rfl⟩, hchn⟩ := h
  refine ⟨⟨k, mem_cons_of_mem _ hk, hep, rfl⟩, fun j hj hrt hsts => ?_⟩
  rcases mem_cons.mp hj with rfl | hj
  · exact absurd (hnew k hk hrt.symm) (by omega)
  · exact hchn j hj hrt hsts

theorem Delivers.mono {c : Courier} (h : Delivers issues epoch c)
    (hnew : ∀ j ∈ issues, j.keys.root = i.keys.root → j.keys.steps < i.keys.steps) :
    Delivers (i :: issues) epoch c :=
  ⟨fun t ht => (h.sends t ht).mono, fun d hd r hr => (h.todo d hd r hr).mono,
    fun d hd r hr => (h.flying d hd r hr).mono, fun r hr => (h.failed r hr).mono,
    fun m hm => (h.deliveries m hm).mono hnew⟩

end Mono

namespace AudienceFields

variable {issues : List Issue} {issued draws epoch : ℕ} {courier : Courier} {phase : Phase}
  {worker : Worker}

section

variable (h : AudienceFields issues issued draws epoch courier phase worker)

include h

theorem idle : AudienceFields issues issued draws epoch courier .idle worker :=
  { h with
    ratcheting := by simp
    numbered := by simp [Phase.rekey?] }

theorem proceed {r : Rekey} {p : Phase} (hr : phase.rekey? = some r) (hp : p.rekey? = some r) :
    AudienceFields issues issued draws epoch courier p worker :=
  { h with
    ratcheting := by
      rintro d head rfl
      simp [Phase.rekey?] at hp
    numbered := by
      intro q hq
      obtain rfl : r = q := Option.some.inj (hp.symm.trans hq)
      exact h.numbered r hr }

theorem shrink {w : Worker} (hw : ∀ pid, (worker pid).Shrinks (w pid)) :
    AudienceFields issues issued draws epoch courier phase w :=
  { h with held := fun pid e he => h.held pid e ((hw pid).holds e he) }

/-- A further epoch, with the rekey that has issued it. -/
theorem issue {r : Rekey} {i : Issue} {draws' : ℕ} (hlt : issued < i.epoch)
    (hfr : i.fresh = true → issued + 1 < i.epoch) (hdrs : draws ≤ draws')
    (hrt : i.keys.root < draws') (hnew : ∀ j ∈ issues, j.keys.root = i.keys.root →
      j.keys.steps < i.keys.steps ∧ j.snapshot ⊆ i.snapshot)
    (hi : i.epoch = r.epoch ∧ i.keys = r.keys ∧ i.snapshot = recipientIDs r.recipients) :
    AudienceFields (i :: issues) i.epoch draws' epoch courier (.digesting r) worker where
  ledger := h.ledger.cons hlt hfr hdrs hrt hnew
  courier := Delivers.mono h.courier fun j hj hr => (hnew j hj hr).1
  ratcheting := by simp
  numbered := by
    intro q hq
    obtain rfl : r = q := Option.some.inj hq
    refine ⟨⟨⟨i, mem_cons_self, hi.1, hi.2.1⟩, fun j hj hr _ => ?_⟩, fun q hq => ?_⟩
    · -- Every snapshot of the chain is within this one.
      have hsub : j.snapshot ⊆ i.snapshot := by
        rcases mem_cons.mp hj with rfl | hj
        · exact fun _ hx => hx
        · exact (hnew j hj (hi.2.1 ▸ hr)).2
      rw [hi.2.2] at hsub
      exact List.Subset.trans hsub (subset_append_right _ _)
    · exact ⟨i, mem_cons_self, hi.1, hi.2.2 ▸ mem_map_of_mem hq⟩
  held pid e he :=
    have ⟨j, hj, hje⟩ := h.held pid e he
    ⟨j, mem_cons_of_mem _ hj, hje⟩

end

end AudienceFields

/-! ## The steps of a rekey -/

section Rekeys

variable {s : Page}

section

variable (h : Audience s)

include h

theorem schedule_audience (reason : Reason) (delay : ℕ) : Audience (schedule s reason delay) := by
  unfold schedule
  dsimp only
  split
  · exact h
  · split <;> split <;> exact h

theorem failRekey_audience : Audience (failRekey s) := by
  unfold failRekey
  dsimp only
  split <;> exact h.idle

variable {d : Draft} {head : Material}

/-- What makes a ratchet possible: the active epoch is the newest one issued, and every device that
can derive its keys is addressed. -/
theorem ratchetHead_sealed {self : Self} {reason : Option Reason}
    (hpr : d.previous = s.engine.activeEpoch)
    (hhd : ratchetHead s self reason (recipientIDs d.recipients) = some head) :
    HeadSealed s.issues s.issued d head := by
  unfold ratchetHead at hhd
  dsimp only at hhd
  split at hhd
  · rename_i hcn
    split at hhd
    · rename_i m hm
      split at hhd
      · rename_i hall
        cases hhd
        obtain ⟨hmem, hep⟩ := Courier.material_eq_some hm
        have hiss : s.issued = s.engine.activeEpoch := hcn.2.2.2.2.2
        refine ⟨h.courier.deliveries head hmem, hep.trans hiss.symm, hpr.trans hiss.symm,
          fun id hid => ?_⟩
        have := all_eq_true.mp hall id hid
        simp only [Bool.and_eq_true, decide_eq_true_eq] at this
        exact this.1.1
      · cases hhd
    · cases hhd
  · cases hhd

variable (wall : ℕ)

/-- A ratchet's keys continue the newest epoch's. -/
theorem issueEpoch_ratchet (hhd : HeadSealed s.issues s.issued d head) :
    Audience (issueEpoch s wall d (some head) (ratchetKeys head.keys)) := by
  obtain ⟨⟨⟨k, hk, hkep, hkke⟩, hchn⟩, hep, hpr, hsub⟩ := hhd
  have hle : ∀ j ∈ s.issues, j.keys.root = head.keys.root → j.keys.steps ≤ head.keys.steps := by
    intro j hj hrt
    rw [← hkke] at hrt ⊢
    exact h.ledger.ordered j hj k hk hrt (by rw [hkep, hep]; exact h.ledger.le_issued j hj)
  refine AudienceFields.issue h ?_ (by simp) le_rfl ?_ ?_ ⟨rfl, rfl, rfl⟩
  · simp only [Option.isSome_some, if_true]
    omega
  · exact hkke ▸ h.ledger.drawn k hk
  · intro j hj hrt
    have hsts := hle j hj hrt
    exact ⟨Nat.lt_succ_of_le hsts, List.Subset.trans (hchn j hj hrt hsts) hsub⟩

/-- Fresh keys begin a chain. -/
theorem issueEpoch_fresh (d : Draft) :
    Audience (issueEpoch { s with draws := s.draws + 1 } wall d none ⟨s.draws, 0⟩) := by
  have hnum : s.issued + 1 < max (max (s.engine.epoch + 2) (s.issued + 2)) wall := by omega
  refine AudienceFields.issue h (lt_trans (Nat.lt_succ_self _) hnum) (fun _ => hnum)
    (Nat.le_succ _) (Nat.lt_succ_self _) ?_ ⟨rfl, rfl, rfl⟩
  intro j hj hrt
  exact absurd hrt (h.ledger.drawn j hj).ne

theorem beginEpoch_audience (self : Self) : Audience (beginEpoch s wall self) := by
  unfold beginEpoch
  dsimp only
  split
  · rename_i head hhd
    have hsld := ratchetHead_sealed (s := { takePlace s with
      engine := { (takePlace s).engine with recipients := (draft s self).recipients } }) h rfl hhd
    refine { h.idle with ratcheting := fun d' head' hp => ?_, numbered := by simp [Phase.rekey?] }
    cases hp
    exact hsld
  · refine issueEpoch_fresh ?_ wall _
    exact h

theorem beginRekey_audience : Audience (beginRekey s wall) := by
  unfold beginRekey
  split
  · exact h
  · split
    · exact h.idle
    · exact beginEpoch_audience h wall _

theorem endRekey_audience : Audience (endRekey s wall) := by
  unfold endRekey
  split
  · exact beginRekey_audience h wall
  · exact h.idle

theorem startRun_audience : Audience (startRun s wall) := by
  unfold startRun
  split
  · exact beginRekey_audience h wall
  · exact h

theorem withdraw_audience (r : Rekey) (preempted : Bool) : Audience (withdraw s r preempted) := by
  have hhl : ∀ pid e, (s.worker.each (·.retireEpoch r.epoch) pid).Holds e →
      ∃ i ∈ s.issues, i.epoch = e := fun pid e he =>
    h.held pid e (((s.worker pid).retireEpoch_shrinks r.epoch).holds e he)
  have hdel : ∀ m ∈ s.courier.deliveries.filter (·.epoch ≠ r.epoch),
      Carried s.issues m.epoch m.keys m.chain := fun m hm =>
    h.courier.deliveries m (mem_filter.mp hm).1
  unfold withdraw
  dsimp only
  split
  · -- The previous epoch is current again, with no failed sends.
    have hno : ∀ q ∈ ([] : List Recipient),
        Addressed s.issues (if r.previous = 0 then r.epoch else r.previous) q.id := by simp
    cases preempted <;>
      exact ⟨h.ledger, ⟨h.courier.sends, h.courier.todo, h.courier.flying, hno, hdel⟩,
        h.ratcheting, h.numbered, hhl⟩
  · exact ⟨h.ledger, ⟨h.courier.sends, h.courier.todo, h.courier.flying, h.courier.failed, hdel⟩,
      h.ratcheting, h.numbered, hhl⟩

theorem activated_audience (r : Rekey) : Audience (activated s wall r) := by
  refine endRekey_audience ?_ wall
  generalize hctx : Page.context _ = ctx
  have hc : Delivers s.issues s.engine.epoch (s.courier.scheduleRetry ctx r.epoch) :=
    Delivers.scheduleRetry h.courier r.epoch
  refine ⟨h.ledger, ⟨hc.sends, hc.todo, hc.flying, hc.failed, fun m hm => ?_⟩, h.ratcheting,
    h.numbered, fun pid e he => ?_⟩
  · exact hc.deliveries m (mem_filter.mp hm).1
  dsimp only at he
  split at he
  · exact h.held pid e (((s.worker pid).retireEpoch_shrinks r.epoch).holds e he)
  · exact h.held pid e he

variable {r : Rekey} (lost : Bool) (hr : s.engine.phase.rekey? = some r)

include hr

theorem activateNext_audience (todo : List Slot) : Audience (activateNext s wall lost r todo) := by
  cases todo with
  | nil => exact activated_audience h wall r
  | cons slot todo =>
    refine { AudienceFields.proceed h hr (p := .activating r slot todo _) rfl with
      held := fun pid e he => h.held pid e ?_ }
    change ((s.worker.post lost (.sender slot) (·.activate r.epoch)).1 pid).Holds e at he
    refine (Worker.post_holds (P := fun _ => False) (fun g hg e he => .inl ?_) he).resolve_right id
    obtain ⟨q, hq, hqe⟩ := he
    exact ⟨q, (Ring.activate_eq_some hg).2.2 ▸ hq, hqe⟩

theorem startActivation_audience : Audience (startActivation s wall lost r) := by
  unfold startActivation
  split
  · exact endRekey_audience h wall
  split
  · exact endRekey_audience (withdraw_audience h r false) wall
  refine activateNext_audience ?_ wall lost ?_ slots
  · exact h
  · exact hr

/-- The installed epoch is current, its material carries its chain, and its distribution goes to its
snapshot. -/
theorem installed_audience : Audience (installed s wall lost r) := by
  obtain ⟨hcar, had⟩ := h.numbered r hr
  unfold installed
  dsimp only
  generalize hctx : Page.context _ = ctx
  have hep : ctx.epoch = r.epoch := by rw [← hctx]; rfl
  have hc : Delivers s.issues ctx.epoch
      { s.courier with
        failed := []
        deliveries := s.courier.deliveries.filter (·.epoch ≠ r.epoch) ++
          [⟨r.epoch, r.kid, r.keys, r.chain, []⟩] } := by
    exact ⟨h.courier.sends, h.courier.todo, h.courier.flying, by simp, forall_mem_append.mpr
      ⟨fun m hm => h.courier.deliveries m (mem_filter.mp hm).1, forall_mem_singleton.mpr hcar⟩⟩
  have hse := hc.distribute h.ledger.distinct had none
  rw [hep] at hse
  generalize Courier.distribute _ ctx r.recipients r.epoch none = courier at hse ⊢
  have hpg : Audience { s with
      engine := { s.engine with epoch := r.epoch, kid := r.kid }
      courier := courier } :=
    ⟨h.ledger, hse, h.ratcheting, h.numbered, h.held⟩
  split
  · split
    · exact endRekey_audience (withdraw_audience hpg r true) wall
    · exact startActivation_audience hpg wall lost hr
  split
  · exact AudienceFields.proceed hpg hr rfl
  split
  · exact endRekey_audience (withdraw_audience hpg r true) wall
  · exact AudienceFields.proceed hpg hr rfl

theorem installNext_audience (todo : List Pid) : Audience (installNext s wall lost r todo) := by
  cases todo with
  | nil => exact installed_audience h wall lost hr
  | cons pid todo =>
    refine { AudienceFields.proceed h hr (p := .installing r todo _) rfl with
      held := fun q e he => ?_ }
    change ((s.worker.post lost pid (·.key ⟨r.epoch, r.kid, r.keys⟩)).1 q).Holds e at he
    rcases Worker.post_holds (fun g hg => (Ring.key_eq_some hg).2) he with he | rfl
    · exact h.held q e he
    · obtain ⟨i, hi, hie, -⟩ := (h.numbered r hr).1.1
      exact ⟨i, hi, hie⟩

omit hr in
theorem resume_audience (ok : Bool) : Audience (resume s wall lost ok) :=
  resume_rule wall lost ok h (failRekey_audience h)
    (fun d head hph => issueEpoch_ratchet h wall (h.ratcheting d head hph))
    (fun _ todo hr => installNext_audience h wall lost hr todo)
    (fun _ hr => startActivation_audience h wall lost hr)
    (fun r _ => endRekey_audience (withdraw_audience h r true) wall)
    fun _ _ todo hph => activateNext_audience h wall lost (by rw [hph]; rfl) todo

end

end Rekeys

/-! ## Calls and timers -/

section Calls

variable {s : Page}

section

variable (h : Audience s)

include h

theorem removalDeadline_audience (seq : ℕ) : Audience (removalDeadline s seq) := by
  unfold removalDeadline
  dsimp only
  split
  · have hshr := foldl_retireEpoch_shrinks (s.engine.activating.filter (·.created < seq)) s.worker
    split
    · exact AudienceFields.shrink h hshr
    split
    · exact AudienceFields.shrink h fun pid =>
        (hshr pid).trans (each_retireEpoch_shrinks _ s.engine.activeEpoch pid)
    · exact AudienceFields.shrink h hshr
  · exact h

theorem fire_audience (wall : ℕ) (timer : Timer) : Audience (fire s wall timer) :=
  have hc : ∀ id, Delivers s.issues s.context.epoch (s.courier.retryDue s.context id) :=
    Delivers.retryDue h.courier h.ledger.distinct
  fire_rule wall timer h (fun _ _ _ _ => h) (fun _ h => startRun_audience h wall)
    (fun _ h => schedule_audience h .renewal 0)
    (removalDeadline_audience h) (fun previous _ => AudienceFields.shrink h fun pid =>
      (s.worker pid).retire_shrinks previous) fun id => { h with courier := hc id }

theorem noteRemoval_audience : Audience (noteRemoval s) := by
  refine { h with
    ratcheting := fun d head hp => h.ratcheting d head ?_
    numbered := fun r hr => ?_ }
  · revert hp
    dsimp only [noteRemoval]
    cases s.engine.phase <;> simp [Phase.interrupt]
  · exact h.numbered r (by simpa [noteRemoval] using hr)

theorem setRoster_audience (roster : List Entry) : Audience (setRoster s roster) := by
  unfold setRoster
  split
  · exact h
  split
  · exact h
  unfold updateRecipients
  dsimp only
  split
  · exact h
  refine schedule_audience ?_ _ _
  split
  · exact noteRemoval_audience h
  · exact h

theorem start_audience (channelID : Int) (clientID : String) :
    Audience (start s channelID clientID) := by
  unfold start
  split
  · exact h
  · refine schedule_audience ?_ .start 0
    exact { h with courier := ⟨h.courier.sends, by simp, by simp, by simp, by simp⟩ }

theorem stop_audience : Audience (stop s) := by
  unfold stop
  split
  · exact h
  · exact ⟨h.ledger, ⟨h.courier.sends, by simp, by simp, by simp, by simp⟩, by simp,
      by simp [Phase.rekey?], fun _ _ he =>
        absurd he (by simp [Worker.each, Ring.forget, Ring.Holds])⟩

theorem receive_audience (p : Publisher) : Audience (receive s p) := by
  unfold receive
  split
  · exact h
  · dsimp only
    split <;> split <;> exact h

/-- Every step keeps the invariant. -/
theorem next_audience (i : Input) : Audience (next s i) := by
  unfold next
  cases i.event with
  | setRoster roster => exact setRoster_audience h roster
  | start channelID clientID => exact start_audience h channelID clientID
  | stop => exact stop_audience h
  | publicationsChanged => exact schedule_audience h .publication debounceMs
  | receive p => exact receive_audience h p
  | advance =>
    dsimp only [advance]
    split <;> exact h
  | fire timer => exact fire_audience h i.wall timer
  | resume ok => exact resume_audience h i.wall i.lost ok
  | settled distribution device ok =>
    have hc : Delivers s.issues s.context.epoch
        (s.courier.settled s.context distribution device ok) :=
      Delivers.settled h.courier distribution device ok
    exact { h with courier := hc }

end

end Calls

/-! ## Runs -/

/-- A page on which this device has issued no epoch yet. -/
def blank (owner : DeviceID) (clock : ℕ) : Page :=
  { owner, clock }

theorem blank_audience (owner : DeviceID) (clock : ℕ) : Audience (blank owner clock) where
  ledger := ⟨.nil, .nil, by simp [blank], by simp [blank], by simp [blank], by simp [blank]⟩
  courier := ⟨by simp [blank], by simp [blank], by simp [blank], by simp [blank], by simp [blank]⟩
  ratcheting := by simp [blank]
  numbered := by simp [blank, Phase.rekey?]
  held := by simp [blank, Worker.empty, Ring.empty, Ring.Holds]

/-- In every state of every run of a page's engines: a device to which keys were sent from which the
keys of an issued epoch derive is in the recipient snapshot of that epoch; every epoch a slot
encrypts under was issued; the numbers of epochs strictly increase in the order they were issued,
across engines; and a fresh epoch never has the number that follows an earlier one's. -/
theorem media_key_audience (owner : DeviceID) (clock : ℕ) (inputs : List Input) :
    let s := Machine.run step (blank owner clock) inputs
    (∀ i ∈ s.issues, ∀ t ∈ s.courier.sends, (∃ n, i.keys = ratchetKeys^[n] t.keys) →
        t.device ∈ i.snapshot) ∧
      (∀ slot, s.worker.active slot ≠ 0 → ∃ i ∈ s.issues, i.epoch = s.worker.active slot) ∧
      s.issues.Pairwise (fun later earlier => earlier.epoch < later.epoch) ∧
      s.issues.Pairwise fun later earlier =>
        later.fresh = true → later.epoch ≠ earlier.epoch + 1 := by
  intro s
  have h : Audience s := Machine.run_invariant (P := Audience)
    (fun s i hs => next_audience hs i) (blank_audience owner clock) inputs
  refine ⟨?_, fun slot hsl => ?_, h.ledger.increasing, h.ledger.apart⟩
  · rintro i hi t ht ⟨n, hn⟩
    obtain ⟨j, hj, -, hks, hdev⟩ := h.courier.sends t ht
    rw [iterate_ratchetKeys] at hn
    refine h.ledger.nested j hj i hi ?_ ?_ hdev
    · rw [hks, hn]
    · rw [hks, hn]
      exact Nat.le_add_right _ _
  · exact h.held (.sender slot) _ ((s.worker (.sender slot)).active_held.resolve_left hsl)

end Noxa.Media

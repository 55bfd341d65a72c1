import Noxa.Media.Engine

/-!
# What the worker may encrypt under

The invariant behind the removal bound. A sender slot encrypts only under the engine's active epoch,
unless it is paused, or under an epoch whose activation has started (`Guarded.live`). A removal that
is past its deadline finds none of these older than itself (`Guarded.due`), and a recipient that
left is either covered in this sense or has a removal pending whose timer is armed
(`Guarded.cover`).

The invariant reads only a part of a page, its `Core`. Most functions of the engine leave the core
alone or change a field or two of it; the equations say so, and the invariant is proved on cores.

## Main definitions

* `Core` — the part of a page that decides what is encrypted
* `Core.ClearFrom` — no epoch that may be encrypted under was created before a place in the order
* `Guarded` — the invariant

## Main results

* `Guarded.shrink`, `Guarded.issue`, `Guarded.push`, `Guarded.post_activate`,
  `Guarded.complete`, `Guarded.deadline` — the steps of a rekey and of a removal's timer
* `Guarded.note`, `Guarded.record`, `Guarded.unchanged` — the steps of a roster update
* `Guarded.clear_active` — what the invariant says about the slots
-/

namespace Noxa.Media

open List Option

/-- The rekey in flight, once its epoch has a number. -/
def Phase.rekey? : Phase → Option Rekey
  | .digesting r => some r
  | .installing r _ _ => some r
  | .awaitingRemoval r _ => some r
  | .awaiting r _ _ _ => some r
  | .activating r _ _ _ => some r
  | _ => none

/-- The place in the order of the rekey in flight. -/
def Phase.created? : Phase → Option ℕ
  | .ratcheting d _ => some d.created
  | p => p.rekey?.map (·.created)

variable {p : Phase}

theorem Phase.created?_of_rekey? {r : Rekey} (h : p.rekey? = some r) :
    p.created? = some r.created := by
  cases p <;> simp_all [rekey?, created?]

@[simp]
theorem Phase.rekey?_interrupt (p : Phase) : p.interrupt.rekey? = p.rekey? := by
  cases p <;> rfl

@[simp]
theorem Phase.created?_interrupt (p : Phase) : p.interrupt.created? = p.created? := by
  cases p <;> rfl

/-! ## What resuming does -/

variable {P : Page → Prop} {s : Page}

/-- Whatever the rekey in flight waits for, resuming it is one of these. -/
theorem resume_rule (wall : ℕ) (lost ok : Bool) (hs : P s)
    (hfa : P (failRekey s)) (hra : ∀ d head, s.engine.phase = .ratcheting d head →
      P (issueEpoch s wall d (some head) (ratchetKeys head.keys)))
    (hins : ∀ r todo, s.engine.phase.rekey? = some r → P (installNext s wall lost r todo))
    (hstr : ∀ r, s.engine.phase.rekey? = some r → P (startActivation s wall lost r))
    (hend : ∀ r, s.engine.phase.rekey? = some r → P (endRekey (withdraw s r true) wall))
    (hnx : ∀ r posted todo, s.engine.phase = .activating r posted todo true →
      P (activateNext s wall lost r todo)) : P (resume s wall lost ok) := by
  unfold resume
  cases hph : s.engine.phase with
  | idle => exact hs
  | ratcheting d head =>
    cases ok with
    | false => exact hfa
    | true => exact hra d head hph
  | digesting r =>
    cases ok with
    | false => exact hfa
    | true => exact hins r ownPids (by rw [hph]; rfl)
  | installing r todo accepted =>
    cases ok <;> cases accepted
    · exact hfa
    · exact hfa
    · exact hs
    · exact hins r todo (by rw [hph]; rfl)
  | awaitingRemoval r =>
    dsimp only
    split
    · exact hstr r (by rw [hph]; rfl)
    · exact hs
  | awaiting r =>
    have hr : s.engine.phase.rekey? = some r := by rw [hph]; rfl
    dsimp only
    split
    · split
      · exact hend r hr
      · exact hs
    · split
      · exact hstr r hr
      · exact hs
  | activating r posted todo accepted =>
    cases ok <;> cases accepted
    · exact hfa
    · exact hfa
    · exact hs
    · exact hnx r posted todo hph

theorem fire_rule (wall : ℕ) (timer : Timer) (hs : P s)
    (ht : ∀ debounce renew runRetry removalDebounce, P { s with
      engine := { s.engine with debounce, renew, runRetry, removalDebounce } })
    (hrun : ∀ s, P s → P (startRun s wall)) (hren : ∀ s, P s → P (schedule s .renewal 0))
    (hrmv : ∀ seq, P (removalDeadline s seq))
    (hrt : ∀ previous retirements, P { s with
      engine := { s.engine with retirements }
      worker := s.worker.each (·.retire previous) })
    (hrty : ∀ id, P { s with courier := s.courier.retryDue s.context id }) :
    P (fire s wall timer) := by
  cases timer with
  | debounce =>
    simp only [fire]
    split
    · exact hrun _ (ht none _ _ false)
    · exact hs
  | renew =>
    simp only [fire]
    split
    · exact hren _ (ht _ _ _ _)
    · exact hs
  | runRetry =>
    simp only [fire]
    split
    · exact hrun _ (ht _ _ none _)
    · exact hs
  | removal seq => exact hrmv seq
  | retirement =>
    simp only [fire]
    split
    · split
      · exact hrt _ _
      · exact hs
    · exact hs
  | retry id => exact hrty id

/-! ## Retiring epochs -/

theorem each_retireEpoch_shrinks (w : Worker) (epoch : ℕ) (pid : Pid) :
    (w pid).Shrinks (w.each (·.retireEpoch epoch) pid) :=
  (w pid).retireEpoch_shrinks epoch

theorem foldl_retireEpoch_shrinks (l : List Activation) (w : Worker) (pid : Pid) :
    (w pid).Shrinks (l.foldl (fun w a => w.each (·.retireEpoch a.epoch)) w pid) := by
  induction l generalizing w with
  | nil => exact Ring.Shrinks.refl _
  | cons a l ih => exact (each_retireEpoch_shrinks w a.epoch pid).trans (ih _)

theorem foldl_retireEpoch_not_holds {l : List Activation} {a : Activation} (ha : a ∈ l) (w : Worker)
    (pid : Pid) : ¬ (l.foldl (fun w a => w.each (·.retireEpoch a.epoch)) w pid).Holds a.epoch := by
  induction l generalizing w with
  | nil => exact absurd ha not_mem_nil
  | cons b l ih =>
    rcases mem_cons.mp ha with rfl | ha
    · exact fun h => (w pid).retireEpoch_not_holds a.epoch
        ((foldl_retireEpoch_shrinks l _ pid).holds _ h)
    · exact ih ha _

/-! ## The invariant -/

/-- The part of a page that decides what the worker encrypts under. -/
structure Core where
  worker : Worker
  self : Option Self
  roster : List Entry
  recipients : List Recipient
  recipientKey : List DeviceID
  pendingRemovals : List Removal
  seq : ℕ
  paused : Bool
  activating : List Activation
  activeEpoch : ℕ
  phase : Phase
  issues : List Issue
  issued : ℕ
  clock : ℕ
  departed : List Departed
  announced : Bool

def Page.core (s : Page) : Core where
  worker := s.worker
  self := s.engine.self
  roster := s.engine.roster
  recipients := s.engine.recipients
  recipientKey := s.engine.recipientKey
  pendingRemovals := s.engine.pendingRemovals
  seq := s.engine.seq
  paused := s.engine.paused
  activating := s.engine.activating
  activeEpoch := s.engine.activeEpoch
  phase := s.engine.phase
  issues := s.issues
  issued := s.issued
  clock := s.clock
  departed := s.departed
  announced := s.announced

namespace Core

/-- The epoch was given out by the rekey at place `n` of the order. -/
def Created (c : Core) (epoch n : ℕ) : Prop :=
  ∃ i ∈ c.issues, i.epoch = epoch ∧ i.created = n

/-- No epoch that a slot may encrypt under was created before place `n`. -/
def ClearFrom (c : Core) (n : ℕ) : Prop :=
  (c.paused = true ∨ c.activeEpoch = 0 ∨ ∃ m, n ≤ m ∧ c.Created c.activeEpoch m) ∧
    ∀ a ∈ c.activating, n ≤ a.created

/-- The rekey in flight was not created before place `n`. -/
def RekeyFrom (c : Core) (n : ℕ) : Prop :=
  ∀ m, c.phase.created? = some m → n ≤ m

/-- The activation of `r`, with the slots of `done` behind it: either it is still registered, or its
keys are gone from every sender slot. -/
def Switching (c : Core) (r : Rekey) (done : Slot → Prop) : Prop :=
  (⟨r.epoch, r.created⟩ ∈ c.activating ∨ ∀ slot, ¬ (c.worker (.sender slot)).Holds r.epoch) ∧
    ∀ slot, done slot → c.worker.active slot = 0 ∨ c.worker.active slot = r.epoch

/-- No rekey has got as far as a recipient snapshot. -/
def Unstarted (c : Core) : Prop :=
  c.activeEpoch = 0 ∧ c.activating = [] ∧ c.phase = .idle

end Core

/-- The invariant behind the removal bound. -/
structure Guarded (c : Core) : Prop where
  /-- A slot encrypts under the active epoch, unless paused, or under one being activated. -/
  live : ∀ slot, c.worker.active slot ≠ 0 →
    (c.worker.active slot = c.activeEpoch ∧ c.paused = false) ∨
      ∃ a ∈ c.activating, a.epoch = c.worker.active slot
  started : ∀ a ∈ c.activating, c.Created a.epoch a.created ∧ a.epoch ≤ c.issued
  derived : ∀ d head, c.phase = .ratcheting d head → d.previous = c.issued
  numbered : ∀ r, c.phase.rekey? = some r → c.Created r.epoch r.created ∧ r.epoch = c.issued
  switching : ∀ r posted todo accepted, c.phase = .activating r posted todo accepted →
    c.Switching r fun slot => slot ∉ todo ∧ (slot = posted → accepted = true)
  /-- A removal past its deadline finds nothing older than itself. -/
  due : ∀ q ∈ c.pendingRemovals, q.due = true → c.ClearFrom q.seq
  timely : ∀ q ∈ c.pendingRemovals, q.due = false → c.clock ≤ q.deadline
  departed_le : ∀ d ∈ c.departed, d.seq ≤ c.seq
  /-- A recipient that left is excluded already, or its removal is pending. -/
  cover : ∀ d ∈ c.departed, (c.ClearFrom (d.seq + 1) ∧ c.RekeyFrom (d.seq + 1)) ∨
    ∃ q ∈ c.pendingRemovals, q.seq = d.seq + 1 ∧ q.deadline ≤ d.time + removalBoundMs
  synced : ∀ self, c.self = some self → c.Unstarted ∨
    recipientIDs (recipientsOf c.roster self) ⊆ recipientIDs c.recipients
  recorded : ∀ self, c.self = some self → c.recipientKey =
    if c.announced then recipientIDs (recipientsOf c.roster self) else []
  stopped : c.self = none → c.Unstarted ∧ c.recipientKey = [] ∧ c.announced = false

/-- What is said of the session of an engine. -/
theorem forall_self {o : Option Self} {self : Self} {P : Self → Prop} (hsf : o = some self)
    (h : P self) : ∀ self', o = some self' → P self' := by
  rintro self' rfl
  exact some.inj hsf ▸ h

/-- Recipients that are recorded, once there was one. -/
theorem recorded_eq (announced : Bool) (ids : List DeviceID) :
    ids = if announced || !ids.isEmpty then ids else [] := by
  cases ids <;> simp

namespace Guarded

variable {c : Core}

/-- Under the invariant, a place in the order that is clear is clear at every slot. -/
theorem clear_active (h : Guarded c) {n : ℕ} (hn : c.ClearFrom n) (slot : Slot)
    (hsl : c.worker.active slot ≠ 0) : ∃ m, n ≤ m ∧ c.Created (c.worker.active slot) m := by
  rcases h.live slot hsl with ⟨he, hp⟩ | ⟨a, ha, he⟩
  · rcases hn.1 with hp' | h0 | ⟨m, hm, hc⟩
    · simp [hp] at hp'
    · exact absurd (he.trans h0) hsl
    · exact ⟨m, hm, he ▸ hc⟩
  · exact ⟨a.created, hn.2 a ha, he ▸ (h.started a ha).1⟩

variable {w : Worker} {r : Rekey} {self : Self}

section

variable (h : Guarded c)

include h

/-- A worker that holds and encrypts less is as safe. -/
theorem shrink (hw : ∀ pid, (c.worker pid).Shrinks (w pid)) : Guarded { c with worker := w } :=
  { h with
    live := by
      intro slot hsl
      rcases (hw (.sender slot)).active with he | h0
      · rw [show w.active slot = c.worker.active slot from he] at hsl ⊢
        exact h.live slot hsl
      · exact absurd h0 hsl
    switching := by
      intro r posted todo accepted hp
      obtain ⟨hreg, hb⟩ := h.switching r posted todo accepted hp
      refine ⟨hreg.imp_right fun hno slot hhd => ?_, fun slot hdn => ?_⟩
      · exact hno slot ((hw (.sender slot)).holds _ hhd)
      rcases (hw (.sender slot)).active with he | h0
      · rw [show w.active slot = c.worker.active slot from he]
        exact hb slot hdn
      · exact .inl h0 }

/-! ## Phases -/

theorem idle : Guarded { c with phase := .idle } :=
  { h with
    derived := by simp
    numbered := by simp [Phase.rekey?]
    switching := by simp
    cover := fun d hd => (h.cover d hd).imp_left fun ⟨hc, _⟩ =>
      ⟨hc, by simp [Core.RekeyFrom, Phase.created?, Phase.rekey?]⟩
    synced := fun self hsf => (h.synced self hsf).imp_left fun hu => ⟨hu.1, hu.2.1, rfl⟩
    stopped := fun hsf =>
      have hu := h.stopped hsf
      ⟨⟨hu.1.1, hu.1.2.1, rfl⟩, hu.2⟩ }

/-! ## A rekey begins -/

omit h in
/-- The place in the order and the recipient snapshot are taken. -/
theorem snapshot (h : Guarded { c with phase := .idle }) (hsf : c.self = some self) :
    Guarded { c with
      seq := c.seq + 1
      recipients := recipientsOf c.roster self
      phase := .idle } :=
  { h with
    departed_le := fun d hd => Nat.le_succ_of_le (h.departed_le d hd)
    synced := forall_self hsf (.inr fun _ h => h) }

section

variable (hsf : c.self = some self)
  (hsy : recipientIDs (recipientsOf c.roster self) ⊆ recipientIDs c.recipients)

include hsf hsy

/-- A ratchet's keys are to be derived. -/
theorem derive {d : Draft} {head : Material} (hpr : d.previous = c.issued)
    (hl : ∀ q ∈ c.departed, q.seq + 1 ≤ d.created) :
    Guarded { c with phase := .ratcheting d head } :=
  { h with
    derived := by
      rintro d' head' hd
      obtain ⟨rfl, -⟩ := Phase.ratcheting.inj hd
      exact hpr
    numbered := by simp [Phase.rekey?]
    switching := by simp
    cover := fun q hq => (h.cover q hq).imp_left fun ⟨hc, _⟩ =>
      ⟨hc, fun m hm => some.inj hm ▸ hl q hq⟩
    synced := forall_self hsf (.inr hsy)
    stopped := by simp [hsf] }

/-- The epoch gets its number. -/
theorem issue {i : Issue} (hi : i.epoch = r.epoch ∧ i.created = r.created)
    (hle : c.issued ≤ r.epoch)
    (hl : ∀ d ∈ c.departed, c.RekeyFrom (d.seq + 1) → d.seq + 1 ≤ r.created) :
    Guarded { c with phase := .digesting r, issued := r.epoch, issues := i :: c.issues } := by
  have hmn : ∀ {e n}, c.Created e n → ∃ j ∈ i :: c.issues, j.epoch = e ∧ j.created = n :=
    fun ⟨j, hj, hjn⟩ => ⟨j, mem_cons_of_mem _ hj, hjn⟩
  have hclr : ∀ {n}, c.ClearFrom n → Core.ClearFrom
      { c with phase := .digesting r, issued := r.epoch, issues := i :: c.issues } n :=
    fun hc => ⟨hc.1.imp_right (Or.imp_right fun ⟨m, hm, hcr⟩ => ⟨m, hm, hmn hcr⟩), hc.2⟩
  exact {
    h with
    started := fun a ha => ⟨hmn (h.started a ha).1, (h.started a ha).2.trans hle⟩
    derived := by simp
    numbered := by
      intro q hq
      obtain rfl : r = q := some.inj hq
      exact ⟨⟨i, mem_cons_self, hi⟩, rfl⟩
    switching := by simp
    due := fun q hq hd => hclr (h.due q hq hd)
    cover := fun d hd => (h.cover d hd).imp_left fun ⟨hc, hfr⟩ =>
      ⟨hclr hc, fun m hm => some.inj hm ▸ hl d hd hfr⟩
    synced := forall_self hsf (.inr hsy)
    stopped := by simp [hsf] }

end

/-! ## A rekey goes on -/

variable (hr : c.phase.rekey? = some r)

include hr

/-- A rekey in flight shows that the engine runs and has taken a snapshot. -/
theorem started_of_rekey : ¬ c.Unstarted ∧ c.self ≠ none := by
  have hne : ¬ c.Unstarted := fun hu => by simp [hu.2.2, Phase.rekey?] at hr
  exact ⟨hne, fun hsf => hne (h.stopped hsf).1⟩

theorem synced_of_rekey {unstarted : Prop} (self : Self) (hsf : c.self = some self) :
    unstarted ∨ recipientIDs (recipientsOf c.roster self) ⊆ recipientIDs c.recipients :=
  .inr ((h.synced self hsf).resolve_left (h.started_of_rekey hr).1)

/-- The rekey in flight goes on to its next wait. -/
theorem proceed (hp : p.rekey? = some r)
    (hs : ∀ posted todo accepted, p = .activating r posted todo accepted →
      c.Switching r fun slot => slot ∉ todo ∧ (slot = posted → accepted = true)) :
    Guarded { c with phase := p } :=
  { h with
    derived := by
      rintro d head rfl
      simp [Phase.rekey?] at hp
    numbered := by
      intro q hq
      obtain rfl : r = q := some.inj (hp.symm.trans hq)
      exact h.numbered r hr
    switching := by
      rintro q posted todo accepted rfl
      obtain rfl : q = r := some.inj hp
      exact hs posted todo accepted rfl
    cover := fun d hd => (h.cover d hd).imp_left fun ⟨hc, hfr⟩ => by
      refine ⟨hc, fun m hm => hfr m ?_⟩
      rw [Phase.created?_of_rekey? hr, ← Phase.created?_of_rekey? hp]
      exact hm
    synced := h.synced_of_rekey hr
    stopped := (absurd · (h.started_of_rekey hr).2) }

/-! ## Activation -/

/-- An activation is registered. -/
theorem push (hdue : ∀ q ∈ c.pendingRemovals, q.due = true → q.seq ≤ r.created) :
    Guarded { c with activating := c.activating ++ [⟨r.epoch, r.created⟩] } := by
  have hclr : ∀ {n}, c.ClearFrom n → n ≤ r.created → Core.ClearFrom
      { c with activating := c.activating ++ [⟨r.epoch, r.created⟩] } n := by
    intro n hc hn
    exact ⟨hc.1, forall_mem_append.mpr ⟨hc.2, forall_mem_singleton.mpr hn⟩⟩
  exact {
    h with
    live := fun slot hsl => (h.live slot hsl).imp_right fun ⟨a, ha, he⟩ =>
      ⟨a, mem_append_left _ ha, he⟩
    started := forall_mem_append.mpr ⟨h.started,
      forall_mem_singleton.mpr ⟨(h.numbered r hr).1, (h.numbered r hr).2.le⟩⟩
    switching := fun q posted todo accepted hq =>
      have hs := h.switching q posted todo accepted hq
      ⟨hs.1.imp_left (mem_append_left _), hs.2⟩
    due := fun q hq hd => hclr (h.due q hq hd) (hdue q hq hd)
    cover := fun d hd => (h.cover d hd).imp_left fun ⟨hc, hfr⟩ =>
      ⟨hclr hc (hfr _ (Phase.created?_of_rekey? hr)), hfr⟩
    synced := h.synced_of_rekey hr
    stopped := (absurd · (h.started_of_rekey hr).2) }

/-- A slot is told to switch. A worker that accepts has the keys, so the activation is
registered. -/
theorem post_activate {slot : Slot} {todo : List Slot}
    (hs : c.Switching r fun s => s ∉ slot :: todo) (lost : Bool) :
    Guarded { c with
      worker := (c.worker.post lost (.sender slot) (·.activate r.epoch)).1
      phase := .activating r slot todo
        (c.worker.post lost (.sender slot) (·.activate r.epoch)).2 } := by
  rcases c.worker.post_cases lost (.sender slot) (·.activate r.epoch) with hps | ⟨g, hg, hps⟩
  · -- Rejected: nothing changes, and the slot is not behind the activation.
    rw [hps]
    refine h.proceed hr rfl ?_
    intro posted todo' accepted hp
    obtain ⟨-, rfl, rfl, rfl⟩ := Phase.activating.inj hp
    refine ⟨hs.1, ?_⟩
    rintro s ⟨hst, hssl⟩
    refine hs.2 s fun hmem => ?_
    rcases mem_cons.mp hmem with rfl | hmem
    · exact absurd (hssl rfl) (by simp)
    · exact hst hmem
  · obtain ⟨hhd, hact, -⟩ := Ring.activate_eq_some hg
    have hreg : ⟨r.epoch, r.created⟩ ∈ c.activating := hs.1.resolve_right fun hno => hno slot hhd
    have hac : ∀ s, Worker.active (Function.update c.worker (.sender slot) g) s =
        if s = slot then r.epoch else c.worker.active s := by
      intro s
      by_cases hss : s = slot
      · subst hss
        simp [Worker.active, hact]
      · simp [Worker.active, hss]
    rw [hps]
    have hwt := h.proceed hr (p := .digesting r) rfl (by simp)
    exact {
      hwt with
      live := by
        intro s hs0
        rw [hac] at hs0 ⊢
        split
        · exact .inr ⟨_, hreg, rfl⟩
        · rename_i hss
          rw [if_neg hss] at hs0
          exact h.live s hs0
      derived := by simp
      switching := by
        intro q posted todo' accepted hp
        obtain ⟨rfl, rfl, rfl, rfl⟩ := Phase.activating.inj hp
        refine ⟨.inl hreg, ?_⟩
        rintro s ⟨hst, -⟩
        rw [hac]
        split
        · exact .inr rfl
        · rename_i hss
          exact hs.2 s (by simp [hss, hst])
      synced := h.synced_of_rekey hr
      stopped := (absurd · (h.started_of_rekey hr).2) }

/-- Every slot has switched. If a removal the epoch does not cover is past its deadline, the epoch
is retired at once; the removals it covers are settled. -/
theorem complete (hs : c.Switching r fun _ => True) {uncovered : Bool}
    (hun : uncovered = c.pendingRemovals.any fun q => q.due && r.created < q.seq)
    (hw : w = if uncovered then c.worker.each (·.retireEpoch r.epoch) else c.worker) :
    Guarded { c with
      worker := w
      activating := c.activating.filter (r.epoch < ·.epoch)
      activeEpoch := r.epoch
      paused := uncovered
      pendingRemovals := c.pendingRemovals.filter (r.created < ·.seq)
      phase := .idle } := by
  obtain ⟨hcre, hiss⟩ := h.numbered r hr
  have hnn : ∀ a ∈ c.activating.filter (r.epoch < ·.epoch), False := by
    intro a ha
    obtain ⟨ha, hlt⟩ := mem_filter.mp ha
    have hlt : r.epoch < a.epoch := of_decide_eq_true hlt
    have := (h.started a ha).2
    omega
  exact {
    h.idle with
    live := by
      intro slot hsl
      left
      subst hw
      cases hunc : uncovered with
      | true =>
        -- Whatever the slot encrypted under was this epoch, which is retired.
        simp only [hunc, if_true] at hsl
        rcases (Ring.retireEpoch_shrinks (c.worker (.sender slot)) r.epoch).active with he | h0
        · rcases hs.2 slot trivial with h0 | hr0
          · exact absurd (he.trans h0) hsl
          · exact absurd ((he.trans hr0).trans (Ring.retireEpoch_active (he.trans hr0))) hsl
        · exact absurd h0 hsl
      | false =>
        simp only [hunc, Bool.false_eq_true, if_false] at hsl
        exact ⟨(hs.2 slot trivial).resolve_left hsl, rfl⟩
    started := fun a ha => absurd ha (hnn a)
    switching := by simp
    due := by
      intro q hq hd
      obtain ⟨hq, hlt⟩ := mem_filter.mp hq
      refine ⟨.inl ?_, fun a ha => absurd ha (hnn a)⟩
      rw [hun]
      exact any_eq_true.mpr ⟨q, hq, by simp [hd, of_decide_eq_true hlt]⟩
    timely := fun q hq hd => h.timely q (mem_filter.mp hq).1 hd
    cover := by
      intro d hd
      have hidl : ∀ m, Phase.idle.created? = some m → d.seq + 1 ≤ m := by
        simp [Phase.created?, Phase.rekey?]
      refine Or.imp_left (fun hle : d.seq + 1 ≤ r.created => ⟨⟨.inr (.inr ⟨_, hle, hcre⟩),
        fun a ha => absurd ha (hnn a)⟩, hidl⟩) ?_
      rcases h.cover d hd with ⟨-, hfr⟩ | ⟨q, hq, hseq, hdl⟩
      · exact .inl (hfr _ (Phase.created?_of_rekey? hr))
      · by_cases hlt : r.created < q.seq
        · exact .inr ⟨q, mem_filter.mpr ⟨hq, decide_eq_true hlt⟩, hseq, hdl⟩
        · exact .inl (by omega)
    synced := h.synced_of_rekey hr
    stopped := (absurd · (h.started_of_rekey hr).2) }

omit hr

/-! ## The deadline of a removal -/

/-- At the deadline of the removal `seq` everything older that may be encrypted under is retired. -/
theorem deadline {seq : ℕ} {paused : Bool} (hw : ∀ pid, (c.worker pid).Shrinks (w pid))
    (hold : ∀ a ∈ c.activating, a.created < seq → ∀ slot, ¬ (w (.sender slot)).Holds a.epoch)
    (hpa : paused = true ∨ c.activeEpoch = 0)
    (hkp : ∀ slot, w.active slot ≠ 0 → w.active slot = c.activeEpoch → c.paused = false →
      paused = false) :
    Guarded { c with
      worker := w
      paused := paused
      activating := c.activating.filter (seq ≤ ·.created)
      pendingRemovals := c.pendingRemovals.map fun q =>
        if q.seq = seq then { q with due := true } else q } := by
  have hsub : ∀ a, a ∈ c.activating.filter (seq ≤ ·.created) ↔ a ∈ c.activating ∧ seq ≤
    a.created := by
    simp [mem_filter]
  have hac : ∀ n, paused = true ∨ c.activeEpoch = 0 ∨
      ∃ k, n ≤ k ∧ c.Created c.activeEpoch k := fun n => hpa.imp_right .inl
  have hshr := h.shrink hw
  exact {
    hshr with
    live := by
      intro slot hsl
      rcases hshr.live slot hsl with ⟨he, hp⟩ | ⟨a, ha, he⟩
      · exact .inl ⟨he, hkp slot hsl he hp⟩
      refine .inr ⟨a, (hsub a).mpr ⟨ha, not_lt.mp fun hlt => ?_⟩, he⟩
      -- An older activation's keys are gone, so no slot encrypts under it.
      refine hold a ha hlt slot ?_
      rw [he]
      exact (w (.sender slot)).active_held.resolve_left hsl
    started := fun a ha => h.started a ((hsub a).mp ha).1
    switching := by
      intro r posted todo accepted hp
      obtain ⟨hreg, hb⟩ := hshr.switching r posted todo accepted hp
      refine ⟨?_, hb⟩
      rcases hreg with hreg | hno
      · by_cases hlt : r.created < seq
        · exact .inr (hold _ hreg hlt)
        · exact .inl ((hsub _).mpr ⟨hreg, not_lt.mp hlt⟩)
      · exact .inr hno
    due := by
      intro q hq hd
      obtain ⟨p, hp, rfl⟩ := mem_map.mp hq
      refine ⟨hac _, fun a ha => ?_⟩
      obtain ⟨ha, hle⟩ := (hsub a).mp ha
      by_cases hseq : p.seq = seq
      · simpa [hseq] using hle
      · simp only [hseq, if_false] at hd ⊢
        exact (h.due p hp hd).2 a ha
    timely := by
      intro q hq hd
      obtain ⟨p, hp, rfl⟩ := mem_map.mp hq
      by_cases hseq : p.seq = seq
      · simp [hseq] at hd
      · simp only [hseq, if_false] at hd ⊢
        exact h.timely p hp hd
    cover := by
      intro d hd
      rcases h.cover d hd with ⟨hc, hfr⟩ | ⟨q, hq, hseq, hdl⟩
      · exact .inl ⟨⟨hac _, fun a ha => hc.2 a ((hsub a).mp ha).1⟩, hfr⟩
      · refine .inr ⟨_, mem_map.mpr ⟨q, hq, rfl⟩, ?_⟩
        split <;> exact ⟨hseq, hdl⟩
    synced := fun self hsf => (h.synced self hsf).imp_left fun hu =>
      ⟨hu.1, by simp [hu.2.1], hu.2.2⟩
    stopped := fun hsf =>
      have hu := h.stopped hsf
      ⟨⟨hu.1.1, by simp [hu.1.2.1], hu.1.2.2⟩, hu.2⟩ }

/-! ## Roster updates -/

/-- A removal is noted. -/
theorem note : Guarded { c with
    seq := c.seq + 1
    pendingRemovals := c.pendingRemovals ++ [⟨c.seq + 1, false, c.clock + removalBoundMs⟩]
    phase := c.phase.interrupt } := by
  have hrat : ∀ {d head}, c.phase.interrupt = .ratcheting d head →
    c.phase = .ratcheting d head := by
    cases c.phase <;> simp [Phase.interrupt]
  have hactv : ∀ {r posted todo accepted}, c.phase.interrupt = .activating r posted todo accepted →
        c.phase = .activating r posted todo accepted := by
    cases c.phase <;> simp [Phase.interrupt]
  have hidl : c.phase = .idle → c.phase.interrupt = .idle := fun hp => by rw [hp]; rfl
  exact {
    h with
    derived := fun d head hp => h.derived d head (hrat hp)
    numbered := fun r hr => h.numbered r (by simpa using hr)
    switching := fun r posted todo accepted hp => h.switching r posted todo accepted (hactv hp)
    due := forall_mem_append.mpr ⟨h.due, by simp⟩
    timely := forall_mem_append.mpr ⟨h.timely, by simp⟩
    departed_le := fun d hd => Nat.le_succ_of_le (h.departed_le d hd)
    cover := fun d hd => (h.cover d hd).imp
      (fun ⟨hc, hfr⟩ => ⟨hc, fun m hm => hfr m (by simpa using hm)⟩)
      (fun ⟨q, hq, hrs⟩ => ⟨q, mem_append_left _ hq, hrs⟩)
    synced := fun self hsf => (h.synced self hsf).imp_left fun hu =>
      ⟨hu.1, hu.2.1, hidl hu.2.2⟩
    stopped := fun hsf =>
      have hu := h.stopped hsf
      ⟨⟨hu.1.1, hu.1.2.1, hidl hu.1.2.2⟩, hu.2⟩ }

variable {departed : List Departed}

/-- The recipients of a new roster are recorded. Whoever left by it must be covered. -/
theorem record (hsf : c.self = some self) (roster : List Entry)
    (hdep : ∀ d ∈ departed, d ∈ c.departed ∨ d.seq ≤ c.seq ∧
      ((c.ClearFrom (d.seq + 1) ∧ c.RekeyFrom (d.seq + 1)) ∨
        ∃ q ∈ c.pendingRemovals, q.seq = d.seq + 1 ∧ q.deadline ≤ d.time + removalBoundMs)) :
    Guarded { c with
      roster := roster
      recipients := recipientsOf roster self
      recipientKey := recipientIDs (recipientsOf roster self)
      departed := departed
      announced := c.announced || !(recipientIDs (recipientsOf roster self)).isEmpty } :=
  { h with
    departed_le := fun d hd => (hdep d hd).elim (h.departed_le d) fun hnew => hnew.1
    cover := fun d hd => (hdep d hd).elim (h.cover d) fun hnew => hnew.2
    synced := forall_self hsf (.inr fun _ h => h)
    recorded := forall_self hsf (recorded_eq _ _)
    stopped := by simp [hsf] }

/-- A roster with the recorded recipients changes nothing else. -/
theorem unchanged (hsf : c.self = some self) {roster : List Entry}
    (hkey : recipientIDs (recipientsOf roster self) = c.recipientKey)
    (hdep : ∀ d ∈ departed, d ∈ c.departed) :
    Guarded { c with
      roster := roster
      departed := departed
      announced := c.announced || !(recipientIDs (recipientsOf roster self)).isEmpty } := by
  have hrec := h.recorded self hsf
  exact {
    h with
    departed_le := fun d hd => h.departed_le d (hdep d hd)
    cover := fun d hd => h.cover d (hdep d hd)
    synced := by
      refine forall_self hsf ((h.synced self hsf).imp_right fun hsub => ?_)
      rw [hkey, hrec]
      split
      · exact hsub
      · exact nil_subset _
    recorded := forall_self hsf (hkey ▸ recorded_eq _ _)
    stopped := by simp [hsf] }

end

end Guarded

end Noxa.Media

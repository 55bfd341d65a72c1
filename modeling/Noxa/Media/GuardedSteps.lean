import Noxa.Media.Guarded

/-!
# Every step keeps the invariant

The functions of the engine, one by one, keep `Guarded`. Only a roster update needs an assumption:
the session stays visible, and a roster that takes away devices which were sent keys either leaves a
recipient or comes after one, since the start, that had a recipient. Without it `setRoster` compares
the empty list with a recorded key that was never set, and notes no removal.

## Main definitions

* `staysVisible`, `announces` — the two assumptions on a step

## Main results

* `next_guarded` — every step that meets the assumptions keeps the invariant
* `noteless_of_not_announces` — a step that does not announce notes no removal
-/

namespace Noxa.Media

open List

/-! ## What the functions do to the core -/

@[simp]
theorem schedule_core (s : Page) (reason : Reason) (delay : ℕ) :
    (schedule s reason delay).core = s.core := by
  unfold schedule
  dsimp only
  split
  · rfl
  · split <;> split <;> rfl

@[simp]
theorem failRekey_core (s : Page) : (failRekey s).core = { s.core with phase := .idle } := by
  unfold failRekey
  dsimp only
  split <;> rfl

@[simp]
theorem withdraw_core (s : Page) (r : Rekey) (preempted : Bool) : (withdraw s r preempted).core =
      { s.core with worker := s.worker.each (·.retireEpoch r.epoch) } := by
  unfold withdraw
  dsimp only
  split <;> rfl

/-! ## A rekey -/

variable {self : Self} {s : Page}

section

variable (hsf : s.engine.self = some self) (h : Guarded { s.core with phase := .idle }) (wall : ℕ)

include hsf h

theorem beginEpoch_guarded : Guarded (beginEpoch s wall self).core := by
  have hsna := h.snapshot hsf
  have hlat : ∀ q ∈ s.departed, q.seq + 1 ≤ s.engine.seq + 1 := fun q hq =>
    Nat.succ_le_succ (h.departed_le q hq)
  unfold beginEpoch
  dsimp only
  split
  · rename_i head hhd
    refine hsna.derive (d := draft s self) hsf (fun _ h => h) ?_ hlat
    unfold ratchetHead at hhd
    dsimp only at hhd
    split at hhd
    · rename_i hcn
      exact hcn.2.2.2.2.2.symm
    · cases hhd
  · refine hsna.issue (r := ⟨draft s self, none, _, _, _⟩) (i := ⟨_, _, _, _, _⟩) hsf
      (fun _ h => h) ⟨rfl, rfl⟩ ?_ fun q hq _ => hlat q hq
    simp only [Option.isSome_none, Bool.false_eq_true, if_false, Page.core, takePlace]
    omega

theorem beginRekey_guarded : Guarded (beginRekey s wall).core := by
  simp only [beginRekey, hsf]
  split
  · -- The session is invisible: only the place in the order is taken.
    exact { h with departed_le := fun d hd => Nat.le_succ_of_le (h.departed_le d hd) }
  · exact beginEpoch_guarded hsf h wall

theorem endRekey_guarded : Guarded (endRekey s wall).core := by
  unfold endRekey
  split
  · exact beginRekey_guarded hsf h wall
  · exact h

end

theorem startRun_guarded (h : Guarded s.core) (wall : ℕ) : Guarded (startRun s wall).core := by
  unfold startRun
  split
  · cases hsf : s.engine.self with
    | none => simpa [beginRekey, hsf] using h
    | some => exact beginRekey_guarded hsf h.idle wall
  · exact h

section InFlight

variable {s : Page} {r : Rekey}

section

variable (h : Guarded s.core) (hr : s.engine.phase.rekey? = some r)

include h hr

/-- An engine with a rekey in flight runs. -/
theorem self_of_rekey : ∃ self, s.engine.self = some self :=
  Option.ne_none_iff_exists'.mp (h.started_of_rekey hr).2

/-- A rekey ends by withdrawing its epoch. -/
theorem endRekey_withdraw
    (preempted : Bool) (wall : ℕ) : Guarded (endRekey (withdraw s r preempted) wall).core := by
  obtain ⟨self, hsf⟩ := self_of_rekey h hr
  refine endRekey_guarded ((congrArg Core.self (withdraw_core s r preempted)).trans hsf) ?_ wall
  rw [withdraw_core]
  exact (h.shrink (each_retireEpoch_shrinks s.worker r.epoch)).idle

theorem activated_guarded
    (hs : s.core.Switching r fun _ => True) (wall : ℕ) : Guarded (activated s wall r).core := by
  obtain ⟨self, hsf⟩ := self_of_rekey h hr
  refine endRekey_guarded (?_ : _ = some self) ?_ wall
  · exact hsf
  · exact h.complete hr hs rfl rfl

variable (wall : ℕ) (lost : Bool)

theorem activateNext_guarded {todo : List Slot} (hs : s.core.Switching r fun slot => slot ∉ todo) :
    Guarded (activateNext s wall lost r todo).core := by
  cases todo with
  | nil => exact activated_guarded h hr ⟨hs.1, fun slot _ => hs.2 slot not_mem_nil⟩ wall
  | cons slot todo => exact h.post_activate hr hs lost

theorem startActivation_guarded : Guarded (startActivation s wall lost r).core := by
  unfold startActivation
  split
  · obtain ⟨_, hsf⟩ := self_of_rekey h hr
    exact endRekey_guarded hsf h.idle wall
  split
  · exact endRekey_withdraw h hr false wall
  rename_i hdue
  refine activateNext_guarded ?_ ?_ wall lost ⟨.inl ?_, ?_⟩
  · refine h.push hr ?_
    intro q hq hd
    by_contra hlt
    exact hdue (any_eq_true.mpr ⟨q, hq, by simpa [hd] using hlt⟩)
  · exact hr
  · exact mem_append_right _ (mem_singleton_self _)
  · exact fun slot hsl => absurd (mem_slots slot) hsl

theorem installed_guarded : Guarded (installed s wall lost r).core := by
  unfold installed
  dsimp only
  -- The distribution is not part of the core.
  generalize Courier.distribute _ _ _ _ _ = courier
  have hpg : Guarded (Page.core { s with
    engine := { s.engine with epoch := r.epoch, kid := r.kid }, courier }) := h
  split
  · split
    · exact endRekey_withdraw hpg hr true wall
    · exact startActivation_guarded hpg hr wall lost
  split
  · exact h.proceed hr rfl (by simp)
  split
  · exact endRekey_withdraw hpg hr true wall
  · exact h.proceed hr rfl (by simp)

theorem installNext_guarded (todo : List Pid) : Guarded (installNext s wall lost r todo).core := by
  cases todo with
  | nil => exact installed_guarded h hr wall lost
  | cons pid todo =>
    have hwt := h.proceed hr (p := .digesting r) rfl (by simp)
    rcases s.worker.post_cases lost pid (·.key ⟨r.epoch, r.kid, r.keys⟩) with hps | ⟨g, hg, hps⟩
    · simp only [installNext, hps]
      exact h.proceed hr rfl (by simp)
    simp only [installNext, hps]
    have hact : ∀ slot, Worker.active (Function.update s.worker pid g) slot =
        s.worker.active slot ∨ Worker.active (Function.update s.worker pid g) slot = 0 := by
      intro slot
      by_cases hp : Pid.sender slot = pid
      · subst hp
        simpa [Worker.active] using (Ring.key_eq_some hg).1
      · simp [Worker.active, hp]
    exact {
      hwt with
      live := fun slot hsl => by
        rcases hact slot with he | h0
        · dsimp only [Page.core] at hsl ⊢
          rw [he] at hsl ⊢
          exact h.live slot hsl
        · exact absurd h0 hsl
      derived := by simp [Page.core]
      switching := by simp [Page.core]
      synced := h.synced_of_rekey hr
      stopped := (absurd · (h.started_of_rekey hr).2) }

end

end InFlight

variable {s : Page}

section

variable (h : Guarded s.core)

include h

theorem resume_guarded (wall : ℕ) (lost ok : Bool) : Guarded (resume s wall lost ok).core := by
  refine resume_rule (P := fun s => Guarded s.core) wall lost ok h ?_ (fun d head hph => ?_)
    (fun r todo hr => installNext_guarded h hr wall lost todo)
    (fun r hr => startActivation_guarded h hr wall lost)
    (fun r hr => endRekey_withdraw h hr true wall) fun r posted todo hph => ?_
  · simpa using h.idle
  · have hne : ¬ s.core.Unstarted := fun hu => by
      have := hu.2.2
      simp [Page.core, hph] at this
    obtain ⟨self, hsf⟩ : ∃ self, s.engine.self = some self :=
      Option.ne_none_iff_exists'.mp fun hno => hne (h.stopped hno).1
    refine h.issue hsf ((h.synced self hsf).resolve_left hne) ⟨rfl, rfl⟩ ?_
      fun q _ hfr => hfr d.created ?_
    · dsimp only [Page.core]
      split
      · have hprv : d.previous = s.issued := h.derived d head hph
        omega
      · omega
    · simp [Page.core, hph, Phase.created?]
  · obtain ⟨hreg, hbeh⟩ := h.switching r posted todo true hph
    exact activateNext_guarded h (by rw [hph]; rfl) wall lost
      ⟨hreg, fun slot hsl => hbeh slot ⟨hsl, fun _ => rfl⟩⟩

/-! ## Calls and timers -/

theorem removalDeadline_guarded (seq : ℕ) : Guarded (removalDeadline s seq).core := by
  unfold removalDeadline
  dsimp only
  split
  · have hshr := foldl_retireEpoch_shrinks (s.engine.activating.filter (·.created < seq)) s.worker
    have hold : ∀ a ∈ s.engine.activating, a.created < seq → ∀ slot, ¬ Ring.Holds
        ((s.engine.activating.filter (·.created < seq)).foldl
          (fun w a => w.each (·.retireEpoch a.epoch)) s.worker (.sender slot)) a.epoch :=
      fun a ha hlt slot => foldl_retireEpoch_not_holds
        (mem_filter.mpr ⟨ha, decide_eq_true hlt⟩) s.worker (.sender slot)
    split
    · rename_i hqt
      exact h.deadline hshr hold hqt.1.symm fun _ _ _ hp => hp
    split
    · -- The active epoch is retired with the older activations.
      refine h.deadline (fun pid => (hshr pid).trans (each_retireEpoch_shrinks _ _ pid))
        (fun a ha hlt slot hhl => hold a ha hlt slot
          ((each_retireEpoch_shrinks _ s.engine.activeEpoch (.sender slot)).holds _ hhl))
        (.inl rfl) fun slot h0 he _ => ?_
      exact absurd (he.trans (Ring.retireEpoch_active he)) h0
    · rename_i hidl
      refine h.deadline hshr hold (.inl rfl) fun slot h0 he hp => ?_
      refine absurd ⟨fun hz => h0 (he.trans hz), ?_⟩ hidl
      exact fun hp' => by simp [Page.core, hp'] at hp
  · exact h

theorem start_guarded (channelID : Int) (clientID : String) :
    Guarded (start s channelID clientID).core := by
  unfold start
  split
  · exact h
  rename_i hstr
  have hsf : s.engine.self = none := by
    simpa using fun hs => hstr (.inl hs)
  obtain ⟨hun, hk, hann⟩ := h.stopped hsf
  rw [schedule_core]
  exact {
    h with
    synced := fun _ _ => .inl hun
    recorded := fun _ _ => by
      rw [show s.announced = false from hann]
      exact hk
    stopped := fun hno => absurd hno (by simp [Page.core]) }

omit h in
/-- A worker that has forgotten its keys, with an engine that has done nothing. -/
theorem guarded_stopped (s : Page) : Guarded (Page.core { s with
    engine := {}, worker := s.worker.each Ring.forget, departed := [], announced := false }) := by
  constructor
  case live => exact fun _ hsl => absurd rfl hsl
  case stopped => exact fun _ => ⟨⟨rfl, rfl, rfl⟩, rfl, rfl⟩
  all_goals simp [Page.core, Phase.rekey?]

theorem stop_guarded : Guarded (stop s).core := by
  unfold stop
  split
  · exact h
  · exact guarded_stopped s

theorem advance_guarded (time : ℕ) : Guarded (advance s time).core := by
  unfold advance
  split
  · rename_i hadv
    refine { h with timely := fun q hq hd => hadv.2 _ ?_ }
    simp only [deadlines, mem_append, mem_map, mem_filter]
    exact .inl (.inl (.inl (.inr ⟨q, ⟨hq, by simpa using hd⟩, rfl⟩)))
  · exact h

theorem receive_guarded (p : Publisher) : Guarded (receive s p).core := by
  unfold receive
  cases s.engine.self with
  | none => exact h
  | some =>
    dsimp only
    -- A control is bound to the roster or not; either way only the publishers change.
    split <;> split <;> exact h

theorem fire_guarded (wall : ℕ) (timer : Timer) : Guarded (fire s wall timer).core :=
  fire_rule (P := fun s => Guarded s.core) wall timer h (fun _ _ _ _ => h)
    (fun _ h => startRun_guarded h wall) (fun s h => (schedule_core s .renewal 0).symm ▸ h)
    (removalDeadline_guarded h)
    (fun previous _ => h.shrink fun pid => (s.worker pid).retire_shrinks previous) fun _ => h

/-! ## Roster updates -/

/-- The local session stays visible. -/
def staysVisible (s : Page) (i : Input) : Bool :=
  match i.event, s.engine.self with
  | .setRoster roster, some self => !isInvisible roster self
  | _, _ => true

/-- A roster that takes away devices which were sent keys leaves a recipient, or comes after one
since the start that had a recipient. -/
def announces (s : Page) (i : Input) : Bool :=
  match i.event, s.engine.self with
  | .setRoster roster, some self =>
    (departing s self roster).isEmpty || !(recipientsOf roster self).isEmpty || s.announced
  | _, _ => true

variable {roster : List Entry} {self : Self}

omit h in
theorem mem_departing {id : DeviceID} (h : id ∈ departing s self roster) :
    id ∈ recipientIDs (recipientsOf s.engine.roster self) ∧
      id ∉ recipientIDs (recipientsOf roster self) := by
  simp only [departing, mem_filter, Bool.and_eq_true, decide_eq_true_eq] at h
  exact ⟨h.1, h.2.1⟩

/-- A roster with the recorded recipients takes nobody away, if it announces. -/
theorem departing_eq_nil (hsf : s.engine.self = some self)
    (hk : recipientIDs (recipientsOf roster self) = s.engine.recipientKey)
    (hann : departing s self roster = [] ∨ recipientsOf roster self ≠ [] ∨ s.announced = true) :
    departing s self roster = [] := by
  have hrec : s.engine.recipientKey =
      if s.announced then recipientIDs (recipientsOf s.engine.roster self) else [] :=
    h.recorded self hsf
  cases hs : s.announced with
  | true =>
    rw [hs, if_pos rfl] at hrec
    refine eq_nil_iff_forall_not_mem.mpr fun id hid => ?_
    obtain ⟨hold, hn⟩ := mem_departing hid
    exact hn ((hk.trans hrec) ▸ hold)
  | false =>
    rw [hs, if_neg (by simp)] at hrec
    have hemp : recipientsOf roster self = [] := map_eq_nil_iff.mp (hk.trans hrec)
    simpa [hs, hemp] using hann

/-- Whoever leaves while the recipients change is covered by the removal that is noted. -/
theorem updateRecipients_guarded (hsf : s.engine.self = some self)
    (hann : departing s self roster = [] ∨ recipientsOf roster self ≠ [] ∨ s.announced = true) :
    Guarded (updateRecipients
      { noteRoster s self roster with
        engine := { (noteRoster s self roster).engine with roster } } self).core := by
  unfold updateRecipients
  dsimp only [noteRoster]
  split
  · rename_i hk
    refine h.unchanged hsf hk ?_
    rw [departing_eq_nil h hsf hk hann]
    intro d hd
    simp only [map_nil, append_nil, mem_filter] at hd
    exact hd.1
  · split
    · rename_i hrmv
      rw [schedule_core]
      refine h.note.record hsf roster ?_
      intro d hd
      rcases mem_append.mp hd with hd | hd
      · exact .inl (mem_filter.mp hd).1
      · obtain ⟨id, -, rfl⟩ := mem_map.mp hd
        exact .inr ⟨Nat.le_succ _, .inr ⟨_, mem_append_right _ (mem_singleton_self _),
          rfl, le_rfl⟩⟩
    · rename_i hrmv
      rw [schedule_core]
      refine h.record hsf roster ?_
      intro d hd
      rcases mem_append.mp hd with hd | hd
      · exact .inl (mem_filter.mp hd).1
      -- Nobody the engine knows of has left, so it has not taken a snapshot yet.
      obtain ⟨id, hid, rfl⟩ := mem_map.mp hd
      obtain ⟨hold, hn⟩ := mem_departing hid
      refine .inr ⟨le_rfl, .inl ?_⟩
      rcases h.synced self hsf with ⟨hact, hac, hph⟩ | hsub
      · refine ⟨⟨.inr (.inl hact), fun a ha => ?_⟩, fun m hm => ?_⟩
        · rw [hac] at ha
          exact absurd ha not_mem_nil
        · rw [hph] at hm
          simp [Phase.created?, Phase.rekey?] at hm
      · obtain ⟨q, hq, rfl⟩ := mem_map.mp (hsub hold)
        exact absurd (any_eq_true.mpr ⟨q, hq, by simpa using hn⟩) hrmv

end

/-- Every step that meets the assumptions keeps the invariant. -/
theorem next_guarded {i : Input} (hvis : staysVisible s i = true)
    (hann : announces s i = true) (h : Guarded s.core) : Guarded (next s i).core := by
  unfold next
  cases hevt : i.event with
  | setRoster roster =>
    unfold setRoster
    cases hsf : s.engine.self with
    | none =>
      exact {
        h with
        synced := fun self hs => absurd (hsf.symm.trans hs) (by simp)
        recorded := fun self hs => absurd (hsf.symm.trans hs) (by simp) }
    | some self =>
      have hvs : isInvisible roster self = false := by
        simpa [staysVisible, hevt, hsf] using hvis
      dsimp only
      rw [if_neg (by simp [hvs])]
      refine updateRecipients_guarded h hsf ?_
      simpa [announces, hevt, hsf, or_assoc] using hann
  | start channelID clientID => exact start_guarded h channelID clientID
  | stop => exact stop_guarded h
  | publicationsChanged =>
    rw [schedule_core]
    exact h
  | receive p => exact receive_guarded h p
  | advance time => exact advance_guarded h time
  | fire timer => exact fire_guarded h i.wall timer
  | resume ok => exact resume_guarded h i.wall i.lost ok
  | settled => exact h

/-- A roster update that does not announce notes no removal and schedules nothing. -/
theorem noteless_of_not_announces (h : Guarded s.core) (hsf : s.engine.self = some self)
    (hann : announces s ⟨.setRoster roster, 0, false⟩ = false) :
    (setRoster s roster).engine.pendingRemovals = s.engine.pendingRemovals ∧
      (setRoster s roster).engine.debounce = s.engine.debounce := by
  simp only [announces, hsf, Bool.or_eq_false_iff, Bool.not_eq_false', List.isEmpty_iff] at hann
  obtain ⟨⟨-, hemp⟩, hnot⟩ := hann
  have hk : s.engine.recipientKey = [] := by
    have hrec := h.recorded self hsf
    simpa [Page.core, hnot] using hrec
  unfold setRoster
  simp only [hsf]
  split
  · exact ⟨rfl, rfl⟩
  unfold updateRecipients
  dsimp only [noteRoster]
  rw [if_pos (by rw [hemp, hk]; rfl)]
  exact ⟨rfl, rfl⟩

end Noxa.Media

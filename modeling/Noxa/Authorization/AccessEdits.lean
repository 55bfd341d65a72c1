import Noxa.Authorization.ChannelEdits

/-!
# Access edits are local

Setting the access of a channel changes decisions in that channel and in the channels that follow
it through an unbroken chain of synced parents, and nowhere else. `ImpactDescendants`
(`internal/authorization/impact_scope.go`) reports those below the edited channel in which the
actor may manage access. The guard of the edit wants that right wherever the effective overrides
change, so the report misses no channel an accepted edit touches.

The loop of `ImpactDescendants` asks its context before each channel; the answers enter as a
function of the round. It ranges over a map, and sorts what it found, so the order of the rounds
does not show in the result.

## Main definitions

* `syncedFrom`, `impactDescendants` — the operations
* `SyncedFrom` — the chain of synced parents as a relation

## Main results

* `syncedFrom_iff` — the loop decides the relation
* `access_edits_local` — where decisions can change
-/

namespace Noxa.Authorization

open Capability RoleEvaluator List

/-! ### The operations -/

/-- Why there is no report. -/
inductive ImpactError (ε : Type)
  | forbidden
  | context (err : ε)

namespace RoleEvaluator

variable (e : RoleEvaluator)

/-- Follow `synced` from a channel until `sourceID` is met. The natural number bounds the loop. -/
def syncedFromWithin (sourceID : Int) : ℕ → Int → Bool
  | 0, _ => false
  | n + 1, channelID =>
    if channelID = sourceID then true
    else
      match e.channels.lookup channelID with
      | none => false
      | some ch =>
        if ¬ ch.synced ∨ ch.parentID = 0 then false else syncedFromWithin sourceID n ch.parentID

/-- Whether a channel takes its access from another. -/
def syncedFrom (channelID sourceID : Int) : Bool :=
  e.syncedFromWithin sourceID (e.channels.keys.length + 1) channelID

/-- Whether a channel belongs into the report. -/
def impacted (actorID sourceID channelID : Int) : Bool :=
  channelID ≠ sourceID ∧ e.syncedFrom channelID sourceID ∧
    (e.evaluate actorID channelID manageChannelAccess).allowed

/-- The loop over the channels; `ctxErr` answers for the context, round by round. -/
def impactLoop {ε : Type} (ctxErr : ℕ → Option ε) (actorID sourceID : Int) :
    ℕ → List Int → List Int → Except (ImpactError ε) (List Int)
  | _, ids, [] => .ok ids
  | round, ids, id :: rest =>
    match ctxErr round with
    | some err => .error (.context err)
    | none =>
      impactLoop ctxErr actorID sourceID (round + 1)
        (if e.impacted actorID sourceID id then ids ++ [id] else ids) rest

/-- The managed channels whose entire path inherits from `sourceID`. -/
def impactDescendants {ε : Type} (ctxErr : ℕ → Option ε) (actorID sourceID : Int) :
    Except (ImpactError ε) (List Int) :=
  if actorID < 1 ∨ sourceID < 1 ∨
      ¬ (e.evaluate actorID sourceID manageChannelAccess).allowed then .error .forbidden
  else
    (e.impactLoop ctxErr actorID sourceID 0 [] e.channels.keys).map (insertionSort (· ≤ ·))

end RoleEvaluator

variable {p p' draft : RolePolicy} {e e' : RoleEvaluator} {actorID : Int}

/-! ### The chain of synced parents -/

/-- The channel reaches `sourceID` through an unbroken chain of synced parents. -/
inductive SyncedFrom (e : RoleEvaluator) (sourceID : Int) : Int → Prop
  | source : SyncedFrom e sourceID sourceID
  | follows {id : Int} {ch : ChannelPolicy} (hch : e.channels.lookup id = some ch)
      (hsy : ch.synced = true) (hp : ch.parentID ≠ 0)
      (rest : SyncedFrom e sourceID ch.parentID) : SyncedFrom e sourceID id

variable {sourceID id : Int} {ids : List Int}

theorem SyncedFrom.of_within {n : ℕ} (hn : e.syncedFromWithin sourceID n id = true) :
    SyncedFrom e sourceID id := by
  induction n generalizing id with
  | zero => simp [syncedFromWithin] at hn
  | succ n ih =>
    rw [syncedFromWithin] at hn
    split at hn
    · rename_i heq
      exact heq ▸ .source
    split at hn
    · simp at hn
    rename_i ch hch
    split at hn
    · simp at hn
    · rename_i hgo
      push Not at hgo
      exact .follows hch hgo.1 hgo.2 (ih hn)

theorem SyncedFrom.within {n : ℕ} (hs : SyncedFrom e sourceID id)
    (hn : Chain.EndsWithin (parent? e.channels) n id) :
    e.syncedFromWithin sourceID (n + 1) id = true := by
  induction n generalizing id with
  | zero =>
    cases hs with
    | source => simp [syncedFromWithin]
    | follows hch =>
      have hno : parent? e.channels id = none := hn
      rw [parent?_eq_some.mpr ⟨_, hch, rfl⟩] at hno
      simp at hno
  | succ n ih =>
    rw [syncedFromWithin]
    split
    · rfl
    rename_i hne
    cases hs with
    | source => exact absurd rfl hne
    | follows hch hsy hp rest =>
      have hgo : ¬ (¬ _ = true ∨ _) := not_or.mpr ⟨not_not.mpr hsy, hp⟩
      simp only [hch, if_neg hgo]
      exact ih rest (hn _ (parent?_eq_some.mpr ⟨_, hch, rfl⟩))

/-- The loop stops before its bound, with the right answer. -/
theorem syncedFrom_iff (h : Indexed p e) :
    e.syncedFrom id sourceID = true ↔ SyncedFrom e sourceID id := by
  refine ⟨SyncedFrom.of_within, fun hs => hs.within ?_⟩
  by_cases hid : id ∈ e.channels
  · exact (h.rooted id hid).endsWithin h.lookup_zero
  have hsp : Chain.EndsWithin (parent? e.channels) 0 id := by
    show parent? e.channels id = none
    rw [parent?, AList.lookup_eq_none.mpr hid]
    rfl
  exact hsp.mono (Nat.zero_le _)

/-! ### The report -/

variable {ε : Type} {ctxErr : ℕ → Option ε}

theorem impactLoop_ok {round : ℕ} {order out : List Int}
    (hl : e.impactLoop ctxErr actorID sourceID round ids order = .ok out) :
    out = ids ++ order.filter (e.impacted actorID sourceID) := by
  induction order generalizing round ids with
  | nil =>
    cases hl
    simp
  | cons id rest ih =>
    rw [impactLoop] at hl
    split at hl
    · simp at hl
    rw [ih hl]
    by_cases hin : e.impacted actorID sourceID id = true
    · rw [if_pos hin, filter_cons_of_pos hin, append_assoc]
      rfl
    · rw [if_neg hin, filter_cons_of_neg hin]

theorem impactLoop_isOk (hctx : ∀ i, ctxErr i = none) {round : ℕ}
    {order : List Int} : ∃ out, e.impactLoop ctxErr actorID sourceID round ids order = .ok out := by
  induction order generalizing round ids with
  | nil => exact ⟨ids, rfl⟩
  | cons id rest ih =>
    rw [impactLoop, hctx round]
    exact ih

/-- What a report lists. -/
theorem mem_impactDescendants
    (hr : e.impactDescendants ctxErr actorID sourceID = .ok ids) (d : Int) :
    d ∈ ids ↔ d ∈ e.channels ∧ d ≠ sourceID ∧ e.syncedFrom d sourceID = true ∧
      (e.evaluate actorID d manageChannelAccess).allowed = true := by
  rw [impactDescendants] at hr
  split at hr
  · simp at hr
  obtain ⟨out, hl, rfl⟩ := Fallible.map_eq_ok.mp hr
  rw [mem_insertionSort, impactLoop_ok hl, nil_append, mem_filter, ← AList.mem_keys]
  simp [impacted]

theorem impactDescendants_isOk (hctx : ∀ i, ctxErr i = none)
    (hac : 1 ≤ actorID) (hsrc : 1 ≤ sourceID)
    (hmng : (e.evaluate actorID sourceID manageChannelAccess).allowed = true) :
    ∃ ids, e.impactDescendants ctxErr actorID sourceID = .ok ids := by
  obtain ⟨out, hout⟩ := impactLoop_isOk (e := e) hctx
  rw [impactDescendants, if_neg (by simp [hmng]; omega), hout]
  exact ⟨_, rfl⟩

/-! ### Where decisions can change -/

/-- A channel other than the edited one keeps its entry. -/
theorem mem_afterAccess {change : RoleChange} {old ch : ChannelPolicy}
    (hchs : p'.channels = p.channels.map (channelAfterAccess change old))
    (hch : ch ∈ p.channels) (hne : ch.channelID ≠ old.channelID) : ch ∈ p'.channels := by
  rw [hchs]
  refine mem_map.mpr ⟨ch, hch, ?_⟩
  rw [channelAfterAccess, if_neg hne]

section AccessSet

variable {change : RoleChange} {old : ChannelPolicy} (h : Indexed p e) (h' : Indexed p' e')
  (hchs : p'.channels = p.channels.map (channelAfterAccess change old))

include h h' hchs

/-- A channel that does not follow the edited one keeps its effective overrides. -/
theorem effectiveOverrides_afterAccess {id : Int} (hid : id ∈ e.channels)
    (hfe : ¬ SyncedFrom e old.channelID id) :
    e'.effectiveOverrides id = e.effectiveOverrides id := by
  refine h.tree_induction (P := fun id => ¬ SyncedFrom e old.channelID id →
    e'.effectiveOverrides id = e.effectiveOverrides id) ?_ hid hfe
  intro ch hch ih hfe
  have hne : ch.channelID ≠ old.channelID := fun heq => hfe (heq ▸ .source)
  refine effectiveOverrides_congr h h' hch (mem_afterAccess hchs hch hne)
    fun hsy hp => ih hp fun hs => ?_
  exact hfe (.follows (h.channels.lookup_eq hch) hsy hp hs)

/-- The edit neither creates nor cuts a chain that leads to the edited channel. -/
theorem syncedFrom_afterAccess (hid : old.channelID = change.channel.channelID)
    (hold : old ∈ p.channels) (d : Int) :
    e'.syncedFrom d old.channelID = e.syncedFrom d old.channelID := by
  rw [Bool.eq_iff_iff, syncedFrom_iff h, syncedFrom_iff h']
  constructor
  · intro hs
    induction hs with
    | source => exact .source
    | @follows id ch' hlk hsy hp _ ih =>
      by_cases heq : id = old.channelID
      · exact heq ▸ .source
      obtain ⟨_, hm, rfl, rfl⟩ := (h'.channels.lookup_iff _ _).mp hlk
      rw [hchs] at hm
      obtain ⟨ch, hch, rfl⟩ := mem_map.mp hm
      have hne : ch.channelID ≠ old.channelID := by
        rw [← (channelAfterAccess_kept h hold hid hch).1]
        exact heq
      have hent : channelAfterAccess change old ch = ch := by
        rw [channelAfterAccess, if_neg hne]
      rw [hent] at hsy hp ih ⊢
      exact .follows (h.channels.lookup_eq hch) hsy hp ih
  · intro hs
    induction hs with
    | source => exact .source
    | @follows id ch hlk hsy hp _ ih =>
      by_cases heq : id = old.channelID
      · exact heq ▸ .source
      · obtain ⟨ch, hch, rfl, rfl⟩ := (h.channels.lookup_iff _ _).mp hlk
        exact .follows (h'.channels.lookup_eq (mem_afterAccess hchs hch heq)) hsy hp ih

/-- A decision that changes was about a channel that follows the edited one, and in that channel
the overrides changed as a set. -/
theorem changed_of_ne (hid : old.channelID = change.channel.channelID) (hold : old ∈ p.channels)
    {u s : Int} {k : Capability} (hs : SameRoles e e' u)
    (hne : (e'.evaluate u s k).allowed ≠ (e.evaluate u s k).allowed) :
    s ∈ e.channels ∧ SyncedFrom e old.channelID s ∧
      ∃ o, ¬ (o ∈ e.effectiveOverrides s ↔ o ∈ e'.effectiveOverrides s) := by
  have hkt := fun ch (hch : ch ∈ p.channels) => channelAfterAccess_kept h hold hid hch
  have hiff : s ∈ e'.channels ↔ s ∈ e.channels := mem_channels_map h h' hchs hkt
  have hsc : s = 0 ∨ s ∈ e.channels := by
    by_contra hout
    exact hne (allowed_eq_of_unknown h h' hiff hout k)
  -- with the same overrides the decisions would agree
  have hdf : ∃ o, ¬ (o ∈ e.effectiveOverrides s ↔ o ∈ e'.effectiveOverrides s) := by
    by_contra hsm
    push Not at hsm
    exact hne (hs.allowed_eq h h' (hsc.imp_right fun hin => ⟨hin, hiff.mpr hin⟩)
      (systemKind_eq h h' hchs hkt hsc) hsm k)
  obtain ⟨o, ho⟩ := hdf
  have hin : s ∈ e.channels := by
    refine hsc.resolve_left ?_
    rintro rfl
    rw [h.effectiveOverrides_zero, h'.effectiveOverrides_zero] at ho
    exact ho Iff.rfl
  refine ⟨hin, ?_, o, ho⟩
  by_contra hfe
  rw [effectiveOverrides_afterAccess h h' hchs hin hfe] at ho
  exact ho Iff.rfl

end AccessSet

/-- The guard wants the right to manage access wherever the overrides change as a set. -/
theorem manages_of_authorized {c : RoleEvaluator} {s : Int} {o : RoleOverride}
    (hown : actorID ≠ e.policy.ownerID) (hau : authorizeChangedChannelAccess e c actorID = true)
    (hs : s ∈ c.channels) (ho : ¬ (o ∈ e.effectiveOverrides s ↔ o ∈ c.effectiveOverrides s)) :
    (e.evaluate actorID s manageChannelAccess).allowed = true := by
  rw [authorizeChangedChannelAccess, if_neg hown] at hau
  have hth := all_eq_true.mp hau s hs
  have hne : ¬ (actorID = e.policy.ownerID ∨ e.effectiveOverrides s = c.effectiveOverrides s) := by
    rintro (heq | heq)
    · exact hown heq
    · exact ho (by rw [heq])
  rw [authorizeOverrideChanges, if_neg hne] at hth
  have hm : o ∈ e.effectiveOverrides s ++ c.effectiveOverrides s := by
    rw [mem_append]
    tauto
  have hone := all_eq_true.mp hth o hm
  have hbt : ¬ (o ∈ e.effectiveOverrides s ∧ o ∈ c.effectiveOverrides s) := by tauto
  simp only [hbt, false_or, decide_eq_true_eq] at hone
  exact hone.1

/-- The owner may manage access in every channel. -/
theorem owner_manages (h : Indexed p e) {s : Int} (hs : s ∈ e.channels) :
    (e.evaluate p.ownerID s manageChannelAccess).allowed = true := by
  have hex : e.Exempt p.ownerID := .inl (by rw [h.policy])
  obtain ⟨ch, hch, rfl⟩ := h.mem_channels.mp hs
  have hpos := (h.channel ch hch).id_pos
  have how := h.owner_pos
  rw [evaluate_exempt_iff hex, scopeAdmits_iff]
  exact ⟨⟨manageChannelAccess, true, [viewChannel]⟩, by decide, by omega, by omega, fun _ => rfl,
    .inr hs, fun _ => by decide⟩

/-- What an access edit of the channel `sourceID` by `actorID` can change. -/
structure AccessEditLocal (e e' : RoleEvaluator) (actorID sourceID : Int) : Prop where
  /-- A decision that changes is about the channel or about one that follows it. -/
  decisions : ∀ u s k, (e'.evaluate u s k).allowed ≠ (e.evaluate u s k).allowed →
    s = sourceID ∨ e.syncedFrom s sourceID = true
  /-- The channels that follow it are the same before and after. -/
  followers : ∀ d, e'.syncedFrom d sourceID = e.syncedFrom d sourceID
  server : ∀ u k, (e'.evaluate u 0 k).allowed = (e.evaluate u 0 k).allowed
  /-- There is a report on the channel unless the context ends first. -/
  reported : ∀ {ε : Type} {ctxErr : ℕ → Option ε}, (∀ i, ctxErr i = none) →
    ∃ ids, e.impactDescendants ctxErr actorID sourceID = .ok ids
  /-- The report lists the followers in which the actor may manage access. -/
  listed : ∀ {ε : Type} {ctxErr : ℕ → Option ε} {ids : List Int},
    e.impactDescendants ctxErr actorID sourceID = .ok ids → ∀ d, d ∈ ids ↔ d ∈ e.channels ∧
      d ≠ sourceID ∧ e.syncedFrom d sourceID = true ∧
      (e.evaluate actorID d manageChannelAccess).allowed = true
  /-- No decision changes outside the channel and the report. -/
  covered : ∀ {ε : Type} {ctxErr : ℕ → Option ε} {ids : List Int},
    e.impactDescendants ctxErr actorID sourceID = .ok ids → ∀ u s k,
      (e'.evaluate u s k).allowed ≠ (e.evaluate u s k).allowed → s = sourceID ∨ s ∈ ids

/-- **Access edits stay local.** An accepted access edit changes decisions only in the edited
channel and in channels that follow it, and the report the actor could have asked for lists all of
the latter. -/
theorem access_edits_local [PngDecoder] {p p' : RolePolicy} {actorID : Int} {change : RoleChange}
    (hkd : change.kind = .channelAccessSet)
    (hchg : applyRoleChange p actorID change = .ok p') :
    ∃ e e', newRoleEvaluator p = .ok e ∧ newRoleEvaluator p' = .ok e' ∧
      AccessEditLocal e e' actorID change.channel.channelID := by
  obtain ⟨e, draft, e', he, hac, hd, rfl, he'⟩ := applyRoleChange_ok hchg
  have h := newRoleEvaluator_ok he
  have h' := newRoleEvaluator_ok he'
  rw [draftRoleChange, hkd] at hd
  obtain ⟨old, c, hold, hid, hmng, rfl, hc, hau⟩ := draftChannelAccessSet_ok h hd
  have hci := newRoleEvaluator_ok hc
  have hs : ∀ u, SameRoles e e' u := fun u =>
    sameRoles_of_mem h h' rfl rfl rfl fun _ => mem_savedPolicy_roles.mpr
  have hchd : ∀ {u s k}, (e'.evaluate u s k).allowed ≠ (e.evaluate u s k).allowed →
      s ∈ e.channels ∧ SyncedFrom e old.channelID s ∧
        ∃ o, ¬ (o ∈ e.effectiveOverrides s ↔ o ∈ e'.effectiveOverrides s) :=
    fun {u _ _} hne => changed_of_ne h h' rfl hid hold (hs u) hne
  rw [← hid]
  refine ⟨e, e', he, he', ?_⟩
  constructor
  case decisions =>
    exact fun u s k hne => .inr ((syncedFrom_iff h).mpr (hchd hne).2.1)
  case followers => exact syncedFrom_afterAccess h h' rfl hid hold
  case server =>
    intro u k
    by_contra hne
    have hz := (hchd hne).1
    rw [← AList.lookup_isSome, h.lookup_zero] at hz
    simp at hz
  case reported =>
    exact fun hctx => impactDescendants_isOk hctx hac (h.channel old hold).id_pos hmng
  case listed => exact fun hi => mem_impactDescendants hi
  case covered =>
    intro ε ctxErr ids hi u s k hne
    obtain ⟨hin, hfr, o, ho⟩ := hchd hne
    have hal : (e.evaluate actorID s manageChannelAccess).allowed = true := by
      by_cases hown : actorID = e.policy.ownerID
      · rw [hown, h.policy]
        exact owner_manages h hin
      have hinc : s ∈ c.channels := (mem_channels_map h hci rfl fun ch hch =>
        channelAfterAccess_kept h hold hid hch).mpr hin
      rw [effectiveOverrides_eq hci h' (fun ch hch => hch) hinc] at ho
      exact manages_of_authorized hown hau hinc ho
    by_cases hsf : s = old.channelID
    · exact .inl hsf
    · exact .inr ((mem_impactDescendants hi s).mpr ⟨hin, hsf, (syncedFrom_iff h).mpr hfr, hal⟩)

/-- An administrator opens a channel that another one follows. -/
theorem access_edits_local_opened :
    let := PngDecoder.none
    let change : RoleChange :=
      { kind := .channelAccessSet, expectedRevision := 1, channel := ⟨"", 100, 0, false, []⟩ }
    ∃ p', applyRoleChange roleFixture 4 change = .ok p' ∧
      ∃ e e', newRoleEvaluator roleFixture = .ok e ∧ newRoleEvaluator p' = .ok e' ∧
        AccessEditLocal e e' 4 change.channel.channelID := by
  let := PngDecoder.none
  obtain ⟨p', hp'⟩ := Fallible.exists_ok (show (applyRoleChange roleFixture 4
      { kind := .channelAccessSet, expectedRevision := 1,
        channel := ⟨"", 100, 0, false, []⟩ }).isOk = true by decide +kernel)
  exact ⟨p', hp', access_edits_local rfl hp'⟩

end Noxa.Authorization

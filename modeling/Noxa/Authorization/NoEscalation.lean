import Noxa.Authorization.ChannelEdits

/-!
# No self-escalation

An actor other than the owner cannot use an accepted change to allow itself anything: neither a
role change nor a channel tree change makes `Evaluate` allow the actor a capability, in a scope
that was there before, that it did not allow before. A channel the actor creates is no exception:
outside a `home` channel it allows the actor only what the parent scope did.

The proof takes the kinds of change one by one. Most of them leave the actor's roles or the
channels alone (`NoGain.of_base`, `evaluate_le_of_overrides`). The two that need an argument are
updating a role the actor may hold, where every added capability was already granted to the
actor, and deleting such a role, where the lost overrides may have been denials.

## Main results

* `no_self_escalation` — the statement for every change
-/

namespace Noxa.Authorization

open Capability List

variable {p p' draft : RolePolicy} {e e' : RoleEvaluator} {actorID : Int}

/-- What the actor gains from a change: nothing in the scopes that stay, and in a new channel
outside a `home` channel nothing beyond the parent scope. -/
structure NothingGained (e e' : RoleEvaluator) (channels' : List ChannelPolicy) (actorID : Int) :
    Prop where
  kept : NoGain e e' actorID
  created : ∀ ch ∈ channels', ch.channelID ∉ e.channels →
    (e.channelOf ch.parentID).systemKind ≠ "home" → ∀ k,
      (e'.evaluate actorID ch.channelID k).allowed = true →
      (e.evaluate actorID ch.parentID k).allowed = true

theorem nothingGained_of_map (h : Indexed p e) (hkt : NoGain e e' actorID)
    {g : ChannelPolicy → ChannelPolicy} {channels' : List ChannelPolicy}
    (hchs : channels' = p.channels.map g)
    (hg : ∀ ch ∈ p.channels, (g ch).channelID = ch.channelID) :
    NothingGained e e' channels' actorID := by
  refine ⟨hkt, fun ch hch hnew => absurd ?_ hnew⟩
  rw [hchs] at hch
  obtain ⟨x, hx, rfl⟩ := mem_map.mp hch
  rw [hg x hx]
  exact h.mem_channels.mpr ⟨x, hx, rfl⟩

theorem nothingGained_roleChange [PngDecoder] {change : RoleChange} (h : Indexed p e)
    (h' : Indexed (savedPolicy draft) e') (ho : actorID ≠ p.ownerID)
    (hd : draftRoleChange e p actorID change = .ok draft) :
    NothingGained e e' draft.channels actorID := by
  have hsm : ∀ channels', channels' = p.channels → NoGain e e' actorID →
      NothingGained e e' channels' actorID := fun channels' heq hkt =>
    nothingGained_of_map (g := id) h hkt (by simpa using heq) (fun _ _ => rfl)
  rw [draftRoleChange] at hd
  split at hd
  · refine hsm _ ?_ (noGain_roleCreate h h' hd)
    obtain ⟨_, -, -, -, -, rfl⟩ := draftRoleCreate_ok hd
    rfl
  · refine hsm _ ?_ (noGain_roleUpdate h h' ho hd)
    obtain ⟨old, r, -, -, -, -, -, -, -, rfl⟩ := draftRoleUpdate_ok h ho hd
    rfl
  · have hkt := noGain_roleDelete h h' ho hd
    obtain ⟨rfl, -⟩ := draftRoleDelete_ok h ho hd
    exact nothingGained_of_map (g := ChannelPolicy.without change.roleID) h hkt rfl
      fun _ _ => rfl
  · refine hsm _ ?_ (noGain_rolesReorder h h' hd)
    obtain ⟨-, _, -, rfl⟩ := draftRolesReorder_ok hd
    rfl
  · refine hsm _ ?_ (noGain_memberRolesSet h h' hd)
    obtain ⟨-, rfl, -⟩ := draftMemberRolesSet_ok hd
    rfl
  · rw [draftOwnerTransfer, if_pos ho] at hd
    simp at hd
  · rw [draftDefaultMemberRoleSet, if_pos ho] at hd
    simp at hd
  · obtain ⟨old, c, hold, hid, -, rfl, hc, hau⟩ := draftChannelAccessSet_ok h hd
    have hg := fun ch (hch : ch ∈ p.channels) => channelAfterAccess_kept h hold hid hch
    have hs : SameRoles e e' actorID :=
      sameRoles_of_mem h h' rfl rfl rfl fun _ => mem_savedPolicy_roles.mpr
    exact nothingGained_of_map h
      (noGain_of_authorized h (newRoleEvaluator_ok hc) h' ho hs rfl rfl hg hau) rfl
      fun ch hch => (hg ch hch).1
  · simp at hd

section

variable [PngDecoder] {change : ChannelTreeChange} {revision : Int} (h : Indexed p e)
  (h' : Indexed { draft with revision := revision } e') (hac : 1 ≤ actorID)
  (ho : actorID ≠ p.ownerID)

include h h' hac ho

/-- A new channel allows the actor only what the parent scope did. -/
theorem nothingGained_channelCreate (hd : draftChannelCreate e p actorID change = .ok draft) :
    NothingGained e e' draft.channels actorID := by
  obtain ⟨hkd, hnew, hid, hpid, hpar, rfl, c, hc, hau⟩ := draftChannelCreate_ok h hd
  have hci := newRoleEvaluator_ok hc
  have how : actorID ≠ e.policy.ownerID := by rw [h.policy]; exact ho
  have hs : SameRoles e e' actorID := sameRoles_of_mem h h' rfl rfl rfl fun _ => id
  have hold : ∀ {s}, s = 0 ∨ s ∈ e.channels → e'.channelOf s = e.channelOf s ∧
      e'.effectiveOverrides s = e.effectiveOverrides s :=
    scope_eq_of_subset h h' fun ch hch => mem_append_left _ hch
  constructor
  · intro s hsc k hk
    obtain ⟨hcha, hovr⟩ := hold (hsc.imp_right And.left)
    exact evaluate_le_of_overrides h h' hs (fun k => .inl (scopeDecision_eq hsc (by rw [hcha])))
      (fun k => .inr fun o _ => by rw [hovr]) hk
  · intro ch hch hchn hhm k hk
    have hm : change.access ∈ p.channels ++ [change.access] :=
      mem_append_right _ (mem_singleton_self _)
    obtain rfl : ch = change.access := by
      rcases mem_append.mp hch with hin | hla
      · exact absurd (h.mem_channels.mpr ⟨ch, hin, rfl⟩) hchn
      · exact mem_singleton.mp hla
    rw [hpid] at hhm ⊢
    have hpos := (h'.channel _ hm).id_pos
    have hin' : change.access.channelID ∈ e'.channels := h'.mem_channels.mpr ⟨_, hm, rfl⟩
    have hpn : 0 ≤ change.parentID := hpid ▸ (h'.channel _ hm).parent_nonneg
    refine evaluate_le_of_overrides h h' hs (fun k => ?_) (fun k => ?_) hk
    · -- both scopes leave a channel capability open, and a channel refuses any other
      have hpln : (e'.channelOf change.access.channelID).systemKind ≠ "home" := by
        rw [h'.channelOf_eq hm, hkd]
        decide
      have hnt : ¬ (actorID < 0 ∨ change.access.channelID < 0) := by omega
      have hno : ¬ (actorID < 0 ∨ change.parentID < 0) := by omega
      simp only [RoleEvaluator.scopeDecision]
      cases hinf : capabilityInfo k with
      | none => exact .inl rfl
      | some info =>
        by_cases hchan : info.channel = true
        · left
          have hmem' : ¬ (change.access.channelID ≠ 0 ∧ change.access.channelID ∉ e'.channels) :=
            fun hn => hn.2 hin'
          have hpm : ¬ (change.parentID ≠ 0 ∧ change.parentID ∉ e.channels) := by tauto
          simp only [hchan, not_true_eq_false, and_false, if_false, if_neg hnt, if_neg hno,
            if_neg hmem', if_neg hpm, if_neg hpln, if_neg hhm]
        · right
          refine ⟨.invalidScope, ?_⟩
          simp only [if_neg hnt]
          rw [if_pos ⟨by omega, hchan⟩]
    · rcases hau with hsy | hau
      · right
        intro o _
        by_cases hp0 : change.parentID = 0
        · have hls : e'.effectiveOverrides change.access.channelID = [] := by
            rw [h'.effectiveOverrides_own hm (by rw [hpid]; tauto)]
            exact (h'.channel _ hm).synced hsy
          rw [hls, hp0, h.effectiveOverrides_zero]
        · rw [h'.effectiveOverrides_synced hm hsy (by rw [hpid]; exact hp0), hpid, (hold hpar).2]
      · have hcn : e'.effectiveOverrides change.channelID = c.effectiveOverrides change.channelID :=
          effectiveOverrides_eq hci h' (fun ch hch => hch)
            (hci.mem_channels.mpr ⟨change.access, hm, hid⟩)
        rw [hid, hcn]
        exact authorizeOverrideChanges_spec how hau k

theorem nothingGained_channelTreeChange
    (hd : draftChannelTreeChange e p actorID change = .ok draft) :
    NothingGained e e' draft.channels actorID := by
  rw [draftChannelTreeChange] at hd
  split at hd
  · rw [draftChannelEdit] at hd
    split at hd
    · simp at hd
    · cases hd
      have hs : SameRoles e e' actorID := sameRoles_of_mem h h' rfl rfl rfl fun _ => id
      exact nothingGained_of_map (g := id) h (noGain_of_sameRoles h h' hs rfl) (by simp)
        fun _ _ => rfl
  · exact nothingGained_channelCreate h h' hac ho hd
  · obtain ⟨c, rfl, hc, hau⟩ := draftChannelMove_ok hd
    have hg := fun ch (_ : ch ∈ p.channels) => channelAfterMove_kept (e := e) change ch
    have hs : SameRoles e e' actorID := sameRoles_of_mem h h' rfl rfl rfl fun _ => id
    exact nothingGained_of_map h
      (noGain_of_authorized h (newRoleEvaluator_ok hc) h' ho hs rfl rfl hg hau) rfl
      fun ch hch => (hg ch hch).1
  · obtain rfl := draftChannelDelete_ok hd
    have hs : SameRoles e e' actorID := sameRoles_of_mem h h' rfl rfl rfl fun _ => id
    have hsub : ∀ ch ∈ p.channels.filter
        (·.channelID ∉ e.channelSubtree change.channelID), ch ∈ p.channels :=
      fun ch hch => (mem_filter.mp hch).1
    constructor
    · intro s hsc k hk
      rw [← SameRoles.allowed_of_kept h h' hs hsub (hsc.imp_right And.right) k]
      exact hk
    · intro ch hch hnew
      exact absurd (h.mem_channels.mpr ⟨ch, hsub ch hch, rfl⟩) hnew
  · simp at hd

end

/-- Apply a change of either sort. -/
def applyPolicyChange [PngDecoder] (p : RolePolicy) (actorID : Int) :
    RoleChange ⊕ ChannelTreeChange → Except RoleError RolePolicy
  | .inl change => applyRoleChange p actorID change
  | .inr change => applyChannelTreeChange p actorID change

/-- **No self-escalation.** No accepted change of either sort allows the acting user anything new,
unless it is the owner. -/
theorem no_self_escalation [PngDecoder] {p p' : RolePolicy} {e : RoleEvaluator} {actorID : Int}
    {change : RoleChange ⊕ ChannelTreeChange} (hp : newRoleEvaluator p = .ok e)
    (ho : actorID ≠ p.ownerID) (hchg : applyPolicyChange p actorID change = .ok p') :
    ∃ e', newRoleEvaluator p' = .ok e' ∧ NothingGained e e' p'.channels actorID := by
  have h := newRoleEvaluator_ok hp
  cases change with
  | inl =>
    obtain ⟨e₀, draft, e', he₀, -, hd, rfl, he'⟩ := applyRoleChange_ok hchg
    rw [hp] at he₀
    cases he₀
    have hgn := nothingGained_roleChange h (newRoleEvaluator_ok he') ho hd
    exact ⟨e', he', hgn⟩
  | inr =>
    obtain ⟨e₀, draft, e', he₀, hac, -, hd, rfl, he'⟩ := applyChannelTreeChange_ok hchg
    rw [hp] at he₀
    cases he₀
    have hgn := nothingGained_channelTreeChange h (newRoleEvaluator_ok he') hac ho hd
    exact ⟨e', he', hgn⟩

/-- A moderator deletes a role it holds, whose denials the guard has to look at. -/
theorem no_self_escalation_moderator :
    let := PngDecoder.none
    ∃ e p', newRoleEvaluator roleFixture = .ok e ∧ (2 : Int) ≠ roleFixture.ownerID ∧
      applyPolicyChange roleFixture 2
        (.inl { kind := .roleDelete, expectedRevision := 1, roleID := 20 }) = .ok p' ∧
      ∃ e', newRoleEvaluator p' = .ok e' ∧ NothingGained e e' p'.channels 2 := by
  let := PngDecoder.none
  obtain ⟨e, he⟩ := roleFixture_ok
  obtain ⟨p', hp'⟩ := Fallible.exists_ok (show (applyPolicyChange roleFixture 2
      (.inl { kind := .roleDelete, expectedRevision := 1, roleID := 20 })).isOk = true by
        decide +kernel)
  exact ⟨e, p', he, by decide, hp', no_self_escalation he (by decide) hp'⟩

end Noxa.Authorization

import Noxa.Authorization.RoleEdits

/-!
# Deleting a role

The actor may hold the deleted role. Losing its grants and its allowing overrides takes rights
away; losing a denying override may give some back, and only then is the guard
`authorizeMemberChannelGains` needed.

## Main definitions

* `RoleRemoved` — a policy without one role of another

## Main results

* `RoleRemoved.granted` — grants after the deletion were grants before, denials of the role aside
* `noGain_roleDelete` — deleting a role allows the actor nothing new
-/

namespace Noxa.Authorization

open Capability RoleEvaluator List

variable {p p' draft : RolePolicy} {e e' : RoleEvaluator} {actorID : Int}

/-- A channel without the overrides of a role. -/
def ChannelPolicy.without (roleID : Int) (ch : ChannelPolicy) : ChannelPolicy :=
  { ch with overrides := ch.overrides.filter (·.roleID ≠ roleID) }

/-- What a policy `p'` without the role `roleID` of `p` looks like. -/
structure RoleRemoved (roleID : Int) (p p' : RolePolicy) : Prop where
  owner : p'.ownerID = p.ownerID
  everyone : p'.everyoneID = p.everyoneID
  roles : ∀ r ∈ p.roles, r.id ≠ roleID →
    ∃ r' ∈ p'.roles, r'.id = r.id ∧ r'.permissions = r.permissions
  members : p'.members = p.members.map fun m => { m with roleIDs := m.roleIDs.filter (· ≠ roleID) }
  channels : p'.channels = p.channels.map (ChannelPolicy.without roleID)

theorem roleRemoved_withoutRole (p : RolePolicy) (roleID : Int) :
    RoleRemoved roleID p (withoutRole p roleID) := by
  refine ⟨rfl, rfl, fun r hr hne => ?_, rfl, rfl⟩
  have hsrt : r ∈ (p.roles.filter (·.id ≠ roleID)).insertionSort (·.position ≤ ·.position) :=
    (mem_insertionSort _).mpr (mem_filter.mpr ⟨hr, by simpa using hne⟩)
  obtain ⟨i, hi, rfl⟩ := mem_iff_getElem.mp hsrt
  exact ⟨_, mem_mapIdx.mpr ⟨i, hi, rfl⟩, rfl, rfl⟩

theorem RoleRemoved.saved {roleID : Int} (hr : RoleRemoved roleID p draft) :
    RoleRemoved roleID p (savedPolicy draft) := by
  refine ⟨hr.owner, hr.everyone, fun r hmem hne => ?_, hr.members, hr.channels⟩
  obtain ⟨r', hr', hsm⟩ := hr.roles r hmem hne
  exact ⟨r', mem_savedPolicy_roles.mpr hr', hsm⟩

section Removed

variable {roleID : Int} (h : Indexed p e) (h' : Indexed p' e') (hr : RoleRemoved roleID p p')

include h h' hr

theorem RoleRemoved.memberRoles (u : Int) :
    e'.memberRoles u = (e.memberRoles u).filter (· ≠ roleID) := by
  have hlk : e'.members.lookup u = (e.members.lookup u).map (List.filter (· ≠ roleID)) :=
    h.members.lookup_map h'.members hr.members (fun _ => rfl) (fun _ => rfl) u
  rw [RoleEvaluator.memberRoles, RoleEvaluator.memberRoles, hlk]
  cases e.members.lookup u <;> rfl

theorem RoleRemoved.lookup_channels (id : Int) :
    e'.channels.lookup id = (e.channels.lookup id).map (ChannelPolicy.without roleID) :=
  h.channels.lookup_map h'.channels hr.channels (fun _ => rfl) (fun _ => rfl) id

theorem RoleRemoved.channelOf (id : Int) : e'.channelOf id = (e.channelOf id).without roleID := by
  rw [RoleEvaluator.channelOf, RoleEvaluator.channelOf, hr.lookup_channels h h']
  cases e.channels.lookup id <;> rfl

theorem RoleRemoved.effectiveOverrides (id : Int) :
    e'.effectiveOverrides id = (e.effectiveOverrides id).filter (·.roleID ≠ roleID) := by
  cases hid : e.channels.lookup id with
  | none =>
    rw [Indexed.effectiveOverrides_none hid, Indexed.effectiveOverrides_none]
    · rfl
    · rw [hr.lookup_channels h h', hid]
      rfl
  | some =>
    refine h.tree_induction
      (P := fun id => e'.effectiveOverrides id = (e.effectiveOverrides id).filter _)
      (fun ch hch ih => ?_) (AList.lookup_isSome.mp (hid ▸ rfl))
    have hch' : ch.without roleID ∈ p'.channels := hr.channels ▸ mem_map_of_mem hch
    by_cases hf : ch.synced = true ∧ ch.parentID ≠ 0
    · rw [h.effectiveOverrides_synced hch hf.1 hf.2, ← ih hf.2]
      exact (h'.effectiveOverrides_synced hch' hf.1 hf.2 :)
    · rw [h.effectiveOverrides_own hch hf]
      exact (h'.effectiveOverrides_own hch' hf :)

theorem RoleRemoved.permissionsOf {u id : Int} (hid : id ∈ e'.roleIDsOf u)
    (hne : roleID ≠ p.everyoneID) :
    id ∈ e.roleIDsOf u ∧ e'.permissionsOf id = e.permissionsOf id := by
  have hmem : id ∈ e.roleIDsOf u ∧ id ≠ roleID := by
    rcases mem_cons.mp hid with rfl | hin
    · rw [h'.policy, hr.everyone]
      exact ⟨by rw [roleIDsOf, h.policy]; exact mem_cons_self, hne.symm⟩
    · rw [hr.memberRoles h h'] at hin
      obtain ⟨hin, hne⟩ := mem_filter.mp hin
      exact ⟨mem_cons_of_mem _ hin, by simpa using hne⟩
  refine ⟨hmem.1, permissionsOf_eq h h' (h.roleIDsOf_mem hmem.1) fun r hrm hrid => ?_⟩
  obtain ⟨r', hr', hsm⟩ := hr.roles r hrm (by rw [hrid]; exact hmem.2)
  exact ⟨r', hr', hrid ▸ hsm⟩

section

variable (hne : roleID ≠ p.everyoneID)

include hne

variable {u : Int}

theorem RoleRemoved.exempt (hx : e'.Exempt u) : e.Exempt u := by
  rcases hx with hown | ⟨id, hid, ha⟩
  · rw [h'.policy, hr.owner, ← h.policy] at hown
    exact .inl hown
  · obtain ⟨hid', hpms⟩ := hr.permissionsOf h h' hid hne
    exact .inr ⟨id, hid', hpms ▸ ha⟩

variable {k : Capability}

theorem RoleRemoved.baseGrant (hb : e'.BaseGrant u k) : e.BaseGrant u k := by
  obtain ⟨id, hid, hk⟩ := hb
  obtain ⟨hid', hpms⟩ := hr.permissionsOf h h' hid hne
  exact ⟨id, hid', hpms ▸ hk⟩

/-- Grants after the deletion were grants before, unless a denial of the role was in the way. -/
theorem RoleRemoved.granted {s : Int} (hp : roleID ≠ 0)
    (hdy : ∀ o ∈ e.effectiveOverrides s, o.roleID = roleID → roleID ∈ e.memberRoles u →
      o.effect = .allow) (hg : e'.Granted u s k) : e.Granted u s k := by
  have hval := (h.validOverrides s).valid
  rw [Granted, hr.effectiveOverrides h h'] at hg
  -- the user's own overrides and those of `@everyone` do not name the role
  have hown : ∀ o, OwnOverride u k o →
      (o ∈ e.effectiveOverrides s ↔ o ∈ (e.effectiveOverrides s).filter (·.roleID ≠ roleID)) := by
    rintro o ⟨hu, rfl, -⟩
    rw [mem_filter]
    refine ⟨fun ho => ⟨ho, ?_⟩, And.left⟩
    rcases (hval o ho).subject with ⟨-, h0⟩ | ⟨h0, -⟩
    · omega
    · simpa [h0] using hp.symm
  have heve : ∀ o, e.EveryoneOverride k o →
      (o ∈ e.effectiveOverrides s ↔ o ∈ (e.effectiveOverrides s).filter (·.roleID ≠ roleID)) := by
    rintro o ⟨-, ho⟩
    have : o.roleID ≠ roleID := by rw [ho, h.policy]; exact hne.symm
    simp [mem_filter, this]
  have hev : e'.EveryoneOverride k = e.EveryoneOverride k := by
    funext o
    simp only [EveryoneOverride, h.policy, h'.policy, hr.everyone]
  refine (layer_congr hown).mpr (hg.mono fun hg => ?_)
  have hlow : ∀ hl : Layer ((e.effectiveOverrides s).filter (·.roleID ≠ roleID))
      (e'.EveryoneOverride k) (e'.BaseGrant u k),
      Layer (e.effectiveOverrides s) (e.EveryoneOverride k) (e.BaseGrant u k) := by
    intro hl
    rw [hev] at hl
    exact (layer_congr heve).mpr (hl.mono (hr.baseGrant h h' hne))
  have hassigned : ∀ o, e'.AssignedOverride u k o ↔
      e.AssignedOverride u k o ∧ o.roleID ≠ roleID := by
    intro o
    simp only [AssignedOverride, hr.memberRoles h h', h.policy, h'.policy,
      hr.everyone, mem_filter, decide_eq_true_eq]
    tauto
  rcases hg with ⟨o, ho, happ, he⟩ | ⟨hno, hbel⟩
  · exact .inl ⟨o, (mem_filter.mp ho).1, ((hassigned o).mp happ).1, he⟩
  by_cases hls : ∃ o ∈ e.effectiveOverrides s, e.AssignedOverride u k o
  · -- an applicable override that is gone named the deleted role, and it allowed
    obtain ⟨o, ho, happ⟩ := hls
    have hro : o.roleID = roleID := by
      by_contra hkp
      exact hno o (mem_filter.mpr ⟨ho, by simpa using hkp⟩) ((hassigned o).mpr ⟨happ, hkp⟩)
    exact .inl ⟨o, ho, happ, hdy o ho hro (hro ▸ happ.2.2)⟩
  · push Not at hls
    exact .inr ⟨hls, hlow hbel⟩

/-- The comparison for a deleted role, in one scope. -/
theorem RoleRemoved.evaluate_le {s : Int} (hp : roleID ≠ 0) (hsco : CommonScope e e' s)
    (hdy : ∀ o ∈ e.effectiveOverrides s, o.roleID = roleID → roleID ∈ e.memberRoles u →
      o.effect = .allow) (hk : (e'.evaluate u s k).allowed = true) :
    (e.evaluate u s k).allowed = true := by
  refine Authorization.evaluate_le h h' (hr.exempt h h' hne) (fun k => .inl ?_)
    (fun _ k hg => .inl (hr.granted h h' hne hp hdy hg)) hk
  refine scopeDecision_eq hsco ?_
  rw [hr.channelOf h h']
  rfl

end

end Removed

theorem draftRoleDelete_ok [PngDecoder] {change : RoleChange} (h : Indexed p e)
    (hown : actorID ≠ p.ownerID) (hd : draftRoleDelete e p actorID change = .ok draft) :
    draft = withoutRole p change.roleID ∧ change.roleID ≠ p.everyoneID ∧
      e.canManageRole actorID change.roleID = true ∧ change.roleID ≠ 0 ∧
      (roleHasDenyOverride p change.roleID = true →
        ∃ c, newRoleEvaluator draft = .ok c ∧ ∀ m ∈ p.members, change.roleID ∈ m.roleIDs →
          authorizeMemberChannelGains e c actorID m.userID [change.roleID] = true) := by
  simp only [draftRoleDelete, Fallible.guard_eq_ok, not_not] at hd
  obtain ⟨-, hne, hmng, hd⟩ := hd
  have hp : change.roleID ≠ 0 := by
    intro h0
    have hno : e.roles.lookup 0 = none := h.roles.lookup_eq_none fun r hr => by
      have := h.role_pos r hr
      omega
    rw [h0] at hmng
    simp [canManageRole, hno] at hmng
  split at hd
  · split at hd
    · simp at hd
    rename_i c hc
    split at hd
    · rename_i hall
      cases hd
      refine ⟨rfl, hne, hmng, hp, fun _ => ⟨c, hc, fun m hm hro => ?_⟩⟩
      have := all_eq_true.mp hall m (mem_filter.mpr ⟨hm, by simpa using hro⟩)
      simpa using this
    · simp at hd
  · rename_i hnod
    cases hd
    exact ⟨rfl, hne, hmng, hp, fun hdy => absurd ⟨hown, hdy⟩ hnod⟩

variable {k : Capability}

/-- What is allowed is allowed in a scope that exists, and in a channel it is a capability that
can be decided there. -/
theorem scope_of_allowed (h : Indexed p e) {u s : Int} (hk : (e.evaluate u s k).allowed = true) :
    0 ≤ s ∧ (s = 0 ∨ s ∈ e.channels) ∧ (s ≠ 0 → channelCapability k = true) := by
  obtain ⟨info, hinf, -, hs, hcha, hmem, -⟩ :=
    scopeAdmits_iff.mp (scopeAdmits_of_allowed h hk)
  refine ⟨hs, hmem, fun hne => ?_⟩
  rw [channelCapability, hinf]
  exact hcha (by omega)

/-- Nobody is allowed anything in a scope that neither policy has. -/
theorem allowed_eq_of_unknown (h : Indexed p e) (h' : Indexed p' e') {u s : Int}
    (hiff : s ∈ e'.channels ↔ s ∈ e.channels) (hs : ¬ (s = 0 ∨ s ∈ e.channels)) (k : Capability) :
    (e'.evaluate u s k).allowed = (e.evaluate u s k).allowed := by
  rw [Bool.eq_iff_iff]
  exact iff_of_false (fun hk => hs ((scope_of_allowed h' hk).2.1.imp_right hiff.mp))
    fun hk => hs (scope_of_allowed h hk).2.1

theorem mem_channelCapabilities (hk : channelCapability k = true) : k ∈ channelCapabilities := by
  rw [channelCapability] at hk
  split at hk
  · simp at hk
  · rename_i info hinf
    refine mem_map.mpr ⟨info, mem_filter.mpr ⟨?_, hk⟩, key_of_capabilityInfo hinf⟩
    exact mem_of_find?_eq_some hinf

/-- The guard on membership changes, for a target that is the actor itself. -/
theorem authorizeMemberChannelGains_self {c : RoleEvaluator} {s : Int}
    {changed : List Int} (hown : actorID ≠ e.policy.ownerID)
    (hau : authorizeMemberChannelGains e c actorID actorID changed = true) (hs : s ∈ c.channels)
    (hk : channelCapability k = true) {o : RoleOverride} (ho : o ∈ e.effectiveOverrides s)
    (hro : o.roleID ∈ changed) (haft : (c.evaluate actorID s k).allowed = true) :
    (e.evaluate actorID s k).allowed = true := by
  rw [authorizeMemberChannelGains, if_neg hown] at hau
  have hth := all_eq_true.mp hau s hs
  have haff : (e.effectiveOverrides s ++ c.effectiveOverrides s).any (·.roleID ∈ changed) := by
    rw [any_eq_true]
    exact ⟨o, mem_append_left _ ho, by simpa using hro⟩
  rw [if_pos haff] at hth
  have := all_eq_true.mp hth k (mem_channelCapabilities hk)
  simpa [haft] using this

theorem noGain_roleDelete [PngDecoder] {change : RoleChange} (h : Indexed p e)
    (h' : Indexed (savedPolicy draft) e') (hown : actorID ≠ p.ownerID)
    (hd : draftRoleDelete e p actorID change = .ok draft) : NoGain e e' actorID := by
  obtain ⟨rfl, hne, -, hp, hgrd⟩ := draftRoleDelete_ok h hown hd
  have hr := (roleRemoved_withoutRole p change.roleID).saved
  intro s hsco k hk
  by_cases hdy : ∀ o ∈ e.effectiveOverrides s, o.roleID = change.roleID →
      change.roleID ∈ e.memberRoles actorID → o.effect = .allow
  · exact hr.evaluate_le h h' hne hp hsco hdy hk
  -- a denial of the deleted role stood in the way here, so the guard was consulted
  push Not at hdy
  obtain ⟨o, ho, hro, hhd, hef⟩ := hdy
  have hs0 : s ≠ 0 := by
    rintro rfl
    rw [h.effectiveOverrides_zero] at ho
    exact absurd ho (not_mem_nil)
  have hs : s ∈ e.channels ∧ s ∈ e'.channels := hsco.resolve_left hs0
  have hhas : roleHasDenyOverride p change.roleID = true := by
    rcases h.overrideSource_cases s with hz | hmem
    · rw [effectiveOverrides, hz] at ho
      exact absurd ho (not_mem_nil)
    have he : o.effect = .deny :=
      ((h.validOverrides s).valid o ho).effect.resolve_left hef
    rw [roleHasDenyOverride, any_eq_true]
    exact ⟨_, hmem, any_eq_true.mpr ⟨o, ho, by simp [hro, he]⟩⟩
  obtain ⟨c, hc, hgn⟩ := hgrd hhas
  have hci := newRoleEvaluator_ok hc
  obtain ⟨m, hm, hmu, hhd⟩ := h.mem_memberRoles.mp hhd
  have hau := hgn m hm hhd
  rw [hmu] at hau
  have hsc : s ∈ c.channels := by
    obtain ⟨ch, hch, rfl⟩ := h'.mem_channels.mp hs.2
    exact hci.mem_channels.mpr ⟨ch, hch, rfl⟩
  have hsm : SameRoles c e' actorID :=
    sameRoles_of_mem hci h' rfl rfl rfl fun _ => mem_savedPolicy_roles.mpr
  have haft := noGain_of_sameRoles hci h' hsm rfl s (.inr ⟨hsc, hs.2⟩) k hk
  exact authorizeMemberChannelGains_self (by rw [h.policy]; exact hown) hau hsc
    ((scope_of_allowed h' hk).2.2 hs0) ho (by simp [hro]) haft

end Noxa.Authorization

import Noxa.Authorization.ChannelEdits
import Noxa.Lib.Reorder

/-!
# Policies in another order

A policy lists its roles, members and channels, the roles of a member and the overrides of a
channel. The order of these lists is an accident of how the policy was stored. Another order is
accepted as well, although the checks run through the lists one by one, and it decides the same,
although the overrides of a channel are applied one after the other.

## Main definitions

* `Reordered` — the same policy, listed in another order

## Main results

* `newRoleEvaluator_reordered` — acceptance does not depend on the order
* `Reordered.allowed_eq` — and neither does any decision
-/

namespace Noxa.Authorization

open Capability RoleEvaluator List

/-- The same member, with its roles in another order. -/
structure SameMember (m m' : RoleMember) : Prop where
  userID : m.userID = m'.userID
  roleIDs : m.roleIDs.Perm m'.roleIDs

/-- The same channel, with its overrides in another order. -/
structure SameChannel (ch ch' : ChannelPolicy) : Prop where
  systemKind : ch.systemKind = ch'.systemKind
  channelID : ch.channelID = ch'.channelID
  parentID : ch.parentID = ch'.parentID
  synced : ch.synced = ch'.synced
  overrides : ch.overrides.Perm ch'.overrides

/-- The same policy, with every list in another order. -/
structure Reordered (p p' : RolePolicy) : Prop where
  revision : p.revision = p'.revision
  ownerID : p.ownerID = p'.ownerID
  everyoneID : p.everyoneID = p'.everyoneID
  defaultMemberRoleID : p.defaultMemberRoleID = p'.defaultMemberRoleID
  roles : p.roles.Perm p'.roles
  members : Reorder.UpTo SameMember p.members p'.members
  channels : Reorder.UpTo SameChannel p.channels p'.channels

variable {p p' : RolePolicy} {e e' : RoleEvaluator}

/-! ### Acceptance -/

/-- The checks of everything but the roles read the roles by lookup only. -/
theorem ChannelOK.reordered {roles roles' : AList fun _ : Int => Role} {ch ch' : ChannelPolicy}
    (hok : ChannelOK roles ch) (hrls : ∀ id, id ∈ roles → id ∈ roles') (hch : SameChannel ch ch') :
    ChannelOK roles' ch' := by
  obtain ⟨⟨hid, hp, hsyn⟩, hovr⟩ := hok
  refine ⟨⟨hch.channelID ▸ hid, hch.parentID ▸ hp, fun hs => ?_⟩, ?_⟩
  · have hnil := hch.overrides
    rw [hsyn (hch.synced ▸ hs)] at hnil
    exact hnil.nil_eq.symm
  · obtain ⟨hv, hnd, -⟩ := checkOverrides_ok_iff.mp hovr
    refine checkOverrides_ok_iff.mpr ⟨fun o ho => ?_, ?_, by simp⟩
    · have hold := hv o (hch.overrides.mem_iff.mpr ho)
      exact ⟨hold.capability, hold.subject, hold.effect, fun h0 => hrls _ (hold.role h0)⟩
    · exact (hch.overrides.map _).nodup_iff.mp hnd

variable {channels channels' : ChannelMap}

theorem rooted_congr (hp : ∀ id, parent? channels' id = parent? channels id) {id : Int}
    (h : Rooted channels id) : Rooted channels' id := by
  induction h with
  | top => exact .top
  | @child id ch hch _ ih =>
    have hso := hp id
    rw [parent?_eq_some.mpr ⟨ch, hch, rfl⟩] at hso
    obtain ⟨ch', hch', heq⟩ := parent?_eq_some.mp hso
    exact .child hch' (heq ▸ ih)

theorem Reordered.parent?_eq (hr : Reordered p p')
    (h : Index.IsIndex ChannelPolicy.channelID id p.channels channels)
    (h' : Index.IsIndex ChannelPolicy.channelID id p'.channels channels') (child : Int) :
    parent? channels' child = parent? channels child := by
  refine Option.ext fun b => ?_
  have hmem : ∀ {channels : ChannelMap} {l}, Index.IsIndex ChannelPolicy.channelID id l channels →
      (parent? channels child = some b ↔ ∃ ch ∈ l, ch.channelID = child ∧ ch.parentID = b) :=
    fun h => by simp [parent?_eq_some, h.lookup_iff, and_assoc]
  rw [hmem h, hmem h']
  exact (hr.channels.exists_congr fun _ _ hsm => by rw [hsm.channelID, hsm.parentID]).symm

/-- **Acceptance does not depend on the order.** -/
theorem newRoleEvaluator_reordered [PngDecoder] (hr : Reordered p p')
    (h : newRoleEvaluator p = .ok e) : ∃ e', newRoleEvaluator p' = .ok e' := by
  obtain ⟨hcfg, s, hrls, hev, hdef, members, hmbs, channels, hchs,
    hanc, rfl⟩ := newRoleEvaluator_ok_iff.mp h
  have hemp : ({} : RoleLoop).imageBytes ≤ maxRoleIconImagesEncoded := Nat.zero_le _
  have hrls' : ∃ s', p'.roles.foldlM addRole {} = .ok s' := by
    obtain ⟨hall, hps, hids, hsum⟩ := (roles_isOk p.roles {} hemp).mp ⟨s, hrls⟩
    refine (roles_isOk p'.roles {} hemp).mpr
      ⟨fun r hmem => hall r (hr.roles.mem_iff.mpr hmem), ⟨by simp, ?_⟩, ⟨by simp, ?_⟩, ?_⟩
    · exact (hr.roles.map _).nodup_iff.mp hps.2
    · exact (hr.roles.map _).nodup_iff.mp hids.2
    · rw [← (hr.roles.map Role.imageBytes).sum_nat]
      exact hsum
  obtain ⟨s', hs'⟩ := hrls'
  have hlk : ∀ id, s'.roles.lookup id = s.roles.lookup id := fun id =>
    (roles_loop hs').1.lookup_congr (roles_loop hrls).1 fun r =>
      exists_congr fun x => and_congr_left fun _ => hr.roles.mem_iff.symm
  have hmem : ∀ id, id ∈ s.roles → id ∈ s'.roles := fun id hid => by
    rw [← AList.lookup_isSome, hlk, AList.lookup_isSome]
    exact hid
  have hmbs' : ∃ m', p'.members.foldlM (addMember s'.roles p'.everyoneID) ∅ = .ok m' := by
    obtain ⟨hgd, -, hnd⟩ :=
      (Index.foldlM_isOk addMember_ok_iff p.members ∅).mp ⟨members, hmbs⟩
    refine (Index.foldlM_isOk addMember_ok_iff p'.members ∅).mpr ⟨fun m' hm' => ?_, by simp, ?_⟩
    · obtain ⟨m, hm, hsm⟩ := hr.members.exists_left hm'
      obtain ⟨hpos, hids⟩ := hgd m hm
      obtain ⟨hkn, -, hids⟩ := memberRolesOK_iff.mp hids
      refine ⟨hsm.userID ▸ hpos, memberRolesOK_iff.mpr ⟨fun id hid => ?_, by simp, ?_⟩⟩
      · obtain ⟨hin, hne⟩ := hkn id (hsm.roleIDs.mem_iff.mpr hid)
        exact ⟨hmem id hin, hr.everyoneID ▸ hne⟩
      · exact hsm.roleIDs.nodup_iff.mp hids
    · exact (hr.members.map_perm fun _ _ hsm => hsm.userID).nodup_iff.mp hnd
  have hchs' : ∃ c', p'.channels.foldlM (addChannel s'.roles) ∅ = .ok c' := by
    obtain ⟨hgd, -, hnd⟩ :=
      (Index.foldlM_isOk addChannel_ok_iff p.channels ∅).mp ⟨channels, hchs⟩
    refine (Index.foldlM_isOk addChannel_ok_iff p'.channels ∅).mpr ⟨fun ch' hch' => ?_, by simp, ?_⟩
    · obtain ⟨ch, hch, hsm⟩ := hr.channels.exists_left hch'
      exact (hgd ch hch).reordered hmem hsm
    · exact (hr.channels.map_perm fun _ _ hsm => hsm.channelID).nodup_iff.mp hnd
  obtain ⟨members', hm'⟩ := hmbs'
  obtain ⟨channels', hc'⟩ := hchs'
  have hanc' : validateChannelAncestry channels' = true := by
    obtain ⟨hix, hv⟩ := channels_loop hchs
    obtain ⟨hindex', hval'⟩ := channels_loop hc'
    have hz : ∀ {channels : ChannelMap} {l : List ChannelPolicy},
        Index.IsIndex ChannelPolicy.channelID id l channels →
        (∀ ch ∈ l, 1 ≤ ch.channelID) → channels.lookup 0 = none := fun hi hpos =>
      hi.lookup_eq_none fun ch hch => by
        have := hpos ch hch
        omega
    have hp := hr.parent?_eq hix hindex'
    rw [validateChannelAncestry_iff (hz hix fun ch hch => (hv ch hch).id_pos)] at hanc
    rw [validateChannelAncestry_iff (hz hindex' fun ch hch => (hval' ch hch).id_pos)]
    intro id hid
    refine rooted_congr hp (hanc id ?_)
    obtain ⟨ch', hch', rfl⟩ := hindex'.mem_iff.mp hid
    obtain ⟨ch, hch, hsm⟩ := hr.channels.exists_left hch'
    exact hix.mem_iff.mpr ⟨ch, hch, hsm.channelID⟩
  refine ⟨_, newRoleEvaluator_ok_iff.mpr ⟨?_, s', hs', ?_, ?_, members', hm', channels', hc',
    hanc', rfl⟩⟩
  · rw [← hr.revision, ← hr.ownerID, ← hr.everyoneID]
    exact hcfg
  · rw [everyoneOK, hlk, ← hr.everyoneID]
    exact hev
  · rw [defaultMemberOK, hlk, ← hr.everyoneID, ← hr.defaultMemberRoleID]
    exact hdef

/-! ### Decisions -/

section Decisions

variable (h : Indexed p e) (h' : Indexed p' e') (hr : Reordered p p')

include h h' hr

theorem Reordered.mem_memberRoles (userID id : Int) :
    id ∈ e'.memberRoles userID ↔ id ∈ e.memberRoles userID := by
  rw [h.mem_memberRoles, h'.mem_memberRoles]
  refine (hr.members.exists_congr fun _ _ hsm => ?_).symm
  rw [hsm.userID, hsm.roleIDs.mem_iff]

theorem Reordered.permissionsOf (id : Int) : e'.permissionsOf id = e.permissionsOf id := by
  have hlk : e'.roles.lookup id = e.roles.lookup id :=
    h'.roles.lookup_congr h.roles fun r =>
      exists_congr fun x => and_congr_left fun _ => hr.roles.mem_iff.symm
  rw [RoleEvaluator.permissionsOf, RoleEvaluator.permissionsOf, hlk]

theorem Reordered.everyone : e'.policy.everyoneID = e.policy.everyoneID := by
  rw [h.policy, h'.policy, hr.everyoneID]

theorem Reordered.baseGrant (userID : Int) (k : Capability) :
    e'.BaseGrant userID k ↔ e.BaseGrant userID k := by
  refine exists_congr fun id => and_congr ?_ (by rw [hr.permissionsOf h h'])
  rw [roleIDsOf, roleIDsOf, mem_cons, mem_cons, hr.everyone h h', hr.mem_memberRoles h h']

variable {s : Int}

/-- The partner of a channel has the same effective overrides: they follow the same chain. -/
theorem Reordered.mem_effectiveOverrides (hs : s ∈ e.channels) (o : RoleOverride) :
    o ∈ e'.effectiveOverrides s ↔ o ∈ e.effectiveOverrides s := by
  refine h.tree_induction
    (P := fun s => o ∈ e'.effectiveOverrides s ↔ o ∈ e.effectiveOverrides s) ?_ hs
  intro ch hch ih
  obtain ⟨ch', hch', hsm⟩ := hr.channels.exists_right hch
  by_cases hf : ch.synced = true ∧ ch.parentID ≠ 0
  · have hfol' : ch'.synced = true ∧ ch'.parentID ≠ 0 :=
      ⟨hsm.synced ▸ hf.1, hsm.parentID ▸ hf.2⟩
    rw [h.effectiveOverrides_synced hch hf.1 hf.2, hsm.channelID,
      h'.effectiveOverrides_synced hch' hfol'.1 hfol'.2, ← hsm.parentID]
    exact ih hf.2
  · have hown' : ¬ (ch'.synced = true ∧ ch'.parentID ≠ 0) := by
      rw [← hsm.synced, ← hsm.parentID]
      exact hf
    rw [h.effectiveOverrides_own hch hf, hsm.channelID, h'.effectiveOverrides_own hch' hown']
    exact hsm.overrides.mem_iff.symm

theorem Reordered.mem_channels (s : Int) : s ∈ e'.channels ↔ s ∈ e.channels := by
  rw [h.mem_channels, h'.mem_channels]
  exact (hr.channels.exists_congr fun _ _ hsm => by rw [hsm.channelID]).symm

theorem Reordered.systemKind (hs : s = 0 ∨ s ∈ e.channels) :
    (e'.channelOf s).systemKind = (e.channelOf s).systemKind := by
  rcases hs with rfl | hin
  · simp [channelOf, h.lookup_zero, h'.lookup_zero]
  · obtain ⟨ch, hch, rfl⟩ := h.mem_channels.mp hin
    obtain ⟨ch', hch', hsm⟩ := hr.channels.exists_right hch
    rw [h.channelOf_eq hch, hsm.channelID, h'.channelOf_eq hch', hsm.systemKind]

/-- **Decisions do not depend on the order.** -/
theorem Reordered.allowed_eq (userID s : Int) (k : Capability) :
    (e'.evaluate userID s k).allowed = (e.evaluate userID s k).allowed := by
  by_cases hs : s = 0 ∨ s ∈ e.channels
  · refine allowed_congr h h' ?_ (fun k => ?_) (fun k => ?_) k
    · rw [Exempt, Exempt, h.policy, h'.policy, hr.ownerID]
      exact or_congr_right (hr.baseGrant h h' userID administrator)
    · have hsc : CommonScope e e' s :=
        hs.imp_right fun hin => ⟨hin, (hr.mem_channels h h' s).mpr hin⟩
      exact scopeDecision_eq hsc (hr.systemKind h h' hs)
    · have hmem : ∀ o, o ∈ e'.effectiveOverrides s ↔ o ∈ e.effectiveOverrides s := by
        intro o
        rcases hs with rfl | hin
        · rw [h.effectiveOverrides_zero, h'.effectiveOverrides_zero]
        · exact hr.mem_effectiveOverrides h h' hin o
      have hassigned : e'.AssignedOverride userID k = e.AssignedOverride userID k := by
        funext o
        rw [AssignedOverride, AssignedOverride, hr.everyone h h', hr.mem_memberRoles h h']
      have hev : e'.EveryoneOverride k = e.EveryoneOverride k := by
        funext o
        rw [EveryoneOverride, EveryoneOverride, hr.everyone h h']
      have hbs : e'.BaseGrant userID k = e.BaseGrant userID k :=
        propext (hr.baseGrant h h' userID k)
      simp only [Granted, GrantedBy, Layer, hassigned, hev, hbs, hmem]
  · exact allowed_eq_of_unknown h h' (hr.mem_channels h h' s) hs k

end Decisions

end Noxa.Authorization

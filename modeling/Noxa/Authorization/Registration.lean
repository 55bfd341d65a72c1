import Noxa.Authorization.Authority
import Noxa.Authorization.RoleEdits

/-!
# Registrations that skip reconciliation

A refresh may publish a policy without reconciling when the only difference is one new member with
the default role. This file shows what the two checks of that path establish together: nobody
loses a capability in any scope. The check of the members fixes the roles of everyone else; the
check of the admitted user compares all its decisions.

## Main definitions

* `RegistersDefault` — one policy is the other with a new member of the default role

## Main results

* `registersDefault_of_only` — what `defaultRoleRegistrationOnly` accepts
* `keeps_access` — nobody loses a capability
-/

namespace Noxa.Authorization

open Capability List

variable {p p' : RolePolicy} {e e' : RoleEvaluator} {userID : Int}

/-- `p'` is `p` with `userID` as a new member, whose only role is the default one. -/
structure RegistersDefault (p p' : RolePolicy) (userID : Int) : Prop where
  rest : p' = { p with members := p'.members }
  length : p'.members.length = p.members.length + 1
  members : ∀ m, m ∈ p'.members ↔ m ∈ p.members ∨ m = ⟨userID, [p.defaultMemberRoleID]⟩

/-! ### The check of the members -/

/-- The loop compares every member with its old entry or takes it as the new one, and what it
removes from the old entries it has met. -/
theorem registrationLoop_some {same : Int → Bool} {defaultID : Int}
    {old old' : AList fun _ : Int => RoleMember} {added added' : Bool} {members : List RoleMember}
    (h : registrationLoop same userID defaultID old added members = some (old', added')) :
    (∀ m ∈ members, old.lookup m.userID = some m ∨ m = ⟨userID, [defaultID]⟩) ∧
      (∀ id m, old.lookup id = some m → old'.lookup id = some m ∨ m ∈ members) ∧
      (added' = true → added = true ∨ ⟨userID, [defaultID]⟩ ∈ members) := by
  induction members generalizing old added with
  | nil =>
    obtain ⟨rfl, rfl⟩ : old = old' ∧ added = added' := by simpa [registrationLoop] using h
    exact ⟨by simp, fun id m hm => .inl hm, .inl⟩
  | cons member members ih =>
    rw [registrationLoop] at h
    split at h
    · rename_i previous hprv
      split at h
      · rename_i hsm
        obtain ⟨-, rfl⟩ := hsm
        obtain ⟨hn, hold, had⟩ := ih h
        have her : ∀ {id m}, (old.erase previous.userID).lookup id = some m →
            old.lookup id = some m := by
          intro id m hm
          by_cases hid : id = previous.userID
          · rw [hid, AList.lookup_erase] at hm
            simp at hm
          · rwa [AList.lookup_erase_ne hid] at hm
        refine ⟨?_, ?_, fun ha => (had ha).imp_right (mem_cons_of_mem _)⟩
        · exact forall_mem_cons.mpr ⟨.inl hprv, fun m hm => (hn m hm).imp_left her⟩
        intro id m hm
        by_cases hid : id = previous.userID
        · obtain rfl : previous = m := Option.some.inj (hprv.symm.trans (hid ▸ hm))
          exact .inr (mem_cons_self ..)
        · rw [← AList.lookup_erase_ne hid] at hm
          exact (hold id m hm).imp_right (mem_cons_of_mem _)
      · simp at h
    · split at h
      · simp at h
      rename_i hg
      push Not at hg
      obtain ⟨-, hu, hr⟩ := hg
      obtain ⟨hn, hold, -⟩ := ih h
      obtain rfl : member = ⟨userID, [defaultID]⟩ := by
        cases member
        simp_all
      refine ⟨?_, fun id m hm => (hold id m hm).imp_right (mem_cons_of_mem _),
        fun _ => .inr (mem_cons_self ..)⟩
      exact forall_mem_cons.mpr ⟨.inr rfl, hn⟩

theorem registersDefault_of_only {agree : NilAgreement} (h : Indexed p e)
    (hreg : defaultRoleRegistrationOnly agree p p' userID = true) :
    RegistersDefault p p' userID := by
  have hix : Index.IsIndex RoleMember.userID id p.members (membersByID p.members) :=
    Index.isIndex_foldl_insert h.members.nodup
  rw [defaultRoleRegistrationOnly] at hreg
  split at hreg
  · simp at hreg
  rename_i hg
  push Not at hg
  obtain ⟨hrv, hown, hev, -, hdef, ⟨-, hrls⟩, ⟨-, hc⟩, hlen⟩ := hg
  split at hreg
  · simp at hreg
  rename_i old added hlp
  obtain ⟨had, hemp⟩ : added = true ∧ old.keys = [] := by simpa using hreg
  obtain ⟨hn, hold, hin⟩ := registrationLoop_some hlp
  refine ⟨?_, hlen, fun m => ⟨fun hm => ?_, ?_⟩⟩
  · cases p
    cases p'
    simp_all
  · rcases hn m hm with hm | rfl
    · obtain ⟨x, hx, -, rfl⟩ := (hix.lookup_iff _ _).mp hm
      exact .inl hx
    · exact .inr (by rw [hdef])
  · rintro (hm | rfl)
    · rcases hold m.userID m (hix.lookup_eq hm) with hm | hm
      · -- nothing is left of the old entries
        have hmem : m.userID ∈ old := by rw [← AList.lookup_isSome, hm]; rfl
        rw [AList.mem_keys, hemp] at hmem
        simp at hmem
      · exact hm
    · rw [hdef]
      exact (hin had).resolve_left (by simp)

/-! ### Nobody loses access -/

variable {s : Int} {k : Capability}

theorem capability_known_of_allowed (h : Indexed p e)
    (hk : (e.evaluate userID s k).allowed = true) :
    (∃ info ∈ capabilityCatalog, info.key = k) ∧ (s = 0 ∨ s ∈ e.channels) := by
  have hadm := scopeAdmits_of_allowed h hk
  cases hi : capabilityInfo k with
  | none =>
    have := hadm false .invalidContext (by simp [RoleEvaluator.scopeDecision, hi])
    simp at this
  | some info =>
    refine ⟨⟨info, mem_of_find?_eq_some hi, key_of_capabilityInfo hi⟩, ?_⟩
    by_contra hs
    push Not at hs
    obtain ⟨b, r, hdec, hb⟩ : ∃ b r, e.scopeDecision userID s k = some (b, r) ∧ b = false := by
      simp only [RoleEvaluator.scopeDecision, hi]
      split
      · exact ⟨_, _, rfl, rfl⟩
      split
      · exact ⟨_, _, rfl, rfl⟩
      exact ⟨_, _, rfl, rfl⟩
    exact absurd (hadm b r hdec) (by simp [hb])

theorem access_of_not_revokes (h : Indexed p e) (h' : Indexed p' e')
    (hc : p'.channels = p.channels) (hrev : revokesMemberAccess e e' userID = false)
    (hk : (e.evaluate userID s k).allowed = true) :
    (e'.evaluate userID s k).allowed = true := by
  obtain ⟨⟨info, hi, rfl⟩, hs⟩ := capability_known_of_allowed h hk
  have hsc : s ∈ 0 :: e'.policy.channels.map (·.channelID) := by
    rw [h'.policy, hc]
    rcases hs with rfl | hs
    · exact mem_cons_self ..
    · obtain ⟨ch, hch, rfl⟩ := h.mem_channels.mp hs
      exact mem_cons_of_mem _ (mem_map_of_mem hch)
  have hall := any_eq_false.mp hrev s hsc
  rw [Bool.not_eq_true] at hall
  have hbt := any_eq_false.mp hall info hi
  simpa [hk] using hbt

/-- **Nobody loses access** by a registration that both checks let through. -/
theorem keeps_access (h : Indexed p e) (h' : Indexed p' e') (hreg : RegistersDefault p p' userID)
    (hrev : revokesMemberAccess e e' userID = false) (u s : Int) (k : Capability)
    (hk : (e.evaluate u s k).allowed = true) : (e'.evaluate u s k).allowed = true := by
  have hc : p'.channels = p.channels := by rw [hreg.rest]
  by_cases hu : u = userID
  · subst hu
    exact access_of_not_revokes h h' hc hrev hk
  -- everyone else has the same roles with the same permissions
  have hrls : e.memberRoles u = e'.memberRoles u := by
    refine memberRoles_eq h' h fun m hm => ?_
    rw [hreg.members]
    refine or_iff_left ?_
    rintro rfl
    exact hu hm.symm
  have hsm : SameRoles e' e u := by
    refine ⟨⟨?_, ?_, hrls⟩, fun id hid => ?_⟩
    · rw [h.policy, h'.policy, hreg.rest]
    · rw [h.policy, h'.policy, hreg.rest]
    · refine permissionsOf_eq h' h (h'.roleIDsOf_mem hid) fun r hr hrid => ⟨r, ?_, hrid, rfl⟩
      rwa [hreg.rest] at hr
  have hsc : CommonScope e' e s := by
    refine (capability_known_of_allowed h hk).2.imp_right fun hs => ⟨?_, hs⟩
    rw [h'.mem_channels, hc, ← h.mem_channels]
    exact hs
  exact noGain_of_sameRoles h' h hsm hc.symm s hsc k hk

end Noxa.Authorization

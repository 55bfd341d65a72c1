import Mathlib.Data.List.Dedup
import Noxa.Authorization.RoleRemoval

/-!
# Scopes in which reading was revoked

`RevokedReadScopes` (`internal/authorization/revocation.go`) compares two policies and reports the
scopes in which somebody could view before and cannot any more; history cached there has to go.
Users are not enumerable, so it asks for a sample: the guest, both owners, and everybody that one
of the policies names in an assignment or an override.

The sample is complete. A user that no policy names is in no role but `@everyone` and has no
override, and then it is treated as the guest is.

## Main definitions

* `revokedReadScopes` — the operation

## Main results

* `evaluate_stranger` — a user the policy does not name is a guest
* `mem_revokedReadScopes_iff` — the report is exact
-/

namespace Noxa.Authorization

open Capability RoleEvaluator List

/-- The users an evaluator names beside its owner: members, and users with an override. -/
def RoleEvaluator.namedUsers (e : RoleEvaluator) : List Int :=
  e.members.keys ++ e.channels.keys.flatMap fun id =>
    ((e.channelOf id).overrides.filter (0 < ·.userID)).map (·.userID)

/-- The sample of users. -/
def sampledUsers (before after : RoleEvaluator) : List Int :=
  [0, before.policy.ownerID, after.policy.ownerID] ++ before.namedUsers ++ after.namedUsers

/-- The scopes of either policy. -/
def comparedScopes (before after : RoleEvaluator) : List Int :=
  ((0 : Int) :: (before.channels.keys ++ after.channels.keys)).dedup

/-- The scopes in which a user of the sample lost the right to view. -/
def revokedReadScopes (before after : RoleEvaluator) : List Int :=
  ((comparedScopes before after).filter fun scope => (sampledUsers before after).any fun user =>
    (before.evaluate user scope viewChannel).allowed ∧
      ¬ (after.evaluate user scope viewChannel).allowed).insertionSort (· ≤ ·)

variable {p p' : RolePolicy} {e e' : RoleEvaluator}

theorem layer_of_none {overrides : List RoleOverride} {applies : RoleOverride → Prop}
    {below : Prop} (hno : ∀ o ∈ overrides, ¬ applies o) :
    Layer overrides applies below ↔ below := by
  constructor
  · rintro (⟨o, ho, ha, -⟩ | ⟨-, hb⟩)
    · exact absurd ha (hno o ho)
    · exact hb
  · exact fun hb => .inr ⟨hno, hb⟩

theorem Indexed.memberRoles_guest (h : Indexed p e) : e.memberRoles 0 = [] := by
  have hno : e.members.lookup 0 = none := h.members.lookup_eq_none fun m hm => by
    have := h.member_pos m hm
    omega
  rw [memberRoles, hno]
  rfl

/-- An effective override that names a user makes it a named user. -/
theorem Indexed.mem_namedUsers (h : Indexed p e) {s : Int} {o : RoleOverride}
    (ho : o ∈ e.effectiveOverrides s) (hpos : 0 < o.userID) : o.userID ∈ e.namedUsers := by
  rcases h.overrideSource_cases s with hz | hmem
  · rw [effectiveOverrides, hz] at ho
    exact absurd ho not_mem_nil
  refine mem_append_right _ (mem_flatMap.mpr ⟨(e.overrideSource s).channelID, ?_, ?_⟩)
  · exact AList.mem_keys.mp (h.mem_channels.mpr ⟨_, hmem, rfl⟩)
  · rw [h.channelOf_eq hmem]
    exact mem_map_of_mem (mem_filter.mpr ⟨ho, by simpa using hpos⟩)

/-- **Strangers are guests.** A user that the policy does not name is allowed what the guest is. -/
theorem evaluate_stranger (h : Indexed p e) {u : Int} (hu : 0 ≤ u)
    (how : u ≠ e.policy.ownerID) (hnm : u ∉ e.namedUsers) (s : Int)
    (k : Capability) : (e.evaluate u s k).allowed = (e.evaluate 0 s k).allowed := by
  have hgs : (0 : Int) ≠ e.policy.ownerID := by
    have := h.owner_pos
    rw [h.policy]
    omega
  have hrls : e.memberRoles u = e.memberRoles 0 := by
    have hmb : u ∉ e.members := fun hm =>
      hnm (mem_append_left _ (AList.mem_keys.mp hm))
    rw [h.memberRoles_guest, memberRoles, AList.lookup_eq_none.mpr hmb]
    rfl
  have hids : e.roleIDsOf u = e.roleIDsOf 0 := by
    rw [roleIDsOf, roleIDsOf, hrls]
  refine allowed_congr h h ?_ (fun k => ?_) (fun k => ?_) k
  · rw [Exempt, Exempt, hids]
    simp only [how, hgs, false_or]
  · have hneg : ¬ u < 0 := by omega
    simp only [scopeDecision, hneg, false_or, lt_self_iff_false]
  · -- neither of the two has an override of its own
    have hown : ∀ o ∈ e.effectiveOverrides s, ¬ OwnOverride u k o := by
      rintro o ho ⟨hpos, rfl, -⟩
      exact hnm (h.mem_namedUsers ho hpos)
    have hown₀ : ∀ o ∈ e.effectiveOverrides s, ¬ OwnOverride 0 k o :=
      fun o _ ha => absurd ha.1 (by omega)
    have hassigned : e.AssignedOverride u k = e.AssignedOverride 0 k := by
      funext o
      rw [AssignedOverride, AssignedOverride, hrls]
    have hbs : e.BaseGrant u k = e.BaseGrant 0 k := by
      rw [BaseGrant, BaseGrant, hids]
    rw [Granted, Granted, GrantedBy,
      GrantedBy, layer_of_none hown, layer_of_none hown₀, hassigned, hbs]

/-- The sample finds what any user lost. -/
theorem exists_sampled (h : Indexed p e) (h' : Indexed p' e') {u s : Int} (hu : 0 ≤ u)
    (hk : (e.evaluate u s viewChannel).allowed = true)
    (hk' : ¬ (e'.evaluate u s viewChannel).allowed = true) :
    ∃ user ∈ sampledUsers e e', (e.evaluate user s viewChannel).allowed = true ∧
      ¬ (e'.evaluate user s viewChannel).allowed = true := by
  by_cases hin : u ∈ sampledUsers e e'
  · exact ⟨u, hin, hk, hk'⟩
  simp only [sampledUsers, mem_append, mem_cons, not_mem_nil, or_false, not_or] at hin
  obtain ⟨⟨⟨-, how, hown'⟩, hnm⟩, hnm'⟩ := hin
  rw [evaluate_stranger h hu how hnm] at hk
  rw [evaluate_stranger h' hu hown' hnm'] at hk'
  exact ⟨0, by simp [sampledUsers], hk, hk'⟩

/-- **The report is exact.** A scope is reported if and only if some user, named or not, could
view there under the first policy and cannot under the second. -/
theorem mem_revokedReadScopes_iff [PngDecoder] {p p' : RolePolicy} {e e' : RoleEvaluator}
    (hp : newRoleEvaluator p = .ok e) (hp' : newRoleEvaluator p' = .ok e') (scope : Int) :
    scope ∈ revokedReadScopes e e' ↔ ∃ u, 0 ≤ u ∧ (e.evaluate u scope viewChannel).allowed = true ∧
      ¬ (e'.evaluate u scope viewChannel).allowed = true := by
  have h := newRoleEvaluator_ok hp
  have h' := newRoleEvaluator_ok hp'
  rw [revokedReadScopes, mem_insertionSort, mem_filter, any_eq_true]
  simp only [decide_eq_true_eq]
  constructor
  · rintro ⟨-, user, -, hk, hk'⟩
    obtain ⟨info, -, hu, -⟩ := scopeAdmits_iff.mp (scopeAdmits_of_allowed h hk)
    exact ⟨user, hu, hk, hk'⟩
  · rintro ⟨u, hu, hk, hk'⟩
    refine ⟨?_, exists_sampled h h' hu hk hk'⟩
    -- who can view a scope views one of the first policy
    rw [comparedScopes, mem_dedup, mem_cons, mem_append]
    exact (scope_of_allowed h hk).2.1.imp_right fun hin => .inl (AList.mem_keys.mp hin)

/-- All channels are gone: who could view one lost that. -/
theorem mem_revokedReadScopes_iff_removed :
    let := PngDecoder.none
    ∃ e e', newRoleEvaluator roleFixture = .ok e ∧
      newRoleEvaluator { roleFixture with revision := 2, channels := [] } = .ok e' ∧
      ((102 : Int) ∈ revokedReadScopes e e' ↔ ∃ u, 0 ≤ u ∧
        (e.evaluate u 102 viewChannel).allowed = true ∧
        ¬ (e'.evaluate u 102 viewChannel).allowed = true) := by
  let := PngDecoder.none
  obtain ⟨e, he⟩ := roleFixture_ok
  obtain ⟨e', he'⟩ := Fallible.exists_ok
    (show (newRoleEvaluator { roleFixture with revision := 2, channels := [] }).isOk = true by
      decide +kernel)
  exact ⟨e, e', he, he', mem_revokedReadScopes_iff he he' 102⟩

end Noxa.Authorization

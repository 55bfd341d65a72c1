import Mathlib.Data.List.Find
import Noxa.Authorization.Evaluate

/-!
# What an allowed decision means

`evaluate` returns a decision with its reason. The theorems about policies only ask whether it is
allowed, and this file says what that means without mentioning the order of roles or overrides:
the owner and administrators are allowed whatever the scope permits, and everyone else is allowed
the effective grants, where a grant is the outcome of three layers of overrides over the grants
of the roles.

## Main definitions

* `Layer` — a layer of overrides over a decision below it
* `Granted` — the three layers, over the grants of the roles
* `Exempt` — the owner and administrators

## Main results

* `evaluate_eq` — the recursive equation of the source
* `evaluate_exempt_iff`, `evaluate_plain_iff` — the two cases of an allowed decision
-/

namespace Noxa.Authorization

open Capability Prerequisite RoleEvaluator Option List

/-! ### One layer of overrides -/

/-- A layer of overrides: an applicable override that allows decides, else any applicable one
denies, else the decision below stands. -/
def Layer (overrides : List RoleOverride) (applies : RoleOverride → Prop) (below : Prop) : Prop :=
  (∃ o ∈ overrides, applies o ∧ o.effect = .allow) ∨ (∀ o ∈ overrides, ¬ applies o) ∧ below

variable {applies : RoleOverride → Prop} {below : Prop}

theorem layer_nil : Layer [] applies below ↔ below := by
  simp [Layer]

variable {overrides : List RoleOverride}

theorem Layer.mono {below' : Prop} (hsub : below → below') (h : Layer overrides applies below) :
    Layer overrides applies below' :=
  h.imp_right fun ⟨hno, hb⟩ => ⟨hno, hsub hb⟩

/-- A layer depends on its overrides only through the applicable ones it contains. -/
theorem layer_congr {overrides' : List RoleOverride}
    (h : ∀ o, applies o → (o ∈ overrides ↔ o ∈ overrides')) :
    Layer overrides applies below ↔ Layer overrides' applies below := by
  have hall : ∀ l l' : List RoleOverride, (∀ o, applies o → (o ∈ l ↔ o ∈ l')) →
      Layer l applies below → Layer l' applies below := by
    rintro l l' hl (⟨o, ho, ha, heff⟩ | ⟨hno, hb⟩)
    · exact .inl ⟨o, (hl o ha).mp ho, ha, heff⟩
    · exact .inr ⟨fun o ho ha => hno o ((hl o ha).mpr ho) ha, hb⟩
  exact ⟨hall _ _ h, hall _ _ fun o ha => (h o ha).symm⟩

/-- A loop that lets the last applicable override decide is a layer, when at most one override
applies. -/
theorem foldl_allowed_iff_layer {P : RoleOverride → Prop}
    [DecidablePred P] {f : RoleOverride → RoleDecision}
    (hf : ∀ o, (f o).allowed = true ↔ o.effect = .allow)
    (hunq : ∀ o ∈ overrides, ∀ o' ∈ overrides, P o → P o' → o = o')
    (d : RoleDecision) :
    (overrides.foldl (fun d o => if P o then f o else d) d).allowed = true ↔
      Layer overrides P (d.allowed = true) := by
  induction overrides generalizing d with
  | nil => simp [layer_nil]
  | cons x rest ih =>
    have hrs := ih fun o ho o' ho' =>
      hunq o (mem_cons_of_mem _ ho) o' (mem_cons_of_mem _ ho')
    rw [foldl_cons, hrs]
    by_cases hx : P x
    · have hsm : ∀ o ∈ rest, P o → o = x := fun o ho ha =>
        hunq o (mem_cons_of_mem _ ho) x mem_cons_self ha hx
      simp only [hx, if_true, hf, Layer, mem_cons, exists_eq_or_imp, forall_eq_or_imp, true_and,
        not_true_eq_false, false_and, or_false]
      constructor
      · rintro (⟨o, ho, ha, heff⟩ | ⟨-, heff⟩)
        · exact .inr ⟨o, ho, ha, heff⟩
        · exact .inl heff
      · rintro (heff | hex)
        · by_cases hno : ∀ o ∈ rest, ¬ P o
          · exact .inr ⟨hno, heff⟩
          · push Not at hno
            obtain ⟨o, ho, ha⟩ := hno
            exact .inl ⟨o, ho, ha, by rw [hsm o ho ha]; exact heff⟩
        · exact .inl hex
    · simp [hx, Layer]

namespace RoleEvaluator

variable (e : RoleEvaluator) (u : Int) (k : Capability) (o : RoleOverride)

/-! ### The three layers -/

/-- The overrides naming the user itself. -/
def OwnOverride : Prop :=
  0 < u ∧ o.userID = u ∧ o.capability = k

/-- The overrides naming one of the assigned roles. -/
def AssignedOverride : Prop :=
  o.capability = k ∧ o.roleID ≠ e.policy.everyoneID ∧ o.roleID ∈ e.memberRoles u

/-- The overrides naming `@everyone`. -/
def EveryoneOverride : Prop :=
  o.capability = k ∧ o.roleID = e.policy.everyoneID

/-- Some role of the user grants the capability. -/
def BaseGrant : Prop :=
  ∃ id ∈ e.roleIDsOf u, k ∈ e.permissionsOf id

/-- The outcome of the overrides in a list over the grants of the roles. -/
def GrantedBy (overrides : List RoleOverride) (u : Int) (k : Capability) : Prop :=
  Layer overrides (OwnOverride u k) (Layer overrides (e.AssignedOverride u k)
      (Layer overrides (e.EveryoneOverride k) (e.BaseGrant u k)))

/-- The capability is granted to the user in the scope, its requirements aside. -/
def Granted (u channelID : Int) (k : Capability) : Prop :=
  e.GrantedBy (e.effectiveOverrides channelID) u k

/-- The owner and administrators: overrides and requirements do not concern them. -/
def Exempt : Prop :=
  u = e.policy.ownerID ∨ ∃ id ∈ e.roleIDsOf u, administrator ∈ e.permissionsOf id

end RoleEvaluator

/-! ### From the loops to the layers -/

/-- What the layers need to know about a list of overrides. -/
structure ValidOverrides (roles : AList fun _ : Int => Role) (overrides : List RoleOverride) :
    Prop where
  valid : ∀ o ∈ overrides, ValidOverride roles o
  nodup : (overrides.map RoleOverride.key).Nodup

/-- An override is of one user or of one role, and no other is of the same. -/
theorem ValidOverrides.eq_of_subject {roles : AList fun _ : Int => Role}
    {overrides : List RoleOverride} (h : ValidOverrides roles overrides) {o o' : RoleOverride}
    (ho : o ∈ overrides) (ho' : o' ∈ overrides) (hk : o.capability = o'.capability)
    (hsm : 0 < o.userID ∧ o.userID = o'.userID ∨ 0 < o.roleID ∧ o.roleID = o'.roleID) :
    o = o' := by
  have hsbj := (h.valid o ho).subject
  have hsbj' := (h.valid o' ho').subject
  refine inj_on_of_nodup_map h.nodup ho ho' ?_
  rw [RoleOverride.key, RoleOverride.key, hk, show o.roleID = o'.roleID by omega,
    show o.userID = o'.userID by omega]

namespace Indexed

variable {p : RolePolicy} {e : RoleEvaluator} (h : Indexed p e)

include h

theorem lookup_zero : e.channels.lookup 0 = none :=
  h.channels.lookup_eq_none fun ch hch => by
    have := (h.channel ch hch).id_pos
    omega

theorem channelOf_cases (id : Int) : e.channelOf id = .zero ∨ e.channelOf id ∈ p.channels := by
  rw [channelOf]
  cases hch : e.channels.lookup id with
  | none => exact .inl rfl
  | some ch =>
    obtain ⟨x, hx, -, rfl⟩ := (h.channels.lookup_iff id ch).mp hch
    exact .inr hx

theorem overrideSource_cases (id : Int) :
    e.overrideSource id = .zero ∨ e.overrideSource id ∈ p.channels := by
  refine Chain.walk_induction (P := fun ch => ch = .zero ∨ ch ∈ p.channels) ?_
    (h.channelOf_cases id)
  intro a b _ hab
  obtain ⟨-, hab⟩ := Option.ite_none_right_eq_some.mp hab
  cases hab
  exact h.channelOf_cases a.parentID

theorem validOverrides (id : Int) : ValidOverrides e.roles (e.effectiveOverrides id) := by
  rw [effectiveOverrides]
  rcases h.overrideSource_cases id with hz | hmem
  · rw [hz]
    exact ⟨by simp [ChannelPolicy.zero], by simp [ChannelPolicy.zero]⟩
  · exact ⟨(h.channel _ hmem).overrides, (h.channel _ hmem).nodup⟩

variable {id : Int}

omit h in
theorem effectiveOverrides_none (hid : e.channels.lookup id = none) :
    e.effectiveOverrides id = [] := by
  have hz : e.channelOf id = .zero := by
    rw [channelOf, hid]
    rfl
  have hsp : syncParent? e.channels .zero = none := by simp [syncParent?, ChannelPolicy.zero]
  rw [effectiveOverrides, overrideSource, hz, Chain.walk_of_none hsp]
  rfl

theorem effectiveOverrides_zero : e.effectiveOverrides 0 = [] :=
  effectiveOverrides_none h.lookup_zero

theorem own_unique {u : Int} {k : Capability} :
    ∀ o ∈ e.effectiveOverrides id, ∀ o' ∈ e.effectiveOverrides id,
      OwnOverride u k o → OwnOverride u k o' → o = o' := by
  rintro o ho o' ho' ⟨hp, hu, hk⟩ ⟨-, hu', hk'⟩
  exact (h.validOverrides id).eq_of_subject ho ho' (hk.trans hk'.symm)
    (.inl ⟨hu ▸ hp, hu.trans hu'.symm⟩)

theorem everyone_unique {k : Capability} :
    ∀ o ∈ e.effectiveOverrides id, ∀ o' ∈ e.effectiveOverrides id,
      e.EveryoneOverride k o → e.EveryoneOverride k o' → o = o' := by
  rintro o ho o' ho' ⟨hk, hr⟩ ⟨hk', hr'⟩
  have hp := h.everyone_pos
  rw [h.policy] at hr hr'
  exact (h.validOverrides id).eq_of_subject ho ho' (hk.trans hk'.symm)
    (.inr ⟨by omega, hr.trans hr'.symm⟩)

end Indexed

namespace RoleEvaluator

variable {p : RolePolicy} {e : RoleEvaluator}
  {u channelID : Int} {k : Capability} {d : RoleDecision}

theorem baseDecision_allowed_iff : (e.baseDecision u k).allowed = true ↔ e.BaseGrant u k := by
  simp [baseDecision, grantingRoles, BaseGrant]

theorem applyRoles_allowed_iff {ch : ChannelPolicy} : (e.applyRoles ch u k d).allowed = true ↔
      Layer ch.overrides (e.AssignedOverride u k) (d.allowed = true) := by
  have hal : ((e.roleOverrides ch u k).filter (·.effect = .allow)).map (·.roleID) ≠ [] ↔
      ∃ o ∈ ch.overrides, e.AssignedOverride u k o ∧ o.effect = .allow := by
    simp [roleOverrides, AssignedOverride, and_comm, and_left_comm]
  have hdy : ((e.roleOverrides ch u k).filter (·.effect ≠ .allow)).map (·.roleID) ≠ [] ↔
      ∃ o ∈ ch.overrides, e.AssignedOverride u k o ∧ o.effect ≠ .allow := by
    simp [roleOverrides, AssignedOverride, and_comm, and_left_comm]
  simp only [applyRoles]
  split
  · rename_i hso
    exact iff_of_true rfl (.inl (hal.mp hso))
  rename_i hnl
  have hnl := mt hal.mpr hnl
  split
  · rename_i hso
    obtain ⟨o, ho, ha, -⟩ := hdy.mp hso
    refine iff_of_false (by simp) ?_
    rintro (hex | ⟨hno, -⟩)
    · exact hnl hex
    · exact hno o ho ha
  · rename_i hnod
    have hnod := mt hdy.mpr hnod
    have hno : ∀ o ∈ ch.overrides, ¬ e.AssignedOverride u k o := by
      intro o ho ha
      by_cases heff : o.effect = .allow
      · exact hnl ⟨o, ho, ha, heff⟩
      · exact hnod ⟨o, ho, ha, heff⟩
    exact ⟨fun hd => .inr ⟨hno, hd⟩, fun hl => hl.elim (fun hex => absurd hex hnl) (·.2)⟩

theorem applyEveryone_allowed_iff (h : Indexed p e) {id : Int} :
    (e.applyEveryone (e.overrideSource id) k d).allowed = true ↔
      Layer (e.effectiveOverrides id) (e.EveryoneOverride k) (d.allowed = true) := by
  exact foldl_allowed_iff_layer (P := fun o => o.capability = k ∧ o.roleID = e.policy.everyoneID)
    (fun o => by simp) h.everyone_unique d

theorem applyMember_allowed_iff (h : Indexed p e) {id : Int} :
    (e.applyMember (e.overrideSource id) u k d).allowed = true ↔
      Layer (e.effectiveOverrides id) (OwnOverride u k) (d.allowed = true) := by
  exact foldl_allowed_iff_layer (P := fun o => 0 < u ∧ o.userID = u ∧ o.capability = k)
    (fun o => by simp) h.own_unique d

/-- Once the scope is in order, the grant decision is the three layers. -/
theorem grantDecision_allowed_iff (h : Indexed p e) (hsc : e.scopeDecision u channelID k = none) :
    (e.grantDecision u channelID k).allowed = true ↔ e.Granted u channelID k := by
  simp only [grantDecision, Granted, GrantedBy]
  by_cases hch : 0 < channelID ∧ channelCapability k
  · rw [if_pos hch, applyMember_allowed_iff h, applyRoles_allowed_iff]
    rw [show (e.overrideSource channelID).overrides = e.effectiveOverrides channelID from rfl,
      applyEveryone_allowed_iff h, baseDecision_allowed_iff]
  · rw [if_neg hch, baseDecision_allowed_iff]
    have hz : channelID = 0 := by
      rw [scopeDecision] at hsc
      split at hsc
      · simp at hsc
      rename_i info hinf
      have hk : channelCapability k = info.channel := by simp [channelCapability, hinf]
      split at hsc
      · simp at hsc
      split at hsc
      · simp at hsc
      rename_i hneg hbad
      rw [hk] at hch
      by_contra hne
      have hp : 0 < channelID := by omega
      exact hbad ⟨hp, fun hc => hch ⟨hp, hc⟩⟩
    rw [hz, h.effectiveOverrides_zero]
    simp only [layer_nil]

/-! ### The recursion on requirements -/

/-- The depth bound is irrelevant above the rank of the capability. -/
theorem evaluateWithin_congr {n m : ℕ} (hn : k.rank < n) (hm : k.rank < m) :
    e.evaluateWithin n u channelID k = e.evaluateWithin m u channelID k := by
  induction n generalizing k m with
  | zero => omega
  | succ n ih =>
    obtain ⟨m, rfl⟩ : ∃ j, m = j + 1 := ⟨m - 1, by omega⟩
    have hreq : ∀ r ∈ k.requires, e.evaluateWithin n u channelID r =
        e.evaluateWithin m u channelID r := by
      intro r hr
      have := rank_lt_of_mem_requires hr
      exact ih (by omega) (by omega)
    have hfd : (k.requires.find? fun r => ¬ (e.evaluateWithin n u channelID r).allowed) =
          k.requires.find? fun r => ¬ (e.evaluateWithin m u channelID r).allowed :=
      find?_congr fun r hr => by rw [hreq r hr]
    rw [evaluateWithin, evaluateWithin, hfd]
    cases e.earlyDecision u channelID k with
    | some => rfl
    | none =>
      simp only
      split
      · split
        · rename_i r hr
          rw [hreq r (mem_of_find?_eq_some hr)]
        · rfl
      · rfl

/-- **The recursive equation of the source.** -/
theorem evaluate_eq (u channelID : Int) (k : Capability) : e.evaluate u channelID k =
      match e.earlyDecision u channelID k with
      | some d => d
      | none =>
        let d := e.grantDecision u channelID k
        if d.allowed then
          match k.requires.find? fun r => ¬ (e.evaluate u channelID r).allowed with
          | some r =>
            { e.evaluate u channelID r with reason := .requires, requirement := some r }
          | none => d
        else d := by
  have hdp : e.evaluate u channelID k = e.evaluateWithin 5 u channelID k :=
    evaluateWithin_congr (rank_lt_four k) (Nat.lt_succ_of_lt (rank_lt_four k))
  rw [hdp, evaluateWithin]
  rfl

theorem evaluate_allowed_of_early (hd : e.earlyDecision u channelID k = some d) :
    e.evaluate u channelID k = d := by
  rw [evaluate_eq, hd]

theorem evaluate_allowed_of_not_early (hd : e.earlyDecision u channelID k = none) :
    (e.evaluate u channelID k).allowed = true ↔ (e.grantDecision u channelID k).allowed = true ∧
        ∀ r ∈ k.requires, (e.evaluate u channelID r).allowed = true := by
  rw [evaluate_eq, hd]
  simp only
  split
  · rename_i hg
    split
    · rename_i r hr
      have hden : (e.evaluate u channelID r).allowed = false := by
        simpa using find?_some hr
      refine iff_of_false (by simp [hden]) fun hall => ?_
      rw [hall.2 r (mem_of_find?_eq_some hr)] at hden
      simp at hden
    · rename_i hno
      simp only [hg, true_and, true_iff]
      simpa [find?_eq_none] using hno
  · rename_i hg
    simp [hg]

/-! ### Who is allowed what -/

/-- The scope alone allows the capability or leaves it open. -/
def ScopeAdmits (e : RoleEvaluator) (u channelID : Int) (k : Capability) : Prop :=
  ∀ b r, e.scopeDecision u channelID k = some (b, r) → b = true

theorem scopeAdmits_iff :
    e.ScopeAdmits u channelID k ↔ ∃ info, capabilityInfo k = some info ∧ 0 ≤ u ∧
      0 ≤ channelID ∧ (0 < channelID → info.channel = true) ∧
      (channelID = 0 ∨ channelID ∈ e.channels) ∧
      ((e.channelOf channelID).systemKind = "home" → k ∉ homeDenied) := by
  rw [ScopeAdmits, scopeDecision]
  cases capabilityInfo k with
  | none => exact iff_of_false (by simp) (by simp)
  | some =>
    simp only [some.injEq, exists_eq_left']
    split
    · exact iff_of_false (by simp) (by omega)
    rename_i hp
    split
    · rename_i hcha
      refine iff_of_false (by simp) ?_
      rintro ⟨-, -, hin, -⟩
      exact hcha.2 (hin hcha.1)
    · rename_i hcha
      split
      · rename_i hunk
        refine iff_of_false (by simp) ?_
        rintro ⟨-, -, -, hin, -⟩
        exact hin.elim hunk.1 hunk.2
      · rename_i hkn
        rw [and_iff_right (by omega), and_iff_right (by omega),
          and_iff_right fun hs => by_contra fun hc => hcha ⟨hs, hc⟩,
          and_iff_right (by tauto)]
        split
        · rename_i hhm
          split
          · rename_i heq
            simp [heq, homeDenied]
          split
          · rename_i hdn
            simp [hhm, hdn]
          · rename_i hop
            simp [hop]
        · rename_i hhm
          simp [hhm]

/-- What a capability requires in a scope: nothing once the scope has decided it. -/
def scopeRequires (e : RoleEvaluator) (u channelID : Int) (k : Capability) :
    List Capability :=
  if (e.scopeDecision u channelID k).isSome then [] else k.requires

/-- A capability is granted in a scope: the scope decides it, or the layers do. -/
def ScopeGranted (e : RoleEvaluator) (u channelID : Int) (k : Capability) : Prop :=
  match e.scopeDecision u channelID k with
  | some (b, _) => b = true
  | none => e.Granted u channelID k

theorem administratorRole?_isSome_iff : (e.administratorRole? u).isSome ↔
      ∃ id ∈ e.roleIDsOf u, administrator ∈ e.permissionsOf id := by
  simp [administratorRole?, find?_isSome]

/-- **The owner and administrators** are allowed whatever the scope admits. -/
theorem evaluate_exempt_iff (hu : e.Exempt u) :
    (e.evaluate u channelID k).allowed = true ↔ e.ScopeAdmits u channelID k := by
  cases hs : e.scopeDecision u channelID k with
  | some br =>
    obtain ⟨b, r⟩ := br
    rw [evaluate_allowed_of_early (by rw [earlyDecision, hs])]
    simp [ScopeAdmits, hs]
  | none =>
    have hear : ∃ d, e.earlyDecision u channelID k = some d ∧ d.allowed = true := by
      rw [earlyDecision, hs]
      simp only
      split
      · exact ⟨_, rfl, rfl⟩
      rename_i hown
      have hadm := hu.resolve_left hown
      rw [← administratorRole?_isSome_iff, isSome_iff_exists] at hadm
      obtain ⟨id, hid⟩ := hadm
      rw [hid]
      exact ⟨_, rfl, rfl⟩
    obtain ⟨d, hd, hallo⟩ := hear
    rw [evaluate_allowed_of_early hd]
    simp [ScopeAdmits, hs, hallo]

/-- **Everyone else** is allowed the effective grants. -/
theorem evaluate_plain_iff (h : Indexed p e) (hu : ¬ e.Exempt u) (k : Capability) :
    (e.evaluate u channelID k).allowed = true ↔
      Effective (e.scopeRequires u channelID) (e.ScopeGranted u channelID) k := by
  have hear : ∀ k, e.scopeDecision u channelID k = none → e.earlyDecision u channelID k = none := by
    intro k hs
    have hown : ¬ u = e.policy.ownerID := fun he => hu (.inl he)
    have hadm : e.administratorRole? u = none := by
      rw [← not_isSome_iff_eq_none, administratorRole?_isSome_iff]
      exact fun hex => hu (.inr hex)
    rw [earlyDecision, hs]
    simp only [if_neg hown, hadm]
  -- the requirements of `k` have smaller rank
  induction hrk : k.rank using Nat.strong_induction_on generalizing k with
  | _ n ih =>
    rw [effective_iff]
    cases hs : e.scopeDecision u channelID k with
    | some br =>
      obtain ⟨b, r⟩ := br
      rw [evaluate_allowed_of_early (by rw [earlyDecision, hs])]
      simp [ScopeGranted, scopeRequires, hs]
    | none =>
      rw [evaluate_allowed_of_not_early (hear k hs), grantDecision_allowed_iff h hs]
      simp only [ScopeGranted, scopeRequires, hs, isSome_none, Bool.false_eq_true, if_false]
      refine and_congr_right fun _ => forall₂_congr fun r hr => ?_
      exact ih r.rank (hrk ▸ rank_lt_of_mem_requires hr) r rfl

end RoleEvaluator

end Noxa.Authorization

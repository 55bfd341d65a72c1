import Noxa.Authorization.RoleRemoval

/-!
# Amplification through role definitions and assignments

Editing a role, or the roles of a member, changes the grants of other users. The guards of
`ApplyRoleChange` compare what is literally added: every capability added to a role, or to a
member by a new role, must be one the actor may use at the server scope.

A literal grant is not the whole story. A grant without its requirements is dormant, and adding
the missing requirement wakes it up: a moderator that may view channels but not read their history
can add `viewChannel` to a role that already has `readHistory`. `amplification_of_dormant_grant`
is that edit. The guard on channel overrides, `authorizeMemberChannelGains`, compares effective
capabilities and does not have this gap.

`no_amplification_iff` says that this is the only gap: an accepted edit gives nobody a server-wide
capability the actor lacks exactly when it wakes no such dormant grant.

## Main definitions

* `WakesOnly` — the dormant grants an edit completes are within the actor's capabilities

## Main results

* `server_allowed_iff` — decisions at the server scope
* `no_amplification_iff` — the exact condition
-/

namespace Noxa.Authorization

open Capability Prerequisite RoleEvaluator

variable {p p' draft : RolePolicy} {e e' : RoleEvaluator} {actorID : Int}

/-! ### Decisions at the server scope -/

variable {k : Capability} {u : Int}

theorem Indexed.known_of_baseGrant (h : Indexed p e)
    (hk : e.BaseGrant u k) : (capabilityInfo k).isSome = true := by
  obtain ⟨id, hid, hpm⟩ := hk
  obtain ⟨r, hr, rfl⟩ := h.roles.mem_iff.mp (h.roleIDsOf_mem hid)
  have hlk : e.roles.lookup r.id = some r := h.roles.lookup_eq hr
  simp only [permissionsOf, hlk, Option.map_some, Option.getD_some] at hpm
  exact h.permissions r hr k hpm

theorem Indexed.scopeDecision_server (h : Indexed p e) : e.scopeDecision u 0 k =
      if (capabilityInfo k).isSome ∧ 0 ≤ u then none else some (false, .invalidContext) := by
  have hpln : (e.channelOf 0).systemKind ≠ "home" := by
    rw [channelOf, h.lookup_zero]
    decide
  rw [scopeDecision]
  cases hinf : capabilityInfo k with
  | none => simp
  | some =>
    by_cases hu : u < 0
    · simp [hu]
    · simp [hu, hpln, show 0 ≤ u by omega]

/-- **The server scope.** A known capability is allowed to the owner, to administrators, and to a
user whose roles grant it and everything it requires. -/
theorem server_allowed_iff (h : Indexed p e) :
    (e.evaluate u 0 k).allowed = true ↔ (capabilityInfo k).isSome = true ∧ 0 ≤ u ∧
      (e.Exempt u ∨ Effective requires (e.BaseGrant u) k) := by
  by_cases hu : e.Exempt u
  · rw [evaluate_exempt_iff hu, ScopeAdmits, h.scopeDecision_server]
    by_cases hk : (capabilityInfo k).isSome ∧ 0 ≤ u
    · simp [hk, hu]
    · rw [if_neg hk]
      simp only [Option.some.injEq, Prod.mk.injEq, hu, true_or, and_true, hk, iff_false]
      exact fun hall => absurd (hall false _ ⟨rfl, rfl⟩) (by simp)
  · rw [evaluate_plain_iff h hu]
    simp only [hu, false_or]
    -- the scope leaves a known capability to the grants of the roles
    have hg : ∀ k, e.ScopeGranted u 0 k ↔ 0 ≤ u ∧ e.BaseGrant u k := by
      intro k
      rw [ScopeGranted, h.scopeDecision_server]
      by_cases hk : (capabilityInfo k).isSome ∧ 0 ≤ u
      · rw [if_pos hk]
        simp [Granted, GrantedBy, h.effectiveOverrides_zero, layer_nil, hk.2]
      · rw [if_neg hk]
        simp only [Bool.false_eq_true, false_iff, not_and]
        exact fun h0 hb => hk ⟨h.known_of_baseGrant hb, h0⟩
    have hreq : 0 ≤ u → ∀ k, e.scopeRequires u 0 k = k.requires := by
      intro h0 k
      rw [scopeRequires, h.scopeDecision_server]
      by_cases hk : (capabilityInfo k).isSome = true
      · simp [hk, h0]
      · have hno : capabilityInfo k = none := by simpa using hk
        simp [hno, requires]
    constructor
    · intro heff
      have h0 := ((hg k).mp heff.own).1
      refine ⟨h.known_of_baseGrant ((hg k).mp heff.own).2, h0, ?_⟩
      rw [show e.scopeRequires u 0 = requires from funext (hreq h0)] at heff
      exact heff.mono fun k hk => ((hg k).mp hk).2
    · rintro ⟨-, h0, heff⟩
      rw [show e.scopeRequires u 0 = requires from funext (hreq h0)]
      exact heff.mono fun k hk => (hg k).mpr ⟨h0, hk⟩

/-! ### The grants after an edit -/

/-- The roles of a user after a change, read off the request. -/
def roleIDsAfter (e : RoleEvaluator) (change : RoleChange) (u : Int) : List Int :=
  match change.kind with
  | .roleDelete => (e.roleIDsOf u).filter (· ≠ change.roleID)
  | .memberRolesSet =>
    if u = change.userID then e.policy.everyoneID :: change.roleIDs else e.roleIDsOf u
  | _ => e.roleIDsOf u

/-- The capabilities of a role after a change, read off the request. -/
def permissionsAfter (e : RoleEvaluator) (change : RoleChange) (roleID : Int) : List Capability :=
  match change.kind with
  | .roleUpdate =>
    if roleID = change.role.id then change.role.permissions else e.permissionsOf roleID
  | _ => e.permissionsOf roleID

/-- The capability will be literally granted to the user once the change is made. -/
def GrantAfter (e : RoleEvaluator) (change : RoleChange) (u : Int) (k : Capability) : Prop :=
  ∃ id ∈ roleIDsAfter e change u, k ∈ permissionsAfter e change id

/-- Every dormant grant that the change completes is of a capability the actor may use. A grant
is dormant when a role of the user has it but something it requires is missing. -/
def WakesOnly (e : RoleEvaluator) (actorID : Int) (change : RoleChange) : Prop :=
  ∀ u k, 0 ≤ u → ¬ e.Exempt u → e.BaseGrant u k → ¬ Effective requires (e.BaseGrant u) k →
    Effective requires (GrantAfter e change u) k → (e.evaluate actorID 0 k).allowed = true

/-- What a change does to the literal grants: they become `GrantAfter`, a new one is of a
capability the actor may use, and nobody becomes exempt. -/
structure GrantsEdited (e e' : RoleEvaluator) (actorID : Int) (change : RoleChange) : Prop where
  after : ∀ u k, e'.BaseGrant u k ↔ GrantAfter e change u k
  added : ∀ u k, e'.BaseGrant u k → e.BaseGrant u k ∨ (e.evaluate actorID 0 k).allowed = true
  exempt : ∀ u, e'.Exempt u → e.Exempt u

variable {change : RoleChange}

theorem GrantsEdited.of_roles (how : e'.policy.ownerID = e.policy.ownerID)
    (hi : ∀ u, e'.roleIDsOf u = roleIDsAfter e change u)
    (hpms : ∀ u, ∀ id ∈ e'.roleIDsOf u, e'.permissionsOf id = permissionsAfter e change id)
    (hkey : ∀ u, ∀ id ∈ e'.roleIDsOf u, ∀ c ∈ e'.permissionsOf id,
      (id ∈ e.roleIDsOf u ∧ c ∈ e.permissionsOf id) ∨
        (c ≠ administrator ∧ (e.evaluate actorID 0 c).allowed = true)) :
    GrantsEdited e e' actorID change := by
  refine ⟨fun u k => ?_, fun u k hk => ?_, ?_⟩
  · rw [BaseGrant, GrantAfter, ← hi]
    exact exists_congr fun id => and_congr_right fun hid => by rw [hpms u id hid]
  · obtain ⟨id, hid, hk⟩ := hk
    rcases hkey u id hid k hk with hin | ⟨-, hal⟩
    · exact .inl ⟨id, hin⟩
    · exact .inr hal
  · rintro u (hx | ⟨id, hid, ha⟩)
    · exact .inl (hx.trans how)
    · rcases hkey u id hid _ ha with hin | ⟨hne, -⟩
      · exact .inr ⟨id, hin⟩
      · exact absurd rfl hne

section

variable (h : Indexed p e) (h' : Indexed (savedPolicy draft) e') (ho : actorID ≠ p.ownerID)

include h h' ho

omit ho in
theorem grantsEdited_roleCreate (hkd : change.kind = .roleCreate)
    (hd : draftRoleCreate e p actorID change = .ok draft) : GrantsEdited e e' actorID change := by
  have hs : ∀ u, SameRoles e e' u := fun u => sameRoles_roleCreate h h' hd
  have hi : ∀ u, e'.roleIDsOf u = e.roleIDsOf u := fun u =>
    (hs u).roleIDsOf
  refine .of_roles (hs 0).owner (fun u => ?_) (fun u id hid => ?_) fun u id hid c hc =>
    .inl ?_
  · rw [hi, roleIDsAfter, hkd]
  · rw [(hs u).permissions id (hi u ▸ hid), permissionsAfter, hkd]
  · rw [hi] at hid
    exact ⟨hid, (hs u).permissions id hid ▸ hc⟩

theorem grantsEdited_roleUpdate (hkd : change.kind = .roleUpdate)
    (hd : draftRoleUpdate e p actorID change = .ok draft) : GrantsEdited e e' actorID change := by
  have hs := sameSubject_roleUpdate h h' ho hd
  have hi : ∀ u, e'.roleIDsOf u = e.roleIDsOf u := fun u =>
    (hs u).1.roleIDsOf
  refine .of_roles (hs 0).1.owner (fun u => ?_) (fun u id hid => ?_)
    fun u id hid c hc => ?_
  · rw [hi, roleIDsAfter, hkd]
  · rw [((hs u).2 id (hi u ▸ hid)).1, permissionsAfter, hkd]
  · rw [hi] at hid
    exact (((hs u).2 id hid).2 c hc).imp_left fun hin => ⟨hid, hin⟩

theorem grantsEdited_roleDelete [PngDecoder] (hkd : change.kind = .roleDelete)
    (hd : draftRoleDelete e p actorID change = .ok draft) : GrantsEdited e e' actorID change := by
  obtain ⟨rfl, hne, -⟩ := draftRoleDelete_ok h ho hd
  have hr := (roleRemoved_withoutRole p change.roleID).saved
  refine .of_roles (by rw [h.policy, h'.policy, hr.owner]) (fun u => ?_)
    (fun u id hid => ?_) fun u id hid c hc => .inl ?_
  · rw [roleIDsAfter, hkd]
    simp only [roleIDsOf, hr.memberRoles h h', h.policy, h'.policy, hr.everyone]
    rw [List.filter_cons_of_pos (by simpa using hne.symm)]
  · rw [(hr.permissionsOf h h' hid hne).2, permissionsAfter, hkd]
  · obtain ⟨hid', hpms⟩ := hr.permissionsOf h h' hid hne
    exact ⟨hid', hpms ▸ hc⟩

theorem grantsEdited_memberRolesSet [PngDecoder] (hkd : change.kind = .memberRolesSet)
    (hd : draftMemberRolesSet e p actorID change = .ok draft) :
    GrantsEdited e e' actorID change := by
  obtain ⟨-, rfl, hgrd⟩ := draftMemberRolesSet_ok hd
  have how : actorID ≠ e.policy.ownerID := by rw [h.policy]; exact ho
  have hev : e'.policy.everyoneID = e.policy.everyoneID := by
    rw [h.policy, h'.policy]
    rfl
  have htgt : e'.memberRoles change.userID = change.roleIDs := by
    rw [memberRoles]
    cases hl : e'.members.lookup change.userID with
    | some ids =>
      obtain ⟨⟨u, ids'⟩, hm, hu, hi⟩ := (h'.members.lookup_iff _ _).mp hl
      obtain rfl : u = change.userID := hu
      obtain rfl : ids' = ids := hi
      exact (mem_setMemberRoles_self.mp hm).2
    | none =>
      by_contra hne
      have hso := h'.members.lookup_eq
        (mem_setMemberRoles_self.mpr ⟨fun hnil => hne (by simp [hnil]), rfl⟩)
      rw [hl] at hso
      simp at hso
  have hi : ∀ u, e'.roleIDsOf u = roleIDsAfter e change u := by
    intro u
    rw [roleIDsAfter, hkd]
    simp only
    split
    · rename_i heq
      rw [roleIDsOf, hev, heq, htgt]
    rename_i hne
    rw [roleIDsOf, roleIDsOf, hev]
    congr 1
    exact memberRoles_eq h h' fun m hm => (mem_setMemberRoles_of_ne (by rw [hm]; exact hne)).symm
  have hpms : ∀ u, ∀ id ∈ e'.roleIDsOf u, e'.permissionsOf id = e.permissionsOf id := by
    intro u id hid
    exact (permissionsOf_eq h' h (h'.roleIDsOf_mem hid) fun r hr hrid =>
      ⟨r, mem_savedPolicy_roles.mp hr, hrid, rfl⟩).symm
  -- a role the user has after the edit was there, or its capabilities are the actor's
  have hkey : ∀ u, ∀ id ∈ e'.roleIDsOf u, ∀ c ∈ e'.permissionsOf id,
      (id ∈ e.roleIDsOf u ∧ c ∈ e.permissionsOf id) ∨
        (c ≠ administrator ∧ (e.evaluate actorID 0 c).allowed = true) := by
    intro u id hid c hc
    rw [hpms u id hid] at hc
    by_cases hold : id ∈ e.roleIDsOf u
    · exact .inl ⟨hold, hc⟩
    right
    rw [hi, roleIDsAfter, hkd] at hid
    simp only at hid
    split at hid
    · rename_i heq
      subst heq
      rw [roleIDsOf, List.mem_cons, not_or] at hold
      have hid' := (List.mem_cons.mp hid).resolve_left hold.1
      exact canGrantCapabilities_spec how (hgrd id hid' hold.2) hc
    · exact absurd hid hold
  refine .of_roles (by rw [h.policy, h'.policy]; rfl) hi (fun u id hid => ?_) hkey
  rw [hpms u id hid, permissionsAfter, hkd]

/-! ### The exact condition -/

/-- The changes that define roles or assign them. -/
def definesOrAssigns (kind : RoleChangeKind) : Prop :=
  kind = .roleCreate ∨ kind = .roleUpdate ∨ kind = .roleDelete ∨ kind = .memberRolesSet

theorem grantsEdited [PngDecoder] (hkd : definesOrAssigns change.kind)
    (hd : draftRoleChange e p actorID change = .ok draft) : GrantsEdited e e' actorID change := by
  rcases hkd with hk | hk | hk | hk <;> rw [draftRoleChange, hk] at hd
  · exact grantsEdited_roleCreate h h' hk hd
  · exact grantsEdited_roleUpdate h h' ho hk hd
  · exact grantsEdited_roleDelete h h' ho hk hd
  · exact grantsEdited_memberRolesSet h h' ho hk hd

end

/-- **Amplification, exactly.** An accepted edit of a role or of assignments gives nobody a
server-wide capability that the actor lacks if and only if it wakes no dormant grant beyond the
actor's capabilities. -/
theorem no_amplification_iff [PngDecoder] {p p' : RolePolicy} {e e' : RoleEvaluator}
    {actorID : Int} {change : RoleChange} (hp : newRoleEvaluator p = .ok e)
    (ho : actorID ≠ p.ownerID) (hkd : definesOrAssigns change.kind)
    (hchg : applyRoleChange p actorID change = .ok p') (hp' : newRoleEvaluator p' = .ok e') :
    (∀ u k, (e'.evaluate u 0 k).allowed = true →
      ¬ (e.evaluate u 0 k).allowed = true → (e.evaluate actorID 0 k).allowed = true) ↔
      WakesOnly e actorID change := by
  obtain ⟨e₀, draft, e₁, he₀, -, hd, rfl, he₁⟩ := applyRoleChange_ok hchg
  rw [hp] at he₀
  cases he₀
  have h := newRoleEvaluator_ok hp
  have h' := newRoleEvaluator_ok hp'
  have hed := grantsEdited h h' ho hkd hd
  have haft : ∀ u, e'.BaseGrant u = GrantAfter e change u := fun u =>
    funext fun k => propext (hed.after u k)
  constructor
  · intro hpr u k h0 hpln hbs hdor hwk
    rw [← haft] at hwk
    refine hpr u k ?_ ?_
    · rw [server_allowed_iff h']
      exact ⟨h.known_of_baseGrant hbs, h0, .inr hwk⟩
    rw [server_allowed_iff h]
    rintro ⟨-, -, hex | heff⟩
    · exact hpln hex
    · exact hdor heff
  · intro hwak u k hal hbef
    obtain ⟨hkn, h0, hrsn⟩ := (server_allowed_iff h').mp hal
    rw [server_allowed_iff h] at hbef
    push Not at hbef
    have hpln : ¬ e.Exempt u ∧ ¬ Effective requires (e.BaseGrant u) k :=
      hbef hkn h0
    have heff := hrsn.resolve_left fun hx => hpln.1 (hed.exempt u hx)
    rcases hed.added u k heff.own with hold | hhd
    · exact hwak u k h0 hpln.1 hold hpln.2 (haft u ▸ heff)
    · exact hhd

/-- A moderator adds a capability it has to the role below its own. -/
theorem no_amplification_iff_moderator :
    let := PngDecoder.none
    let change : RoleChange := { kind := .roleUpdate, expectedRevision := 1, role :=
      { id := 20, name := "Member", position := 1, permissions := [.sendMessages, .kickMembers] } }
    ∃ e p' e', newRoleEvaluator roleFixture = .ok e ∧ (2 : Int) ≠ roleFixture.ownerID ∧
      definesOrAssigns change.kind ∧ applyRoleChange roleFixture 2 change = .ok p' ∧
      newRoleEvaluator p' = .ok e' ∧
      ((∀ u k, (e'.evaluate u 0 k).allowed = true →
        ¬ (e.evaluate u 0 k).allowed = true → (e.evaluate 2 0 k).allowed = true) ↔
        WakesOnly e 2 change) := by
  intro _ change
  obtain ⟨e, he⟩ := roleFixture_ok
  obtain ⟨p', hp'⟩ := Fallible.exists_ok
    (show (applyRoleChange roleFixture 2 change).isOk = true by decide +kernel)
  obtain ⟨-, -, e', -, -, -, -, he'⟩ := applyRoleChange_ok hp'
  exact ⟨e, p', e', he, by decide, .inr (.inl rfl), hp', he',
    no_amplification_iff he (by decide) (.inr (.inl rfl)) hp' he'⟩

/-! ### A dormant grant -/

/-- User 2 manages roles and may view channels, but may not read history. User 3 has a role with
`readHistory` and nothing to use it with. -/
def dormantFixture : RolePolicy where
  revision := 1
  ownerID := 1
  everyoneID := 10
  roles :=
    [{ id := 10, name := "@everyone", position := 0, permissions := [] },
     { id := 20, name := "Reader", position := 1, permissions := [.readHistory] },
     { id := 30, name := "Moderator", position := 2, permissions := [.manageRoles, .viewChannel] }]
  members := [⟨2, [30]⟩, ⟨3, [20]⟩]
  channels := []

/-- The moderator adds `viewChannel` to the role of user 3. -/
def wakingChange : RoleChange where
  kind := .roleUpdate
  expectedRevision := 1
  role := { id := 20, name := "Reader", position := 1, permissions := [.readHistory, .viewChannel] }

/-- The policy the moderator's change leaves behind. -/
def wokenFixture : RolePolicy :=
  { dormantFixture with
    revision := 2
    roles :=
      [{ id := 10, name := "@everyone", position := 0, permissions := [] },
       { id := 20, name := "Reader", position := 1, permissions := [.readHistory, .viewChannel] },
       { id := 30, name := "Moderator", position := 2,
         permissions := [.manageRoles, .viewChannel] }] }

/-- The decision on a capability at the server scope of a policy, if the policy is accepted. -/
def serverAllows [PngDecoder] (p : RolePolicy) (u : Int) (k : Capability) : Option Bool :=
  (newRoleEvaluator p).toOption.map fun e => (e.evaluate u 0 k).allowed

/-- **A role edit amplifies.** The edit is accepted, user 3 may now read history everywhere, and
neither user 3 nor the moderator could before. -/
theorem amplification_of_dormant_grant :
    let := PngDecoder.none
    (2 : Int) ≠ dormantFixture.ownerID ∧ definesOrAssigns wakingChange.kind ∧
      applyRoleChange dormantFixture 2 wakingChange = .ok wokenFixture ∧
      serverAllows wokenFixture 3 .readHistory = some true ∧
      serverAllows dormantFixture 3 .readHistory = some false ∧
      serverAllows dormantFixture 2 .readHistory = some false := by
  refine ⟨by decide, .inr (.inl rfl), ?_, by decide +kernel, by decide +kernel, by decide +kernel⟩
  rfl

end Noxa.Authorization

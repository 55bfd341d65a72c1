import Noxa.Authorization.Frame

/-!
# Edits of roles and members

The role changes that keep every role: creating, updating and reordering roles, and setting the
roles of a member. None of them allows the acting user anything new. Only updating a role needs an
argument: the actor may hold the role, but every capability added to it was already granted to
the actor.

## Main results

* `applyRoleChange_ok`, `applyChannelTreeChange_ok` — what an accepted change went through
* `noGain_roleCreate`, `noGain_rolesReorder`, `noGain_memberRolesSet`, `noGain_roleUpdate`
-/

namespace Noxa.Authorization

open Capability RoleEvaluator List Fallible

variable {p p' draft : RolePolicy} {e e' : RoleEvaluator} {actorID : Int}

/-! ### Inversion -/

/-- The policy that is saved for the draft of a role change. -/
def savedPolicy (draft : RolePolicy) : RolePolicy :=
  { draft with
    revision := int64 (draft.revision + 1)
    roles := draft.roles.insertionSort (·.position ≤ ·.position) }

variable {change : RoleChange} {u : Int}

theorem applyRoleChange_ok [PngDecoder] (h : applyRoleChange p actorID change = .ok p') :
    ∃ e draft e', newRoleEvaluator p = .ok e ∧ 1 ≤ actorID ∧
      draftRoleChange e p actorID change = .ok draft ∧ p' = savedPolicy draft ∧
      newRoleEvaluator p' = .ok e' := by
  rw [applyRoleChange, guard_eq_ok] at h
  obtain ⟨-, h⟩ := h
  split at h
  · simp at h
  rename_i e he
  simp only [guard_eq_ok] at h
  obtain ⟨-, hac, -, h⟩ := h
  split at h
  · simp at h
  rename_i draft hdrf
  split at h
  · simp at h
  rename_i e' he'
  cases h
  exact ⟨e, draft, e', he, by omega, hdrf, rfl, he'⟩

theorem applyChannelTreeChange_ok [PngDecoder] {change : ChannelTreeChange}
    (h : applyChannelTreeChange p actorID change = .ok p') :
    ∃ e draft e', newRoleEvaluator p = .ok e ∧ 1 ≤ actorID ∧ 0 < change.channelID ∧
      draftChannelTreeChange e p actorID change = .ok draft ∧
      p' = { draft with revision := int64 (draft.revision + 1) } ∧
      newRoleEvaluator p' = .ok e' := by
  rw [applyChannelTreeChange, guard_eq_ok] at h
  obtain ⟨-, h⟩ := h
  split at h
  · simp at h
  rename_i e he
  simp only [guard_eq_ok] at h
  obtain ⟨-, hac, hids, -, -, h⟩ := h
  split at h
  · simp at h
  rename_i draft hdrf
  split at h
  · simp at h
  rename_i e' he'
  rw [guard_eq_ok] at h
  obtain rfl : e'.policy = p' := Except.ok.inj h.2
  have hpol := (newRoleEvaluator_ok he').policy
  refine ⟨e, draft, e', he, by omega, by omega, hdrf, hpol, ?_⟩
  rw [hpol]
  exact he'

/-! ### Edits that leave the actor's roles alone -/

section

variable (h : Indexed p e) (h' : Indexed p' e') (how : p'.ownerID = p.ownerID)
  (hev : p'.everyoneID = p.everyoneID)
  (hmbs : ∀ m, m.userID = u → (m ∈ p.members ↔ m ∈ p'.members))

include h h'

include how hev hmbs in
/-- Policies with the same owner, `@everyone` and assignments of the user. -/
theorem sameSubject_of_members : SameSubject e e' u :=
  { owner := by rw [h.policy, h'.policy, how]
    everyone := by rw [h.policy, h'.policy, hev]
    roles := memberRoles_eq h h' hmbs }

include how hev hmbs in
/-- Beside that, every role keeps its permissions. -/
theorem sameRoles_of_lists
    (hrls : ∀ r ∈ p.roles, ∃ r' ∈ p'.roles, r'.id = r.id ∧ r'.permissions = r.permissions) :
    SameRoles e e' u :=
  { sameSubject_of_members h h' how hev hmbs with
    permissions := fun _ hid => permissionsOf_eq h h' (h.roleIDsOf_mem hid)
      fun r hr hrid => hrid ▸ hrls r hr }

include how hev in
theorem sameRoles_of_mem (hsm : p'.members = p.members) (hrls : ∀ r ∈ p.roles, r ∈ p'.roles) :
    SameRoles e e' u :=
  sameRoles_of_lists h h' how hev (fun _ _ => by rw [hsm])
    fun r hr => ⟨r, hrls r hr, rfl, rfl⟩

theorem noGain_of_sameRoles (hs : SameRoles e e' u)
    (hchs : p'.channels = p.channels) : NoGain e e' u :=
  .of_base h h' hs.toSameSubject hchs (fun id hid ha => hs.permissions id hid ▸ ha)
    fun _ _ hb => hs.baseGrant hb

end

theorem mem_savedPolicy_roles {r : Role} : r ∈ (savedPolicy draft).roles ↔ r ∈ draft.roles :=
  mem_insertionSort _

/-- A role after another one was inserted below it. -/
def raisedRole (r : Role) : Role :=
  if r.position > 0 then { r with position := int64 (r.position + 1) } else r

theorem raisedRole_same (r : Role) :
    (raisedRole r).id = r.id ∧ (raisedRole r).permissions = r.permissions := by
  rw [raisedRole]
  split <;> exact ⟨rfl, rfl⟩

section

variable (h : Indexed p e) (h' : Indexed (savedPolicy draft) e')
  (hd : draftRoleCreate e p actorID change = .ok draft)

include hd

theorem draftRoleCreate_ok : ∃ r, r.id ∉ e.roles ∧ r.position = 1 ∧ p.roles.length < 250 ∧
      (actorID ≠ p.ownerID → e.highestRole actorID ≠ 0) ∧
      draft = { p with roles := p.roles.map raisedRole ++ [r] } := by
  simp only [draftRoleCreate, guard_eq_ok] at hd
  obtain ⟨hsz, hn, hhi, -, -, hd⟩ := hd
  cases hd
  exact ⟨{ change.role with
      deletionProtected := change.role.deletionProtected || administrator ∈ change.role.permissions
      position := 1 },
    hn, rfl, by omega, fun ho h0 => hhi ⟨ho, h0⟩, rfl⟩

include h h'

theorem sameRoles_roleCreate : SameRoles e e' u := by
  obtain ⟨_, -, -, -, -, rfl⟩ := draftRoleCreate_ok hd
  refine sameRoles_of_lists h h' rfl rfl (fun _ _ => Iff.rfl) fun r hr => ?_
  refine ⟨raisedRole r, mem_savedPolicy_roles.mpr ?_, raisedRole_same r⟩
  exact mem_append_left _ (mem_map_of_mem hr)

theorem noGain_roleCreate : NoGain e e' actorID := by
  refine noGain_of_sameRoles h h' (sameRoles_roleCreate h h' hd) ?_
  obtain ⟨_, -, -, -, -, rfl⟩ := draftRoleCreate_ok hd
  rfl

end

/-- A role after its place in the requested order was given to it. -/
def placedRole (position : ℕ) (ids : List Int) (r : Role) : Role :=
  if r.id ∈ ids then { r with position := (position + ids.idxOf r.id : ℕ) } else r

theorem placedRole_same (position : ℕ) (ids : List Int) (r : Role) :
    (placedRole position ids r).id = r.id ∧
      (placedRole position ids r).permissions = r.permissions := by
  rw [placedRole]
  split <;> exact ⟨rfl, rfl⟩

/-- **The reorder loop.** It numbers the roles in the requested order; the order repeats nothing,
and a role that is not the owner's to place keeps its position. -/
theorem reorderLoop_ok {position : ℕ} {seen ids : List Int} {roles roles' : List Role}
    (hl : reorderLoop e p actorID position seen roles ids = .ok roles') :
    roles' = roles.map (placedRole position ids) ∧ ids.Nodup ∧ (∀ id ∈ ids, id ∉ seen) ∧
      ∀ id ∈ ids, ∃ r, e.roles.lookup id = some r ∧ (actorID ≠ p.ownerID →
        r.position = (position + ids.idxOf id : ℕ) ∨ (e.canManageRole actorID id = true ∧
          ((position + ids.idxOf id : ℕ) : Int) < e.highestRole actorID)) := by
  induction ids generalizing position seen roles with
  | nil =>
    cases hl
    refine ⟨?_, nodup_nil, by simp, by simp⟩
    exact (map_id'' (fun r => by rw [placedRole, if_neg not_mem_nil]) _).symm
  | cons id rest ih =>
    rw [reorderLoop] at hl
    split at hl
    · simp at hl
    rename_i r hr
    simp only [guard_eq_ok] at hl
    obtain ⟨hsn, hgrd, hl⟩ := hl
    obtain ⟨rfl, hnd, hfr, hpl⟩ := ih hl
    simp only [mem_cons, not_or] at hfr
    have hid : id ∉ rest := fun hmem => (hfr id hmem).1 rfl
    -- the index of a later role, counted from here
    have hidx : ∀ x ∈ rest, position + 1 + rest.idxOf x = position + (id :: rest).idxOf x := by
      intro x hx
      rw [idxOf_cons_ne rest fun heq : id = x => hid (heq ▸ hx)]
      omega
    refine ⟨?_, nodup_cons.mpr ⟨hid, hnd⟩, ?_, ?_⟩
    · rw [map_map]
      refine map_congr_left fun x _ => ?_
      by_cases hx : x.id = id
      · simp [placedRole, hx, hid]
      by_cases hmem : x.id ∈ rest
      · simp only [Function.comp, if_neg hx, placedRole, hmem, if_true,
          mem_cons_of_mem id hmem, hidx x.id hmem]
      · simp [placedRole, hx, hmem]
    · exact forall_mem_cons.mpr ⟨hsn, fun x hx => (hfr x hx).2⟩
    · rw [forall_mem_cons]
      constructor
      · refine ⟨r, hr, fun ho => ?_⟩
        rw [idxOf_cons_self, Nat.add_zero]
        by_cases hpos : r.position = position
        · exact .inl hpos
        right
        by_contra hno
        refine hgrd ⟨ho, hpos, ?_⟩
        by_cases hmng : e.canManageRole actorID id = true
        · exact .inr (not_lt.mp fun hlt => hno ⟨hmng, hlt⟩)
        · exact .inl hmng
      · intro x hx
        obtain ⟨r', hr', hcs⟩ := hpl x hx
        rw [hidx x hx] at hcs
        exact ⟨r', hr', hcs⟩

theorem draftRolesReorder_ok (hd : draftRolesReorder e p actorID change = .ok draft) :
    change.roleIDs.length = p.roles.length ∧ ∃ roles,
      reorderLoop e p actorID 0 [] p.roles change.roleIDs = .ok roles ∧
      draft = { p with roles := roles } := by
  rw [draftRolesReorder, guard_eq_ok] at hd
  obtain ⟨hlen, hd⟩ := hd
  split at hd
  · simp at hd
  rename_i roles hlp
  cases hd
  exact ⟨by tauto, roles, hlp, rfl⟩

theorem noGain_rolesReorder (h : Indexed p e) (h' : Indexed (savedPolicy draft) e')
    (hd : draftRolesReorder e p actorID change = .ok draft) : NoGain e e' actorID := by
  obtain ⟨-, roles, hlp, rfl⟩ := draftRolesReorder_ok hd
  obtain ⟨rfl, -⟩ := reorderLoop_ok hlp
  refine noGain_of_sameRoles h h' (sameRoles_of_lists h h' rfl rfl (fun _ _ => Iff.rfl) ?_) rfl
  intro r hr
  exact ⟨_, mem_savedPolicy_roles.mpr (mem_map_of_mem hr), placedRole_same _ _ r⟩

variable {members : List RoleMember}

theorem mem_setMemberRoles_of_ne {roleIDs : List Int} {m : RoleMember}
    (hm : m.userID ≠ u) : m ∈ setMemberRoles members u roleIDs ↔ m ∈ members := by
  have hn : m ≠ ⟨u, roleIDs⟩ := fun he => hm (by rw [he])
  rw [setMemberRoles]
  split <;> simp [hm, hn]

theorem mem_setMemberRoles_self {roleIDs ids : List Int} :
    ⟨u, ids⟩ ∈ setMemberRoles members u roleIDs ↔ roleIDs ≠ [] ∧ ids = roleIDs := by
  rw [setMemberRoles]
  split
  · rename_i hnil
    simp [hnil]
  · rename_i hne
    simp [hne]

/-- Nobody manages itself. -/
theorem ne_of_canManageMember {targetID : Int}
    (hm : e.canManageMember actorID targetID = true) : actorID ≠ targetID := by
  rintro rfl
  simp [canManageMember] at hm

/-- The target must be a member the actor may manage, and a role that is handed out must have
capabilities the actor may use. -/
theorem draftMemberRolesSet_ok [PngDecoder]
    (hd : draftMemberRolesSet e p actorID change = .ok draft) :
    e.canManageMember actorID change.userID = true ∧
      draft = { p with members := setMemberRoles p.members change.userID change.roleIDs } ∧
      ∀ id ∈ change.roleIDs, id ∉ e.memberRoles change.userID →
        canGrantCapabilities e actorID 0 (e.permissionsOf id) = true := by
  simp only [draftMemberRolesSet, guard_eq_ok, not_not] at hd
  obtain ⟨-, hmng, -, -, hgrd, hd⟩ := hd
  refine ⟨hmng, ?_, ?_⟩
  · split at hd
    · split at hd
      · simp at hd
      split at hd
      · cases hd
        rfl
      · simp at hd
    · cases hd
      rfl
  · intro id hid hn
    have hchd : id ∈ changedRoles (e.memberRoles change.userID) change.roleIDs := by
      simp [changedRoles, hid, hn]
    have := all_eq_true.mp hgrd id hchd
    simp only [decide_eq_true_eq] at this
    exact this.2 hid

theorem noGain_memberRolesSet [PngDecoder] (h : Indexed p e) (h' : Indexed (savedPolicy draft) e')
    (hd : draftMemberRolesSet e p actorID change = .ok draft) : NoGain e e' actorID := by
  obtain ⟨hmng, rfl, -⟩ := draftMemberRolesSet_ok hd
  have hne := ne_of_canManageMember hmng
  refine noGain_of_sameRoles h h' (sameRoles_of_lists h h' rfl rfl ?_ ?_) rfl
  · rintro m rfl
    exact (mem_setMemberRoles_of_ne hne).symm
  · intro r hr
    exact ⟨r, mem_savedPolicy_roles.mpr hr, rfl, rfl⟩

/-! ### Updating a role -/

/-- At the server scope a user that is not exempt is allowed base grants only. -/
theorem baseGrant_of_allowed (h : Indexed p e) (hu : ¬ e.Exempt u) {k : Capability}
    (hk : (e.evaluate u 0 k).allowed = true) : e.BaseGrant u k := by
  have ho := ((evaluate_plain_iff h hu k).mp hk).own
  have hadm := scopeAdmits_of_allowed h hk
  cases hd : e.scopeDecision u 0 k with
  | none =>
    simpa [ScopeGranted, hd, Granted, GrantedBy, h.effectiveOverrides_zero, layer_nil] using ho
  | some br =>
    obtain ⟨b, r⟩ := br
    obtain rfl : b = true := hadm b r hd
    -- the server is no `home` channel, so it never allows by itself
    simp only [scopeDecision, channelOf, h.lookup_zero] at hd
    split at hd
    · simp at hd
    · simp [ChannelPolicy.zero] at hd

theorem canGrantCapabilities_spec {s : Int} {capabilities : List Capability}
    (ho : actorID ≠ e.policy.ownerID)
    (hg : canGrantCapabilities e actorID s capabilities = true) {c : Capability}
    (hc : c ∈ capabilities) : c ≠ administrator ∧ (e.evaluate actorID s c).allowed = true := by
  have := all_eq_true.mp hg c hc
  simp only [decide_eq_true_eq] at this
  exact ⟨fun he => this.1 ⟨he, ho⟩, this.2⟩

/-- The permissions of a role after it was replaced. -/
theorem permissionsOf_replace {old r : Role} (h : Indexed p e)
    (h' : Indexed (savedPolicy { p with roles := p.roles.map fun x => if x.id = old.id then
    r else x }) e') (hold : old ∈ p.roles) (hid : r.id = old.id) {id : Int} (hmem : id ∈ e.roles) :
    e'.permissionsOf id = if id = old.id then r.permissions else e.permissionsOf id := by
  by_cases heq : id = old.id
  · subst heq
    have hr : r ∈ (savedPolicy
        { p with roles := p.roles.map fun x => if x.id = old.id then r else x }).roles := by
      rw [mem_savedPolicy_roles]
      exact mem_map.mpr ⟨old, hold, by simp⟩
    have hlk : e'.roles.lookup r.id = some r := h'.roles.lookup_eq hr
    rw [hid] at hlk
    simp [permissionsOf, hlk]
  · rw [if_neg heq]
    refine permissionsOf_eq h h' hmem fun x hx hxid => ⟨x, ?_, hxid, rfl⟩
    rw [mem_savedPolicy_roles]
    exact mem_map.mpr ⟨x, hx, by rw [hxid, if_neg heq]⟩

section

variable (h : Indexed p e) (h' : Indexed (savedPolicy draft) e') (ho : actorID ≠ p.ownerID)
  (hd : draftRoleUpdate e p actorID change = .ok draft)

include h ho hd

theorem draftRoleUpdate_ok :
    ∃ old r, old ∈ p.roles ∧ old.id = change.role.id ∧ e.canManageRole actorID old.id = true ∧
      r.id = old.id ∧ r.position = old.position ∧ r.permissions = change.role.permissions ∧
      (∀ c ∈ change.role.permissions, c ∈ old.permissions ∨
        (c ≠ administrator ∧ (e.evaluate actorID 0 c).allowed = true)) ∧
      draft = { p with roles := p.roles.map fun x => if x.id = old.id then r else x } := by
  rw [draftRoleUpdate] at hd
  split at hd
  · simp at hd
  rename_i old hold
  obtain ⟨old', hmem, hid, rfl⟩ := (h.roles.lookup_iff _ _).mp hold
  simp only [guard_eq_ok, not_not] at hd
  obtain ⟨hps, hmng, -, hgrt, -, hd⟩ := hd
  cases hd
  refine ⟨old', { change.role with iconImage := change.role.iconImage.or old'.iconImage },
    hmem, hid, hmng, hid.symm, hps, rfl, fun c hc => ?_, rfl⟩
  by_cases hold : c ∈ old'.permissions
  · exact .inl hold
  · refine .inr (canGrantCapabilities_spec (by rw [h.policy]; exact ho) hgrt ?_)
    simp [addedCapabilities, hc, hold]

include h'

/-- A permission that a role has after an update was there, or was allowed to the actor. -/
theorem sameSubject_roleUpdate (u : Int) : SameSubject e e' u ∧ ∀ id ∈ e.roleIDsOf u,
      e'.permissionsOf id =
        (if id = change.role.id then change.role.permissions else e.permissionsOf id) ∧
      ∀ c ∈ e'.permissionsOf id, c ∈ e.permissionsOf id ∨
        (c ≠ administrator ∧ (e.evaluate actorID 0 c).allowed = true) := by
  obtain ⟨old, r, hold, hol, -, hid, -, hpms, had, rfl⟩ := draftRoleUpdate_ok h ho hd
  refine ⟨sameSubject_of_members h h' rfl rfl fun _ _ => Iff.rfl, fun id hi => ?_⟩
  rw [permissionsOf_replace h h' hold hid (h.roleIDsOf_mem hi), hpms]
  refine ⟨by rw [hol], fun c hc => ?_⟩
  split at hc
  · rename_i heq
    have hlk : e.roles.lookup old.id = some old := h.roles.lookup_eq hold
    have hbef : e.permissionsOf id = old.permissions := by
      rw [heq]
      simp [permissionsOf, hlk]
    exact hbef ▸ had c hc
  · exact .inl hc

theorem noGain_roleUpdate : NoGain e e' actorID := by
  obtain ⟨hs, hkey⟩ := sameSubject_roleUpdate h h' ho hd actorID
  have hchs : (savedPolicy draft).channels = p.channels := by
    obtain ⟨_, _, -, -, -, -, -, -, -, rfl⟩ := draftRoleUpdate_ok h ho hd
    rfl
  refine .of_base h h' hs hchs ?_ ?_
  · intro id hi ha
    rcases (hkey id hi).2 _ ha with hold | ⟨hne, -⟩
    · exact hold
    · exact absurd rfl hne
  · rintro hu k ⟨id, hi, hk⟩
    rw [hs.roleIDsOf] at hi
    rcases (hkey id hi).2 k hk with hold | ⟨-, hal⟩
    · exact ⟨id, hi, hold⟩
    · exact baseGrant_of_allowed h hu hal

end

end Noxa.Authorization

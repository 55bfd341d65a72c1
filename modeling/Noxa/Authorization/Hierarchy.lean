import Noxa.Authorization.ChannelEdits

/-!
# The role hierarchy

Roles are ordered by position and an actor other than the owner only works below its own highest
role. The changes renumber: a new role pushes the others up, a deletion closes the gap, and a
reordering numbers everything anew. What survives all of them is the order from the actor's highest
role upwards, together with the fact that everything else stays below it.

The positions of a policy are meant to be `0, …, n - 1`. The guards rely on that: a reordering
compares the old position of a role with its place in the requested list. Every change keeps it.

## Main definitions

* `Contiguous` — the positions are exactly `0, …, n - 1`
* `RanksKept` — the roles from a position upwards are untouched, in order, and above the rest
* `HierarchyKept` — what an accepted change keeps

## Main results

* `canManageMember_of_ranksKept` — nobody comes within reach
* `role_hierarchy_protection` — every accepted change of an actor other than the owner
-/

namespace Noxa.Authorization

open RoleEvaluator List

variable {p p' draft : RolePolicy} {e e' : RoleEvaluator} {actorID u id : Int} {r s : Role}

/-- The positions of the roles are exactly `0, …, n - 1`. -/
def Contiguous (p : RolePolicy) : Prop :=
  ∀ i : Int, (∃ r ∈ p.roles, r.position = i) ↔ 0 ≤ i ∧ i < p.roles.length

theorem Contiguous.bounds (hc : Contiguous p) (hr : r ∈ p.roles) :
    0 ≤ r.position ∧ r.position < p.roles.length :=
  (hc r.position).mp ⟨r, hr, rfl⟩

theorem Contiguous.perm (hc : Contiguous p)
    (h : (p'.roles.map Role.position).Perm (p.roles.map Role.position)) : Contiguous p' := by
  intro i
  have hlen : p'.roles.length = p.roles.length := by simpa using h.length_eq
  rw [hlen, ← hc i, ← mem_map, h.mem_iff, mem_map]

/-! ### Positions and highest roles -/

section

variable (h : Indexed p e)

include h

theorem Indexed.lookup_role (hr : r ∈ p.roles) : e.roles.lookup r.id = some r :=
  h.roles.lookup_eq hr

theorem Indexed.role_of_lookup (hl : e.roles.lookup id = some r) : r ∈ p.roles ∧ r.id = id := by
  obtain ⟨r', hr', hid, rfl⟩ := (h.roles.lookup_iff _ _).mp hl
  exact ⟨hr', hid⟩

theorem Indexed.positionOf_eq (hr : r ∈ p.roles) : e.positionOf r.id = r.position := by
  rw [positionOf, h.lookup_role hr]
  rfl

theorem Indexed.roles_pos : 0 < p.roles.length := by
  obtain ⟨r, hr, -⟩ := h.everyone
  exact length_pos_of_mem (h.role_of_lookup hr).1

theorem Indexed.role_unique (hr : r ∈ p.roles) (hs : s ∈ p.roles) (hid : r.id = s.id) : r = s :=
  inj_on_of_nodup_map h.roles.nodup hr hs hid

theorem Indexed.position_inj (hr : r ∈ p.roles) (hs : s ∈ p.roles)
    (hpos : r.position = s.position) : r = s :=
  inj_on_of_nodup_map h.positions hr hs hpos

omit h in
/-- The role of `@everyone` stands at the bottom. -/
theorem everyone_bottom [PngDecoder] (hp : newRoleEvaluator p = .ok e) :
    ∃ r ∈ p.roles, r.id = p.everyoneID ∧ r.position = 0 := by
  have h := newRoleEvaluator_ok hp
  obtain ⟨-, s, -, hev, -, members, -, channels, -, -, he⟩ := newRoleEvaluator_ok_iff.mp hp
  rw [show s.roles = e.roles by rw [he], everyoneOK] at hev
  split at hev
  · simp at hev
  · rename_i r hr
    obtain ⟨hmem, hid⟩ := h.role_of_lookup hr
    exact ⟨r, hmem, hid, (of_decide_eq_true hev).1⟩

/-- A role of a member exists and is not `@everyone`. -/
theorem Indexed.role_of_member (hid : id ∈ e.memberRoles u) :
    ∃ r ∈ p.roles, r.id = id ∧ id ≠ p.everyoneID := by
  obtain ⟨r, hr, hrid⟩ := h.roles.mem_iff.mp (h.roleIDsOf_mem (mem_cons_of_mem _ hid))
  exact ⟨r, hr, hrid, h.policy ▸ h.memberRoles_ne_everyone hid⟩

end

/-- The loop of `highestRole` computes a maximum. -/
theorem foldl_highest (f : Int → Int) (ids : List Int) (b : Int) :
    let top := ids.foldl (fun position id => if f id > position then f id else position) b
    b ≤ top ∧ (∀ id ∈ ids, f id ≤ top) ∧ (top = b ∨ ∃ id ∈ ids, f id = top) := by
  induction ids generalizing b with
  | nil => simp
  | cons x rest ih =>
    simp only [foldl_cons, forall_mem_cons, exists_mem_cons_iff]
    by_cases hx : f x > b
    · rw [if_pos hx]
      obtain ⟨hle, hall, ht⟩ := ih (f x)
      exact ⟨by omega, ⟨hle, hall⟩, .inr (ht.imp_left Eq.symm)⟩
    · rw [if_neg hx]
      obtain ⟨hle, hall, ht⟩ := ih b
      exact ⟨hle, ⟨by omega, hall⟩, ht.imp_right .inr⟩

namespace RoleEvaluator

theorem highestRole_nonneg (u : Int) : 0 ≤ e.highestRole u :=
  (foldl_highest e.positionOf (e.memberRoles u) 0).1

theorem positionOf_le_highestRole (hid : id ∈ e.memberRoles u) :
    e.positionOf id ≤ e.highestRole u :=
  (foldl_highest e.positionOf (e.memberRoles u) 0).2.1 id hid

theorem highestRole_cases (u : Int) : e.highestRole u = 0 ∨
    ∃ id ∈ e.memberRoles u, e.positionOf id = e.highestRole u :=
  (foldl_highest e.positionOf (e.memberRoles u) 0).2.2

end RoleEvaluator

/-- What an actor other than the owner may manage exists and lies below its highest role. -/
theorem below_of_canManageRole (h : Indexed p e) (hown : actorID ≠ p.ownerID)
    (hm : e.canManageRole actorID id = true) :
    ∃ r ∈ p.roles, r.id = id ∧ r.position < e.highestRole actorID := by
  rw [canManageRole] at hm
  split at hm
  · simp at hm
  rename_i r hr
  obtain ⟨hmem, hid⟩ := h.role_of_lookup hr
  simp only [h.policy, if_neg hown] at hm
  split at hm
  · simp at hm
  · exact ⟨r, hmem, hid, (of_decide_eq_true hm).2.2.1⟩

theorem ne_of_canManageRole (h : Indexed p e) (hown : actorID ≠ p.ownerID)
    (hm : e.canManageRole actorID id = true) (hr : r ∈ p.roles)
    (hbd : e.highestRole actorID ≤ r.position) : r.id ≠ id := by
  rintro rfl
  obtain ⟨x, hx, hid, hbel⟩ := below_of_canManageRole h hown hm
  rw [h.role_unique hx hr hid] at hbel
  omega

/-! ### Ranks that are kept -/

/-- The roles from position `bound` upwards keep their permissions, and whatever stood below one of
them, protected or not, still does. -/
structure RanksKept (bound : Int) (p p' : RolePolicy) : Prop where
  kept : ∀ r ∈ p.roles, bound ≤ r.position →
    ∃ r' ∈ p'.roles, r'.id = r.id ∧ r'.permissions = r.permissions
  above : ∀ r ∈ p.roles, ∀ s ∈ p.roles, bound ≤ r.position → s.position < r.position →
    ∀ r' ∈ p'.roles, ∀ s' ∈ p'.roles, r'.id = r.id → s'.id = s.id → s'.position < r'.position

variable {bound : Int}

theorem RanksKept.le (hk : RanksKept bound p p') (h : Indexed p e) (h' : Indexed p' e')
    (hr : r ∈ p.roles) (hs : s ∈ p.roles) (hbd : bound ≤ r.position)
    (hle : s.position ≤ r.position) {r' s' : Role} (hr' : r' ∈ p'.roles) (hs' : s' ∈ p'.roles)
    (hrid : r'.id = r.id) (hsid : s'.id = s.id) : s'.position ≤ r'.position := by
  rcases lt_or_eq_of_le hle with hlt | heq
  · exact (hk.above r hr s hs hbd hlt r' hr' s' hs' hrid hsid).le
  · rw [h'.role_unique hs' hr' (by rw [hrid, hsid, h.position_inj hs hr heq])]

theorem RanksKept.saved (hk : RanksKept bound p draft) : RanksKept bound p (savedPolicy draft) := by
  constructor
  · intro r hr hbd
    obtain ⟨r', hr', hsm⟩ := hk.kept r hr hbd
    exact ⟨r', mem_savedPolicy_roles.mpr hr', hsm⟩
  · intro r hr s hs hbd hlt r' hr' s' hs'
    exact hk.above r hr s hs hbd hlt r' (mem_savedPolicy_roles.mp hr') s'
      (mem_savedPolicy_roles.mp hs')

/-- Ranks are kept by an edit of the roles one by one, beside which only new roles appear, if the
edit keeps permissions and order above the bound. -/
theorem ranksKept_of_edit {f : Role → Role} (h : Indexed p e)
    (hid : ∀ r ∈ p.roles, (f r).id = r.id) (hmem : ∀ r ∈ p.roles, f r ∈ p'.roles)
    (hon : ∀ r' ∈ p'.roles, r'.id ∉ e.roles ∨ r' ∈ p.roles.map f)
    (hpms : ∀ r ∈ p.roles, bound ≤ r.position → (f r).permissions = r.permissions)
    (hmn : ∀ r ∈ p.roles, ∀ s ∈ p.roles, bound ≤ r.position → s.position < r.position →
      (f s).position < (f r).position) : RanksKept bound p p' := by
  have himg : ∀ r' ∈ p'.roles, ∀ r ∈ p.roles, r'.id = r.id → r' = f r := by
    intro r' hr' r hr hrid
    rcases hon r' hr' with hnew | hold
    · exact absurd (h.roles.mem_iff.mpr ⟨r, hr, hrid.symm⟩) hnew
    · obtain ⟨x, hx, rfl⟩ := mem_map.mp hold
      rw [h.role_unique hx hr ((hid x hx).symm.trans hrid)]
  constructor
  · intro r hr hbd
    exact ⟨f r, hmem r hr, hid r hr, hpms r hr hbd⟩
  · intro r hr s hs hbd hlt r' hr' s' hs' hrid hsid
    rw [himg r' hr' r hr hrid, himg s' hs' s hs hsid]
    exact hmn r hr s hs hbd hlt

/-- An edit that leaves the list of roles alone. -/
theorem ranksKept_of_roles (h : Indexed p e) (hrls : p'.roles = p.roles) :
    RanksKept bound p p' :=
  ranksKept_of_edit (f := id) h (fun _ _ => rfl) (fun _ hr => hrls ▸ hr)
    (fun _ hr => .inr (by rwa [map_id, ← hrls])) (fun _ _ _ => rfl) fun _ _ _ _ _ hlt => hlt

/-- **Nobody comes within reach.** When the ranks from the actor's highest role upwards are kept,
the actor got no role, and nobody out of its reach lost a role of such a rank, then the actor
manages nobody it did not manage before. -/
theorem canManageMember_of_ranksKept [PngDecoder] (hp : newRoleEvaluator p = .ok e)
    (h' : Indexed p' e') (hown : actorID ≠ p.ownerID) (how : p'.ownerID = p.ownerID)
    (hc : Contiguous p) (hk : RanksKept (e.highestRole actorID) p p')
    (hsf : ∀ id ∈ e'.memberRoles actorID, id ∈ e.memberRoles actorID)
    (hoth : ∀ t, ¬ e.canManageMember actorID t = true → ∀ id ∈ e.memberRoles t,
      e.highestRole actorID ≤ e.positionOf id → id ∈ e'.memberRoles t)
    {t : Int} (hm : e'.canManageMember actorID t = true) : e.canManageMember actorID t = true := by
  have h := newRoleEvaluator_ok hp
  by_contra hno
  have hkp := hoth t hno
  rw [canManageMember, h'.policy, how] at hm
  rw [canManageMember, h.policy] at hno
  split at hm
  · simp at hm
  rename_i hbas
  rw [if_neg hbas] at hno
  simp only [hown, false_or, decide_eq_true_eq] at hm hno
  -- the role that puts the actor above the target after the change
  have hpos : e'.highestRole actorID ≠ 0 := by
    have := highestRole_nonneg (e := e') t
    omega
  obtain ⟨a, ha, hatop⟩ := (highestRole_cases (e := e') actorID).resolve_left hpos
  obtain ⟨ra, hra, rfl, hane⟩ := h.role_of_member (hsf a ha)
  obtain ⟨ra', hra', hra'i, -⟩ := h'.role_of_member ha
  have hale := positionOf_le_highestRole (hsf ra.id ha)
  rw [h.positionOf_eq hra] at hale
  rw [← hra'i, h'.positionOf_eq hra'] at hatop
  rcases highestRole_cases (e := e) t with hz | ⟨b, hb, hbtop⟩
  · -- the target has no rank, so the actor had none, but then it had no role at all
    obtain ⟨r₀, hr₀, hr₀id, hr₀pos⟩ := everyone_bottom hp
    have hbd := (hc.bounds hra).1
    have heq := h.position_inj hra hr₀ (by omega)
    exact hane (heq ▸ hr₀id)
  · obtain ⟨rb, hrb, rfl, -⟩ := h.role_of_member hb
    have hb' := hkp rb.id hb (by omega)
    obtain ⟨rb', hrb', hrb'i, -⟩ := h'.role_of_member hb'
    have hble := positionOf_le_highestRole hb'
    rw [← hrb'i, h'.positionOf_eq hrb'] at hble
    rw [h.positionOf_eq hrb] at hbtop
    have := hk.le h h' hrb hra (by omega) (by omega) hrb' hra' hrb'i hra'i
    omega

/-! ### The changes one by one -/

/-- What a draft does to the ranks. -/
structure RanksEdited (bound : Int) (p draft : RolePolicy) :
    Prop extends RanksKept bound p draft where
  contiguous : Contiguous draft

theorem ranksEdited_of_roles (h : Indexed p e) (hc : Contiguous p)
    (hrls : draft.roles = p.roles) : RanksEdited bound p draft :=
  ⟨ranksKept_of_roles h hrls, hc.perm (by rw [hrls])⟩

variable {change : RoleChange}

section

variable (h : Indexed p e) (hc : Contiguous p) (hown : actorID ≠ p.ownerID)

include h hc hown

/-- A new role takes position one, and everything above `@everyone` moves up. -/
theorem ranksEdited_roleCreate (hd : draftRoleCreate e p actorID change = .ok draft) :
    RanksEdited (e.highestRole actorID) p draft := by
  obtain ⟨new, hnew, hone, hsz, hhi, rfl⟩ := draftRoleCreate_ok hd
  have hpos : 0 < e.highestRole actorID := by
    have := highestRole_nonneg (e := e) actorID
    have := hhi hown
    omega
  have hrsd : ∀ r ∈ p.roles, (raisedRole r).position =
      if 0 < r.position then r.position + 1 else 0 := by
    intro r hr
    obtain ⟨h0, hlt⟩ := hc.bounds hr
    rw [raisedRole]
    split
    · exact int64_of_small (by omega) (by omega)
    · omega
  constructor
  · refine ranksKept_of_edit (f := raisedRole) h (fun r _ => (raisedRole_same r).1)
      (fun r hr => mem_append_left _ (mem_map_of_mem hr)) ?_
      (fun r _ _ => (raisedRole_same r).2) ?_
    · exact forall_mem_append.mpr ⟨fun _ => .inr, forall_mem_singleton.mpr (.inl hnew)⟩
    · intro r hr s hs hbd hlt
      rw [hrsd r hr, hrsd s hs, if_pos (show 0 < r.position by omega)]
      split <;> omega
  · intro i
    have hn := h.roles_pos
    simp only [mem_append, mem_map, mem_singleton, length_append, length_map, length_singleton]
    constructor
    · rintro ⟨_, ⟨r, hr, rfl⟩ | rfl, rfl⟩
      · rw [hrsd r hr]
        have := hc.bounds hr
        split <;> omega
      · rw [hone]
        omega
    · rintro ⟨h0, hlt⟩
      by_cases hi : i = 1
      · exact ⟨new, .inr rfl, hone.trans hi.symm⟩
      -- below the new role nothing moved, above it everything moved by one
      obtain ⟨r, hr, hri⟩ := (hc (if i = 0 then 0 else i - 1)).mpr (by split <;> omega)
      refine ⟨raisedRole r, .inl ⟨r, hr, rfl⟩, ?_⟩
      rw [hrsd r hr]
      split at hri <;> split <;> omega

/-- An updated role lies below the actor and keeps its position. -/
theorem ranksEdited_roleUpdate (hd : draftRoleUpdate e p actorID change = .ok draft) :
    RanksEdited (e.highestRole actorID) p draft := by
  obtain ⟨old, new, hold, -, hmng, hid, hps, -, -, rfl⟩ := draftRoleUpdate_ok h hown hd
  have hpos : ∀ r ∈ p.roles, (if r.id = old.id then new else r).position = r.position := by
    intro r hr
    split
    · rename_i heq
      rw [hps, h.role_unique hr hold heq]
    · rfl
  constructor
  · refine ranksKept_of_edit (f := fun r => if r.id = old.id then new else r) h ?_
      (fun r hr => mem_map_of_mem hr) (fun _ => .inr) ?_ ?_
    · intro r _
      split
      · rename_i heq
        rw [hid, heq]
      · rfl
    · intro r hr hbd
      rw [if_neg (ne_of_canManageRole h hown hmng hr hbd)]
    · intro r hr s hs _ hlt
      rw [hpos r hr, hpos s hs]
      exact hlt
  · refine hc.perm (.of_eq ?_)
    rw [map_map]
    exact map_congr_left hpos

omit hc in
/-- A reordering places the roles in the requested order, and only moves roles below the actor to
positions below the actor. -/
theorem ranksEdited_rolesReorder (hd : draftRolesReorder e p actorID change = .ok draft) :
    RanksEdited (e.highestRole actorID) p draft := by
  obtain ⟨hlen, roles, hlp, rfl⟩ := draftRolesReorder_ok hd
  obtain ⟨rfl, hnd, -, hpl⟩ := reorderLoop_ok hlp
  -- the requested order lists every role
  have hpm : change.roleIDs.Perm (p.roles.map Role.id) := by
    have hsub : change.roleIDs ⊆ p.roles.map Role.id := by
      intro id hid
      obtain ⟨r, hr, -⟩ := hpl id hid
      obtain ⟨hmem, rfl⟩ := h.role_of_lookup hr
      exact mem_map_of_mem hmem
    refine (subperm_of_subset hnd hsub).perm_of_length_le ?_
    rw [length_map, hlen]
  have hps : ∀ r ∈ p.roles,
      (placedRole 0 change.roleIDs r).position = change.roleIDs.idxOf r.id := by
    intro r hr
    rw [placedRole, if_pos (hpm.mem_iff.mpr (mem_map_of_mem hr)), Nat.zero_add]
  have hmvs : ∀ r ∈ p.roles, r.position = change.roleIDs.idxOf r.id ∨
      (e.canManageRole actorID r.id = true ∧
        (change.roleIDs.idxOf r.id : Int) < e.highestRole actorID) := by
    intro r hr
    obtain ⟨x, hx, hcs⟩ := hpl r.id (hpm.mem_iff.mpr (mem_map_of_mem hr))
    rw [h.lookup_role hr] at hx
    cases hx
    simpa using hcs hown
  constructor
  · refine ranksKept_of_edit (f := placedRole 0 change.roleIDs) h
      (fun r _ => (placedRole_same _ _ r).1) (fun r hr => mem_map_of_mem hr) (fun _ => .inr)
      (fun r _ _ => (placedRole_same _ _ r).2) ?_
    intro r hr s hs hbd hlt
    rw [hps r hr, hps s hs]
    have hsty : r.position = change.roleIDs.idxOf r.id :=
      (hmvs r hr).resolve_right fun hm => ne_of_canManageRole h hown hm.1 hr hbd rfl
    rcases hmvs s hs with hsm | ⟨-, hbel⟩
    · omega
    · omega
  · intro i
    rw [length_map]
    constructor
    · rintro ⟨_, hr', rfl⟩
      obtain ⟨r, hr, rfl⟩ := mem_map.mp hr'
      have hidx := idxOf_lt_length_of_mem (hpm.mem_iff.mpr (mem_map_of_mem hr))
      rw [hps r hr, ← hlen]
      omega
    · rintro ⟨h0, hlt⟩
      obtain ⟨n, rfl⟩ := Int.eq_ofNat_of_zero_le h0
      have hn : n < change.roleIDs.length := by omega
      obtain ⟨r, hr, hrid⟩ := mem_map.mp (hpm.mem_iff.mp (getElem_mem hn))
      refine ⟨_, mem_map_of_mem hr, ?_⟩
      rw [hps r hr, hrid, hnd.idxOf_getElem]

omit hc in
/-- A deletion numbers the remaining roles anew, in their order. -/
theorem ranksEdited_roleDelete [PngDecoder] (hd : draftRoleDelete e p actorID change = .ok draft) :
    RanksEdited (e.highestRole actorID) p draft := by
  obtain ⟨rfl, -, hmng, -⟩ := draftRoleDelete_ok h hown hd
  let left := (p.roles.filter (·.id ≠ change.roleID)).insertionSort (·.position ≤ ·.position)
  have hsrt : left.Pairwise (·.position ≤ ·.position) := pairwise_insertionSort _ _
  have hlf : ∀ {r}, r ∈ left ↔ r ∈ p.roles ∧ r.id ≠ change.roleID := by
    intro r
    rw [mem_insertionSort, mem_filter]
    simp
  have hrls : (withoutRole p change.roleID).roles =
      left.mapIdx fun i r => { r with position := i } := rfl
  have hmem : ∀ {r'}, r' ∈ (withoutRole p change.roleID).roles ↔
      ∃ (i : ℕ) (hi : i < left.length), { left[i] with position := (i : Int) } = r' := by
    intro r'
    rw [hrls, mem_mapIdx]
  constructor
  constructor
  · intro r hr hbd
    have hin : r ∈ left := hlf.mpr ⟨hr, ne_of_canManageRole h hown hmng hr hbd⟩
    obtain ⟨i, hi, rfl⟩ := mem_iff_getElem.mp hin
    exact ⟨_, hmem.mpr ⟨i, hi, rfl⟩, rfl, rfl⟩
  · intro r hr s hs _ hlt r' hr' s' hs' hrid hsid
    obtain ⟨i, hi, rfl⟩ := hmem.mp hr'
    obtain ⟨j, hj, rfl⟩ := hmem.mp hs'
    have hri := h.role_unique (hlf.mp (getElem_mem hi)).1 hr hrid
    have hsj := h.role_unique (hlf.mp (getElem_mem hj)).1 hs hsid
    rw [← hri, ← hsj] at hlt
    -- the list is sorted, so the lower role comes first
    have hij : j < i := by
      by_contra hge
      rcases Nat.lt_or_eq_of_le (not_lt.mp hge) with hlt' | heq
      · have := pairwise_iff_getElem.mp hsrt i j hi hj hlt'
        omega
      · subst heq
        omega
    show (j : Int) < i
    omega
  · intro i
    have hlen : (withoutRole p change.roleID).roles.length = left.length := by
      rw [hrls, length_mapIdx]
    rw [hlen]
    constructor
    · rintro ⟨r', hr', rfl⟩
      obtain ⟨n, hn, rfl⟩ := hmem.mp hr'
      show 0 ≤ (n : Int) ∧ (n : Int) < left.length
      omega
    · rintro ⟨h0, hlt⟩
      obtain ⟨n, rfl⟩ := Int.eq_ofNat_of_zero_le h0
      exact ⟨_, hmem.mpr ⟨n, by omega, rfl⟩, rfl⟩

/-! ### All changes -/

end

/-- The actor gets no role, and nobody out of its reach loses one that is not below the actor. -/
structure AssignmentsKept (e e' : RoleEvaluator) (actorID : Int) : Prop where
  self : ∀ id ∈ e'.memberRoles actorID, id ∈ e.memberRoles actorID
  others : ∀ t, ¬ e.canManageMember actorID t = true → ∀ id ∈ e.memberRoles t,
    e.highestRole actorID ≤ e.positionOf id → id ∈ e'.memberRoles t

theorem assignmentsKept_of_members (h : Indexed p e) (h' : Indexed p' e')
    (hmbs : p'.members = p.members) : AssignmentsKept e e' actorID := by
  have hsm : ∀ u, e'.memberRoles u = e.memberRoles u := fun u =>
    memberRoles_eq h h' fun m _ => by rw [hmbs]
  exact ⟨fun id hid => hsm actorID ▸ hid, fun t _ id hid _ => (hsm t).symm ▸ hid⟩

theorem assignmentsKept_roleDelete {roleID : Int} (h : Indexed p e) (h' : Indexed p' e')
    (hown : actorID ≠ p.ownerID) (hr : RoleRemoved roleID p p')
    (hm : e.canManageRole actorID roleID = true) : AssignmentsKept e e' actorID := by
  constructor
  · intro id hid
    rw [hr.memberRoles h h'] at hid
    exact (mem_filter.mp hid).1
  · intro t _ id hid hbd
    obtain ⟨r, hrm, rfl, -⟩ := h.role_of_member hid
    rw [h.positionOf_eq hrm] at hbd
    rw [hr.memberRoles h h', mem_filter]
    exact ⟨hid, by simpa using ne_of_canManageRole h hown hm hrm hbd⟩

/-- The draft of a change, as far as the hierarchy is concerned. -/
structure DraftKept (e : RoleEvaluator) (p draft : RolePolicy) (actorID : Int)
    (change : RoleChange) : Prop where
  ranks : RanksEdited (e.highestRole actorID) p draft
  owner : draft.ownerID = p.ownerID
  default : draft.defaultMemberRoleID = p.defaultMemberRoleID ∨
    (change.kind = .roleDelete ∧ p.defaultMemberRoleID = change.roleID ∧
      draft.defaultMemberRoleID = 0)
  assignments : ∀ {e'}, Indexed (savedPolicy draft) e' → AssignmentsKept e e' actorID

theorem draftKept [PngDecoder] (h : Indexed p e) (hc : Contiguous p)
    (hown : actorID ≠ p.ownerID) (hd : draftRoleChange e p actorID change = .ok draft) :
    DraftKept e p draft actorID change := by
  have hrk : ∀ {draft : RolePolicy}, RanksEdited (e.highestRole actorID) p draft →
      draft.ownerID = p.ownerID → draft.defaultMemberRoleID = p.defaultMemberRoleID →
      draft.members = p.members → DraftKept e p draft actorID change :=
    fun hr ho hdef hm => ⟨hr, ho, .inl hdef, fun h' => assignmentsKept_of_members h h' hm⟩
  rw [draftRoleChange] at hd
  split at hd
  · have hr := ranksEdited_roleCreate h hc hown hd
    obtain ⟨_, -, -, -, -, rfl⟩ := draftRoleCreate_ok hd
    exact hrk hr rfl rfl rfl
  · have hr := ranksEdited_roleUpdate h hc hown hd
    obtain ⟨_, _, -, -, -, -, -, -, -, rfl⟩ := draftRoleUpdate_ok h hown hd
    exact hrk hr rfl rfl rfl
  · rename_i hkd
    have hr := ranksEdited_roleDelete h hown hd
    obtain ⟨rfl, -, hmng, -⟩ := draftRoleDelete_ok h hown hd
    refine ⟨hr, rfl, ?_, fun h' => ?_⟩
    · by_cases hdef : p.defaultMemberRoleID = change.roleID
      · exact .inr ⟨hkd, hdef, if_pos hdef⟩
      · exact .inl (if_neg hdef)
    · exact assignmentsKept_roleDelete h h' hown
        (roleRemoved_withoutRole p change.roleID).saved hmng
  · have hr := ranksEdited_rolesReorder h hown hd
    obtain ⟨-, _, -, rfl⟩ := draftRolesReorder_ok hd
    exact hrk hr rfl rfl rfl
  · obtain ⟨hmng, rfl, -⟩ := draftMemberRolesSet_ok hd
    refine ⟨ranksEdited_of_roles h hc rfl, rfl, .inl rfl, fun h' => ?_⟩
    have hsm : ∀ u, u ≠ change.userID → _ = e.memberRoles u := fun u hne =>
      memberRoles_eq h h' fun m hm => (mem_setMemberRoles_of_ne (hm ▸ hne)).symm
    constructor
    · intro id hid
      rwa [hsm actorID (ne_of_canManageMember hmng)] at hid
    · intro t hno id hid _
      rwa [hsm t fun heq => hno (heq ▸ hmng)]
  · rw [draftOwnerTransfer, if_pos hown] at hd
    simp at hd
  · rw [draftDefaultMemberRoleSet, if_pos hown] at hd
    simp at hd
  · obtain ⟨old, c, -, -, -, rfl, -, -⟩ := draftChannelAccessSet_ok h hd
    exact hrk (ranksEdited_of_roles h hc rfl) rfl rfl rfl
  · simp at hd

/-- What an accepted change of an actor other than the owner keeps. -/
structure HierarchyKept (p p' : RolePolicy) (e e' : RoleEvaluator) (actorID : Int)
    (change : RoleChange) : Prop where
  /-- A role at or above the actor's highest still exists, with its permissions. -/
  roles : ∀ r ∈ p.roles, e.highestRole actorID ≤ r.position →
    ∃ r' ∈ p'.roles, r'.id = r.id ∧ r'.permissions = r.permissions
  /-- Two such roles keep their order. -/
  order : ∀ r ∈ p.roles, ∀ s ∈ p.roles, e.highestRole actorID ≤ r.position →
    e.highestRole actorID ≤ s.position → ∀ r' ∈ p'.roles, ∀ s' ∈ p'.roles, r'.id = r.id →
    s'.id = s.id → (s'.position < r'.position ↔ s.position < r.position)
  /-- A role that was below the actor's highest stays below all of them. -/
  below : ∀ r ∈ p.roles, ∀ s ∈ p.roles, e.highestRole actorID ≤ r.position →
    s.position < e.highestRole actorID → ∀ r' ∈ p'.roles, ∀ s' ∈ p'.roles, r'.id = r.id →
    s'.id = s.id → s'.position < r'.position
  owner : p'.ownerID = p.ownerID
  /-- The default role of members stays, unless it was deleted. -/
  default : p'.defaultMemberRoleID = p.defaultMemberRoleID ∨
    (change.kind = .roleDelete ∧ p.defaultMemberRoleID = change.roleID ∧ p'.defaultMemberRoleID = 0)
  /-- Nobody comes within the actor's reach. -/
  reach : ∀ t, e'.canManageMember actorID t = true → e.canManageMember actorID t = true
  /-- Setting the roles of a member changes nothing else, and the member was within reach. -/
  assignment : change.kind = .memberRolesSet → e.canManageMember actorID change.userID = true ∧
    p'.roles.Perm p.roles ∧ p'.channels = p.channels ∧
    ∀ m, m.userID ≠ change.userID → (m ∈ p'.members ↔ m ∈ p.members)
  contiguous : Contiguous p'

/-- **Role hierarchy protection.** -/
theorem role_hierarchy_protection [PngDecoder] {p p' : RolePolicy} {actorID : Int}
    {change : RoleChange} (hc : Contiguous p) (hown : actorID ≠ p.ownerID)
    (hchg : applyRoleChange p actorID change = .ok p') :
    ∃ e e', newRoleEvaluator p = .ok e ∧ newRoleEvaluator p' = .ok e' ∧
      HierarchyKept p p' e e' actorID change := by
  obtain ⟨e, draft, e', he, -, hd, rfl, he'⟩ := applyRoleChange_ok hchg
  have h := newRoleEvaluator_ok he
  have h' := newRoleEvaluator_ok he'
  have hdrf := draftKept h hc hown hd
  have hrk := hdrf.ranks.toRanksKept.saved
  have hassign := hdrf.assignments h'
  refine ⟨e, e', he, he', ?_⟩
  constructor
  case roles => exact hrk.kept
  case order =>
    intro r hr s hs hrb hsb r' hr' s' hs' hrid hsid
    constructor
    · intro hlt
      by_contra hge
      have := hrk.le h h' hs hr hsb (not_lt.mp hge) hs' hr' hsid hrid
      omega
    · exact fun hlt => hrk.above r hr s hs hrb hlt r' hr' s' hs' hrid hsid
  case below =>
    intro r hr s hs hrb hsb r' hr' s' hs' hrid hsid
    exact hrk.above r hr s hs hrb (by omega) r' hr' s' hs' hrid hsid
  case owner => exact hdrf.owner
  case default => exact hdrf.default
  case reach =>
    exact fun t hm =>
      canManageMember_of_ranksKept he h' hown hdrf.owner hc hrk hassign.self hassign.others hm
  case assignment =>
    intro hkd
    rw [draftRoleChange, hkd] at hd
    obtain ⟨hmng, rfl, -⟩ := draftMemberRolesSet_ok hd
    exact ⟨hmng, perm_insertionSort _ _, rfl, fun m hne => mem_setMemberRoles_of_ne hne⟩
  case contiguous => exact hdrf.ranks.contiguous.perm ((perm_insertionSort _ _).map _)

/-- A moderator, at position two of four, creates a role. -/
theorem role_hierarchy_protection_create :
    let := PngDecoder.none
    let change : RoleChange :=
      { kind := .roleCreate, expectedRevision := 1,
        role := { id := 50, name := "Helper", position := 0, permissions := [] } }
    Contiguous roleFixture ∧ (2 : Int) ≠ roleFixture.ownerID ∧
      ∃ p', applyRoleChange roleFixture 2 change = .ok p' ∧
        ∃ e e', newRoleEvaluator roleFixture = .ok e ∧ newRoleEvaluator p' = .ok e' ∧
          HierarchyKept roleFixture p' e e' 2 change := by
  let := PngDecoder.none
  have hc : Contiguous roleFixture := by
    intro i
    simp only [roleFixture, mem_cons, not_mem_nil, or_false, exists_eq_or_imp,
      exists_eq_left, length_cons, length_nil]
    omega
  obtain ⟨p', hp'⟩ := Fallible.exists_ok (show (applyRoleChange roleFixture 2
      { kind := .roleCreate, expectedRevision := 1,
        role := { id := 50, name := "Helper", position := 0, permissions := [] } }).isOk = true by
      decide +kernel)
  exact ⟨hc, by decide, p', hp', role_hierarchy_protection hc (by decide) hp'⟩

end Noxa.Authorization

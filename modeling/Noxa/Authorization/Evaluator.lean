import Noxa.Authorization.Ancestry
import Noxa.Lib.Index
import Noxa.Lib.Text

/-!
# The validated evaluator

`NewRoleEvaluator` checks a policy and indexes it by role, member and channel
(`internal/authorization/roles.go`). Everything later works on the indexes, so this file also
says what an accepted policy satisfies and what the indexes contain.

## Main definitions

* `RoleEvaluator` — a validated snapshot with its indexes
* `newRoleEvaluator` — the check

## Main results

* `Indexed` — what holds of an accepted policy and its evaluator
* `newRoleEvaluator_ok_iff` — acceptance, check by check
* `newRoleEvaluator_ok` — an accepted policy is `Indexed`
-/

namespace Noxa.Authorization

open Capability Text List

/-- A validated, private snapshot, indexed by role, member and channel. -/
structure RoleEvaluator where
  policy : RolePolicy
  roles : AList fun _ : Int => Role
  members : AList fun _ : Int => List Int
  channels : ChannelMap

/-- The reasons a policy is refused. -/
inductive PolicyError
  | invalidConfiguration
  | invalidRole (id : Int)
  | roleIcon (id : Int) (err : IconError)
  | roleImages
  | duplicateRole (id : Int)
  | invalidRoleCapability (capability : Capability)
  | invalidEveryone
  | invalidDefaultMember
  | invalidMember
  | duplicateMember
  | invalidMemberRole
  | invalidChannel
  | duplicateChannel
  | invalidOverride
  | unknownOverrideRole
  | parentChain
  deriving DecidableEq, Repr

/-! ### The checks -/

/-- State of the loop over roles. -/
structure RoleLoop where
  roles : AList (fun _ : Int => Role) := ∅
  positions : List Int := []
  imageBytes : ℕ := 0

/-- The first capability of a role that is unknown or repeated. -/
def invalidCapability? (seen : List Capability) : List Capability → Option Capability
  | [] => none
  | c :: rest =>
    if (capabilityInfo c).isNone ∨ c ∈ seen then some c
    else invalidCapability? (c :: seen) rest

/-- One round of the loop over roles. -/
def addRole [PngDecoder] (s : RoleLoop) (r : Role) : Except PolicyError RoleLoop :=
  if r.id < 1 ∨ r.name.toList.all isSpace ∨ r.name.utf8ByteSize > 100 ∨ r.position < 0 ∨
      r.position ∈ s.positions ∨ r.name.toList.any isControl ∨
      (r.color ≠ "" ∧ ¬ matchesRoleColor r.color) ∨ r.icon.length > 16 ∨
      r.icon.toList.any isControl then
    .error (.invalidRole r.id)
  else
    match validateRoleIcon r.iconImage with
    | .error err => .error (.roleIcon r.id err)
    | .ok () =>
      let imageBytes := s.imageBytes + (roleIconImage r.iconImage).utf8ByteSize
      if imageBytes > maxRoleIconImagesEncoded then .error .roleImages
      else if r.id ∈ s.roles then .error (.duplicateRole r.id)
      else
        match invalidCapability? [] r.permissions with
        | some c => .error (.invalidRoleCapability c)
        | none =>
          .ok { roles := s.roles.insert r.id r
                positions := r.position :: s.positions
                imageBytes := imageBytes }

section

variable (roles : AList fun _ : Int => Role) (everyoneID : Int)

/-- The `@everyone` role exists, stands lowest and is no administrator. -/
def everyoneOK : Bool :=
  match roles.lookup everyoneID with
  | none => false
  | some r => r.position = 0 ∧ administrator ∉ r.permissions

/-- The default role of new members, when set, is an ordinary role. -/
def defaultMemberOK (everyoneID defaultID : Int) : Bool :=
  if defaultID = 0 then true
  else
    match roles.lookup defaultID with
    | none => false
    | some r => r.id ≠ everyoneID ∧ administrator ∉ r.permissions

/-- The role list of one member: known, not repeated, and without `@everyone`. -/
def memberRolesOK : List Int → List Int → Bool
  | _, [] => true
  | seen, id :: rest =>
    if id ∉ roles ∨ id ∈ seen ∨ id = everyoneID then false
    else memberRolesOK (id :: seen) rest

/-- One round of the loop over members. -/
def addMember (members : AList fun _ : Int => List Int) (m : RoleMember) :
    Except PolicyError (AList fun _ : Int => List Int) :=
  if m.userID < 1 then .error .invalidMember
  else if m.userID ∈ members then .error .duplicateMember
  else if memberRolesOK roles everyoneID [] m.roleIDs then .ok (members.insert m.userID m.roleIDs)
  else .error .invalidMemberRole

/-- What must be unique among the overrides of a channel. The source prints the three parts into
one string, separated by colons. -/
def RoleOverride.key (o : RoleOverride) : Int × Int × Capability :=
  (o.roleID, o.userID, o.capability)

/-- Whether a capability is known and can be decided in a channel. -/
def channelCapability (c : Capability) : Bool :=
  match capabilityInfo c with
  | none => false
  | some info => info.channel

/-- The overrides of one channel. -/
def checkOverrides : List (Int × Int × Capability) → List RoleOverride → Except PolicyError Unit
  | _, [] => .ok ()
  | seen, o :: rest =>
    if ¬ channelCapability o.capability ∨ (0 < o.roleID ↔ 0 < o.userID) ∨ o.roleID < 0 ∨
        o.userID < 0 ∨ (o.effect ≠ .allow ∧ o.effect ≠ .deny) ∨ o.key ∈ seen then
      .error .invalidOverride
    else if 0 < o.roleID ∧ o.roleID ∉ roles then .error .unknownOverrideRole
    else checkOverrides (o.key :: seen) rest

/-- One round of the loop over channels. -/
def addChannel (channels : ChannelMap) (ch : ChannelPolicy) : Except PolicyError ChannelMap :=
  if ch.channelID < 1 ∨ ch.parentID < 0 ∨ (ch.synced ∧ 0 < ch.overrides.length) then
    .error .invalidChannel
  else if ch.channelID ∈ channels then .error .duplicateChannel
  else
    match checkOverrides roles [] ch.overrides with
    | .error err => .error err
    | .ok () => .ok (channels.insert ch.channelID ch)

end

/-- Validate a policy and index it. -/
def newRoleEvaluator [PngDecoder] (p : RolePolicy) : Except PolicyError RoleEvaluator :=
  if p.revision < 1 ∨ p.ownerID < 1 ∨ p.everyoneID < 1 then .error .invalidConfiguration
  else do
    let s ← p.roles.foldlM addRole {}
    if ¬ everyoneOK s.roles p.everyoneID then .error .invalidEveryone
    else if ¬ defaultMemberOK s.roles p.everyoneID p.defaultMemberRoleID then
      .error .invalidDefaultMember
    else do
      let members ← p.members.foldlM (addMember s.roles p.everyoneID) ∅
      let channels ← p.channels.foldlM (addChannel s.roles) ∅
      if ¬ validateChannelAncestry channels then .error .parentChain
      else .ok { policy := p, roles := s.roles, members := members, channels := channels }

theorem roleFixture_ok : ∃ e, @newRoleEvaluator .none roleFixture = .ok e :=
  Fallible.exists_ok (by decide +kernel)

/-! ### What an accepted policy satisfies -/

/-- One override that passed the checks. -/
structure ValidOverride (roles : AList fun _ : Int => Role) (o : RoleOverride) : Prop where
  capability : channelCapability o.capability = true
  subject : (0 < o.roleID ∧ o.userID = 0) ∨ (o.roleID = 0 ∧ 0 < o.userID)
  effect : o.effect = .allow ∨ o.effect = .deny
  role : o.roleID ≠ 0 → o.roleID ∈ roles

/-- One channel that passed the checks. -/
structure ValidChannel (roles : AList fun _ : Int => Role) (ch : ChannelPolicy) : Prop where
  id_pos : 1 ≤ ch.channelID
  parent_nonneg : 0 ≤ ch.parentID
  synced : ch.synced = true → ch.overrides = []
  overrides : ∀ o ∈ ch.overrides, ValidOverride roles o
  nodup : (ch.overrides.map RoleOverride.key).Nodup

/-- An accepted policy `p` and its evaluator `e`. -/
structure Indexed (p : RolePolicy) (e : RoleEvaluator) : Prop where
  policy : e.policy = p
  revision_pos : 1 ≤ p.revision
  owner_pos : 1 ≤ p.ownerID
  everyone_pos : 1 ≤ p.everyoneID
  roles : Index.IsIndex Role.id id p.roles e.roles
  role_pos : ∀ r ∈ p.roles, 1 ≤ r.id
  permissions : ∀ r ∈ p.roles, ∀ c ∈ r.permissions, (capabilityInfo c).isSome = true
  positions : (p.roles.map Role.position).Nodup
  everyone : ∃ r, e.roles.lookup p.everyoneID = some r ∧ administrator ∉ r.permissions
  members : Index.IsIndex RoleMember.userID RoleMember.roleIDs p.members e.members
  member_pos : ∀ m ∈ p.members, 1 ≤ m.userID
  member_roles : ∀ m ∈ p.members, ∀ id ∈ m.roleIDs, id ∈ e.roles ∧ id ≠ p.everyoneID
  channels : Index.IsIndex ChannelPolicy.channelID id p.channels e.channels
  channel : ∀ ch ∈ p.channels, ValidChannel e.roles ch
  rooted : ∀ id ∈ e.channels, Rooted e.channels id

theorem known_of_invalidCapability? {seen permissions : List Capability}
    (h : invalidCapability? seen permissions = none) :
    ∀ c ∈ permissions, (capabilityInfo c).isSome = true := by
  induction permissions generalizing seen with
  | nil => simp
  | cons c rest ih =>
    rw [invalidCapability?] at h
    split at h
    · simp at h
    · rename_i hc
      push Not at hc
      exact forall_mem_cons.mpr ⟨Option.isSome_iff_ne_none.mpr (by simpa using hc.1), ih h⟩

/-- What one role is checked for by itself. -/
def RoleOK [PngDecoder] (r : Role) : Prop :=
  ¬ (r.id < 1 ∨ r.name.toList.all isSpace ∨ r.name.utf8ByteSize > 100 ∨ r.position < 0 ∨
      r.name.toList.any isControl ∨ (r.color ≠ "" ∧ ¬ matchesRoleColor r.color) ∨
      r.icon.length > 16 ∨ r.icon.toList.any isControl) ∧
    validateRoleIcon r.iconImage = .ok () ∧ invalidCapability? [] r.permissions = none

/-- The size of a role's icon in a snapshot. -/
def Role.imageBytes (r : Role) : ℕ := (roleIconImage r.iconImage).utf8ByteSize

variable {s : RoleLoop}

theorem addRole_ok_iff [PngDecoder] {s' : RoleLoop} {r : Role} :
    addRole s r = .ok s' ↔ RoleOK r ∧ r.position ∉ s.positions ∧ r.id ∉ s.roles ∧
      s.imageBytes + r.imageBytes ≤ maxRoleIconImagesEncoded ∧
      s' = { roles := s.roles.insert r.id r
             positions := r.position :: s.positions
             imageBytes := s.imageBytes + r.imageBytes } := by
  rw [addRole, RoleOK]
  split
  · rename_i hb
    refine iff_of_false (by simp) ?_
    rintro ⟨⟨ho, -⟩, hp, -⟩
    tauto
  · rename_i hgd
    have ho : ¬ (r.id < 1 ∨ r.name.toList.all isSpace ∨ r.name.utf8ByteSize > 100 ∨
        r.position < 0 ∨ r.name.toList.any isControl ∨
        (r.color ≠ "" ∧ ¬ matchesRoleColor r.color) ∨ r.icon.length > 16 ∨
        r.icon.toList.any isControl) := by tauto
    have hp : r.position ∉ s.positions := by tauto
    cases validateRoleIcon r.iconImage with
    | error => simp
    | ok =>
      by_cases hby : s.imageBytes + r.imageBytes > maxRoleIconImagesEncoded
      · simp only [show s.imageBytes + (roleIconImage r.iconImage).utf8ByteSize >
          maxRoleIconImagesEncoded from hby, if_true]
        exact iff_of_false (by simp) fun hall => by omega
      · simp only [show ¬ s.imageBytes + (roleIconImage r.iconImage).utf8ByteSize >
          maxRoleIconImagesEncoded from hby, if_false]
        by_cases hd : r.id ∈ s.roles
        · simp [hd]
        · cases invalidCapability? [] r.permissions with
          | some => simp [hd]
          | none =>
            have hle : s.imageBytes + r.imageBytes ≤ maxRoleIconImagesEncoded := by omega
            simp only [ho, hp, hd, hle, not_false_eq_true, true_and, if_false,
              Except.ok.injEq]
            exact eq_comm

/-- When the loop over roles succeeds: the roles pass one by one, nothing repeats, and the icons
are not too large together. -/
theorem roles_isOk [PngDecoder] (roles : List Role) (s : RoleLoop)
    (hs : s.imageBytes ≤ maxRoleIconImagesEncoded) : (∃ s', roles.foldlM addRole s = .ok s') ↔
      (∀ r ∈ roles, RoleOK r) ∧
        ((∀ r ∈ roles, r.position ∉ s.positions) ∧ (roles.map Role.position).Nodup) ∧
        ((∀ r ∈ roles, r.id ∉ s.roles) ∧ (roles.map Role.id).Nodup) ∧
        s.imageBytes + (roles.map Role.imageBytes).sum ≤ maxRoleIconImagesEncoded := by
  induction roles generalizing s with
  | nil => simpa [pure, Except.pure] using hs
  | cons r rest ih =>
    have hps :=
      Index.fresh_cons (f := Role.position) (S := (· ∈ s.positions)) (x := r) (l := rest)
    have hi := Index.fresh_cons (f := Role.id) (S := (· ∈ s.roles)) (x := r) (l := rest)
    rw [hps, hi, forall_mem_cons, map_cons (f := Role.imageBytes), sum_cons, ← Nat.add_assoc]
    simp only [Fallible.exists_foldlM_cons, addRole_ok_iff, and_assoc, exists_and_left,
      exists_eq_left]
    by_cases hby : s.imageBytes + r.imageBytes ≤ maxRoleIconImagesEncoded
    · rw [ih _ hby]
      simp only [mem_cons, AList.mem_insert, hby, true_and, and_assoc, and_left_comm]
    · have hsum : ¬ s.imageBytes + r.imageBytes + (rest.map Role.imageBytes).sum ≤
          maxRoleIconImagesEncoded := by omega
      simp [hby, hsum]

theorem roles_loop [PngDecoder] {roles : List Role} (h : roles.foldlM addRole {} = .ok s) :
    Index.IsIndex Role.id id roles s.roles ∧ (roles.map Role.position).Nodup ∧
      ∀ r ∈ roles, 1 ≤ r.id ∧ ∀ c ∈ r.permissions, (capabilityInfo c).isSome = true := by
  obtain ⟨hgd, ⟨-, hps⟩, -⟩ := (roles_isOk roles {} (Nat.zero_le _)).mp ⟨s, h⟩
  refine ⟨?_, hps, fun r hr => ?_⟩
  · refine Fallible.foldlM_ok_loop (P := fun done (s : RoleLoop) =>
      Index.IsIndex Role.id id done s.roles) h (fun done r s s' hix hr => ?_) Index.isIndex_nil
    obtain ⟨-, -, hid, -, rfl⟩ := addRole_ok_iff.mp hr
    exact hix.insert hid
  · obtain ⟨hid, -, hpms⟩ := hgd r hr
    exact ⟨by omega, known_of_invalidCapability? hpms⟩

variable {roles : AList fun _ : Int => Role} {everyoneID : Int}

theorem memberRolesOK_iff {seen ids : List Int} :
    memberRolesOK roles everyoneID seen ids = true ↔
      (∀ id ∈ ids, id ∈ roles ∧ id ≠ everyoneID) ∧ (∀ id ∈ ids, id ∉ seen) ∧ ids.Nodup := by
  induction ids generalizing seen with
  | nil => simp [memberRolesOK]
  | cons id rest ih =>
    rw [memberRolesOK]
    split
    · rename_i hb
      refine iff_of_false (by simp) ?_
      rintro ⟨hrls, hsn, -⟩
      obtain ⟨hin, hne⟩ := hrls id mem_cons_self
      rcases hb with hout | hd | heq
      · exact hout hin
      · exact hsn id mem_cons_self hd
      · exact hne heq
    · rename_i hgd
      push Not at hgd
      have hi := Index.fresh_cons (f := fun x => x) (S := (· ∈ seen)) (x := id) (l := rest)
      rw [map_id', map_id'] at hi
      rw [ih, hi, forall_mem_cons]
      simp only [mem_cons]
      tauto

theorem addMember_ok_iff (members : AList fun _ : Int => List Int) (m : RoleMember)
    (members' : AList fun _ : Int => List Int) :
    addMember roles everyoneID members m = .ok members' ↔
      (1 ≤ m.userID ∧ memberRolesOK roles everyoneID [] m.roleIDs = true) ∧ m.userID ∉ members ∧
        members' = members.insert m.userID m.roleIDs := by
  rw [addMember]
  by_cases hp : m.userID < 1
  · simp [hp, show ¬ 1 ≤ m.userID by omega]
  by_cases hn : m.userID ∈ members
  · simp [hp, hn]
  · by_cases hrls : memberRolesOK roles everyoneID [] m.roleIDs = true
    · simp [hp, hn, hrls, show 1 ≤ m.userID by omega, eq_comm]
    · simp [hp, hn, hrls]

theorem members_loop {members : List RoleMember} {m : AList fun _ : Int => List Int}
    (h : members.foldlM (addMember roles everyoneID) ∅ = .ok m) :
    Index.IsIndex RoleMember.userID RoleMember.roleIDs members m ∧
      ∀ x ∈ members, 1 ≤ x.userID ∧ ∀ id ∈ x.roleIDs, id ∈ roles ∧ id ≠ everyoneID := by
  obtain ⟨hix, hgd⟩ := Index.foldlM_isIndex addMember_ok_iff h
  exact ⟨hix, fun x hx => ⟨(hgd x hx).1, (memberRolesOK_iff.mp (hgd x hx).2).1⟩⟩

theorem validOverride_iff {o : RoleOverride} : ValidOverride roles o ↔
      ¬ (¬ channelCapability o.capability ∨ (0 < o.roleID ↔ 0 < o.userID) ∨ o.roleID < 0 ∨
        o.userID < 0 ∨ (o.effect ≠ .allow ∧ o.effect ≠ .deny)) ∧
      ¬ (0 < o.roleID ∧ o.roleID ∉ roles) := by
  constructor
  · rintro ⟨hcap, hsbj, heff, hro⟩
    refine ⟨?_, fun ⟨hp, hout⟩ => hout (hro (by omega))⟩
    rintro (h1 | h1 | h1 | h1 | h1)
    · exact h1 hcap
    · omega
    · omega
    · omega
    · tauto
  · rintro ⟨hgd, hkn⟩
    push Not at hgd hkn
    obtain ⟨hcap, hsbj, hro, hus, heff⟩ := hgd
    refine ⟨hcap, by omega, ?_, fun h0 => hkn (by omega)⟩
    by_cases hal : o.effect = .allow
    · exact .inl hal
    · exact .inr (heff hal)

theorem checkOverrides_ok_iff
    {seen : List (Int × Int × Capability)} {overrides : List RoleOverride} :
    checkOverrides roles seen overrides = .ok () ↔
      (∀ o ∈ overrides, ValidOverride roles o) ∧ (overrides.map RoleOverride.key).Nodup ∧
        ∀ o ∈ overrides, o.key ∉ seen := by
  induction overrides generalizing seen with
  | nil => simp [checkOverrides]
  | cons o rest ih =>
    have hks := Index.fresh_cons (f := RoleOverride.key) (S := (· ∈ seen)) (x := o) (l := rest)
    rw [checkOverrides, and_comm (a := Nodup _), hks, forall_mem_cons, validOverride_iff]
    simp only [← or_assoc]
    split
    · rename_i hb
      refine iff_of_false (by simp) ?_
      rintro ⟨⟨⟨hv, -⟩, -⟩, hfr, -⟩
      exact hb.elim hv hfr
    rename_i hgd
    split
    · rename_i hunk
      refine iff_of_false (by simp) ?_
      rintro ⟨⟨⟨-, hkn⟩, -⟩, -⟩
      exact hkn hunk
    rename_i hkn
    obtain ⟨hv, hfr⟩ := not_or.mp hgd
    rw [ih, and_iff_right hfr, and_iff_right (And.intro hv hkn), and_comm (a := Nodup _)]
    simp only [mem_cons]

/-- What one channel is checked for by itself. -/
def ChannelOK (roles : AList fun _ : Int => Role) (ch : ChannelPolicy) : Prop :=
  (1 ≤ ch.channelID ∧ 0 ≤ ch.parentID ∧ (ch.synced = true → ch.overrides = [])) ∧
    checkOverrides roles [] ch.overrides = .ok ()

theorem addChannel_ok_iff (channels : ChannelMap) (ch : ChannelPolicy) (channels' : ChannelMap) :
    addChannel roles channels ch = .ok channels' ↔ ChannelOK roles ch ∧ ch.channelID ∉ channels ∧
        channels' = channels.insert ch.channelID (id ch) := by
  have ho : (1 ≤ ch.channelID ∧ 0 ≤ ch.parentID ∧ (ch.synced = true → ch.overrides = [])) ↔
      ¬ (ch.channelID < 1 ∨ ch.parentID < 0 ∨ (ch.synced ∧ 0 < ch.overrides.length)) := by
    rw [← length_eq_zero_iff, not_or, not_or, not_and, Int.not_lt, Int.not_lt,
      Nat.not_lt, Nat.le_zero]
  rw [ChannelOK, ho, addChannel]
  by_cases hb : ch.channelID < 1 ∨ ch.parentID < 0 ∨ (ch.synced ∧ 0 < ch.overrides.length)
  · simp [hb]
  rw [if_neg hb]
  by_cases hn : ch.channelID ∈ channels
  · simp [hn]
  simp only [hb, not_false_eq_true, true_and, hn, if_false]
  cases checkOverrides roles [] ch.overrides with
  | error => simp
  | ok => simp [eq_comm]

theorem channels_loop {channels : List ChannelPolicy}
    {m : ChannelMap} (h : channels.foldlM (addChannel roles) ∅ = .ok m) :
    Index.IsIndex ChannelPolicy.channelID id channels m ∧
      ∀ ch ∈ channels, ValidChannel roles ch := by
  obtain ⟨hix, hgd⟩ := Index.foldlM_isIndex addChannel_ok_iff h
  refine ⟨hix, fun ch hch => ?_⟩
  obtain ⟨⟨hid, hpar, hsyn⟩, hovr⟩ := hgd ch hch
  obtain ⟨hv, hnd, -⟩ := checkOverrides_ok_iff.mp hovr
  exact ⟨hid, hpar, hsyn, hv, hnd⟩

variable {p : RolePolicy} {e : RoleEvaluator}

/-- An accepted policy went through every check. -/
theorem newRoleEvaluator_ok_iff [PngDecoder] :
    newRoleEvaluator p = .ok e ↔ (1 ≤ p.revision ∧ 1 ≤ p.ownerID ∧ 1 ≤ p.everyoneID) ∧
      ∃ s, p.roles.foldlM addRole {} = .ok s ∧ everyoneOK s.roles p.everyoneID = true ∧
        defaultMemberOK s.roles p.everyoneID p.defaultMemberRoleID = true ∧
      ∃ members, p.members.foldlM (addMember s.roles p.everyoneID) ∅ = .ok members ∧
      ∃ channels, p.channels.foldlM (addChannel s.roles) ∅ = .ok channels ∧
        validateChannelAncestry channels = true ∧
        e = { policy := p, roles := s.roles, members := members, channels := channels } := by
  rw [newRoleEvaluator]
  split
  · exact iff_of_false (by simp) fun hall => by omega
  rename_i hcfg
  have hcfg' : 1 ≤ p.revision ∧ 1 ≤ p.ownerID ∧ 1 ≤ p.everyoneID := by omega
  simp only [hcfg', true_and, and_true, Fallible.bind_eq_ok]
  refine exists_congr fun s => and_congr_right fun _ => ?_
  by_cases hev : everyoneOK s.roles p.everyoneID = true
  · by_cases hdef : defaultMemberOK s.roles p.everyoneID p.defaultMemberRoleID = true
    · simp only [hev, hdef, not_true_eq_false, if_false, true_and, Fallible.bind_eq_ok]
      refine exists_congr fun members => and_congr_right fun _ =>
        exists_congr fun channels => and_congr_right fun _ => ?_
      by_cases ha : validateChannelAncestry channels = true
      · simp [ha, eq_comm]
      · simp [ha]
    · simp [hev, hdef]
  · simp [hev]

/-- **What acceptance means.** -/
theorem newRoleEvaluator_ok [PngDecoder] (h : newRoleEvaluator p = .ok e) : Indexed p e := by
  obtain ⟨hcfg, s, hrls, hev, -, members, hmbs, channels, hchs, ha,
    rfl⟩ := newRoleEvaluator_ok_iff.mp h
  obtain ⟨hrin, hps, hro⟩ := roles_loop hrls
  obtain ⟨hmin, hmb⟩ := members_loop hmbs
  obtain ⟨hcin, hcha⟩ := channels_loop hchs
  have h0 : channels.lookup 0 = none := hcin.lookup_eq_none fun ch hch => by
    have := (hcha ch hch).id_pos
    omega
  have hev' : ∃ r, s.roles.lookup p.everyoneID = some r ∧ administrator ∉ r.permissions := by
    rw [everyoneOK] at hev
    split at hev
    · simp at hev
    · rename_i r hr
      exact ⟨r, hr, (of_decide_eq_true hev).2⟩
  exact
    { policy := rfl
      revision_pos := hcfg.1
      owner_pos := hcfg.2.1
      everyone_pos := hcfg.2.2
      roles := hrin
      role_pos := fun r hr => (hro r hr).1
      permissions := fun r hr => (hro r hr).2
      positions := hps
      everyone := hev'
      members := hmin
      member_pos := fun m hm => (hmb m hm).1
      member_roles := fun m hm => (hmb m hm).2
      channels := hcin
      channel := hcha
      rooted := (validateChannelAncestry_iff h0).mp ha }

end Noxa.Authorization

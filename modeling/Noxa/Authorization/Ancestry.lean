import Mathlib.Data.List.AList
import Noxa.Authorization.Policy
import Noxa.Lib.Chain
import Noxa.Lib.Fallible

/-!
# Channel ancestry

Channels form a forest by their parent identifiers. `validateChannelAncestry` rejects unknown
parents and cycles by walking every parent chain once: a chain being walked is marked `walking`,
a finished one `valid`, and meeting a `walking` channel again is a cycle.

The source ranges over a map, so it visits the channels in no particular order. The walk below
takes the order as an argument, and `validateInOrder_iff` shows that it does not matter. It has no
bound on its steps: each turn of the inner loop marks a channel that was not marked before.

## Main definitions

* `validateChannelAncestry` — the check
* `climbLoop`, `validateInOrder` — the loops of the source
* `Rooted` — the parent chain of a channel reaches the top through existing channels

## Main results

* `validateInOrder_iff` — the check succeeds exactly when every channel visited is rooted
* `Rooted.endsWithin` — a parent chain is no longer than the number of channels
* `ancestry_accepts_forests` — the loops accept exactly the forests, in any order
-/

namespace Noxa.Authorization

open List

/-- Channels by identifier. -/
abbrev ChannelMap := AList fun _ : Int => ChannelPolicy

/-- The mark of a channel during the walk. -/
inductive WalkMark
  | walking
  | valid
  deriving DecidableEq, Repr

/-- The marks set so far. -/
abbrev WalkState := AList fun _ : Int => WalkMark

/-! ### The check -/

variable {channels : ChannelMap} {state : WalkState} {id : Int} {ch : ChannelPolicy}

theorem mem_of_lookup (hch : channels.lookup id = some ch) : id ∈ channels :=
  AList.lookup_isSome.mp (Option.isSome_of_eq_some hch)

/-- The channels that are not on the path of the present walk. -/
def unwalked (channels : ChannelMap) (state : WalkState) : List Int :=
  channels.keys.filter fun id => state.lookup id ≠ some .walking

theorem length_unwalked_insert (hch : channels.lookup id = some ch)
    (hn : ¬ state.lookup id = some .walking) :
    (unwalked channels (state.insert id .walking)).length < (unwalked channels state).length := by
  have hrs : unwalked channels (state.insert id .walking) =
      (unwalked channels state).filter (· ≠ id) := by
    rw [unwalked, unwalked, filter_filter]
    refine filter_congr fun k _ => ?_
    by_cases hk : k = id
    · subst hk
      simp
    · simp [hk, AList.lookup_insert_ne hk]
  rw [hrs, length_filter_lt_length_iff_exists]
  exact ⟨id, mem_filter.mpr ⟨mem_of_lookup hch, by simpa using hn⟩, by simp⟩

/-- The inner loop: walk up from `id`, marking every channel met, until the top or a channel known
to be valid. -/
@[semireducible]
def climbLoop (channels : ChannelMap) (state : WalkState) (path : List Int) (id : Int) :
    Option (WalkState × List Int) :=
  if id = 0 ∨ state.lookup id = some .valid then some (state, path)
  else
    match hch : channels.lookup id with
    | none => none
    | some ch =>
      if hn : state.lookup id = some .walking then none
      else
        have := length_unwalked_insert hch hn
        climbLoop channels (state.insert id .walking) (path ++ [id]) ch.parentID
termination_by (unwalked channels state).length

/-- Mark a finished path as valid. -/
def markValid (state : WalkState) (path : List Int) : WalkState :=
  path.foldl (fun s id => s.insert id .valid) state

/-- The outer loop, over the channels in the order in which the map gives them. -/
def validateInOrder (channels : ChannelMap) : WalkState → List Int → Bool
  | _, [] => true
  | state, start :: rest =>
    match climbLoop channels state [] start with
    | none => false
    | some (state, path) => validateInOrder channels (markValid state path) rest

/-- Reject unknown parents and cycles. -/
def validateChannelAncestry (channels : ChannelMap) : Bool :=
  validateInOrder channels ∅ channels.keys

/-! ### Rooted channels -/

/-- The parent chain of `id` reaches the top through existing channels. -/
inductive Rooted (channels : ChannelMap) : Int → Prop
  | top : Rooted channels 0
  | child {id : Int} {ch : ChannelPolicy} (hch : channels.lookup id = some ch)
      (hp : Rooted channels ch.parentID) : Rooted channels id

theorem rooted_iff : Rooted channels id ↔
      id = 0 ∨ ∃ ch, channels.lookup id = some ch ∧ Rooted channels ch.parentID := by
  constructor
  · intro h
    cases h with
    | top => exact .inl rfl
    | child hch hp => exact .inr ⟨_, hch, hp⟩
  · rintro (rfl | ⟨ch, hch, hp⟩)
    · exact .top
    · exact .child hch hp

/-- The parent identifier of a channel; the top, zero, has none. -/
def parent? (channels : ChannelMap) (id : Int) : Option Int :=
  (channels.lookup id).map (·.parentID)

theorem parent?_eq_some {b : Int} :
    parent? channels id = some b ↔ ∃ ch, channels.lookup id = some ch ∧ ch.parentID = b := by
  simp [parent?]

section

variable (h : Rooted channels id) (h0 : channels.lookup 0 = none)

include h h0

theorem Rooted.acc : Acc (fun b a => parent? channels a = some b) id := by
  induction h with
  | top =>
    refine ⟨_, fun b hb => ?_⟩
    obtain ⟨ch, hch, -⟩ := parent?_eq_some.mp hb
    rw [h0] at hch
    simp at hch
  | child hch _ ih =>
    refine ⟨_, fun b hb => ?_⟩
    obtain ⟨ch', hch', rfl⟩ := parent?_eq_some.mp hb
    rw [hch] at hch'
    cases hch'
    exact ih

/-- **The length of a parent chain.** -/
theorem Rooted.endsWithin : Chain.EndsWithin (parent? channels) channels.keys.length id := by
  refine Chain.endsWithin_of_acc _ (h.acc h0) fun c _ hc => ?_
  obtain ⟨b, hb⟩ := Option.ne_none_iff_exists'.mp hc
  obtain ⟨ch, hch, -⟩ := parent?_eq_some.mp hb
  rw [← AList.mem_keys, ← AList.lookup_isSome, hch]
  rfl

end

/-! ### The check accepts rooted channels only

Between two walks every mark is `valid` and stands on a rooted channel; during a walk the
`walking` marks are exactly on the path, whose channels are rooted if the current one is. -/

/-- Every valid mark is right, and `walking` marks stand on the path only. -/
structure MarksSound (channels : ChannelMap) (state : WalkState) (path : List Int) : Prop where
  valid : ∀ id, state.lookup id = some .valid → Rooted channels id
  walking : ∀ id, state.lookup id = some .walking → id ∈ path

theorem lookup_markValid (state : WalkState) (path : List Int) (id : Int) :
    (markValid state path).lookup id = if id ∈ path then some .valid else state.lookup id := by
  induction path generalizing state with
  | nil => simp [markValid]
  | cons x path ih =>
    rw [show markValid state (x :: path) = markValid (state.insert x .valid) path from rfl, ih]
    by_cases hpt : id ∈ path
    · simp [hpt]
    · by_cases hx : id = x
      · subst hx; simp
      · simp [hpt, hx, AList.lookup_insert_ne hx]

theorem climbLoop_sound {state' : WalkState} {path path' : List Int}
    (hs : MarksSound channels state path)
    (hpt : Rooted channels id → ∀ x ∈ path, Rooted channels x)
    (h : climbLoop channels state path id = some (state', path')) :
    Rooted channels id ∧ MarksSound channels state' path' ∧ ∀ x ∈ path', Rooted channels x := by
  fun_induction climbLoop channels state path id with
  | case1 state path id hsp =>
    cases h
    have hid : Rooted channels id := by
      rcases hsp with rfl | hval
      · exact .top
      · exact hs.valid id hval
    exact ⟨hid, hs, hpt hid⟩
  | case2 => simp at h
  | case3 => simp at h
  | case4 state path id hgo ch hch hn hle ih =>
    have hs' : MarksSound channels (state.insert id .walking) (path ++ [id]) := by
      constructor
      · intro x hx
        by_cases hxid : x = id
        · subst hxid; simp at hx
        · rw [AList.lookup_insert_ne hxid] at hx
          exact hs.valid x hx
      · intro x hx
        by_cases hxid : x = id
        · simp [hxid]
        · rw [AList.lookup_insert_ne hxid] at hx
          exact mem_append_left _ (hs.walking x hx)
    have hpt' : Rooted channels ch.parentID → ∀ x ∈ path ++ [id], Rooted channels x := by
      intro hp
      have hid : Rooted channels id := .child hch hp
      exact forall_mem_append.mpr ⟨hpt hid, forall_mem_singleton.mpr hid⟩
    obtain ⟨hp, hrs⟩ := ih hs' hpt' h
    exact ⟨.child hch hp, hrs⟩

/-- Walking up succeeds among channels whose parents are there and that are not their own ancestors:
meeting a `walking` mark would close a cycle. -/
theorem climbLoop_complete {P : Int → Prop} {path : List Int}
    (hup : ∀ id, P id → id = 0 ∨ ∃ ch, channels.lookup id = some ch ∧ P ch.parentID)
    (hac : ∀ id, P id → ¬ Relation.TransGen (Chain.Step (parent? channels)) id id)
    (hid : P id) (hwl : ∀ x, state.lookup x = some .walking →
      Relation.TransGen (Chain.Step (parent? channels)) x id) :
    climbLoop channels state path id ≠ none := by
  fun_induction climbLoop channels state path id with
  | case1 => simp
  | case2 state path id hgo hch =>
    obtain ⟨ch, hch', -⟩ := (hup id hid).resolve_left fun hz => hgo (.inl hz)
    rw [hch] at hch'
    simp at hch'
  | case3 state path id hgo ch hch hwal => exact absurd (hwl id hwal) (hac id hid)
  | case4 state path id hgo ch hch hn hle ih =>
    have hstp : parent? channels id = some ch.parentID := parent?_eq_some.mpr ⟨ch, hch, rfl⟩
    obtain ⟨ch', hch', hp⟩ := (hup id hid).resolve_left fun hz => hgo (.inl hz)
    cases hch.symm.trans hch'
    refine ih hp fun x hx => ?_
    by_cases hxid : x = id
    · subst hxid
      exact .single hstp
    · rw [AList.lookup_insert_ne hxid] at hx
      exact .tail (hwl x hx) hstp

theorem Rooted.acyclic (h : Rooted channels id) (h0 : channels.lookup 0 = none) :
    ¬ Relation.TransGen (Chain.Step (parent? channels)) id id := by
  intro hcyc
  refine Chain.not_transGen_self_of_acc (h.acc h0) ?_
  rw [← Relation.transGen_swap]
  exact hcyc

/-- **The check is exact, in any order.** -/
theorem validateInOrder_iff (h0 : channels.lookup 0 = none) (hs : MarksSound channels state [])
    (starts : List Int) :
    validateInOrder channels state starts = true ↔ ∀ id ∈ starts, Rooted channels id := by
  induction starts generalizing state with
  | nil => simp [validateInOrder]
  | cons start rest ih =>
    rw [validateInOrder]
    cases hc : climbLoop channels state [] start with
    | none =>
      simp only [Bool.false_eq_true, forall_mem_cons, false_iff, not_and]
      intro hrt
      exact absurd hc (climbLoop_complete (fun _ => rooted_iff.mp) (fun _ h => h.acyclic h0) hrt
        fun x hx => absurd (hs.walking x hx) not_mem_nil)
    | some r =>
      obtain ⟨state', path'⟩ := r
      obtain ⟨hrt, hsnd, hpt⟩ := climbLoop_sound hs (fun _ x hx => absurd hx (by simp)) hc
      have hmk : MarksSound channels (markValid state' path') [] := by
        constructor
        · intro id hid
          rw [lookup_markValid] at hid
          split at hid
          · exact hpt id ‹_›
          · exact hsnd.valid id hid
        · intro id hid
          rw [lookup_markValid] at hid
          split at hid
          · simp at hid
          · exact absurd (hsnd.walking id hid) ‹_›
      simp only [ih hmk, forall_mem_cons, hrt, true_and]

theorem marksSound_empty : MarksSound channels ∅ [] :=
  ⟨fun id h => by simp at h, fun id h => by simp at h⟩

theorem validateChannelAncestry_iff (h0 : channels.lookup 0 = none) :
    validateChannelAncestry channels = true ↔ ∀ id ∈ channels, Rooted channels id := by
  rw [validateChannelAncestry, validateInOrder_iff h0 marksSound_empty]
  rfl

/-! ### Forests -/

/-- Every parent is there, and no channel is its own ancestor. -/
structure IsForest (channels : ChannelMap) : Prop where
  parents : ∀ id ch, channels.lookup id = some ch → ch.parentID = 0 ∨ ch.parentID ∈ channels
  acyclic : ∀ id, ¬ Relation.TransGen (Chain.Step (parent? channels)) id id

/-- In a forest every channel is rooted, since walking up from it succeeds. -/
theorem IsForest.rooted (h : IsForest channels) : ∀ id ∈ channels, Rooted channels id := by
  intro id hid
  have hup : ∀ id, id = 0 ∨ id ∈ channels → id = 0 ∨
      ∃ ch, channels.lookup id = some ch ∧ (ch.parentID = 0 ∨ ch.parentID ∈ channels) := by
    refine fun id hid => hid.imp_right fun hm => ?_
    obtain ⟨ch, hch⟩ := Option.isSome_iff_exists.mp (AList.lookup_isSome.mpr hm)
    exact ⟨ch, hch, h.parents id ch hch⟩
  have hwl : climbLoop channels ∅ [] id ≠ none :=
    climbLoop_complete hup (fun id _ => h.acyclic id) (.inr hid) (by simp)
  obtain ⟨⟨state, path⟩, hr⟩ := Option.ne_none_iff_exists'.mp hwl
  exact (climbLoop_sound marksSound_empty (by simp) hr).1

theorem isForest_iff (h0 : channels.lookup 0 = none) :
    IsForest channels ↔ ∀ id ∈ channels, Rooted channels id := by
  refine ⟨IsForest.rooted, fun h => ⟨fun id ch hch => ?_, fun id hcyc => ?_⟩⟩
  · have hz : id ≠ 0 := by
      rintro rfl
      simp [h0] at hch
    obtain ⟨ch', hch', hp⟩ := (rooted_iff.mp (h id (mem_of_lookup hch))).resolve_left hz
    cases hch.symm.trans hch'
    exact (rooted_iff.mp hp).imp_right fun ⟨_, hup, _⟩ => mem_of_lookup hup
  · obtain ⟨b, hb, -⟩ := Relation.TransGen.head'_iff.mp hcyc
    obtain ⟨ch, hch, -⟩ := parent?_eq_some.mp hb
    exact (h id (mem_of_lookup hch)).acyclic h0 hcyc

/-- **Exactly the forests are accepted**, in whatever order the channels are visited. -/
theorem ancestry_accepts_forests (channels : ChannelMap) (hpos : ∀ id ∈ channels, 0 < id)
    (order : List Int) (hord : order.Perm channels.keys) :
    (validateInOrder channels ∅ order = true ↔ IsForest channels) ∧
      validateInOrder channels ∅ order = validateChannelAncestry channels := by
  have h0 : channels.lookup 0 = none :=
    AList.lookup_eq_none.mpr fun hm => absurd (hpos 0 hm) (by decide)
  have hlp : validateInOrder channels ∅ order = true ↔ ∀ id ∈ channels, Rooted channels id := by
    rw [validateInOrder_iff h0 marksSound_empty]
    exact forall_congr' fun id => imp_congr_left hord.mem_iff
  refine ⟨hlp.trans (isForest_iff h0).symm, Bool.eq_iff_iff.mpr ?_⟩
  exact hlp.trans (validateChannelAncestry_iff h0).symm

/-- Three channels in a row, from the last to the first. -/
theorem ancestry_accepts_forests_row :
    let channels : ChannelMap := ((AList.singleton 1 ⟨"", 1, 0, false, []⟩).insert 2
      ⟨"", 2, 1, false, []⟩).insert 3 ⟨"", 3, 2, false, []⟩
    (validateInOrder channels ∅ [3, 1, 2] = true ↔ IsForest channels) ∧
      validateInOrder channels ∅ [3, 1, 2] = validateChannelAncestry channels :=
  ancestry_accepts_forests _ (by decide) _ (by decide)

end Noxa.Authorization

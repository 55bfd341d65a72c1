import Noxa.Authorization.ChannelEdits

/-!
# Tree edits and access

Moving a channel, or deleting one, is an edit of the tree. Access rests on the tree through
`synced`: a channel that follows its parent would follow another one after a move, and so would
everything that follows it in turn. `ApplyChannelTreeChange` therefore writes the effective
overrides into the moved channel and ends its following there. A deletion takes the whole subtree,
so no channel that stays loses the one it follows.

## Main results

* `effectiveOverrides_moved` — a move keeps the effective overrides of every channel
* `tree_edits_keep_access` — moves without syncing and deletions change no decision
-/

namespace Noxa.Authorization

variable {p p' : RolePolicy} {e e' : RoleEvaluator} {actorID : Int} {change : ChannelTreeChange}

/-- The moved channel has the overrides it followed before, and every other channel still follows
the one it followed. -/
theorem effectiveOverrides_moved (h : Indexed p e) (h' : Indexed p' e')
    (hsy : change.syncToParent = false)
    (hc : p'.channels = p.channels.map (channelAfterMove e change)) {id : Int}
    (hid : id ∈ e.channels) : e'.effectiveOverrides id = e.effectiveOverrides id := by
  -- down the tree as it was before the move
  refine h.tree_induction (P := fun id => e'.effectiveOverrides id = e.effectiveOverrides id) ?_ hid
  intro ch hch ih
  have hm : channelAfterMove e change ch ∈ p'.channels := hc ▸ List.mem_map_of_mem hch
  by_cases hmvd : ch.channelID = change.channelID
  · have hent : channelAfterMove e change ch =
        { ch with
          parentID := change.parentID
          synced := false
          overrides := e.effectiveOverrides change.channelID } := by
      rw [channelAfterMove, if_pos hmvd, movedChannel, hsy]
      rfl
    rw [hent] at hm
    have hown := h'.effectiveOverrides_own hm (by simp)
    exact hown.trans (by rw [hmvd])
  · rw [channelAfterMove, if_neg hmvd] at hm
    exact effectiveOverrides_congr h h' hch hm fun _ => ih

theorem allowed_moved (h : Indexed p e) (h' : Indexed p' e') {userID : Int}
    (hs : SameRoles e e' userID) (hsy : change.syncToParent = false)
    (hc : p'.channels = p.channels.map (channelAfterMove e change)) (s : Int)
    (k : Capability) : (e'.evaluate userID s k).allowed = (e.evaluate userID s k).allowed := by
  have hkt := fun ch (_ : ch ∈ p.channels) => channelAfterMove_kept (e := e) change ch
  have hiff : s ∈ e'.channels ↔ s ∈ e.channels := mem_channels_map h h' hc hkt
  by_cases hsc : s = 0 ∨ s ∈ e.channels
  · refine hs.allowed_eq h h' (hsc.imp_right fun hin => ⟨hin, hiff.mpr hin⟩)
      (systemKind_eq h h' hc hkt hsc) (fun o => ?_) k
    rcases hsc with rfl | hin
    · rw [h.effectiveOverrides_zero, h'.effectiveOverrides_zero]
    · rw [effectiveOverrides_moved h h' hsy hc hin]
  · exact allowed_eq_of_unknown h h' hiff hsc k

/-- **Tree edits do not change access.** An accepted move that does not sync to the new parent
leaves every decision as it was, and an accepted deletion leaves those of the server scope and of
the channels that still exist. -/
theorem tree_edits_keep_access [PngDecoder] {p p' : RolePolicy} {actorID : Int}
    {change : ChannelTreeChange} (hchg : applyChannelTreeChange p actorID change = .ok p') :
    ∃ e e', newRoleEvaluator p = .ok e ∧ newRoleEvaluator p' = .ok e' ∧
      (change.kind = .channelMove → change.syncToParent = false → ∀ userID s k,
        (e'.evaluate userID s k).allowed = (e.evaluate userID s k).allowed) ∧
      (change.kind = .channelDelete → ∀ userID s k, (s = 0 ∨ ∃ ch ∈ p'.channels, ch.channelID = s) →
        (e'.evaluate userID s k).allowed = (e.evaluate userID s k).allowed) := by
  obtain ⟨e, draft, e', he, -, -, hd, rfl, he'⟩ := applyChannelTreeChange_ok hchg
  have h := newRoleEvaluator_ok he
  have h' := newRoleEvaluator_ok he'
  refine ⟨e, e', he, he', fun hkd hsy userID s k => ?_, fun hkd userID s k hm => ?_⟩
  · rw [draftChannelTreeChange, hkd] at hd
    obtain ⟨c, rfl, -, -⟩ := draftChannelMove_ok hd
    have hs : SameRoles e e' userID := sameRoles_of_mem h h' rfl rfl rfl fun _ => id
    exact allowed_moved h h' hs hsy rfl s k
  · rw [draftChannelTreeChange, hkd] at hd
    obtain rfl := draftChannelDelete_ok hd
    have hs : SameRoles e e' userID := sameRoles_of_mem h h' rfl rfl rfl fun _ => id
    exact hs.allowed_of_kept h h' (fun ch hch => (List.mem_filter.mp hch).1)
      (hm.imp_right h'.mem_channels.mpr) k

/-- The owner moves a channel that follows its parent to the top. -/
theorem tree_edits_keep_access_to_top :
    let := PngDecoder.none
    let change : ChannelTreeChange :=
      { kind := .channelMove, expectedRevision := 1, channelID := 101 }
    ∃ p', applyChannelTreeChange roleFixture 1 change = .ok p' ∧
      ∃ e e', newRoleEvaluator roleFixture = .ok e ∧ newRoleEvaluator p' = .ok e' ∧
        (change.kind = .channelMove → change.syncToParent = false → ∀ userID s k,
          (e'.evaluate userID s k).allowed = (e.evaluate userID s k).allowed) ∧
        (change.kind = .channelDelete → ∀ userID s k,
          (s = 0 ∨ ∃ ch ∈ p'.channels, ch.channelID = s) →
          (e'.evaluate userID s k).allowed = (e.evaluate userID s k).allowed) := by
  let := PngDecoder.none
  obtain ⟨p', hp'⟩ := Fallible.exists_ok (show (applyChannelTreeChange roleFixture 1
      { kind := .channelMove, expectedRevision := 1, channelID := 101 }).isOk = true by
        decide +kernel)
  exact ⟨p', hp', tree_edits_keep_access hp'⟩

end Noxa.Authorization

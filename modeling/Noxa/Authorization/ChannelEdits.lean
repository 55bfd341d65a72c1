import Noxa.Authorization.RoleRemoval

/-!
# Edits of the channels

Access edits, moves and new channels. The guard `authorizeOverrideChanges` compares the effective
overrides before and after: one that changed must be of a capability the actor may use there. By
induction on requirements the actor is then allowed nothing new, in the edited channel or in a
synced one below it.

## Main results

* `noGain_of_authorized` — channel edits that pass the guard
* `draftChannelAccessSet_ok`, `draftChannelMove_ok`, `draftChannelDelete_ok`,
  `draftChannelCreate_ok` — what the drafts are
-/

namespace Noxa.Authorization

open Capability RoleEvaluator Fallible List

variable {p p' draft : RolePolicy} {e e' : RoleEvaluator} {actorID : Int}
  {g : ChannelPolicy → ChannelPolicy} {s : Int} {ch : ChannelPolicy}
  {change : ChannelTreeChange}

section

variable (h : Indexed p e) (h' : Indexed p' e') (hchs : p'.channels = p.channels.map g)
  (hg : ∀ ch ∈ p.channels, (g ch).channelID = ch.channelID ∧ (g ch).systemKind = ch.systemKind)

include h h' hchs hg

/-- Channels that keep their identifier keep their system kind as well. -/
theorem systemKind_eq (hs : s = 0 ∨ s ∈ e.channels) :
    (e'.channelOf s).systemKind = (e.channelOf s).systemKind := by
  rcases hs with rfl | hin
  · simp [channelOf, h.lookup_zero, h'.lookup_zero]
  obtain ⟨ch, hch, rfl⟩ := h.mem_channels.mp hin
  have hmem : g ch ∈ p'.channels := hchs ▸ mem_map_of_mem hch
  have := h'.channelOf_eq hmem
  rw [(hg ch hch).1] at this
  rw [this, h.channelOf_eq hch, (hg ch hch).2]

/-- They are also the same channels. -/
theorem mem_channels_map : s ∈ e'.channels ↔ s ∈ e.channels := by
  simp only [h'.mem_channels, h.mem_channels, hchs, mem_map, exists_exists_and_eq_and]
  exact exists_congr fun ch => and_congr_right fun hch => by rw [(hg ch hch).1]

end

/-- A policy that only lost channels decides as before in those that are left. -/
theorem SameRoles.allowed_of_kept (h : Indexed p e) (h' : Indexed p' e') {userID : Int}
    (hs : SameRoles e e' userID) (hsub : ∀ ch ∈ p'.channels, ch ∈ p.channels)
    (hmem : s = 0 ∨ s ∈ e'.channels) (k : Capability) :
    (e'.evaluate userID s k).allowed = (e.evaluate userID s k).allowed := by
  obtain ⟨hcha, hovr⟩ := scope_eq_of_subset h' h hsub hmem
  refine hs.allowed_eq h h' (hmem.imp_right fun hin' => ⟨?_, hin'⟩) (by rw [hcha])
    (fun o => by rw [hovr]) k
  obtain ⟨ch, hch, rfl⟩ := h'.mem_channels.mp hin'
  exact h.mem_channels.mpr ⟨ch, hsub ch hch, rfl⟩

/-- Channel edits that pass the guard on changed access. -/
theorem noGain_of_authorized {c : RoleEvaluator} (h : Indexed p e) (hc : Indexed draft c)
    (h' : Indexed p' e') (hown : actorID ≠ p.ownerID) (hs : SameRoles e e' actorID)
    (hchs : p'.channels = draft.channels) (hmap : draft.channels = p.channels.map g)
    (hg : ∀ ch ∈ p.channels, (g ch).channelID = ch.channelID ∧ (g ch).systemKind = ch.systemKind)
    (hau : authorizeChangedChannelAccess e c actorID = true) : NoGain e e' actorID := by
  have how : actorID ≠ e.policy.ownerID := by rw [h.policy]; exact hown
  intro s hsc k hk
  have hkd := systemKind_eq h h' (hchs.trans hmap) hg (hsc.imp_right And.left)
  refine evaluate_le_of_overrides h h' hs (fun k => .inl (scopeDecision_eq hsc hkd))
    (fun k => ?_) hk
  rcases hsc with rfl | ⟨-, hin'⟩
  · exact .inr fun o _ => by rw [h.effectiveOverrides_zero, h'.effectiveOverrides_zero]
  have hin : s ∈ c.channels := by
    obtain ⟨ch, hch, rfl⟩ := h'.mem_channels.mp hin'
    exact hc.mem_channels.mpr ⟨ch, hchs ▸ hch, rfl⟩
  rw [authorizeChangedChannelAccess, if_neg how] at hau
  rw [effectiveOverrides_eq hc h' (fun ch hch => hchs ▸ hch) hin]
  exact authorizeOverrideChanges_spec how (all_eq_true.mp hau s hin) k

/-- The entry of a channel after the access of `old` was set. -/
def channelAfterAccess (change : RoleChange) (old ch : ChannelPolicy) : ChannelPolicy :=
  if ch.channelID = old.channelID then
    { change.channel with parentID := old.parentID, systemKind := old.systemKind }
  else ch

theorem channelAfterAccess_kept (h : Indexed p e) {change : RoleChange} {old : ChannelPolicy}
    (hold : old ∈ p.channels) (hid : old.channelID = change.channel.channelID)
    (hch : ch ∈ p.channels) : (channelAfterAccess change old ch).channelID = ch.channelID ∧
      (channelAfterAccess change old ch).systemKind = ch.systemKind := by
  rw [channelAfterAccess]
  split
  · rename_i heq
    obtain rfl : ch = old := inj_on_of_nodup_map h.channels.nodup hch hold heq
    exact ⟨hid.symm, rfl⟩
  · exact ⟨rfl, rfl⟩

theorem draftChannelAccessSet_ok [PngDecoder] {change : RoleChange} (h : Indexed p e)
    (hd : draftChannelAccessSet e p actorID change = .ok draft) :
    ∃ old c, old ∈ p.channels ∧ old.channelID = change.channel.channelID ∧
      (e.evaluate actorID old.channelID manageChannelAccess).allowed = true ∧
      draft = { p with channels := p.channels.map (channelAfterAccess change old) } ∧
      newRoleEvaluator draft = .ok c ∧ authorizeChangedChannelAccess e c actorID = true := by
  rw [draftChannelAccessSet] at hd
  split at hd
  · simp at hd
  rename_i old hold
  obtain ⟨old', hmem, hid, rfl⟩ := (h.channels.lookup_iff _ _).mp hold
  simp only [guard_eq_ok, not_not] at hd
  obtain ⟨-, hmng, hd⟩ := hd
  split at hd
  · simp at hd
  rename_i c hc
  split at hd
  · rename_i hau
    cases hd
    exact ⟨old', c, hmem, hid, hmng, rfl, hc, hau⟩
  · simp at hd

/-- The entry of a channel after a move. -/
def channelAfterMove (e : RoleEvaluator) (change : ChannelTreeChange) (ch : ChannelPolicy) :
    ChannelPolicy :=
  if ch.channelID = change.channelID then movedChannel e change ch else ch

theorem channelAfterMove_kept (change : ChannelTreeChange) (ch : ChannelPolicy) :
    (channelAfterMove e change ch).channelID = ch.channelID ∧
      (channelAfterMove e change ch).systemKind = ch.systemKind := by
  rw [channelAfterMove]
  split
  · rw [movedChannel]
    split <;> exact ⟨rfl, rfl⟩
  · exact ⟨rfl, rfl⟩

theorem draftChannelMove_ok [PngDecoder] (hd : draftChannelMove e p actorID change = .ok draft) :
    ∃ c, draft = { p with channels := p.channels.map (channelAfterMove e change) } ∧
      newRoleEvaluator draft = .ok c ∧ authorizeChangedChannelAccess e c actorID = true := by
  simp only [draftChannelMove, guard_eq_ok] at hd
  obtain ⟨-, -, -, -, hd⟩ := hd
  split at hd
  · simp at hd
  rename_i c hc
  split at hd
  · rename_i hau
    cases hd
    exact ⟨c, rfl, hc, hau⟩
  · simp at hd

theorem draftChannelDelete_ok [PngDecoder]
    (hd : draftChannelDelete e p actorID change = .ok draft) : draft = { p with
      channels := p.channels.filter (·.channelID ∉ e.channelSubtree change.channelID) } := by
  simp only [draftChannelDelete, guard_eq_ok] at hd
  exact (Except.ok.inj hd.2.2).symm

theorem draftChannelCreate_ok [PngDecoder] (h : Indexed p e)
    (hd : draftChannelCreate e p actorID change = .ok draft) :
    change.access.systemKind = "" ∧ change.channelID ∉ e.channels ∧
      change.access.channelID = change.channelID ∧ change.access.parentID = change.parentID ∧
      (change.parentID = 0 ∨ change.parentID ∈ e.channels) ∧
      draft = { p with channels := p.channels ++ [change.access] } ∧
      ∃ c, newRoleEvaluator draft = .ok c ∧ (change.access.synced = true ∨
        authorizeOverrideChanges e actorID change.parentID (e.effectiveOverrides change.parentID)
          (c.effectiveOverrides change.channelID) = true) := by
  simp only [draftChannelCreate, guard_eq_ok, not_not] at hd
  obtain ⟨hkd, hnew, hi, hal, hd⟩ := hd
  push Not at hi
  have hpar : change.parentID = 0 ∨ change.parentID ∈ e.channels := by
    rcases hal with hm | ⟨-, ht⟩
    · exact (scope_of_allowed h hm).2.1
    · exact (scope_of_allowed h ht).2.1
  refine ⟨hkd, hnew, hi.1, hi.2, hpar, ?_⟩
  split at hd
  · simp at hd
  rename_i c hc
  split at hd
  · rw [guard_eq_ok] at hd
    obtain ⟨-, hd⟩ := hd
    split at hd
    · rename_i hau
      cases hd
      exact ⟨rfl, c, hc, .inr hau⟩
    · simp at hd
  · rename_i hsy
    cases hd
    exact ⟨rfl, c, hc, .inl (by simpa using hsy)⟩

end Noxa.Authorization

import Noxa.Snapshot.Visit

/-!
# Well-formed snapshots

Every snapshot lists each visible channel and each visible client exactly once, names as parents
only channels it lists, and has totals and counts that are the sizes of what it lists.

## Main definitions

* `visibleClients` — the clients the viewer may see
* `WellFormed` — the shape of a snapshot

## Main results

* `buildRoleSnapshot_wellFormed`
-/

namespace Noxa.Snapshot

open Authorization Forest State List

section

variable (e : RoleEvaluator) (me : Int) (uid : String) (s : ServerState)

/-- The listed clients in channel 0 or in a visible channel. -/
def visibleClients : List Client :=
  s.clients.filter fun c => listed s (showStats e me) uid c &&
    (c.channelID = 0 || c.channelID ∈ (visibleChannels e me s).map (·.channelID))

/-- A snapshot lists what is visible, once, and its numbers describe what it lists. -/
structure WellFormed (snap : TreeSnapshot) : Prop where
  channels : ((nodes snap.rootChannels).map NodeInfo.id).Perm
    ((visibleChannels e me s).map (·.channelID))
  clients : ((snap.unassignedClients ++ (nodes snap.rootChannels).flatMap (·.clients)).map
    (·.clientID)).Perm ((visibleClients e me uid s).map (·.clientID))
  parents : ∀ n ∈ nodes snap.rootChannels,
    n.channel.parentID = 0 ∨ n.channel.parentID ∈ (nodes snap.rootChannels).map NodeInfo.id
  totalChannels : snap.totalChannels = (nodes snap.rootChannels).length
  totalClients : snap.totalClients =
    (snap.unassignedClients ++ (nodes snap.rootChannels).flatMap (·.clients)).length
  clientCount : ∀ n ∈ nodes snap.rootChannels, n.channel.clientCount = n.clients.length
  access : ∀ n ∈ nodes snap.rootChannels, ∃ a, n.access = some a ∧
    a.memberCount = n.clients.countP (0 < ·.userID) ∧
    a.guestCount = n.clients.countP (¬ 0 < ·.userID)

end

variable {e : RoleEvaluator} {me : Int} {uid : String} {s : ServerState}

/-! ### Clients -/

theorem map_clientID_rankRaised (clients : List ClientInfo) :
    (rankRaised clients).map (·.clientID) = clients.map (·.clientID) := by
  rw [rankRaised, map_map]
  refine map_congr_left fun m _ => ?_
  simp only [Function.comp]
  split <;> rfl

/-- The listed clients of one channel. -/
def clientsOf (e : RoleEvaluator) (me : Int) (uid : String) (s : ServerState)
    (channelID : Int) : List Client :=
  s.clients.filter fun c => listed s (showStats e me) uid c && c.channelID = channelID

/-- The clients shown in a channel. -/
def clientsUnder (e : RoleEvaluator) (me : Int) (uid : String) (s : ServerState)
    (ch : Channel) : List Client :=
  if ch.channelID = 0 then [] else clientsOf e me uid s ch.channelID

variable {c : Client}

theorem mem_clientsOf {channelID : Int} : c ∈ clientsOf e me uid s channelID ↔
      c ∈ s.clients ∧ listed s (showStats e me) uid c = true ∧ c.channelID = channelID := by
  simp [clientsOf]

theorem mem_clientsUnder {ch : Channel} : c ∈ clientsUnder e me uid s ch ↔
      c ∈ clientsOf e me uid s ch.channelID ∧ ch.channelID ≠ 0 := by
  by_cases h0 : ch.channelID = 0 <;> simp [clientsUnder, h0]

theorem mem_visibleClients : c ∈ visibleClients e me uid s ↔
      c ∈ s.clients ∧ listed s (showStats e me) uid c = true ∧
        (c.channelID = 0 ∨ ∃ ch ∈ visibleChannels e me s, ch.channelID = c.channelID) := by
  simp [visibleClients]

/-- Splitting the visible clients by their channel. -/
theorem visibleClients_perm : (clientsOf e me uid s 0 ++
      (visibleChannels e me s).flatMap (clientsUnder e me uid s)).Perm
      (visibleClients e me uid s) := by
  have hcls : s.clients.Nodup := s.clients_nodup.of_map
  have hchs : (visibleChannels e me s).Nodup := s.channels_nodup.of_map.filter _
  refine (perm_ext_iff_of_nodup ?_ (hcls.filter _)).mpr fun c => ?_
  · rw [nodup_append', nodup_flatMap]
    refine ⟨hcls.filter _, ⟨fun ch _ => ?_, ?_⟩, fun c hc hc' => ?_⟩
    · rw [clientsUnder]
      split
      · exact nodup_nil
      · exact hcls.filter _
    · refine hchs.pairwise_of_forall_ne fun ch hch ch' hch' hne c hc hc' => hne ?_
      have hid := (mem_clientsOf.mp (mem_clientsUnder.mp hc).1).2.2
      have hid' := (mem_clientsOf.mp (mem_clientsUnder.mp hc').1).2.2
      exact inj_on_of_nodup_map s.channels_nodup (mem_of_mem_filter hch)
        (mem_of_mem_filter hch') (hid.symm.trans hid')
    · obtain ⟨ch, -, hm⟩ := mem_flatMap.mp hc'
      obtain ⟨hin, hne⟩ := mem_clientsUnder.mp hm
      exact hne ((mem_clientsOf.mp hin).2.2.symm.trans (mem_clientsOf.mp hc).2.2)
  · change _ ↔ c ∈ visibleClients e me uid s
    rw [mem_visibleClients, mem_append, mem_flatMap, mem_clientsOf]
    constructor
    · rintro (⟨hc, hl, h0⟩ | ⟨ch, hch, hm⟩)
      · exact ⟨hc, hl, .inl h0⟩
      · obtain ⟨hc, hl, hid⟩ := mem_clientsOf.mp (mem_clientsUnder.mp hm).1
        exact ⟨hc, hl, .inr ⟨ch, hch, hid.symm⟩⟩
    · rintro ⟨hc, hl, hpl⟩
      by_cases h0 : c.channelID = 0
      · exact .inl ⟨hc, hl, h0⟩
      · obtain ⟨ch, hch, hid⟩ := hpl.resolve_left h0
        exact .inr ⟨ch, hch, mem_clientsUnder.mpr ⟨mem_clientsOf.mpr ⟨hc, hl, hid.symm⟩, hid ▸ h0⟩⟩

theorem clients_shownChannel (ch : Channel) : (shownChannel e me uid s ch).clients =
      (rankRaised ((clientsUnder e me uid s ch).map clientToInfo)).map
        (decorateMember e me uid) := by
  rw [shownChannel, showNode, nodeOf, clientsUnder]
  by_cases h0 : ch.channelID = 0
  · simp [h0, rankRaised]
  · rw [if_neg h0, if_neg h0]
    rfl

theorem map_clientID_decorateMember (clients : List ClientInfo) :
    (clients.map (decorateMember e me uid)).map (·.clientID) = clients.map (·.clientID) := by
  rw [map_map]
  rfl

theorem map_clientID_shownChannel (ch : Channel) :
    (shownChannel e me uid s ch).clients.map (·.clientID) =
      (clientsUnder e me uid s ch).map (·.clientID) := by
  rw [clients_shownChannel, map_clientID_decorateMember, map_clientID_rankRaised, map_map]
  rfl

/-! ### The snapshot -/

/-- The tree of a snapshot is the result of a good visit. -/
theorem buildRoleSnapshot_good (e : RoleEvaluator) (me : Int) (uid : String)
    (h : s.Acyclic) : (nodes (buildRoleSnapshot e me uid s).rootChannels).Perm
        ((visibleChannels e me s).map (shownChannel e me uid s)) ∧
      Linked NodeInfo.id NodeInfo.parent (buildRoleSnapshot e me uid s).rootChannels := by
  have hgd : (walk e me uid s).Good e none _ := walk_good h
  have hrts : (walk e me uid s).attached ++ (walk e me uid s).roots =
      (buildRoleSnapshot e me uid s).rootChannels := by
    rw [hgd.detached rfl, nil_append]
    rfl
  have hnds := hgd.nodes
  have hchn := hgd.children
  rw [hrts] at hnds hchn
  exact ⟨hnds, hgd.roots, hchn⟩

theorem listed_clients_perm (h : s.Acyclic) : (((buildRoleSnapshot e me uid s).unassignedClients ++
      (nodes (buildRoleSnapshot e me uid s).rootChannels).flatMap (·.clients)).map
        (·.clientID)).Perm ((visibleClients e me uid s).map (·.clientID)) := by
  have hun : (buildRoleSnapshot e me uid s).unassignedClients.map (·.clientID) =
      (clientsOf e me uid s 0).map (·.clientID) := by
    change ((clientsIn s (showStats e me) uid 0).map (decorateMember e me uid)).map (·.clientID) = _
    rw [map_clientID_decorateMember, clientsIn, map_map]
    rfl
  have hs : (((visibleChannels e me s).map (shownChannel e me uid s)).flatMap
      (·.clients)).map (·.clientID) =
        ((visibleChannels e me s).flatMap (clientsUnder e me uid s)).map (·.clientID) := by
    rw [flatMap_map, map_flatMap, map_flatMap]
    simp only [map_clientID_shownChannel]
  rw [map_append, hun]
  refine List.Perm.trans ?_ (visibleClients_perm.map _)
  rw [map_append, ← hs]
  exact ((buildRoleSnapshot_good e me uid h).1.flatMap_right _ |>.map _).append_left _

/-- **Every snapshot is well formed.** -/
theorem buildRoleSnapshot_wellFormed (h : s.Acyclic) :
    WellFormed e me uid s (buildRoleSnapshot e me uid s) := by
  obtain ⟨hnds, -⟩ := buildRoleSnapshot_good e me uid h
  have hgd : (walk e me uid s).Good e none _ := walk_good h
  have hi : ((nodes (buildRoleSnapshot e me uid s).rootChannels).map NodeInfo.id).Perm
      ((visibleChannels e me s).map (·.channelID)) := by
    have hi := hnds.map NodeInfo.id
    rwa [map_map] at hi
  have hs : ∀ n ∈ nodes (buildRoleSnapshot e me uid s).rootChannels,
      ∃ ch ∈ visibleChannels e me s, shownChannel e me uid s ch = n := by
    intro n hn
    exact mem_map.mp (hnds.mem_iff.mp hn)
  refine ⟨hi, listed_clients_perm h, fun n hn => ?_, ?_, ?_, fun n hn => ?_, fun n hn => ?_⟩
  · obtain ⟨ch, -, rfl⟩ := hs n hn
    change (visibleParent e me s ch).getD 0 = 0 ∨ (visibleParent e me s ch).getD 0 ∈ _
    unfold visibleParent
    split
    · -- a parent that is there and visible is listed
      rename_i hpar
      obtain ⟨p, hp, hpid⟩ := mem_map.mp hpar.2.1
      refine .inr (hi.mem_iff.mpr (mem_map.mpr ⟨p, ?_, hpid⟩))
      rw [visibleChannels, mem_filter]
      exact ⟨hp, hpid ▸ hpar.2.2⟩
    · exact .inl rfl
  · exact hgd.totalChannels.trans hnds.length_eq.symm
  · have hcls : ((nodes (buildRoleSnapshot e me uid s).rootChannels).flatMap
        (·.clients)).length = (walk e me uid s).totalClients := by
      rw [hgd.totalClients, length_flatMap]
      exact (hnds.map _).sum_nat
    rw [length_append, hcls]
    change (clientsIn s (showStats e me) uid 0).length + _ = _
    rw [← length_map (decorateMember e me uid)]
    rfl
  · obtain ⟨ch, -, rfl⟩ := hs n hn
    simp [shownChannel, showNode]
  · obtain ⟨ch, -, rfl⟩ := hs n hn
    refine ⟨_, rfl, ?_, ?_⟩
    · simp only [shownChannel, showNode, countP_map]
      rfl
    · simp only [shownChannel, showNode, countP_map]
      rfl

end Noxa.Snapshot

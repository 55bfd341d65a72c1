import Noxa.Snapshot.Model

/-!
# What the walk over the tree produces

`Good v parent shown` says that the result `v` of a visit under `parent` consists of the nodes
`shown`, each once, linked to their parents, with totals and icons that describe exactly them. It
holds of an empty result, of two results put together and of a visible node over its children, so
it holds of a visit of any tree by induction over the tree.

## Main definitions

* `Visited.Good` — the invariant of a visit
* `visibleParent`, `shownChannel` — the parent a channel is shown under, and its node

## Main results

* `visit_good` — the invariant holds of every visit
* `walk_good` — and of the walk of a snapshot, over the visible channels
-/

namespace Noxa.Snapshot

open Authorization Forest State List

section Visit

variable {e : RoleEvaluator} {me : Int} {uid : String}

/-- The result `v` of a visit under `parent` consists of the nodes `shown`. -/
structure Visited.Good (e : RoleEvaluator) (v : Visited) (parent : Option Int)
    (shown : List NodeInfo) : Prop where
  nodes : (nodes (v.attached ++ v.roots)).Perm shown
  attached : ∀ t ∈ v.attached, t.root.parent = parent
  detached : parent = none → v.attached = []
  roots : ∀ t ∈ v.roots, t.root.parent = none
  children : ∀ t ∈ allSubtrees (v.attached ++ v.roots), ∀ u ∈ t.children,
    u.root.parent = some t.root.id
  totalChannels : v.totalChannels = shown.length
  totalClients : v.totalClients = (shown.map (·.clients.length)).sum
  icons : v.icons.Perm (shown.flatMap fun n => n.clients.flatMap (iconsOf e))

variable {parent : Option Int} {shown : List NodeInfo} {v : Visited} {shown' : List NodeInfo}

theorem Visited.Good.congr (h : v.Good e parent shown)
    (hpm : shown.Perm shown') : v.Good e parent shown' :=
  { h with
    nodes := h.nodes.trans hpm
    totalChannels := h.totalChannels.trans hpm.length_eq
    totalClients := h.totalClients.trans (hpm.map _).sum_nat
    icons := h.icons.trans (hpm.flatMap_right _) }

theorem good_empty : ({} : Visited).Good e parent [] := by
  constructor <;> simp

theorem Visited.Good.append {w : Visited} (hv : v.Good e parent shown)
    (hw : w.Good e parent shown') : (v.append w).Good e parent (shown ++ shown') where
  nodes := by
    have hmid : (Forest.nodes ((v.append w).attached ++ (v.append w).roots)).Perm
        (Forest.nodes (v.attached ++ v.roots) ++ Forest.nodes (w.attached ++ w.roots)) := by
      simp only [Visited.append, nodes_append, append_assoc]
      refine List.Perm.append_left _ ?_
      rw [← append_assoc, ← append_assoc]
      exact perm_append_comm.append_right _
    exact hmid.trans (hv.nodes.append hw.nodes)
  attached := forall_mem_append.mpr ⟨hv.attached, hw.attached⟩
  detached := fun h => by simp [Visited.append, hv.detached h, hw.detached h]
  roots := forall_mem_append.mpr ⟨hv.roots, hw.roots⟩
  children := by
    have hvc := hv.children
    have hwc := hw.children
    simp only [Visited.append, allSubtrees_append, forall_mem_append] at hvc hwc ⊢
    exact ⟨⟨hvc.1, hwc.1⟩, hvc.2, hwc.2⟩
  totalChannels := by simp [Visited.append, hv.totalChannels, hw.totalChannels]
  totalClients := by simp [Visited.append, hv.totalClients, hw.totalClients]
  icons := by simpa [Visited.append] using hv.icons.append hw.icons

theorem parent_showNode (hp : parent ≠ some 0) (n : NodeInfo) :
    (showNode e me uid parent n).parent = parent := by
  cases parent with
  | none => rfl
  | some k =>
    have hk : k ≠ 0 := fun h => hp (by rw [h])
    simp [NodeInfo.parent, showNode, hk]

/-- A visible node over the visit of its children. -/
theorem Visited.Good.visitShown {below : Visited} {n : NodeInfo} (hp : parent ≠ some 0)
    (h : below.Good e (some n.id) shown) :
    (visitShown e me uid parent n below).Good e parent (showNode e me uid parent n :: shown) := by
  have hrt : (showNode e me uid parent n).parent = parent :=
    parent_showNode hp n
  have hall : (Snapshot.visitShown e me uid parent n below).attached ++
      (Snapshot.visitShown e me uid parent n below).roots =
        .node (showNode e me uid parent n) below.attached :: below.roots := by
    cases parent <;> rfl
  have hic : (showNode e me uid parent n).clients.flatMap (iconsOf e) =
      n.clients.flatMap (iconsOf e) := by
    simp only [showNode, flatMap_map]
    rfl
  refine ⟨?_, ?_, ?_, ?_, ?_, ?_, ?_, ?_⟩
  · rw [hall, nodes_cons, RoseTree.root_node, RoseTree.children_node, cons_append, ← nodes_append]
    exact h.nodes.cons _
  · intro t ht
    cases parent with
    | none => simp [Snapshot.visitShown] at ht
    | some =>
      obtain rfl : t = _ := by simpa [Snapshot.visitShown] using ht
      exact hrt
  · rintro rfl
    rfl
  · intro t ht
    cases parent with
    | none =>
      rcases mem_cons.mp ht with rfl | ht
      · exact hrt
      · exact h.roots t ht
    | some => exact h.roots t ht
  · intro t ht u hu
    rw [hall, allSubtrees_cons, subtrees_eq, cons_append, mem_cons, RoseTree.children_node,
      ← allSubtrees_append] at ht
    rcases ht with rfl | ht
    · exact h.attached u hu
    · exact h.children t ht u hu
  · simp [Snapshot.visitShown, h.totalChannels]
  · simp [Snapshot.visitShown, h.totalClients, showNode, Nat.add_comm]
  · rw [flatMap_cons, hic]
    exact h.icons.append_left _

/-! ### Visiting a forest -/

variable {parentOf : NodeInfo → Option Int}

/-- The nodes that are shown, each under the parent `parentOf` says. -/
def shownNodes (e : RoleEvaluator) (me : Int) (uid : String)
    (parentOf : NodeInfo → Option Int) (ns : List NodeInfo) : List NodeInfo :=
  (ns.filter fun n => visible e me n.id).map fun n =>
    showNode e me uid (parentOf n) n

/-- `parentOf` names the parent of every node below the roots, if that parent is visible. -/
def NamesParents (e : RoleEvaluator) (me : Int) (parentOf : NodeInfo → Option Int)
    (ts : List ChannelNode) : Prop :=
  ∀ t ∈ allSubtrees ts, ∀ u ∈ t.children,
    parentOf u.root = if visible e me t.root.id then some t.root.id else none

/-- A forest, given the visit of each of its trees. -/
theorem visitAll_good_of {ts : List ChannelNode}
    (h : ∀ t ∈ ts, (visit e me uid parent t).Good e parent
      (shownNodes e me uid parentOf (nodes [t]))) :
    (visitAll e me uid parent ts).Good e parent (shownNodes e me uid parentOf (nodes ts)) := by
  induction ts with
  | nil =>
    rw [visitAll, nodes_nil]
    exact good_empty
  | cons t ts ih =>
    have hspl : nodes (t :: ts) = nodes [t] ++ nodes ts := by
      rw [← nodes_append, singleton_append]
    rw [visitAll, hspl, shownNodes, filter_append, map_append]
    exact (h t (mem_cons_self ..)).append (ih fun t ht => h t (mem_cons_of_mem _ ht))

theorem visit_good (hz : ∀ n, parentOf n ≠ some 0) {t : ChannelNode}
    (hnms : NamesParents e me parentOf [t]) (hrt : parentOf t.root = parent) :
    (visit e me uid parent t).Good e parent (shownNodes e me uid parentOf (nodes [t])) := by
  induction t using RoseTree.induction generalizing parent with
  | node n ts ih =>
    have hbel : ∀ t ∈ ts, NamesParents e me parentOf [t] := by
      intro t ht s hs u hu
      refine hnms s ?_ u hu
      rw [allSubtrees_cons, subtrees_eq, allSubtrees_nil, append_nil, RoseTree.children_node]
      rw [allSubtrees_cons, allSubtrees_nil, append_nil] at hs
      exact mem_cons_of_mem _ ((subtrees_sublist ht).subset hs)
    have hchi : ∀ t ∈ ts, parentOf t.root = if visible e me n.id then some n.id else none :=
      fun t ht => hnms (.node n ts) (mem_allSubtrees_of_mem (mem_singleton_self _)) t ht
    have hnds : nodes [.node n ts] = n :: nodes ts := by
      rw [nodes_cons, nodes_nil, append_nil, RoseTree.root_node, RoseTree.children_node]
    have hvis := visitAll_good_of fun t ht => ih t ht (hbel t ht) (hchi t ht)
    rw [visit, hnds]
    by_cases hn : visible e me n.id = true
    · have hhd : shownNodes e me uid parentOf (n :: nodes ts) = showNode e me uid parent n ::
            shownNodes e me uid parentOf (nodes ts) := by
        rw [← hrt]
        simp [shownNodes, hn]
      rw [if_pos hn] at hvis ⊢
      rw [hhd]
      exact hvis.visitShown (hrt ▸ hz n)
    · have hhd : shownNodes e me uid parentOf (n :: nodes ts) =
          shownNodes e me uid parentOf (nodes ts) := by
        simp [shownNodes, hn]
      rw [if_neg hn] at hvis ⊢
      rw [hhd]
      -- below a hidden node nothing is attached, so the result serves any parent
      have hno := hvis.detached rfl
      exact { hvis with
        attached := by simp [hno]
        detached := fun _ => hno }

end Visit

/-! ### Visiting the tree of a state -/

section Build

variable (e : RoleEvaluator) (me : Int) (uid : String) (s : ServerState)

/-- The parent of a channel, if it is there and visible. -/
def visibleParent (ch : Channel) : Option Int :=
  if ch.parentID ≠ 0 ∧ ch.parentID ∈ s.channels.map (·.channelID) ∧
    visible e me ch.parentID then
    some ch.parentID
  else none

/-- A channel of the state as it is shown. -/
def shownChannel (ch : Channel) : NodeInfo :=
  showNode e me uid (visibleParent e me s ch) (nodeOf s (showStats e me) uid ch)

def visibleChannels : List Channel := s.channels.filter fun ch => visible e me ch.channelID

/-- The visit that `buildRoleSnapshot` makes. -/
def walk : Visited :=
  visitAll e me uid none (buildSnapshot s (showStats e me) uid).rootChannels

variable {e me uid s}

/-- The tree for everyone has every channel once, and its nodes name their parents. -/
theorem buildSnapshot_nodes (h : s.Acyclic) (forAdmin : Bool) (viewer : String) :
    (nodes (buildSnapshot s forAdmin viewer).rootChannels).Perm
      (s.channelTreeOrdered.map (nodeOf s forAdmin viewer)) := by
  have hi : (s.channelTreeOrdered.map (nodeOf s forAdmin viewer)).map NodeInfo.id =
      s.channelTreeOrdered.map (·.channelID) := by
    rw [map_map]
    rfl
  have hks : ((s.channelTreeOrdered.map (nodeOf s forAdmin viewer)).map NodeInfo.id).Nodup := by
    rw [hi]
    exact (s.channelTreeOrdered_perm.map _).nodup_iff.mpr s.channels_nodup
  have hac : ∀ n, ¬ Relation.TransGen (Child NodeInfo.id NodeInfo.parent
      (s.channelTreeOrdered.map (nodeOf s forAdmin viewer))) n n := by
    intro n hcyc
    refine h n.id (Relation.TransGen.lift NodeInfo.id (fun a b hab => ?_) n n hcyc)
    obtain ⟨-, hb, hup⟩ := hab
    obtain ⟨ch, hch, rfl⟩ := mem_map.mp hb
    have hp : ch.parentID ≠ 0 ∧ ch.parentID = a.id := by
      by_cases hz : ch.parentID = 0
      · simp [NodeInfo.parent, nodeOf, hz] at hup
      · exact ⟨hz, by simpa [NodeInfo.parent, nodeOf, hz] using hup⟩
    exact ⟨hp.2 ▸ hp.1, ch, s.channelTreeOrdered_perm.mem_iff.mp hch, rfl, hp.2⟩
  have hfor := forest_perm hks hac
  rw [length_map] at hfor
  exact hfor

/-- The visible parent of a channel, read off its node in the tree for everyone. -/
theorem visibleParent_of_parent {n : NodeInfo} : visibleParent e me s n.channel =
      match n.parent with
      | none => none
      | some k =>
        if k ∈ s.channels.map (·.channelID) ∧ visible e me k then some k else none := by
  by_cases hz : n.channel.parentID = 0
  · simp [visibleParent, NodeInfo.parent, hz]
  · simp [visibleParent, NodeInfo.parent, hz]

/-- **The walk shows exactly the visible channels**, each under its visible parent. -/
theorem walk_good (h : s.Acyclic) : (walk e me uid s).Good e none
      ((visibleChannels e me s).map (shownChannel e me uid s)) := by
  have hnds := buildSnapshot_nodes h (showStats e me) uid
  have hi : ∀ n ∈ nodes (buildSnapshot s (showStats e me) uid).rootChannels,
      n.id ∈ s.channels.map (·.channelID) := by
    intro n hn
    obtain ⟨ch, hch, rfl⟩ := mem_map.mp (hnds.mem_iff.mp hn)
    exact mem_map.mpr ⟨ch, s.channelTreeOrdered_perm.mem_iff.mp hch, rfl⟩
  have hgd : (walk e me uid s).Good e none
      (shownNodes e me uid (fun n => visibleParent e me s n.channel)
        (nodes (buildSnapshot s (showStats e me) uid).rootChannels)) := by
    refine visitAll_good_of fun t ht => visit_good ?_ ?_ ?_
    · intro n hn
      unfold visibleParent at hn
      split at hn
      · rename_i hcn
        exact hcn.1 (Option.some.inj hn)
      · simp at hn
    · -- a child names its parent, which is there
      intro t' ht' u hu
      rw [allSubtrees_cons, allSubtrees_nil, append_nil] at ht'
      have hmem : t' ∈ allSubtrees (buildSnapshot s (showStats e me) uid).rootChannels :=
        (subtrees_sublist ht).subset ht'
      obtain ⟨n, -, rfl⟩ := mem_map.mp ht
      have hthr := hi _ (mem_nodes.mpr ⟨t', hmem, rfl⟩)
      change visibleParent e me s u.root.channel = _
      rw [visibleParent_of_parent, grow_linked ht' hu]
      simp only [hthr, true_and]
    · -- a root names no parent, or one that is not there
      obtain ⟨n, hn, rfl⟩ := mem_map.mp ht
      have htop := (mem_filter.mp hn).2
      change visibleParent e me s (grow _ _ _ _ n).root.channel = none
      rw [root_grow, visibleParent_of_parent]
      unfold isTop at htop
      cases hp : n.parent with
      | none => rfl
      | some k =>
        rw [hp] at htop
        have habs : k ∉ s.channels.map (·.channelID) := by
          intro hk
          refine absurd ?_ (of_decide_eq_true htop)
          rw [map_map]
          exact ((s.channelTreeOrdered_perm.map _).mem_iff (a := k)).mpr hk
        exact if_neg fun hcn => habs hcn.1
  refine hgd.congr ?_
  have hshn : shownNodes e me uid (fun n => visibleParent e me s n.channel)
      (s.channels.map (nodeOf s (showStats e me) uid)) =
        (visibleChannels e me s).map (shownChannel e me uid s) := by
    rw [shownNodes, visibleChannels, filter_map, map_map]
    rfl
  rw [← hshn]
  exact ((hnds.trans (s.channelTreeOrdered_perm.map _)).filter _).map _

end Build

end Noxa.Snapshot

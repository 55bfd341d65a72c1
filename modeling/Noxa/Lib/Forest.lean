import Mathlib.Data.List.Flatten
import Mathlib.Data.List.Perm.Basic
import Mathlib.Data.List.Nodup

/-!
# Forests from parent pointers

A flat list of records, each naming its parent by a key, is read as a forest: `grow` collects the
children of a record from the list, with a bound on the depth, and `forest` starts at the records
whose parent is absent. If no record is its own ancestor, the forest has every record exactly once.

Two forests are the same up to the order of their lists (`SameForest`) as soon as their nodes are:
when a node names its parent, the set of nodes determines the tree.

## Main definitions

* `RoseTree`, `subtrees` — rose trees, and their nodes
* `grow`, `forest` — the forest of a list of records
* `Linked` — every node names its parent
* `Same`, `SameForest` — equal up to the order of lists, and up to a relation of the nodes

## Main results

* `forest_perm` — the forest has every record once
* `sameForest_of_nodes` — linked forests with the same nodes are the same
-/

namespace Noxa.Forest

open List

universe u v

variable {α β : Type u} {κ : Type v}

/-- A rose tree. -/
inductive RoseTree (α : Type u) : Type u
  | node (a : α) (children : List (RoseTree α))

namespace RoseTree

def root : RoseTree α → α
  | node a _ => a

def children : RoseTree α → List (RoseTree α)
  | node _ ts => ts

@[simp] theorem root_node (a : α) (ts : List (RoseTree α)) : (node a ts).root = a := rfl

@[simp] theorem children_node (a : α) (ts : List (RoseTree α)) : (node a ts).children = ts := rfl

/-- Induction over a tree, with the hypothesis for every child. -/
@[elab_as_elim]
theorem induction {P : RoseTree α → Prop} (node : ∀ a ts, (∀ t ∈ ts, P t) → P (.node a ts))
    (t : RoseTree α) : P t :=
  match t with
  | .node a ts => node a ts fun t _ => induction node t

/-- Induction over a forest, with the hypothesis for the children of every tree. -/
@[elab_as_elim]
theorem forest_induction {P : List (RoseTree α) → Prop}
    (forest : ∀ ts, (∀ t ∈ ts, P t.children) → P ts) (ts : List (RoseTree α)) : P ts :=
  forest ts fun t _ => induction (P := fun t => P t.children) (fun _ us => forest us) t

end RoseTree

mutual

/-- The tree and all subtrees below it, parents first. -/
def subtrees : RoseTree α → List (RoseTree α)
  | .node a ts => .node a ts :: allSubtrees ts

/-- The subtrees of a forest. -/
def allSubtrees : List (RoseTree α) → List (RoseTree α)
  | [] => []
  | t :: ts => subtrees t ++ allSubtrees ts

end

/-- The nodes of a forest. -/
def nodes (ts : List (RoseTree α)) : List α := (allSubtrees ts).map RoseTree.root

@[simp] theorem allSubtrees_nil : allSubtrees ([] : List (RoseTree α)) = [] := by
  rw [allSubtrees]

variable (t : RoseTree α) (ts us : List (RoseTree α))

@[simp] theorem allSubtrees_cons : allSubtrees (t :: ts) = subtrees t ++ allSubtrees ts := by
  rw [allSubtrees]

theorem subtrees_eq : subtrees t = t :: allSubtrees t.children := by
  cases t
  rw [subtrees, RoseTree.children]

theorem allSubtrees_eq_flatMap : allSubtrees ts = ts.flatMap subtrees := by
  induction ts with
  | nil => simp
  | cons t ts ih => simp [ih]

@[simp] theorem allSubtrees_append : allSubtrees (ts ++ us) = allSubtrees ts ++ allSubtrees us := by
  simp [allSubtrees_eq_flatMap]

@[simp] theorem nodes_nil : nodes ([] : List (RoseTree α)) = [] := by simp [nodes]

@[simp] theorem nodes_append : nodes (ts ++ us) = nodes ts ++ nodes us := by
  simp [nodes]

theorem nodes_cons : nodes (t :: ts) = t.root :: nodes t.children ++ nodes ts := by
  simp [nodes, subtrees_eq]

theorem nodes_eq_flatMap : nodes ts = ts.flatMap fun t => nodes [t] := by
  induction ts with
  | nil => simp
  | cons t ts ih => rw [flatMap_cons, ← ih, ← nodes_append, singleton_append]

theorem sublist_allSubtrees : ts.Sublist (allSubtrees ts) := by
  induction ts with
  | nil => exact .refl _
  | cons t ts ih =>
    rw [allSubtrees_cons, subtrees_eq, cons_append]
    exact (ih.trans (sublist_append_right ..)).cons_cons t

variable {ts} {u : RoseTree α}

theorem mem_allSubtrees : u ∈ allSubtrees ts ↔ ∃ t ∈ ts, u = t ∨ u ∈ allSubtrees t.children := by
  rw [allSubtrees_eq_flatMap, mem_flatMap]
  simp only [subtrees_eq, mem_cons]

variable {t}

theorem mem_allSubtrees_of_mem (h : t ∈ ts) : t ∈ allSubtrees ts :=
  mem_allSubtrees.mpr ⟨t, h, .inl rfl⟩

/-- Every subtree is one of the roots or a child of another subtree. -/
theorem root_or_child (h : u ∈ allSubtrees ts) : u ∈ ts ∨ ∃ t ∈ allSubtrees ts, u ∈ t.children := by
  induction ts using RoseTree.forest_induction with
  | forest ts ih =>
    obtain ⟨s, hs, rfl | hu⟩ := mem_allSubtrees.mp h
    · exact .inl hs
    rcases ih s hs hu with hu | ⟨t, ht, hu⟩
    · exact .inr ⟨s, mem_allSubtrees_of_mem hs, hu⟩
    · exact .inr ⟨t, mem_allSubtrees.mpr ⟨s, hs, .inr ht⟩, hu⟩

theorem subtrees_sublist (ht : t ∈ ts) : (subtrees t).Sublist (allSubtrees ts) := by
  rw [allSubtrees_eq_flatMap]
  simpa using (singleton_sublist.mpr ht).flatMap subtrees

/-- The children of a subtree are subtrees, each listed as often. -/
theorem children_sublist (h : t ∈ allSubtrees ts) : t.children.Sublist (allSubtrees ts) := by
  induction ts using RoseTree.forest_induction with
  | forest ts ih =>
    obtain ⟨s, hs, ht⟩ := mem_allSubtrees.mp h
    have hsub := subtrees_sublist hs
    rw [subtrees_eq] at hsub
    refine List.Sublist.trans ?_ ((sublist_cons_self ..).trans hsub)
    rcases ht with rfl | ht
    · exact sublist_allSubtrees _
    · exact ih s hs ht

/-! ### Growing a forest -/

section Grow

variable [DecidableEq κ] (key : α → κ) (up : α → Option κ) (l : List α)

def childrenOf (a : α) : List α := l.filter fun b => up b = some (key a)

/-- The tree below a record, to the given depth. -/
def grow : ℕ → α → RoseTree α
  | 0, a => .node a []
  | n + 1, a => .node a ((childrenOf key up l a).map (grow n))

/-- A record that names no parent, or one that is not there. -/
def isTop (a : α) : Bool :=
  match up a with
  | none => true
  | some k => decide (k ∉ l.map key)

def forest (n : ℕ) : List (RoseTree α) := (l.filter (isTop key up l)).map (grow key up l n)

/-- `b` is a child of `a`. -/
def Child (a b : α) : Prop := a ∈ l ∧ b ∈ l ∧ up b = some (key a)

variable {key up l}

@[simp] theorem root_grow (n : ℕ) (a : α) : (grow key up l n a).root = a := by
  cases n <;> rfl

theorem mem_childrenOf {a b : α} : b ∈ childrenOf key up l a ↔ b ∈ l ∧ up b = some (key a) := by
  simp [childrenOf]

/-- Every child in a grown tree names its parent. -/
theorem grow_linked {n : ℕ} {a : α} {t u : RoseTree α} (ht : t ∈ subtrees (grow key up l n a))
    (hu : u ∈ t.children) : up u.root = some (key t.root) := by
  induction n generalizing a with
  | zero =>
    rw [grow, subtrees_eq] at ht
    simp only [RoseTree.children_node, allSubtrees_nil, mem_singleton] at ht
    subst ht
    simp at hu
  | succ n ih =>
    rw [grow, subtrees_eq, mem_cons] at ht
    rcases ht with rfl | ht
    · rw [RoseTree.children_node, mem_map] at hu
      obtain ⟨b, hb, rfl⟩ := hu
      rw [root_grow, RoseTree.root_node]
      exact (mem_childrenOf.mp hb).2
    · obtain ⟨s, hs, ht⟩ := mem_allSubtrees.mp ht
      obtain ⟨b, -, rfl⟩ := mem_map.mp hs
      exact ih (by rwa [subtrees_eq, mem_cons])

end Grow

/-! ### Every record once -/

section Enumerate

open Relation

variable {key : α → κ} {up : α → Option κ} {l : List α} {rank : α → ℕ} {n : ℕ} {a b : α}

/-- Without cycles the number of descendants is a rank: it is smaller for a child. -/
theorem exists_rank (hacy : ∀ a, ¬ TransGen (Child key up l) a a) :
    ∃ rank : α → ℕ, (∀ a, rank a ≤ l.length) ∧ ∀ a b, Child key up l a b → rank b < rank a := by
  classical
  refine ⟨fun a => (l.filter fun b => TransGen (Child key up l) a b).length,
    fun a => length_filter_le _ _, fun a b hab => ?_⟩
  have hsub : (l.filter fun c => TransGen (Child key up l) b c).Sublist
      (l.filter fun c => TransGen (Child key up l) a c) :=
    monotone_filter_right l fun c hc => decide_eq_true (.head hab (of_decide_eq_true hc))
  refine Nat.lt_of_not_le fun hle => ?_
  have hb : b ∈ l.filter fun c => TransGen (Child key up l) b c := by
    rw [hsub.eq_of_length_le hle]
    simp [hab.2.1, TransGen.single hab]
  simp [hacy b] at hb

variable (hks : (l.map key).Nodup)

include hks

theorem child_unique {x y : α} (hx : Child key up l x b) (hy : Child key up l y b) : x = y := by
  have hk : key x = key y := Option.some.inj (hx.2.2.symm.trans hy.2.2)
  exact inj_on_of_nodup_map hks hx.1 hy.1 hk

variable [DecidableEq κ]

omit hks

theorem nodes_grow_succ (n : ℕ) (a : α) : nodes [grow key up l (n + 1) a] =
      a :: (childrenOf key up l a).flatMap fun c => nodes [grow key up l n c] := by
  rw [grow, nodes_cons, nodes_nil, append_nil, RoseTree.root_node, RoseTree.children_node,
    nodes_eq_flatMap, flatMap_map]

theorem isTop_iff (ha : a ∈ l) : isTop key up l a = true ↔ ∀ x, ¬ Child key up l x a := by
  unfold isTop
  cases hup : up a with
  | none => simp [Child, hup]
  | some =>
    simp only [mem_map, not_exists, not_and, decide_eq_true_eq]
    refine forall_congr' fun x => ?_
    simp only [Child, hup, Option.some.injEq, not_and]
    exact ⟨fun h hx _ heq => h hx heq.symm, fun h hx heq => h hx ha heq.symm⟩

variable (hrk : ∀ a b, Child key up l a b → rank b < rank a)

include hrk

omit [DecidableEq κ] in
theorem rank_le_of_descendant (h : ReflTransGen (Child key up l) a b) : rank b ≤ rank a := by
  induction h with
  | refl => exact Nat.le_refl _
  | tail _ hstp ih => exact Nat.le_trans (Nat.le_of_lt (hrk _ _ hstp)) ih

/-- A tree that is deep enough has exactly the descendants of its root. -/
theorem mem_nodes_grow (ha : a ∈ l) (hn : rank a ≤ n) :
    b ∈ nodes [grow key up l n a] ↔ ReflTransGen (Child key up l) a b := by
  induction n generalizing a with
  | zero =>
    have hlf : ∀ c, ¬ Child key up l a c := fun c hc => by have := hrk a c hc; omega
    have hnds : nodes [grow key up l 0 a] = [a] := by simp [grow, nodes_cons]
    rw [hnds, mem_singleton]
    constructor
    · rintro rfl
      exact .refl
    intro h
    rcases ReflTransGen.cases_head h with heq | ⟨c, hc, -⟩
    · exact heq.symm
    · exact absurd hc (hlf c)
  | succ n ih =>
    rw [nodes_grow_succ, mem_cons, mem_flatMap, ReflTransGen.cases_head_iff, eq_comm]
    refine or_congr_right (exists_congr fun c => ?_)
    rw [mem_childrenOf]
    constructor
    · rintro ⟨⟨hc, hup⟩, hb⟩
      have hch : Child key up l a c := ⟨ha, hc, hup⟩
      exact ⟨hch, (ih hc (by have := hrk a c hch; omega)).mp hb⟩
    · rintro ⟨hch, hb⟩
      exact ⟨hch.2, (ih hch.2.1 (by have := hrk a c hch; omega)).mpr hb⟩

include hks in
/-- Trees have no node in common when no root is above the parent of another. -/
theorem nodup_flatMap_grow {s : List α} (hs : s.Nodup) (hsml : ∀ c ∈ s, c ∈ l ∧ rank c ≤ n)
    (hno : ∀ c ∈ s, ∀ c' ∈ s, ∀ x, Child key up l x c' → ¬ ReflTransGen (Child key up l) c x)
    (htr : ∀ c ∈ s, (nodes [grow key up l n c]).Nodup) :
    (s.flatMap fun c => nodes [grow key up l n c]).Nodup := by
  refine nodup_flatMap.mpr ⟨htr, hs.pairwise_of_forall_ne fun c hc c' hc' hne b hb hb' => hne ?_⟩
  have hbel : ∀ c ∈ s, b ∈ nodes [grow key up l n c] → ReflTransGen (Child key up l) c b :=
    fun c hc => (mem_nodes_grow hrk (hsml c hc).1 (hsml c hc).2).mp
  have heq : ∀ c ∈ s, ∀ c' ∈ s, ReflTransGen (Child key up l) c c' → c' = c := by
    intro c hc c' hc' h
    rcases ReflTransGen.cases_tail h with heq | ⟨x, hx, hstp⟩
    · exact heq
    · exact absurd hx (hno c hc c' hc' x hstp)
  -- the ancestors of `b` are on one line
  have hunq : Relator.RightUnique (Function.swap (Child key up l)) :=
    fun b x y hx hy => child_unique hks hx hy
  rcases ReflTransGen.total_of_right_unique hunq (hbel c hc hb).swap (hbel c' hc' hb').swap
    with hcc | hcc
  · exact heq c' hc' c hc hcc.swap
  · exact (heq c hc c' hc' hcc.swap).symm

include hks in
theorem nodup_nodes_grow (ha : a ∈ l) (hn : rank a ≤ n) : (nodes [grow key up l n a]).Nodup := by
  induction n generalizing a with
  | zero => simp [grow, nodes_cons]
  | succ n ih =>
    have hch : ∀ c ∈ childrenOf key up l a, Child key up l a c :=
      fun c hc => ⟨ha, mem_childrenOf.mp hc⟩
    have hsml : ∀ c ∈ childrenOf key up l a, c ∈ l ∧ rank c ≤ n := fun c hc =>
      ⟨(hch c hc).2.1, by have := hrk a c (hch c hc); omega⟩
    -- the root is not below one of its children
    have hrt : ∀ c ∈ childrenOf key up l a, ¬ ReflTransGen (Child key up l) c a :=
      fun c hc h => Nat.not_lt.mpr (rank_le_of_descendant hrk h) (hrk a c (hch c hc))
    rw [nodes_grow_succ, nodup_cons]
    refine ⟨fun hmem => ?_, nodup_flatMap_grow hks hrk (hks.of_map.filter _) hsml
      (fun c hc c' hc' x hx => ?_) fun c hc => ih (hsml c hc).1 (hsml c hc).2⟩
    · obtain ⟨c, hc, hac⟩ := mem_flatMap.mp hmem
      exact hrt c hc ((mem_nodes_grow hrk (hsml c hc).1 (hsml c hc).2).mp hac)
    · obtain rfl := child_unique hks hx (hch c' hc')
      exact hrt c hc

theorem exists_top (hn : ∀ a, rank a ≤ n) (hb : b ∈ l) :
    ∃ r ∈ l, isTop key up l r = true ∧ ReflTransGen (Child key up l) r b := by
  induction hm : n - rank b using Nat.strongRecOn generalizing b with
  | ind m ih =>
    by_cases htop : isTop key up l b = true
    · exact ⟨b, hb, htop, .refl⟩
    rw [isTop_iff hb] at htop
    push Not at htop
    obtain ⟨x, hx⟩ := htop
    have hlt := hrk x b hx
    have hxn := hn x
    obtain ⟨r, hr, hrtop, hrx⟩ := ih (n - rank x) (by omega) hx.1 rfl
    exact ⟨r, hr, hrtop, hrx.tail hx⟩

omit hrk

include hks in
/-- **Every record once.** -/
theorem forest_perm (hacy : ∀ a, ¬ TransGen (Child key up l) a a) :
    (nodes (forest key up l l.length)).Perm l := by
  obtain ⟨rank, hle, hrk⟩ := exists_rank hacy
  have hnds : nodes (forest key up l l.length) =
      (l.filter (isTop key up l)).flatMap fun r => nodes [grow key up l l.length r] := by
    rw [forest, nodes_eq_flatMap, flatMap_map]
  rw [hnds]
  refine (perm_ext_iff_of_nodup ?_ hks.of_map).mpr fun b => ?_
  · exact nodup_flatMap_grow hks hrk (hks.of_map.filter _)
      (fun r hr => ⟨mem_of_mem_filter hr, hle r⟩)
      (fun _ _ r hr x hx _ => (isTop_iff (mem_of_mem_filter hr)).mp (of_mem_filter hr) x hx)
      fun r hr => nodup_nodes_grow hks hrk (mem_of_mem_filter hr) (hle r)
  · rw [mem_flatMap]
    constructor
    · rintro ⟨r, hr, hb⟩
      have hrl := mem_of_mem_filter hr
      rcases ReflTransGen.cases_tail ((mem_nodes_grow hrk hrl (hle r)).mp hb) with rfl | ⟨x, -, hx⟩
      · exact hrl
      · exact hx.2.1
    · intro hb
      obtain ⟨r, hr, hrtop, hrb⟩ := exists_top hrk hle hb
      exact ⟨r, mem_filter.mpr ⟨hr, hrtop⟩, (mem_nodes_grow hrk hr (hle r)).mpr hrb⟩

end Enumerate

/-! ### Up to order -/

section Same

/-- Every node names its parent, and the roots name none. -/
structure Linked (key : α → κ) (up : α → Option κ) (ts : List (RoseTree α)) : Prop where
  roots : ∀ t ∈ ts, up t.root = none
  children : ∀ t ∈ allSubtrees ts, ∀ u ∈ t.children, up u.root = some (key t.root)

/-- Trees that are equal up to the order of children, with nodes related by `S`. -/
inductive Same (S : α → α → Prop) : RoseTree α → RoseTree α → Prop
  | node {a b : α} {ts us vs : List (RoseTree α)} (hrt : S a b) (hchn : List.Forall₂ (Same S) ts us)
      (hpm : us.Perm vs) : Same S (.node a ts) (.node b vs)

/-- Forests that are equal up to the order of all lists, with nodes related by `S`. -/
def SameForest (S : α → α → Prop) (ts vs : List (RoseTree α)) : Prop :=
  ∃ us, List.Forall₂ (Same S) ts us ∧ us.Perm vs

/-- Two lists whose keys do not repeat are matched by their keys. -/
theorem exists_matching {γ δ : Type*} {R : γ → δ → Prop} {f : γ → κ} {g : δ → κ} {l : List γ}
    {l' : List δ} (hl : (l.map f).Nodup) (hl' : (l'.map g).Nodup)
    (h : ∀ x ∈ l, ∃ y ∈ l', g y = f x ∧ R x y) (h' : ∀ y ∈ l', ∃ x ∈ l, f x = g y) :
    ∃ m, List.Forall₂ R l m ∧ m.Perm l' := by
  choose partner hmem hk hR using h
  refine ⟨l.attach.map fun x => partner x.1 x.2, ?_, ?_⟩
  · nth_rewrite 1 [← l.attach_map_subtype_val]
    rw [forall₂_map_left_iff, forall₂_map_right_iff, forall₂_same]
    exact fun x _ => hR x.1 x.2
  have hks : (l.attach.map fun x => partner x.1 x.2).map g = l.map f := by
    rw [map_map, ← attach_map_val (f := f)]
    exact map_congr_left fun x _ => hk x.1 x.2
  rw [← hks] at hl
  refine (perm_ext_iff_of_nodup hl.of_map hl'.of_map).mpr fun y => ?_
  rw [mem_map]
  constructor
  · rintro ⟨x, -, rfl⟩
    exact hmem x.1 x.2
  · intro hy
    obtain ⟨x, hx, hxy⟩ := h' y hy
    exact ⟨⟨x, hx⟩, mem_attach .., inj_on_of_nodup_map hl' (hmem x hx) hy ((hk x hx).trans hxy)⟩

variable {key : α → κ} {up : α → Option κ} {ts vs : List (RoseTree α)}

theorem mem_nodes {a : α} : a ∈ nodes ts ↔ ∃ t ∈ allSubtrees ts, t.root = a := by
  simp [nodes]

theorem subtree_unique (hks : ((nodes ts).map key).Nodup) {t u : RoseTree α}
    (ht : t ∈ allSubtrees ts) (hu : u ∈ allSubtrees ts) (h : key t.root = key u.root) : t = u := by
  rw [nodes, map_map] at hks
  exact inj_on_of_nodup_map hks ht hu h

/-- A subtree that names no parent is a root. -/
theorem Linked.mem_roots (hvs : Linked key up vs) {y : RoseTree α} (hy : y ∈ allSubtrees vs) :
    y ∈ vs ↔ up y.root = none := by
  refine ⟨hvs.roots y, fun hup => ?_⟩
  rcases root_or_child hy with hrt | ⟨t, ht, hyt⟩
  · exact hrt
  · rw [hvs.children t ht y hyt] at hup
    simp at hup

/-- A subtree that names `v` as its parent is a child of `v`. -/
theorem Linked.mem_children (hvs : Linked key up vs) (hks : ((nodes vs).map key).Nodup)
    {v y : RoseTree α} (hv : v ∈ allSubtrees vs) (hy : y ∈ allSubtrees vs) :
    y ∈ v.children ↔ up y.root = some (key v.root) := by
  refine ⟨hvs.children v hv y, fun hup => ?_⟩
  rcases root_or_child hy with hrt | ⟨t, ht, hyt⟩
  · rw [hvs.roots y hrt] at hup
    simp at hup
  · have hk := Option.some.inj ((hvs.children t ht y hyt).symm.trans hup)
    obtain rfl := subtree_unique hks ht hv hk
    exact hyt

/-- **The nodes determine a linked forest** up to order. -/
theorem sameForest_of_nodes {S : α → α → Prop} (hS : ∀ a b, S a b → key a = key b ∧ up a = up b)
    (hts : Linked key up ts) (hvs : Linked key up vs) (hkt : ((nodes ts).map key).Nodup)
    (hkv : ((nodes vs).map key).Nodup) (h : ∀ a ∈ nodes ts, ∃ b ∈ nodes vs, S a b)
    (h' : ∀ b ∈ nodes vs, ∃ a ∈ nodes ts, S a b) : SameForest S ts vs := by
  have hmt : ∀ {ts vs : List (RoseTree α)} {R : α → α → Prop},
      (∀ a ∈ nodes ts, ∃ b ∈ nodes vs, R a b) →
      ∀ x ∈ allSubtrees ts, ∃ u ∈ allSubtrees vs, R x.root u.root := by
    intro ts vs R h x hx
    obtain ⟨y, hy, hxy⟩ := h x.root (mem_nodes.mpr ⟨x, hx, rfl⟩)
    obtain ⟨u, hu, rfl⟩ := mem_nodes.mp hy
    exact ⟨u, hu, hxy⟩
  have hks : ∀ {ts us : List (RoseTree α)}, ((nodes ts).map key).Nodup →
      us.Sublist (allSubtrees ts) → (us.map fun u => key u.root).Nodup := by
    intro ts us hnd hsub
    rw [nodes, map_map] at hnd
    exact hnd.sublist (hsub.map _)
  -- the roots, or the children of two subtrees, are those that name the same parent
  have hlvl : ∀ {us ws : List (RoseTree α)} (parent : Option κ), us.Sublist (allSubtrees ts) →
      ws.Sublist (allSubtrees vs) → (∀ x ∈ allSubtrees ts, x ∈ us ↔ up x.root = parent) →
      (∀ y ∈ allSubtrees vs, y ∈ ws ↔ up y.root = parent) →
      (∀ x ∈ us, ∀ y ∈ allSubtrees vs, key x.root = key y.root → Same S x y) →
      SameForest S us ws := by
    intro us ws parent hus hws hmem hmem' hsm
    refine exists_matching (hks hkt hus) (hks hkv hws) (fun x hx => ?_) fun y hy => ?_
    · have hxts := hus.subset hx
      obtain ⟨u, hu, hxu⟩ := hmt h x hxts
      obtain ⟨hk, hup⟩ := hS _ _ hxu
      refine ⟨u, (hmem' u hu).mpr ?_, hk.symm, hsm x hx u hu hk⟩
      rw [← hup]
      exact (hmem x hxts).mp hx
    · have hyvs := hws.subset hy
      obtain ⟨u, hu, huy⟩ := hmt h' y hyvs
      obtain ⟨hk, hup⟩ := hS _ _ huy
      refine ⟨u, (hmem u hu).mpr ?_, hk⟩
      rw [hup]
      exact (hmem' y hyvs).mp hy
  -- subtrees with the same key are the same, by induction on the first
  have hsm : ∀ t : RoseTree α, t ∈ allSubtrees ts → ∀ v ∈ allSubtrees vs, key t.root = key v.root →
      Same S t v := by
    intro t
    induction t using RoseTree.induction with
    | node a us ih =>
      intro ht v hv hk
      have hrt : S a v.root := by
        obtain ⟨u, hu, hau⟩ := hmt h _ ht
        obtain rfl := subtree_unique hkv hu hv ((hS _ _ hau).1.symm.trans hk)
        exact hau
      have hsub := children_sublist ht
      obtain ⟨m, hm, hpm⟩ := hlvl (some (key v.root)) hsub (children_sublist hv)
        (fun x hx => hk ▸ hts.mem_children hkt ht hx) (fun y hy => hvs.mem_children hkv hv hy)
        fun x hx => ih x hx (hsub.subset hx)
      obtain ⟨b, ws⟩ := v
      exact .node hrt hm hpm
  have hrts := sublist_allSubtrees ts
  exact hlvl none hrts (sublist_allSubtrees vs) (fun x hx => hts.mem_roots hx)
    (fun y hy => hvs.mem_roots hy) fun x hx => hsm x (hrts.subset hx)

end Same

end Noxa.Forest

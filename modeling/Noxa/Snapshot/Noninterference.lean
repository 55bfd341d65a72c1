import Noxa.Snapshot.WellFormed

/-!
# Snapshots show nothing hidden

Two server states that agree on what a viewer may see give the viewer the same snapshot, up to the
order of lists. What may be seen are the visible channels, without their client count and with
their parent only if that is visible too, and the visible clients; of raised hands it is who has
one raised, and in which order within a channel. Clients without a channel are listed with the
numbers of their hands as they are, so there the numbers have to agree.

The tree needs no argument of its own: its nodes determine it (`sameForest_of_nodes`), so the
nodes are compared one by one. In a node only the clients' ranks mix several clients, and a rank
counts the hands raised before (`Rank.rank_eq_countP`).

## Main definitions

* `Agree` — two states look the same to the viewer
* `SameLobby` — and so do the numbers of the hands raised outside all channels
* `SameSnapshot` — two snapshots are equal up to the order of lists

## Main results

* `snapshot_noninterference`
-/

namespace Noxa.Snapshot

open Authorization Forest State List

/-- Raised hands have distinct numbers. -/
def HandsDistinct (s : ServerState) : Prop :=
  ∀ c ∈ s.clients, ∀ d ∈ s.clients, 0 < c.handRaisedOrder →
    c.handRaisedOrder = d.handRaisedOrder → c = d

/-- A client without the number of its raised hand. -/
def lowered (c : Client) : Client :=
  { c with handRaisedOrder := if 0 < c.handRaisedOrder then 1 else 0 }

section

variable (e : RoleEvaluator) (me : Int) (uid : String)

/-- What may be seen of a visible channel. -/
def observed (s : ServerState) (ch : Channel) : Channel :=
  { ch with clientCount := 0, parentID := (visibleParent e me s ch).getD 0 }

/-- The states agree on what the viewer may see. -/
structure Agree (s s' : ServerState) : Prop where
  channels : ((visibleChannels e me s).map (observed e me s)).Perm
    ((visibleChannels e me s').map (observed e me s'))
  clients : ((visibleClients e me uid s).map lowered).Perm
    ((visibleClients e me uid s').map lowered)
  hands : ∀ c ∈ visibleClients e me uid s, ∀ d ∈ visibleClients e me uid s,
    ∀ c' ∈ visibleClients e me uid s', ∀ d' ∈ visibleClients e me uid s',
      c.clientID = c'.clientID → d.clientID = d'.clientID → c.channelID = d.channelID →
      (c.handRaisedOrder < d.handRaisedOrder ↔ c'.handRaisedOrder < d'.handRaisedOrder)

/-- Clients in channel 0 have the same number in both states. -/
def SameLobby (s s' : ServerState) : Prop :=
  ∀ c ∈ visibleClients e me uid s, ∀ c' ∈ visibleClients e me uid s',
    c.clientID = c'.clientID → c.channelID = 0 → c'.channelID = 0 →
      c.handRaisedOrder = c'.handRaisedOrder

end

/-- Nodes with the same channel and access, and the same clients up to order. -/
structure SameNode (n m : NodeInfo) : Prop where
  channel : n.channel = m.channel
  access : n.access = m.access
  clients : n.clients.Perm m.clients

/-- Snapshots that are equal up to the order of lists. -/
structure SameSnapshot (a b : TreeSnapshot) : Prop where
  rootChannels : SameForest SameNode a.rootChannels b.rootChannels
  unassignedClients : a.unassignedClients.Perm b.unassignedClients
  roleIcons : ∀ id, a.roleIcons.lookup id = b.roleIcons.lookup id
  supportsVoiceQueue : a.supportsVoiceQueue = b.supportsVoiceQueue
  ownAuthority : a.ownAuthority = b.ownAuthority
  canViewAuditLog : a.canViewAuditLog = b.canViewAuditLog
  canSetInvisible : a.canSetInvisible = b.canSetInvisible
  totalClients : a.totalClients = b.totalClients
  totalChannels : a.totalChannels = b.totalChannels

/-! ### Ranks -/

/-- A client as it is listed among the clients of a channel: the rank counts who came before. -/
def rankedInfo (clients : List Client) (c : Client) : ClientInfo :=
  { clientToInfo c with handRaisedOrder :=
      if 0 < c.handRaisedOrder then
        (clients.countP fun d => 0 < d.handRaisedOrder ∧ d.handRaisedOrder < c.handRaisedOrder) + 1
      else 0 }

variable {clients : List Client}

theorem rankRaised_eq (hnd : (clients.map (·.clientID)).Nodup)
    (hdis : ∀ c ∈ clients, ∀ d ∈ clients, 0 < c.handRaisedOrder →
      c.handRaisedOrder = d.handRaisedOrder → c = d) :
    rankRaised (clients.map clientToInfo) = clients.map (rankedInfo clients) := by
  have hi : ((clients.map clientToInfo).map (·.clientID)).Nodup := by
    rw [map_map]
    exact hnd
  rw [rankRaised, map_map]
  refine map_congr_left fun c hc => ?_
  by_cases hr : 0 < c.handRaisedOrder
  · have hmem : clientToInfo c ∈ (clients.map clientToInfo).filter (0 < ·.handRaisedOrder) := by
      rw [mem_filter]
      exact ⟨mem_map_of_mem hc, decide_eq_true hr⟩
    have hinj : ∀ x ∈ (clients.map clientToInfo).filter (0 < ·.handRaisedOrder),
        ∀ y ∈ (clients.map clientToInfo).filter (0 < ·.handRaisedOrder),
          x.handRaisedOrder = y.handRaisedOrder → x = y := by
      intro x hx y hy hxy
      obtain ⟨hx, hpos⟩ := mem_filter.mp hx
      obtain ⟨c, hc, rfl⟩ := mem_map.mp hx
      obtain ⟨d, hd, rfl⟩ := mem_map.mp (mem_of_mem_filter hy)
      rw [hdis c hc d hd (of_decide_eq_true hpos) hxy]
    have hrk := Rank.rank_eq_countP (hi.of_map.filter _) hinj hmem
    have hcnt : ((clients.map clientToInfo).filter (0 < ·.handRaisedOrder)).countP
        (fun x => x.handRaisedOrder < (clientToInfo c).handRaisedOrder) = clients.countP fun d =>
            0 < d.handRaisedOrder ∧ d.handRaisedOrder < c.handRaisedOrder := by
      rw [countP_filter, countP_map]
      refine countP_congr fun d _ => ?_
      simp only [Function.comp, Bool.and_eq_true, decide_eq_true_eq]
      exact and_comm
    simp only [Function.comp, rankedInfo, hrk, hcnt]
    rw [if_pos hr, if_pos (show 0 < (clientToInfo c).handRaisedOrder from hr)]
  · have hz : c.handRaisedOrder = 0 := by omega
    simp [rankedInfo, clientToInfo, hz]

variable {α β γ : Type*} {f : α → γ} {g : β → γ} {l : List α} {l' : List β}

theorem length_of_perm (h : (l.map f).Perm (l'.map g)) : l.length = l'.length := by
  simpa using h.length_eq

/-- What depends on a key only is the same for lists with the same keys. -/
theorem map_perm_of_keys {κ : Type*} {key : α → κ} {key' : β → κ}
    (hpm : (l.map key).Perm (l'.map key'))
    (hfg : ∀ a ∈ l, ∀ b ∈ l', key a = key' b → f a = g b) : (l.map f).Perm (l'.map g) := by
  -- line the second list up with the first
  have hsf : List.Forall₂ (fun k b => k = key' b) (l'.map key') l' := by
    rw [forall₂_map_left_iff]
    exact forall₂_same.mpr fun b _ => rfl
  obtain ⟨bs, hbs, hbp⟩ := perm_comp_forall₂ hpm hsf
  rw [forall₂_map_left_iff] at hbs
  have hmap : l.map f = bs.map g := by
    have hfg' : ∀ a ∈ l, ∀ b ∈ bs, key a = key' b → f a = g b := by
      intro a ha b hb
      exact hfg a ha b (hbp.mem_iff.mp hb)
    clear hpm hsf hbp hfg
    induction hbs with
    | nil => rfl
    | cons hab _ ih =>
      rw [map_cons, map_cons, hfg' _ mem_cons_self _ mem_cons_self hab,
        ih fun a ha b hb => hfg' a (mem_cons_of_mem _ ha) b (mem_cons_of_mem _ hb)]
  rw [hmap]
  exact hbp.map g

theorem rankedInfo_eq (clients : List Client) (c : Client) :
    rankedInfo clients c = { clientToInfo (lowered c) with
      handRaisedOrder := (rankedInfo clients c).handRaisedOrder } := rfl

variable {c d : Client}

theorem clientID_of_lowered (h : lowered c = lowered d) : c.clientID = d.clientID := by
  have hid : (lowered c).clientID = (lowered d).clientID := by rw [h]
  exact hid

theorem raised_iff_of_lowered (h : lowered c = lowered d) :
    0 < c.handRaisedOrder ↔ 0 < d.handRaisedOrder := by
  have hfl : (if 0 < c.handRaisedOrder then 1 else 0) =
      if 0 < d.handRaisedOrder then 1 else 0 := congrArg Client.handRaisedOrder h
  split at hfl <;> split at hfl <;> simp_all

/-- Clients that agree up to the numbers of their hands, and on the order of those, are listed
alike. -/
theorem rankedInfo_perm {clients' : List Client}
    (hpm : (clients.map lowered).Perm (clients'.map lowered))
    (hands : ∀ c ∈ clients, ∀ d ∈ clients, ∀ c' ∈ clients', ∀ d' ∈ clients',
      c.clientID = c'.clientID → d.clientID = d'.clientID →
      (c.handRaisedOrder < d.handRaisedOrder ↔ c'.handRaisedOrder < d'.handRaisedOrder)) :
    (clients.map (rankedInfo clients)).Perm (clients'.map (rankedInfo clients')) := by
  have hcnt : ∀ c ∈ clients, ∀ d ∈ clients', lowered c = lowered d →
      (clients.countP fun x => 0 < x.handRaisedOrder ∧ x.handRaisedOrder < c.handRaisedOrder) =
        clients'.countP fun y => 0 < y.handRaisedOrder ∧ y.handRaisedOrder < d.handRaisedOrder := by
    intro c hc d hd hcd
    have hmap : (clients.map fun x => decide
        (0 < x.handRaisedOrder ∧ x.handRaisedOrder < c.handRaisedOrder)).Perm
          (clients'.map fun y => decide
            (0 < y.handRaisedOrder ∧ y.handRaisedOrder < d.handRaisedOrder)) := by
      refine map_perm_of_keys hpm fun x hx y hy hxy => decide_eq_decide.mpr ?_
      rw [raised_iff_of_lowered hxy]
      refine and_congr_right fun _ => ?_
      exact hands x hx c hc y hy d hd (clientID_of_lowered hxy) (clientID_of_lowered hcd)
    have := hmap.countP_eq id
    simpa only [countP_map, Function.comp_def, id] using this
  refine map_perm_of_keys hpm fun c hc d hd hcd => ?_
  have hrk : (rankedInfo clients c).handRaisedOrder = (rankedInfo clients' d).handRaisedOrder :=
    if_congr (raised_iff_of_lowered hcd) (congrArg (· + 1) (hcnt c hc d hd hcd)) rfl
  rw [rankedInfo_eq, hcd, hrk, ← rankedInfo_eq]

/-! ### Clients of one channel -/

section Compare

variable {e : RoleEvaluator} {me : Int} {uid : String} {s s' : ServerState}

theorem Agree.symm (h : Agree e me uid s s') : Agree e me uid s' s where
  channels := h.channels.symm
  clients := h.clients.symm
  hands := by
    intro c hc d hd c' hc' d' hd' hcid hdid hch
    have hsm : ∀ x ∈ visibleClients e me uid s',
        ∀ x' ∈ visibleClients e me uid s, x.clientID = x'.clientID →
          x.channelID = x'.channelID := by
      intro x hx x' hx' hid
      obtain ⟨y, hy, hxy⟩ := mem_map.mp (h.clients.mem_iff.mpr (mem_map_of_mem hx))
      have hi : y.clientID = x'.clientID := (clientID_of_lowered hxy).trans hid
      obtain rfl : y = x' := inj_on_of_nodup_map s.clients_nodup
        (mem_of_mem_filter hy) (mem_of_mem_filter hx') hi
      have hcha : (lowered y).channelID = (lowered x).channelID := by rw [hxy]
      exact hcha.symm
    refine (h.hands c' hc' d' hd' c hc d hd hcid.symm hdid.symm ?_).symm
    rw [← hsm c hc c' hc' hcid, ← hsm d hd d' hd' hdid, hch]

/-- Channel 0, or a visible channel. -/
def IsPlace (e : RoleEvaluator) (me : Int) (s : ServerState) (id : Int) : Prop :=
  id = 0 ∨ ∃ ch ∈ visibleChannels e me s, ch.channelID = id

variable {id : Int}

theorem clientsOf_eq_filter (hid : IsPlace e me s id) :
    clientsOf e me uid s id = (visibleClients e me uid s).filter (·.channelID = id) := by
  rw [clientsOf, visibleClients, filter_filter]
  refine filter_congr fun c _ => ?_
  by_cases hc : c.channelID = id
  · have hpl : (decide (c.channelID = 0) ||
        decide (c.channelID ∈ (visibleChannels e me s).map (·.channelID))) = true := by
      rw [hc, Bool.or_eq_true, decide_eq_true_eq, decide_eq_true_eq, mem_map]
      exact hid
    rw [hpl, decide_eq_true hc, Bool.and_true, Bool.true_and]
  · simp [hc]

section

variable (h : Agree e me uid s s') (hid : IsPlace e me s id) (hid' : IsPlace e me s' id)

include h hid hid'

theorem clientsOf_lowered : ((clientsOf e me uid s id).map lowered).Perm
    ((clientsOf e me uid s' id).map lowered) := by
  have hlow : ∀ {s : ServerState}, IsPlace e me s id → (clientsOf e me uid s id).map lowered =
        ((visibleClients e me uid s).map lowered).filter (·.channelID = id) := by
    intro s hid
    rw [clientsOf_eq_filter hid, filter_map]
    rfl
  rw [hlow hid, hlow hid']
  exact h.clients.filter _

theorem clientsOf_perm : ((clientsOf e me uid s id).map (rankedInfo (clientsOf e me uid s id))).Perm
      ((clientsOf e me uid s' id).map (rankedInfo (clientsOf e me uid s' id))) := by
  refine rankedInfo_perm (clientsOf_lowered h hid hid') fun c hc d hd c' hc' d' hd' hcid hdid => ?_
  have hcha : c.channelID = d.channelID :=
    (mem_clientsOf.mp hc).2.2.trans (mem_clientsOf.mp hd).2.2.symm
  rw [clientsOf_eq_filter hid] at hc hd
  rw [clientsOf_eq_filter hid'] at hc' hd'
  exact h.hands c (mem_of_mem_filter hc) d (mem_of_mem_filter hd) c'
    (mem_of_mem_filter hc') d' (mem_of_mem_filter hd') hcid hdid hcha

end

theorem rankRaised_clientsOf (hd : HandsDistinct s) (id : Int) :
    rankRaised ((clientsOf e me uid s id).map clientToInfo) =
      (clientsOf e me uid s id).map (rankedInfo (clientsOf e me uid s id)) := by
  refine rankRaised_eq (s.clients_nodup.sublist (filter_sublist.map _)) ?_
  intro c hc d hd'
  exact hd c (mem_of_mem_filter hc) d (mem_of_mem_filter hd')

/-- In channel 0 nothing is ranked. -/
theorem clientsIn_zero_perm (h : Agree e me uid s s') (hl : SameLobby e me uid s s') :
    (clientsIn s (showStats e me) uid 0).Perm (clientsIn s' (showStats e me) uid 0) := by
  show ((clientsOf e me uid s 0).map clientToInfo).Perm ((clientsOf e me uid s' 0).map clientToInfo)
  refine map_perm_of_keys (clientsOf_lowered h (.inl rfl) (.inl rfl)) fun c hc d hd hcd => ?_
  have hc0 := (mem_clientsOf.mp hc).2.2
  have hd0 := (mem_clientsOf.mp hd).2.2
  rw [clientsOf_eq_filter (.inl rfl)] at hc hd
  have hha : c.handRaisedOrder = d.handRaisedOrder := hl c (mem_of_mem_filter hc) d
    (mem_of_mem_filter hd) (clientID_of_lowered hcd) hc0 hd0
  have hinf : ∀ c, clientToInfo c =
      { clientToInfo (lowered c) with handRaisedOrder := c.handRaisedOrder } := fun _ => rfl
  rw [hinf c, hcd, hha, ← hinf]

/-! ### Nodes -/

theorem nodeOf_clients (hd : HandsDistinct s) (ch : Channel) :
    (nodeOf s (showStats e me) uid ch).clients =
      if ch.channelID = 0 then []
      else (clientsOf e me uid s ch.channelID).map
        (rankedInfo (clientsOf e me uid s ch.channelID)) := by
  rw [← rankRaised_clientsOf hd]
  rfl

/-- The channel of a shown node, from what may be seen of it and the number of its clients. -/
theorem channel_shownChannel (ch : Channel) : (shownChannel e me uid s ch).channel =
      { observed e me s ch with
        hasPassword := (observed e me s ch).passwordHash ≠ ""
        clientCount := (nodeOf s (showStats e me) uid ch).clients.length } := rfl

theorem SameNode.symm {n m : NodeInfo} (h : SameNode n m) : SameNode m n :=
  ⟨h.channel.symm, h.access.symm, h.clients.symm⟩

/-! ### Icons -/

/-- An icon is the image of its role, so the order of insertion does not matter. -/
theorem lookup_icons {icons : List (Int × String)} (himg : ∀ x ∈ icons, x.2 = roleImage e x.1)
    {m : AList fun _ : Int => String} (id : Int) :
    (icons.foldl (fun icons icon => icons.insert icon.1 icon.2) m).lookup id =
      if (id, roleImage e id) ∈ icons then some (roleImage e id) else m.lookup id := by
  induction icons generalizing m with
  | nil => rfl
  | cons x icons ih =>
    obtain ⟨k, v⟩ := x
    obtain rfl : v = roleImage e k := himg (k, v) (mem_cons_self ..)
    rw [foldl_cons, ih fun x hx => himg x (mem_cons_of_mem _ hx)]
    by_cases hmem : (id, roleImage e id) ∈ icons
    · rw [if_pos hmem, if_pos (mem_cons_of_mem _ hmem)]
    rw [if_neg hmem]
    by_cases hk : id = k
    · subst hk
      rw [AList.lookup_insert, if_pos (mem_cons_self ..)]
    rw [AList.lookup_insert_ne hk, if_neg]
    intro hcn
    rcases mem_cons.mp hcn with heq | hin
    · exact hk (congrArg Prod.fst heq)
    · exact hmem hin

variable {x : Int × String}

theorem image_of_mem_iconsOf {m : ClientInfo} (hx : x ∈ iconsOf e m) : x.2 = roleImage e x.1 := by
  obtain ⟨role, -, hro⟩ := mem_filterMap.mp hx
  split at hro
  · cases hro
    rfl
  · simp at hro

/-- All icons of a snapshot, in the order of insertion. -/
def allIcons (e : RoleEvaluator) (me : Int) (uid : String) (s : ServerState) :
    List (Int × String) :=
  (clientsIn s (showStats e me) uid 0).flatMap (iconsOf e) ++ (walk e me uid s).icons

theorem mem_allIcons (ha : s.Acyclic) : x ∈ allIcons e me uid s ↔
      (∃ m ∈ clientsIn s (showStats e me) uid 0, x ∈ iconsOf e m) ∨ ∃ ch ∈ visibleChannels e me s,
          ∃ m ∈ (shownChannel e me uid s ch).clients, x ∈ iconsOf e m := by
  have hgd : (walk e me uid s).Good e none _ := walk_good ha
  rw [allIcons, mem_append, hgd.icons.mem_iff]
  simp only [mem_flatMap, mem_map, exists_exists_and_eq_and]

theorem lookup_roleIcons (ha : s.Acyclic) (id : Int) :
    (buildRoleSnapshot e me uid s).roleIcons.lookup id =
      if (id, roleImage e id) ∈ allIcons e me uid s then some (roleImage e id)
      else none := by
  have himg : ∀ x ∈ allIcons e me uid s, x.2 = roleImage e x.1 := by
    intro x hx
    rcases (mem_allIcons ha).mp hx with ⟨m, -, hx⟩ | ⟨ch, -, m, -, hx⟩
    · exact image_of_mem_iconsOf hx
    · exact image_of_mem_iconsOf hx
  exact lookup_icons himg id

/-! ### The snapshot -/

section

variable (h : Agree e me uid s s') (hd : HandsDistinct s) (hd' : HandsDistinct s')

include h hd hd'

variable {ch : Channel}

theorem sameNode_shown {ch' : Channel} (hch : ch ∈ visibleChannels e me s)
    (hch' : ch' ∈ visibleChannels e me s')
    (ho : observed e me s ch = observed e me s' ch') :
    SameNode (shownChannel e me uid s ch) (shownChannel e me uid s' ch') := by
  have hid : ch.channelID = ch'.channelID := by
    have hi : (observed e me s ch).channelID = (observed e me s' ch').channelID := by
      rw [ho]
    exact hi
  have hcls : (nodeOf s (showStats e me) uid ch).clients.Perm
      (nodeOf s' (showStats e me) uid ch').clients := by
    rw [nodeOf_clients hd, nodeOf_clients hd', hid]
    split
    · exact .refl _
    · exact clientsOf_perm h (.inr ⟨ch, hch, hid⟩) (.inr ⟨ch', hch', rfl⟩)
  refine ⟨?_, ?_, hcls.map _⟩
  · rw [channel_shownChannel, channel_shownChannel, ho, hcls.length_eq]
  · have hno : (nodeOf s (showStats e me) uid ch).id =
        (nodeOf s' (showStats e me) uid ch').id := hid
    simp only [shownChannel, showNode, hno, hcls.countP_eq]

theorem exists_sameNode (hch : ch ∈ visibleChannels e me s) : ∃ ch' ∈ visibleChannels e me s',
      SameNode (shownChannel e me uid s ch) (shownChannel e me uid s' ch') := by
  obtain ⟨ch', hch', ho⟩ := mem_map.mp (h.channels.mem_iff.mp (mem_map_of_mem hch))
  exact ⟨ch', hch', sameNode_shown h hd hd' hch hch' ho.symm⟩

variable (ha : s.Acyclic) (ha' : s'.Acyclic)

include ha ha'

theorem rootChannels_same : SameForest SameNode (buildRoleSnapshot e me uid s).rootChannels
      (buildRoleSnapshot e me uid s').rootChannels := by
  obtain ⟨hnds, hlnk⟩ := buildRoleSnapshot_good e me uid ha
  obtain ⟨hnds', hlnk'⟩ := buildRoleSnapshot_good e me uid ha'
  have hks : ∀ {s : ServerState}, s.Acyclic →
      ((nodes (buildRoleSnapshot e me uid s).rootChannels).map NodeInfo.id).Nodup := by
    intro s ha
    refine (buildRoleSnapshot_wellFormed ha).channels.nodup_iff.mpr ?_
    exact s.channels_nodup.sublist (filter_sublist.map _)
  refine sameForest_of_nodes ?_ hlnk hlnk' (hks ha) (hks ha') (fun n hn => ?_)
    fun n hn => ?_
  · intro n m hnm
    simp only [NodeInfo.id, NodeInfo.parent, hnm.channel, and_self]
  · obtain ⟨ch, hch, rfl⟩ := mem_map.mp (hnds.mem_iff.mp hn)
    obtain ⟨ch', hch', hsm⟩ := exists_sameNode h hd hd' hch
    exact ⟨_, hnds'.mem_iff.mpr (mem_map_of_mem hch'), hsm⟩
  · obtain ⟨ch, hch, rfl⟩ := mem_map.mp (hnds'.mem_iff.mp hn)
    obtain ⟨ch', hch', hsm⟩ := exists_sameNode h.symm hd' hd hch
    exact ⟨_, hnds.mem_iff.mpr (mem_map_of_mem hch'), hsm.symm⟩

variable (hl : SameLobby e me uid s s')

include hl

theorem allIcons_subset (hx : x ∈ allIcons e me uid s) : x ∈ allIcons e me uid s' := by
  rw [mem_allIcons ha']
  rcases (mem_allIcons ha).mp hx with ⟨m, hm, hx⟩ | ⟨ch, hch, m, hm, hx⟩
  · exact .inl ⟨m, (clientsIn_zero_perm h hl).mem_iff.mp hm, hx⟩
  · obtain ⟨ch', hch', hsm⟩ := exists_sameNode h hd hd' hch
    exact .inr ⟨ch', hch', m, hsm.clients.mem_iff.mp hm, hx⟩

theorem sameSnapshot_of_agree : SameSnapshot (buildRoleSnapshot e me uid s)
      (buildRoleSnapshot e me uid s') := by
  have hwf : WellFormed e me uid s _ := buildRoleSnapshot_wellFormed ha
  have hwf' : WellFormed e me uid s' _ := buildRoleSnapshot_wellFormed ha'
  refine ⟨rootChannels_same h hd hd' ha ha', (clientsIn_zero_perm h hl).map _, fun id => ?_,
    rfl, rfl, rfl, rfl, ?_, ?_⟩
  · have hlob' : SameLobby e me uid s' s :=
      fun c hc c' hc' hid h0 h0' => (hl c' hc' c hc hid.symm h0' h0).symm
    have hiff : (id, roleImage e id) ∈ allIcons e me uid s ↔
        (id, roleImage e id) ∈ allIcons e me uid s' :=
      ⟨allIcons_subset h hd hd' ha ha' hl, allIcons_subset h.symm hd' hd ha' ha hlob'⟩
    simp only [lookup_roleIcons ha, lookup_roleIcons ha', hiff]
  · rw [hwf.totalClients, hwf'.totalClients, length_of_perm hwf.clients,
      length_of_perm hwf'.clients, length_of_perm h.clients]
  · rw [hwf.totalChannels, hwf'.totalChannels, length_of_perm hwf.channels,
      length_of_perm hwf'.channels, length_of_perm h.channels]

end

end Compare

/-- **Noninterference.** Every snapshot is well formed, and states that agree on what the viewer
may see, the numbers of the hands in channel 0 included, give the same snapshot. -/
theorem snapshot_noninterference (e : RoleEvaluator) (me : Int) (uid : String) :
    (∀ s : ServerState, s.Acyclic → WellFormed e me uid s (buildRoleSnapshot e me uid s)) ∧
    ∀ s s' : ServerState, s.Acyclic → s'.Acyclic → HandsDistinct s → HandsDistinct s' →
      Agree e me uid s s' → SameLobby e me uid s s' → SameSnapshot (buildRoleSnapshot e me uid s)
          (buildRoleSnapshot e me uid s') :=
  ⟨fun _ ha => buildRoleSnapshot_wellFormed ha,
    fun _ _ ha ha' hd hd' h hl => sameSnapshot_of_agree h hd hd' ha ha' hl⟩

/-! ### An example -/

/-- Everyone may view channel 100; channel 200 denies it. -/
def guestEvaluator : RoleEvaluator where
  policy := ⟨1, 1, 10, 0, [], [], []⟩
  roles := (∅ : AList _).insert 10
    { id := 10, name := "@everyone", position := 0, permissions := [.viewChannel] }
  members := ∅
  channels := ((∅ : AList _).insert 100
      { channelID := 100, parentID := 0, synced := false, overrides := [] }).insert 200
    { channelID := 200, parentID := 100, synced := false, overrides :=
        [{ roleID := 10, capability := .viewChannel, effect := .deny }] }

/-- Two hands raised in channel 100 and a client in the hidden channel. -/
def crowdedState : ServerState where
  channels := [{ channelID := 100, clientCount := 2 }, { channelID := 200, parentID := 100 }]
  clients :=
    [{ clientID := "a", userID := 0, uniqueID := "ua", channelID := 100, handRaisedOrder := 9 },
     { clientID := "b", userID := 0, uniqueID := "ub", channelID := 100, handRaisedOrder := 7 },
     { clientID := "c", userID := 0, uniqueID := "uc", channelID := 200, handRaisedOrder := 8 }]
  channels_nodup := by decide
  clients_nodup := by decide

/-- The same hands in the same order, and nothing else. -/
def quietState : ServerState where
  channels := [{ channelID := 100 }]
  clients :=
    [{ clientID := "b", userID := 0, uniqueID := "ub", channelID := 100, handRaisedOrder := 1 },
     { clientID := "a", userID := 0, uniqueID := "ua", channelID := 100, handRaisedOrder := 2 }]
  channels_nodup := by decide
  clients_nodup := by decide

theorem acyclic_of_lt {s : ServerState}
    (h : ∀ ch ∈ s.channels, ch.parentID ≠ 0 → ch.parentID < ch.channelID) : s.Acyclic := by
  intro k hk
  have hstp : s.ParentOf ≤ (· < ·) := by
    rintro k j ⟨hk, ch, hch, rfl, rfl⟩
    exact h ch hch hk
  exact absurd (Relation.transGen_minimal hstp k k hk) (lt_irrefl k)

/-- A guest cannot tell the two states apart. -/
theorem snapshot_noninterference_guest : WellFormed guestEvaluator 0 "v" crowdedState
        (buildRoleSnapshot guestEvaluator 0 "v" crowdedState) ∧
      SameSnapshot (buildRoleSnapshot guestEvaluator 0 "v" crowdedState)
        (buildRoleSnapshot guestEvaluator 0 "v" quietState) := by
  have hcr : crowdedState.Acyclic := acyclic_of_lt (by decide)
  have hqt : quietState.Acyclic := acyclic_of_lt (by decide)
  have hagr : Agree guestEvaluator 0 "v" crowdedState quietState :=
    ⟨by decide +kernel, by decide +kernel, by decide +kernel⟩
  exact ⟨(snapshot_noninterference guestEvaluator 0 "v").1 crowdedState hcr,
    (snapshot_noninterference guestEvaluator 0 "v").2 crowdedState quietState hcr hqt
      (by unfold HandsDistinct; decide) (by unfold HandsDistinct; decide) hagr
      (by unfold SameLobby; decide +kernel)⟩

/-- A client in no channel, with a hand raised at some number. -/
def lobbyState (hand : ℕ) : ServerState where
  channels := []
  clients := [{ clientID := "a", userID := 0, uniqueID := "ua", channelID := 0,
                handRaisedOrder := hand }]
  channels_nodup := by decide
  clients_nodup := by simp

/-- The number of a hand raised in channel 0 is listed as it is. -/
theorem lobby_hand_listed :
    (lobbyState 5).Acyclic ∧ (lobbyState 7).Acyclic ∧ HandsDistinct (lobbyState 5) ∧
      HandsDistinct (lobbyState 7) ∧ Agree guestEvaluator 0 "v" (lobbyState 5) (lobbyState 7) ∧
      ¬ SameSnapshot (buildRoleSnapshot guestEvaluator 0 "v" (lobbyState 5))
        (buildRoleSnapshot guestEvaluator 0 "v" (lobbyState 7)) := by
  refine ⟨acyclic_of_lt (by decide), acyclic_of_lt (by decide), by unfold HandsDistinct; decide,
    by unfold HandsDistinct; decide, ⟨by decide +kernel, by decide +kernel, by decide +kernel⟩, ?_⟩
  intro hsm
  have hhan : ((buildRoleSnapshot guestEvaluator 0 "v" (lobbyState 5)).unassignedClients.map
      (·.handRaisedOrder)).Perm ((buildRoleSnapshot guestEvaluator 0 "v"
        (lobbyState 7)).unassignedClients.map (·.handRaisedOrder)) := hsm.unassignedClients.map _
  revert hhan
  decide +kernel

end Noxa.Snapshot

import Noxa.Durable.Operations

/-!
# What the loops of the operations write

An operation builds its set of changes in loops over packets, keys or records. A loop adds records
of one kind to what it starts with and leaves the rest alone. Here is which records each loop adds.

## Main definitions

* `ChangesOnly` — a set of changes has records of certain kinds only
* `ChangesOf` — what holds of the changes to records of one kind
* `Adds` — what a loop does to a set of changes

## Main results

* `sendLoop_adds`, `establish_ok`, `retireSessions_adds` — the loops that write sessions
* `publishLoop_adds`, `transitionLoop_adds`, `abandonLoop_ok`, `consumeKey_adds`, `retireKeys_adds`
  — the loops that write one-time keys
-/

namespace Noxa.Durable

open Fallible Directory Admission AList

variable {r : Ref} {rec : Record}

/-- A record that the source finds in a snapshot. -/
theorem lookup_of_found {records : AList fun _ : Ref => Option Record}
    (h : (records.lookup r).getD none = some rec) : records.lookup r = some (some rec) := by
  cases hlk : records.lookup r with
  | none =>
    rw [hlk] at h
    exact nomatch h
  | some =>
    rw [hlk] at h
    exact congrArg some h

/-- All changes are to records of the given kinds. -/
def ChangesOnly (kinds : List Kind) (chs : Changes) : Prop := ∀ r ∈ chs, r.kind ∈ kinds

/-- What holds of the changes to records of one kind. -/
def ChangesOf (kind : Kind) (P : String → Value → Prop) (chs : Changes) : Prop :=
  ∀ id v, chs.lookup ⟨kind, id⟩ = some v → P id v

/-- The changes differ in records of one kind, and those that are new have a property. -/
structure Adds (kind : Kind) (P : String → Value → Prop) (chs chs' : Changes) : Prop where
  other : ∀ r : Ref, r.kind ≠ kind → chs'.lookup r = chs.lookup r
  own : ∀ id v, chs'.lookup ⟨kind, id⟩ = some v → chs.lookup ⟨kind, id⟩ = some v ∨ P id v

section

variable {kind : Kind} {kinds : List Kind} {P : String → Value → Prop} {chs chs' : Changes}

theorem Adds.refl : Adds kind P chs chs := ⟨fun _ _ => rfl, fun _ _ => .inl⟩

theorem Adds.insert (h : Adds kind P chs chs') {id : String} {v : Value} (hv : P id v) :
    Adds kind P chs (chs'.insert ⟨kind, id⟩ v) := by
  refine ⟨fun r hr => ?_, fun id' v' hv' => ?_⟩
  · rw [lookup_insert_ne fun heq => hr (by rw [heq])]
    exact h.other r hr
  by_cases hid : (⟨kind, id'⟩ : Ref) = ⟨kind, id⟩
  · obtain rfl : id' = id := congrArg Ref.id hid
    rw [lookup_insert] at hv'
    exact .inr (Option.some.inj hv' ▸ hv)
  · rw [lookup_insert_ne hid] at hv'
    exact h.own id' v' hv'

theorem Adds.changesOnly (h : Adds kind P chs chs') (hstr : ChangesOnly kinds chs)
    (hkd : kind ∈ kinds) : ChangesOnly kinds chs' := by
  intro r hr
  by_cases hr' : r.kind = kind
  · rwa [hr']
  · have hso := lookup_isSome.mpr hr
    rw [h.other r hr'] at hso
    exact hstr r (lookup_isSome.mp hso)

theorem Adds.changesOf (h : Adds kind P chs chs') (hstr : ChangesOf kind P chs) :
    ChangesOf kind P chs' := fun id v hv => (h.own id v hv).elim (hstr id v) fun hv => hv

theorem Adds.changesOf_other {kind' : Kind} {Q : String → Value → Prop} (h : Adds kind P chs chs')
    (hstr : ChangesOf kind' Q chs) (hne : kind' ≠ kind) : ChangesOf kind' Q chs' :=
  fun id v hv => hstr id v ((h.other ⟨kind', id⟩ hne).symm.trans hv)

theorem ChangesOnly.empty (kinds : List Kind) : ChangesOnly kinds ∅ :=
  fun r hr => absurd hr (notMem_empty r)

theorem ChangesOnly.insert (h : ChangesOnly kinds chs) (hr : r.kind ∈ kinds) (v : Value) :
    ChangesOnly kinds (chs.insert r v) :=
  (show Adds r.kind (fun _ _ => True) chs _ from Adds.refl.insert trivial).changesOnly h hr

/-- Nothing is changed of another kind. -/
theorem ChangesOnly.changesOf (h : ChangesOnly kinds chs) (hkd : kind ∉ kinds) :
    ChangesOf kind P chs :=
  fun _ _ hv => absurd (h _ (lookup_isSome.mp (Option.isSome_of_eq_some hv))) hkd

theorem ChangesOf.empty : ChangesOf kind P ∅ := (ChangesOnly.empty []).changesOf (by simp)

theorem ChangesOf.insert_other (h : ChangesOf kind P chs) (hr : r.kind ≠ kind) (v : Value) :
    ChangesOf kind P (chs.insert r v) :=
  (show Adds r.kind (fun _ _ => True) chs _ from Adds.refl.insert trivial).changesOf_other h hr.symm

end

/-- What is read is in the snapshot, or in the store now. -/
def Reread (db : Db) (snap : Snapshot) (reads : AList fun _ : Ref => Option Record) : Prop :=
  ∀ r rec, reads.lookup r = some rec → snap.records.lookup r = some rec ∨ rec = db.get r

section

variable {db : Db} {snap : Snapshot}

theorem Reread.insert {reads : AList fun _ : Ref => Option Record} (h : Reread db snap reads)
    {rec : Option Record} (hrec : rec = db.get r) : Reread db snap (reads.insert r rec) := by
  intro r' rec' hr'
  by_cases heq : r' = r
  · subst heq
    rw [lookup_insert] at hr'
    exact .inr ((Option.some.inj hr').symm.trans hrec)
  · rw [lookup_insert_ne heq] at hr'
    exact h r' rec' hr'

variable {c : Control}

theorem prepareAttempt_ok {d : AttemptDescriptor} {start : Control × Changes}
    (h : prepareSend db c snap (some d) = .ok start) :
    attemptSequence d.manifest.attemptID = some (c.nextAttempt + 1) ∧
      checkLogicalFree (db.get (logicalRef d.manifest.logicalID)) = .ok ⟨⟩ ∧
      start = ({ c with nextAttempt := c.nextAttempt + 1 }, (∅ : Changes).insert
        (logicalRef d.manifest.logicalID) (.logical ⟨attemptID d.manifest, .pending⟩)) := by
  simp only [prepareSend, prepareAttempt, bind_eq_ok, found_eq_ok, ensure_eq_ok, pure_eq_ok] at h
  obtain ⟨seq, hseq, -, rfl, -, -, _, hfe, rfl⟩ := h
  exact ⟨hseq, hfe, rfl⟩

theorem prepareSend_ok {attempt : Option AttemptDescriptor} {start : Control × Changes}
    (h : prepareSend db c snap attempt = .ok start) :
    start.1.active = c.active ∧ ChangesOnly [.logical] start.2 := by
  cases attempt with
  | none =>
    cases h
    exact ⟨rfl, .empty _⟩
  | some =>
    obtain ⟨-, -, rfl⟩ := prepareAttempt_ok h
    exact ⟨rfl, (ChangesOnly.empty _).insert (by simp [logicalRef]) _⟩

/-! ### Sessions -/

/-- The record of a session. -/
def HasSession (db : Db) (id : String) (st : SessionState) : Prop :=
  (db.get (sessionRecord id)).map (·.data) = some (.session st)

theorem hasSession_of_get {id : String} {st : SessionState}
    (h : db.get (sessionRecord id) = some rec) (hst : rec.data.session? = some st) :
    HasSession db id st := by
  rw [HasSession, h]
  cases hdt : rec.data <;> simp_all [Value.session?]

/-- A packet of a send. -/
def SendsOn (db : Db) (now : Int) (packets : List SendCandidate) (id : String) (v : Value) : Prop :=
  ∃ p ∈ packets, p.sessionID = id ∧ ∃ st, v = .session st ∧
    sessionValue db now id p.state p.context false p.claim = .ok st

/-- The session that a packet replaces, as the snapshot has it. -/
def Replaces (snap : Snapshot) (id : String) (v : Value) : Prop :=
  ∃ old previous, snap.records.lookup (sessionRecord id) = some (some old) ∧
    old.data.session? = some previous ∧ v = .session { previous with retired := true }

/-- A session that is retired because of a reset. -/
def Retires (db : Db) (id : String) (v : Value) : Prop :=
  ∃ st, HasSession db id st ∧ v = .session { st with retired := true }

/-- A session of a packet that was accepted. -/
def Establishes (db : Db) (packets : List SendCandidate) (id : String) (v : Value) : Prop :=
  ∃ st, HasSession db id st ∧ v = .session { st with pending := none } ∧ ∃ p ∈ packets,
    p.sessionID = id

variable {now : Int} {start chs chs' : Changes} {packets : List SendCandidate}

theorem replaceSession_adds {P : String → Value → Prop} {p : SendCandidate}
    (hP : ∀ id v, Replaces snap id v → P id v) (hstr : Adds .session P start chs)
    (h : replaceSession snap p chs = .ok chs') : Adds .session P start chs' := by
  unfold replaceSession at h
  split at h
  · exact Except.ok.inj h ▸ hstr
  simp only [bind_eq_ok, found_eq_ok, pure_eq_ok] at h
  obtain ⟨old, hold, _, -, _, -, previous, hprv, _, -, rfl⟩ := h
  exact hstr.insert (hP _ _ ⟨old, previous, lookup_of_found hold, hprv, rfl⟩)

/-- The packets of a send. -/
theorem sendLoop_adds {isAttempt : Bool} {start acc : Changes × List SendCandidate}
    (h : packets.foldlM (sendOne db now snap isAttempt) start = .ok acc) :
    Adds .session (fun id v => SendsOn db now packets id v ∨ Replaces snap id v) start.1 acc.1 := by
  refine foldlM_ok_invariant (P := fun acc : Changes × List SendCandidate => Adds .session
    (fun id v => SendsOn db now packets id v ∨ Replaces snap id v) start.1 acc.1) h ?_ .refl
  intro p hp acc acc' hacc hrnd
  simp only [sendOne, bind_eq_ok, pure_eq_ok] at hrnd
  obtain ⟨_, -, _, -, _, -, _, -, _, -, _, -, st, hst, chs, hchs, rfl⟩ := hrnd
  exact replaceSession_adds (fun id v => .inr) (hacc.insert (.inl ⟨p, hp, rfl, st, rfl, hst⟩)) hchs

/-- Each packet of a send passes the checks of its peer and of its session. -/
theorem sendLoop_checks {isAttempt : Bool} {start acc : Changes × List SendCandidate}
    (h : packets.foldlM (sendOne db now snap isAttempt) start = .ok acc) {p : SendCandidate}
    (hp : p ∈ packets) : checkTrust db snap p.trustID = .ok ⟨⟩ ∧
      ∃ st, sessionValue db now p.sessionID p.state p.context false p.claim = .ok st := by
  obtain ⟨s, s', hrnd⟩ := foldlM_ok_round h hp
  simp only [sendOne, bind_eq_ok] at hrnd
  obtain ⟨_, -, _, -, _, -, _, -, _, -, _, htru, st, hst, -⟩ := hrnd
  exact ⟨htru, st, hst⟩

theorem retireSessions_adds {r : Reset} {ids : List String}
    (h : ids.foldlM (retireSession db r) ∅ = .ok chs) : Adds .session (Retires db) ∅ chs := by
  refine foldlM_ok_invariant h ?_ .refl
  intro id _ s s' hs hrnd
  simp only [retireSession, bind_eq_ok, found_eq_ok, pure_eq_ok] at hrnd
  obtain ⟨v, hv, st, hst, _, -, rfl⟩ := hrnd
  exact hs.insert ⟨st, hasSession_of_get hv hst, rfl⟩

/-- The packets of an accepted attempt. Their sessions are read now. -/
theorem establish_ok {b : SentBatch} {state : ReceiptState}
    {acc : (AList fun _ : Ref => Option Record) × Changes}
    (h : establish db snap b state chs = .ok acc) : Reread db snap acc.1 ∧
      Adds .session (fun id v => state = .accepted ∧ Establishes db b.packets id v) chs acc.2 := by
  unfold establish at h
  split at h
  · rename_i hac
    refine foldlM_ok_invariant (P := fun acc : (AList fun _ : Ref => Option Record) × Changes =>
      Reread db snap acc.1 ∧ Adds .session
        (fun id v => state = .accepted ∧ Establishes db b.packets id v) chs acc.2) h ?_
      ⟨fun _ _ => .inl, .refl⟩
    intro p hp s s' hs hrnd
    simp only [establishOne, bind_eq_ok, found_eq_ok] at hrnd
    obtain ⟨cur, hcur, st, hst, hrnd⟩ := hrnd
    split at hrnd
    · obtain rfl := pure_eq_ok.mp hrnd
      exact hs
    obtain rfl := pure_eq_ok.mp hrnd
    exact ⟨hs.1.insert hcur.symm,
      hs.2.insert ⟨hac, st, hasSession_of_get hcur hst, rfl, p, hp, rfl⟩⟩
  · cases h
    exact ⟨fun _ _ => .inl, .refl⟩

/-! ### One-time keys -/

/-- The record of a one-time key. -/
def HasObligation (db : Db) (id : String) (o : OTKObligation) : Prop :=
  (db.get (obligationRef id)).map (·.data) = some (.obligation o)

theorem open?_eq_true {o : OTKObligation} :
    open? o = true ↔ o.consumed = false ∧ o.closed = false := by
  simp [open?]

theorem hasObligation_of_get {id : String} {o : OTKObligation}
    (h : db.get (obligationRef id) = some rec) (ho : rec.data.obligation? = some o) :
    HasObligation db id o := by
  rw [HasObligation, h]
  cases hdt : rec.data <;> simp_all [Value.obligation?]

/-- A new key. -/
def Creates (db : Db) (id : String) (v : Value) : Prop :=
  db.get (obligationRef id) = none ∧ ∃ o, v = .obligation o ∧ open? o = true

/-- An open key is closed. -/
def Closes (db : Db) (id : String) (v : Value) : Prop :=
  ∃ o proof, HasObligation db id o ∧ open? o = true ∧
    v = .obligation { o with closed := true, closureProof := proof }

/-- A key that the snapshot does not show as closed is consumed. -/
def ConsumesKey (snap : Snapshot) (p : ReceiveCandidate) (id : String) (v : Value) : Prop :=
  p.consumedOTK = id ∧ ∃ rec o, snap.records.lookup (obligationRef id) = some (some rec) ∧
    rec.data.obligation? = some o ∧ o.closed = false ∧ v = .obligation { o with consumed := true }

variable {id accountID : String} {l : List (Sigma fun _ : String => OTKObligation)}
  {p : ReceiveCandidate}

theorem publishLoop_adds (h : l.foldlM (publishOne db c accountID id) chs = .ok chs') :
    Adds .obligation (Creates db) chs chs' := by
  refine foldlM_ok_invariant h ?_ .refl
  intro e _ s s' hs hrnd
  simp only [publishOne, bind_eq_ok, ensure_eq_ok, pure_eq_ok] at hrnd
  obtain ⟨-, hn, -, -, -, -, rfl⟩ := hrnd
  exact hs.insert ⟨hn.1, _, rfl, open?_eq_true.mpr hn.2.2⟩

theorem transitionLoop_adds {r : Reset} {b : Bundle} {acc acc' : Changes × List String}
    (h : l.foldlM (transitionKey db accountID r b) acc = .ok acc') :
    Adds .obligation (Creates db) acc.1 acc'.1 := by
  refine foldlM_ok_invariant (P := fun s : Changes × List String =>
    Adds .obligation (Creates db) acc.1 s.1)
    h ?_ .refl
  intro e _ s s' hs hrnd
  simp only [transitionKey, bind_eq_ok, ensure_eq_ok, pure_eq_ok] at hrnd
  obtain ⟨-, hn, -, -, rfl⟩ := hrnd
  exact hs.insert ⟨hn.1, _, rfl, open?_eq_true.mpr ⟨hn.2.1, hn.2.2.1⟩⟩

/-- The search for the keys of an abandoned transition goes over the store's own records. -/
theorem abandonLoop_ok {t : AccountTransition} {keys : AList fun _ : String => String}
    {acc : Abandoning}
    (h : db.records.entries.foldlM (abandonOne id t) ⟨keys, snap.records, ∅⟩ = .ok acc) :
    Reread db snap acc.reads ∧ Adds .obligation (Closes db) ∅ acc.chs := by
  refine foldlM_ok_invariant (P := fun acc : Abandoning =>
    Reread db snap acc.reads ∧ Adds .obligation (Closes db) ∅ acc.chs) h ?_ ⟨fun _ _ => .inl, .refl⟩
  intro e he s s' hs hrnd
  unfold abandonOne at hrnd
  split at hrnd
  · exact Except.ok.inj hrnd ▸ hs
  rename_i hkd
  simp only [bind_eq_ok, found_eq_ok] at hrnd
  obtain ⟨o, ho, hrnd⟩ := hrnd
  split at hrnd
  · obtain rfl := pure_eq_ok.mp hrnd
    exact hs
  simp only [bind_eq_ok, ensure_eq_ok, pure_eq_ok] at hrnd
  obtain ⟨-, hcn, rfl⟩ := hrnd
  unfold closeCandidate
  split
  · exact hs
  rename_i hc
  -- the entry is a record of the store, and its reference is that of an obligation
  have href : e.1 = obligationRef e.1.id := by
    rw [obligationRef, ← not_not.mp hkd]
  have hg : db.get e.1 = some e.2 := mem_lookup_iff.mpr he
  refine ⟨hs.1.insert hg.symm, ?_⟩
  rw [href] at hg ⊢
  exact hs.2.insert ⟨o, _, hasObligation_of_get hg ho,
    open?_eq_true.mpr ⟨hcn.2.2.2.2, by simpa using hc⟩, rfl⟩

theorem receiveAccount_adds (h : receiveAccount snap p chs = .ok chs') :
    Adds .account (fun _ _ => True) chs chs' := by
  unfold receiveAccount at h
  split at h
  · exact Except.ok.inj h ▸ .refl
  simp only [bind_eq_ok, pure_eq_ok] at h
  obtain ⟨_, -, rfl⟩ := h
  exact Adds.refl.insert trivial

theorem consumeKey_adds (h : consumeKey snap p chs = .ok chs') :
    Adds .obligation (ConsumesKey snap p) chs chs' := by
  unfold consumeKey at h
  split at h
  · exact Except.ok.inj h ▸ .refl
  simp only [bind_eq_ok, found_eq_ok, ensure_eq_ok, pure_eq_ok] at h
  obtain ⟨rec, hrec, -, -, o, ho, -, hop, rfl⟩ := h
  exact Adds.refl.insert ⟨rfl, rec, o, lookup_of_found hrec, ho, hop.2, rfl⟩

theorem retireKeys_adds [Codec] {ns : Namespace} {l : List (Sigma fun _ : String => KeyClosure)}
    (h : l.foldlM (retireKey ns db accountID) chs = .ok chs') :
    Adds .obligation (Closes db) chs chs' := by
  refine foldlM_ok_invariant h ?_ .refl
  intro e _ s s' hs hrnd
  simp only [retireKey, bind_eq_ok, found_eq_ok, ensure_eq_ok, pure_eq_ok] at hrnd
  obtain ⟨v, hv, o, ho, -, hprf, -, -, -, hc, rfl⟩ := hrnd
  exact hs.insert ⟨o, _, hasObligation_of_get hv ho,
    open?_eq_true.mpr ⟨hprf.2.2.2.2.2.2.1, hc⟩, rfl⟩

end

end Noxa.Durable

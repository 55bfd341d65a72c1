import Noxa.Durable.Held

/-!
# The life of a one-time key

A published one-time key is an obligation: the private half has to be kept until a message uses it
or the server confirms that none will. A receive consumes it; abandoning a recovery and retiring
unsubmitted keys close it. The last two read the record in the store and insist that it is open. A
receive takes the record from the caller's snapshot and insists that it is not closed; whether it
is consumed already is not looked at.

## Main definitions

* `ObligationStep` — what a call does to one of them
* `FreshKey` — the condition under which a receive finds its key open

## Main results

* `step_obligations` — the inversion of a call
* `ObligationStep.final` — a call that is current and fresh leaves a finished obligation alone
-/

namespace Noxa.Durable

section

variable {db db' : Db} {id : String} {o o' : OTKObligation}

theorem HasObligation.unique (h : HasObligation db id o) (h' : HasObligation db id o') : o = o' :=
  Value.obligation.inj (Option.some.inj (h.symm.trans h'))

end

/-! ### What a call does to an obligation -/

inductive ObligationStep (db : Db) (call : Call) (db' : Db) (id : String) : Prop
  | kept (same : db'.get (obligationRef id) = db.get (obligationRef id))
  | created (o : OTKObligation) (new : db.get (obligationRef id) = none) (isOpen : open? o = true)
      (stored : HasObligation db' id o)
  | consumed (snap : Snapshot) (message : String) (p : ReceiveCandidate) (rec : Record)
      (o : OTKObligation) (op : call.op = .commitReceive snap message p) (key : p.consumedOTK = id)
      (first : db.get (inboxRef message) = none) (live : db.control.active = true)
      (read : snap.records.lookup (obligationRef id) = some (some rec))
      (revision : db.revision (obligationRef id) = rec.revision)
      (data : rec.data.obligation? = some o) (notClosed : o.closed = false)
      (stored : HasObligation db' id { o with consumed := true })
  | closed (o : OTKObligation) (proof : String) (before : HasObligation db id o)
      (isOpen : open? o = true)
      (stored : HasObligation db' id { o with closed := true, closureProof := proof })
  | gone (fence : ℕ) (op : call.op = .logout fence) (empty : db'.get (obligationRef id) = none)

section

variable [Codec] {ns : Namespace} {db db' : Db} {snap : Snapshot} {call : Call} {c : Control}
  {reads : AList fun _ : Ref => Option Record} {chs : Changes}

/-- A commit that creates keys. -/
theorem Commit.creates (hc : Commit ns db snap c reads chs db')
    (h : ChangesOf .obligation (Creates db) chs) (id : String) : ObligationStep db call db' id := by
  obtain hsm | ⟨v, ⟨hnew, o, rfl, hope⟩, hs⟩ := hc.changed h id
  · exact .kept hsm
  · exact .created o hnew hope hs

/-- A commit that closes keys. -/
theorem Commit.closes (hc : Commit ns db snap c reads chs db')
    (h : ChangesOf .obligation (Closes db) chs) (id : String) : ObligationStep db call db' id := by
  obtain hsm | ⟨v, ⟨o, proof, hbef, hope, rfl⟩, hs⟩ := hc.changed h id
  · exact .kept hsm
  · exact .closed o proof hbef hope hs

/-- **Inversion of a call**, for one obligation. -/
theorem step_obligations (ns : Namespace) (db : Db) (call : Call) (id : String) :
    ObligationStep db call (step ns db call).1 id := by
  rcases step_exec ns db call with ⟨hsm, -⟩ | ⟨reply, -, hxc⟩
  · exact .kept (by rw [hsm])
  obtain ⟨op, now, faulty⟩ := call
  generalize (step ns db ⟨op, now, faulty⟩).1 = db' at hxc
  have hstr : ∀ {P : String → Value → Prop} {r r' : Ref} {v v' : Value}, r.kind ≠ .obligation →
      r'.kind ≠ .obligation → ChangesOf .obligation P (((∅ : Changes).insert r v).insert r' v') :=
    fun hr hr' => (ChangesOf.empty.insert_other hr _).insert_other hr' _
  by_cases hkd : Kind.obligation ∈ op.kinds
  · cases op with
    | commitReceive snap message p =>
      obtain ⟨archive, hrcv, -⟩ := pair_ok hxc
      rcases commitReceive_ok hrcv with
        ⟨rfl, -⟩ | ⟨state, chs, chs', hfst, -, -, hac, hk, hc⟩
      · exact .kept rfl
      -- before the key there are only the session, the message and the account
      have hchs := (consumeKey_adds hk).changesOf ((receiveAccount_adds hac).changesOf_other
        (hstr (by simp [sessionRecord]) (by simp [inboxRef])) (by simp))
      obtain hsm | ⟨v, ⟨hk, rec, o, hrd, ho, hcld, rfl⟩, hs⟩ := hc.changed hchs id
      · exact .kept hsm
      · exact .consumed snap message p rec o rfl hk hfst hc.live hrd
          (cas_ok hc.current hrd) ho hcld hs
    | commitPublication =>
      obtain ⟨out, hpub, -⟩ := pair_ok hxc
      obtain ⟨-, rfl | ⟨chs, hlp, hc⟩⟩ := commitPublicationForAccount_ok hpub
      · exact .kept rfl
      · exact hc.creates ((publishLoop_adds hlp).changesOf
          (hstr (by simp [accountRef]) (by simp [publicationRef]))) id
    | prepareTransition =>
      rcases prepareTransition_ok (done_ok hxc) with
        rfl | ⟨t, acc, -, -, -, -, -, hlp, -, hc⟩
      · exact .kept rfl
      · refine hc.creates ((transitionLoop_adds hlp).changesOf ?_) id
        exact (hstr (by simp [transitionRef]) (by simp [accountRef])).insert_other
          (by simp [publicationRef]) _
    | abandonRecoveryTransition =>
      rcases abandonRecoveryTransition_ok (done_ok hxc) with rfl | ⟨v, t, acc, -, -, -, hlp, hc⟩
      · exact .kept rfl
      · exact hc.closes (((abandonLoop_ok hlp).2.changesOf .empty).insert_other
          (by simp [transitionRef]) _) id
    | retireUnsubmittedKeys =>
      obtain ⟨chs, hlp, hc⟩ := retireUnsubmittedKeys_ok (done_ok hxc)
      exact hc.closes ((retireKeys_adds hlp).changesOf (ChangesOf.empty.insert_other
        (by simp [accountRef]) _)) id
    | _ => simp [Op.kinds] at hkd
  · rcases exec_frame hxc with rfl | hfrm | ⟨fence, hop, hout⟩
    · exact .kept rfl
    · exact .kept (hfrm.get_of_kind hkd)
    · obtain ⟨f, rfl⟩ := logout_ok hout
      exact .gone fence hop rfl

/-! ### Finished obligations -/

/-- A receive of a new message does not name a key that is consumed. -/
def FreshKey (db : Db) (call : Call) : Prop :=
  ∀ snap message p, call.op = .commitReceive snap message p → db.get (inboxRef message) = none →
    ∀ o, HasObligation db p.consumedOTK o → o.consumed = false

omit [Codec] in
/-- An obligation that is consumed or closed is left alone. -/
theorem ObligationStep.final {id : String} {o : OTKObligation}
    (hstp : ObligationStep db call db' id)
    (hcur : Current db call) (hfr : FreshKey db call) (ho : HasObligation db id o)
    (hfin : open? o = false) :
    db'.get (obligationRef id) = db.get (obligationRef id) ∨ ∃ fence, call.op = .logout fence := by
  cases hstp with
  | kept same => exact .inl same
  | created o' new =>
    rw [HasObligation, new] at ho
    cases ho
  | consumed snap message p rec o' op key first live read revision data notClosed =>
    -- the snapshot's record is the store's own
    have hget := hcur snap (by rw [op]; rfl) _ _ read live revision
    obtain rfl := ho.unique (hasObligation_of_get hget data)
    have hcsm := hfr snap message p op first o (key ▸ ho)
    exact absurd (open?_eq_true.mpr ⟨hcsm, notClosed⟩) (by rw [hfin]; decide)
  | closed o' proof before isOpen =>
    obtain rfl := ho.unique before
    exact absurd isOpen (by rw [hfin]; decide)
  | gone fence op => exact .inr ⟨fence, op⟩

end

end Noxa.Durable

import Noxa.Durable.Authority
import Noxa.Durable.NoFork

/-!
# Account transitions

A device replaces its account in two steps: the new account is stored with a signed intent, which
blocks sending, and the server's receipt promotes it. A recovery may be given up instead. One
transition record goes with each intent; it is open until it has a receipt or is abandoned.

Sending is blocked exactly while a transition is open, and then there is one. Nothing here uses what
a caller's snapshot says: the operations read the transition and the control record themselves.

## Main definitions

* `HasTransition`, `OpenTransition` — transition records
* `TransitionStep` — what a call does to them
* `TransitionInv` — the invariant

## Main results

* `step_transitions` — the inversion of a call
* `account_transitions` — what holds in every run
* `epoch_and_packets_exceptions` — what a logout and a repeated send do
-/

namespace Noxa.Durable

open Fallible Directory Machine AList

/-- The record of a transition. -/
def HasTransition (db : Db) (id : String) (t : AccountTransition) : Prop :=
  (db.get (transitionRef id)).map (·.data) = some (.transition t)

/-- Neither promoted nor given up. -/
def AccountTransition.Open (t : AccountTransition) : Prop := t.receipt = none ∧ t.abandoned = false

def OpenTransition (db : Db) (id : String) : Prop := ∃ t, HasTransition db id t ∧ t.Open

section

variable {db db' : Db} {id : String} {t t' : AccountTransition}

theorem HasTransition.unique (h : HasTransition db id t) (h' : HasTransition db id t') : t = t' :=
  Value.transition.inj (Option.some.inj (h.symm.trans h'))

theorem hasTransition_congr (h : db'.get (transitionRef id) = db.get (transitionRef id)) :
    HasTransition db' id t ↔ HasTransition db id t := by
  rw [HasTransition, HasTransition, h]

theorem hasTransition_of_get {rec : Record} (h : db.get (transitionRef id) = some rec)
    (ht : rec.data.transition? = some t) : HasTransition db id t := by
  rw [HasTransition, h]
  cases hdt : rec.data <;> simp_all [Value.transition?]

end

/-! ### What a call does to transitions -/

/-- All transition records but one are as they were. -/
def OtherTransitions (db db' : Db) (id : String) : Prop :=
  ∀ id', id' ≠ id → db'.get (transitionRef id') = db.get (transitionRef id')

inductive TransitionStep (db : Db) (op : Op) (db' : Db) : Prop
  | quiet (kept : ∀ id, db'.get (transitionRef id) = db.get (transitionRef id))
      (account : db'.control.accountID = db.control.accountID)
      (epoch : db'.control.accountEpoch = db.control.accountEpoch)
      (blocked : db'.control.sendingBlocked = db.control.sendingBlocked)
  | prepared (id : String) (t : AccountTransition)
      (new : db.get (transitionRef id) = none) (unblocked : db.control.sendingBlocked = false)
      (isOpen : t.Open) (rises : t.startEpoch < t.reset.newEpoch)
      (stored : HasTransition db' id t) (kept : OtherTransitions db db' id)
      (epoch : db'.control.accountEpoch = db.control.accountEpoch)
      (blocked : db'.control.sendingBlocked = true)
  | promoted (snap : Snapshot) (id : String) (t : AccountTransition) (receipt : ResetReceipt)
      (call : op = .promoteAccount snap id receipt)
      (before : HasTransition db id t) (isOpen : t.Open)
      (start : db.control.accountEpoch = t.startEpoch)
      (stored : HasTransition db' id { t with receipt := some receipt })
      (kept : OtherTransitions db db' id) (epoch : db'.control.accountEpoch = t.reset.newEpoch)
      (blocked : db'.control.sendingBlocked = false)
  | abandoned (id : String) (t : AccountTransition)
      (before : HasTransition db id t) (isOpen : t.Open)
      (stored : HasTransition db' id { t with abandoned := true })
      (kept : OtherTransitions db db' id)
      (epoch : db'.control.accountEpoch = db.control.accountEpoch)
      (blocked : db'.control.sendingBlocked = false)
  | closed (fence : ℕ) (call : op = .logout fence) (empty : ∀ r, db'.get r = none)
      (epoch : db'.control.accountEpoch = 0) (blocked : db'.control.sendingBlocked = false)
      (inactive : db'.control.active = false)

section

variable [Codec] {ns : Namespace} {db db' : Db} {snap : Snapshot} {id : String}

omit [Codec] in
theorem TransitionStep.of_eq (op : Op) (h : db' = db) : TransitionStep db op db' := by
  subst h
  exact .quiet (fun _ => rfl) rfl rfl rfl

theorem prepare_transitions {op : Op} {accountID : String} {account : Bytes} {r : Reset}
    {b : Bundle} {otks : Obligations} {recovery : Bool}
    (h : prepareTransition ns db snap accountID account r b otks recovery = .ok db') :
    TransitionStep db op db' := by
  rcases prepareTransition_ok h with
    rfl | ⟨t, acc, hrst, hrcy, hfro, hnew, hold, hlp, ⟨hno, hun, ho⟩, hcom⟩
  · exact .of_eq op rfl
  have hlk : ∀ id, acc.1.lookup (transitionRef id) =
      ((∅ : Changes).insert (transitionRef r.transitionID) (.transition t)).lookup
      (transitionRef id) := by
    intro id
    rw [(transitionLoop_adds hlp).other _ (by simp [transitionRef]),
      lookup_insert_ne (by simp [transitionRef, publicationRef]),
      lookup_insert_ne (by simp [transitionRef, accountRef])]
  obtain ⟨hsm, -⟩ := changes_control hcom.written
  refine .prepared r.transitionID t hno hun ho ?_ ?_ (fun id hid => ?_) hsm.accountEpoch
    hsm.sendingBlocked
  · rw [hrst, AccountTransition.startEpoch, hrcy, hrst]
    cases recovery with
    | false =>
      rw [if_neg (by decide)]
      omega
    | true =>
      rw [if_pos rfl, hfro rfl]
      have := hold rfl
      omega
  · exact hcom.stored ((hlk _).trans (lookup_insert _))
  · refine hcom.get_of_lookup_none ((hlk id).trans ?_)
    rw [lookup_insert_ne fun heq => hid (congrArg Ref.id heq)]
    exact lookup_empty _

theorem promote_transitions {receipt : ResetReceipt}
    (h : promoteAccount ns db snap id receipt = .ok db') :
    TransitionStep db (.promoteAccount snap id receipt) db' := by
  obtain ⟨-, v, t, hv, ht, ⟨-, rfl⟩ | ⟨hrc, hab, hep, hcom⟩⟩ := promoteAccount_ok h
  · exact .of_eq _ rfl
  obtain ⟨hsm, -⟩ := changes_control hcom.written
  refine .promoted snap id t receipt rfl (hasTransition_of_get hv ht) ⟨hrc, hab⟩ hep ?_
    (fun id' hid => ?_) hsm.accountEpoch hsm.sendingBlocked
  · exact hcom.stored (lookup_insert _)
  · refine hcom.get_of_lookup_none ?_
    rw [lookup_insert_ne fun heq => hid (congrArg Ref.id heq)]
    exact lookup_empty _

theorem abandon_transitions {op : Op} (h : abandonRecoveryTransition ns db snap id = .ok db') :
    TransitionStep db op db' := by
  rcases abandonRecoveryTransition_ok h with
    rfl | ⟨v, t, acc, hv, ht, ⟨-, hrc, hab, -⟩, hlp, hcom⟩
  · exact .of_eq op rfl
  obtain ⟨hsm, -⟩ := changes_control hcom.written
  refine .abandoned id t (hasTransition_of_get hv ht) ⟨hrc, hab⟩ ?_ (fun id' hid => ?_)
    hsm.accountEpoch hsm.sendingBlocked
  · exact hcom.stored (lookup_insert _)
  · refine hcom.get_of_lookup_none ?_
    rw [lookup_insert_ne fun heq => hid (congrArg Ref.id heq),
      (abandonLoop_ok hlp).2.other _ (by simp [transitionRef])]
    exact lookup_empty _

/-- **Inversion of a call**, for the transitions. -/
theorem step_transitions (ns : Namespace) (db : Db) (call : Call) :
    TransitionStep db call.op (step ns db call).1 := by
  rcases step_exec ns db call with ⟨hsm, -⟩ | ⟨reply, -, hxc⟩
  · exact .of_eq _ hsm
  obtain ⟨op, now, faulty⟩ := call
  generalize (step ns db ⟨op, now, faulty⟩).1 = db' at hxc
  -- operations that change no transition and leave the account alone
  have hf : ∀ {op : Op}, exec ns db now op = .ok (db', reply) → Kind.transition ∉ op.kinds →
      (∀ c, op.Controls db.control c → c.accountID = db.control.accountID ∧
        c.accountEpoch = db.control.accountEpoch ∧
        c.sendingBlocked = db.control.sendingBlocked) →
      (∀ fence, op ≠ .logout fence) → TransitionStep db op db' := by
    intro op hxc hkd hctl hout
    rcases exec_frame hxc with hsm | hfr | ⟨fence, hop, -⟩
    · exact .of_eq _ hsm
    · obtain ⟨c, hc, hsm⟩ := hfr.control
      obtain ⟨hac, hep, hblk⟩ := hctl c hc
      exact .quiet (fun id => hfr.get_of_kind hkd) (hsm.accountID.trans hac)
        (hsm.accountEpoch.trans hep) (hsm.sendingBlocked.trans hblk)
    · exact absurd hop (hout fence)
  cases op with
  | commitAttempt =>
    refine hf hxc (by simp [Op.kinds]) (fun c hc => ?_) (by simp)
    obtain rfl : c = { db.control with nextAttempt := db.control.nextAttempt + 1 } := hc
    exact ⟨rfl, rfl, rfl⟩
  | noteRetired =>
    refine hf hxc (by simp [Op.kinds]) (fun c hc => ?_) (by simp)
    obtain ⟨seq, rfl⟩ : ∃ seq, c = { db.control with retired := some (db.control.mark.note seq) } :=
      hc
    exact ⟨rfl, rfl, rfl⟩
  | logout fence =>
    obtain ⟨f, rfl⟩ := logout_ok (done_ok hxc)
    exact .closed fence rfl (fun _ => rfl) rfl rfl rfl
  | prepareTransition =>
    exact prepare_transitions (done_ok hxc)
  | promoteAccount =>
    exact promote_transitions (done_ok hxc)
  | abandonRecoveryTransition =>
    exact abandon_transitions (done_ok hxc)
  | _ =>
    refine hf hxc (by simp [Op.kinds]) (fun c hc => ?_) (by simp)
    obtain rfl : c = db.control := hc
    exact ⟨rfl, rfl, rfl⟩

end

/-! ### The invariant -/

structure TransitionInv (db : Db) : Prop where
  typed : ∀ id rec, db.get (transitionRef id) = some rec → ∃ t, rec.data = .transition t
  blocked : ∀ id, OpenTransition db id → db.control.sendingBlocked = true
  exists_open : db.control.sendingBlocked = true → ∃ id, OpenTransition db id
  unique : ∀ id id', OpenTransition db id → OpenTransition db id' → id = id'
  rises : ∀ id t, HasTransition db id t → t.startEpoch < t.reset.newEpoch
  abandoned : ∀ id t, HasTransition db id t → t.abandoned = true → t.receipt = none

section

variable {db db' : Db} {op : Op} {t : AccountTransition} {id : String}

theorem not_hasTransition (h : db.get (transitionRef id) = none) : ¬ HasTransition db id t := by
  rw [HasTransition, h]
  simp

theorem TransitionInv.of_empty (h : ∀ r, db.get r = none)
    (hblk : db.control.sendingBlocked = false) : TransitionInv db := by
  constructor <;> simp [OpenTransition, not_hasTransition, h, hblk]

theorem transitionInv_fresh : TransitionInv Db.fresh := .of_empty (fun _ => rfl) rfl

/-- One record is written and the others are kept. -/
theorem OtherTransitions.cases {id' : String} {t' : AccountTransition}
    (h : OtherTransitions db db' id) (hs : HasTransition db' id t)
    (ht' : HasTransition db' id' t') :
    (id' = id ∧ t' = t) ∨ (id' ≠ id ∧ HasTransition db id' t') := by
  by_cases hid : id' = id
  · subst hid
    exact .inl ⟨rfl, ht'.unique hs⟩
  · exact .inr ⟨hid, (hasTransition_congr (h id' hid)).mp ht'⟩

/-- A transition is written while no other one is open. -/
theorem TransitionInv.written (h : TransitionInv db)
    (hs : HasTransition db' id t) (hkt : OtherTransitions db db' id)
    (hot : ∀ id', id' ≠ id → ¬ OpenTransition db id')
    (hblk : db'.control.sendingBlocked = true ↔ t.Open)
    (hris : t.startEpoch < t.reset.newEpoch) (hab : t.abandoned = true → t.receipt = none) :
    TransitionInv db' := by
  have ho : ∀ id', OpenTransition db' id' → id' = id ∧ t.Open := by
    rintro id' ⟨t', ht', hop'⟩
    rcases hkt.cases hs ht' with ⟨hid, rfl⟩ | ⟨hne, hold⟩
    · exact ⟨hid, hop'⟩
    · exact absurd ⟨t', hold, hop'⟩ (hot id' hne)
  exact
    { typed := fun id' rec hrec => by
        by_cases hid : id' = id
        · subst hid
          rw [HasTransition, hrec] at hs
          exact ⟨t, Option.some.inj hs⟩
        · rw [hkt id' hid] at hrec
          exact h.typed id' rec hrec
      blocked := fun id' hid' => hblk.mpr (ho id' hid').2
      exists_open := fun hb => ⟨id, t, hs, hblk.mp hb⟩
      unique := fun i j hi hj => (ho i hi).1.trans (ho j hj).1.symm
      rises := fun id' t' ht' => by
        rcases hkt.cases hs ht' with ⟨-, rfl⟩ | ⟨-, hold⟩
        · exact hris
        · exact h.rises id' t' hold
      abandoned := fun id' t' ht' => by
        rcases hkt.cases hs ht' with ⟨-, rfl⟩ | ⟨-, hold⟩
        · exact hab
        · exact h.abandoned id' t' hold }

theorem TransitionStep.inv (hstp : TransitionStep db op db') (h : TransitionInv db) :
    TransitionInv db' := by
  -- while a transition is open it is the only one
  have hon : ∀ {id t}, HasTransition db id t → t.Open → ∀ id', id' ≠ id → ¬ OpenTransition db id' :=
    fun ht ho id' hne hoth => hne (h.unique id' _ hoth ⟨_, ht, ho⟩)
  cases hstp with
  | quiet kept account epoch blocked =>
    -- every field is about records and the block only
    constructor <;> simp only [OpenTransition, HasTransition, kept, blocked]
    exacts [h.typed, h.blocked, h.exists_open, h.unique, h.rises, h.abandoned]
  | prepared id t new unblocked isOpen rises stored kept epoch blocked =>
    refine h.written stored kept (fun id' _ hoth => ?_) ⟨fun _ => isOpen, fun _ => blocked⟩ rises
      fun _ => isOpen.1
    exact absurd ((h.blocked id' hoth).symm.trans unblocked) (by decide)
  | promoted snap id t receipt call before isOpen start stored kept epoch blocked =>
    refine h.written stored kept (hon before isOpen) ?_ (h.rises id t before) ?_
    · simp [blocked, AccountTransition.Open]
    · simp [isOpen.2]
  | abandoned id t before isOpen stored kept epoch blocked =>
    refine h.written stored kept (hon before isOpen) ?_ (h.rises id t before) fun _ => isOpen.1
    simp [blocked, AccountTransition.Open]
  | closed fence call empty epoch blocked => exact .of_empty empty blocked

/-- A promotion raises the epoch; a logout sets it to zero; nothing else changes it. -/
theorem TransitionStep.epoch_cases (hstp : TransitionStep db op db') (h : TransitionInv db) :
    db'.control.accountEpoch = db.control.accountEpoch ∨
      (∃ snap id receipt, op = .promoteAccount snap id receipt ∧
        db.control.accountEpoch < db'.control.accountEpoch) ∨
      ∃ fence, op = .logout fence ∧ db'.control.accountEpoch = 0 ∧ db'.control.active = false := by
  cases hstp with
  | quiet kept account epoch => exact .inl epoch
  | prepared id t new unblocked isOpen rises stored kept epoch => exact .inl epoch
  | promoted snap id t receipt call before isOpen start stored kept epoch =>
    refine .inr (.inl ⟨snap, id, receipt, call, ?_⟩)
    rw [epoch, start]
    exact h.rises id t before
  | abandoned id t before isOpen stored kept epoch => exact .inl epoch
  | closed fence call empty epoch blocked inactive =>
    exact .inr (.inr ⟨fence, call, epoch, inactive⟩)

/-- A transition that is given up stays so until a logout. -/
theorem TransitionStep.abandoned_stays (hstp : TransitionStep db op db')
    (ht : HasTransition db id t) (hab : t.abandoned = true) :
    HasTransition db' id t ∨ db'.control.active = false := by
  -- the record that a call writes was open or absent
  have hoth : ∀ {id' : String}, OtherTransitions db db' id' → id ≠ id' → HasTransition db' id t :=
    fun hkt hne => (hasTransition_congr (hkt id hne)).mpr ht
  have hne_open : ∀ {id' t'}, HasTransition db id' t' → t'.Open → id ≠ id' := by
    rintro id' t' ht' ho rfl
    rw [ht'.unique ht] at ho
    exact absurd (hab.symm.trans ho.2) (by decide)
  cases hstp with
  | quiet kept => exact .inl ((hasTransition_congr (kept id)).mpr ht)
  | prepared id' t' new unblocked isOpen rises stored kept =>
    refine .inl (hoth kept ?_)
    rintro rfl
    exact not_hasTransition new ht
  | promoted snap id' t' receipt call before isOpen start stored kept =>
    exact .inl (hoth kept (hne_open before isOpen))
  | abandoned id' t' before isOpen stored kept =>
    exact .inl (hoth kept (hne_open before isOpen))
  | closed fence call empty epoch blocked inactive => exact .inr inactive

end

/-! ### Runs -/

/-- The operations that a blocked store refuses. -/
def Op.Sends : Op → Prop
  | commitSend _ _ _ _ | commitAttempt _ _ _ _ _ | commitPublication _ _ _ _ _ _
  | reserveClaim _ _ _ _ => True
  | _ => False

/-- The packets that a caller hands over. -/
def Op.packets : Op → List SendCandidate
  | commitSend _ _ packets _ | commitAttempt _ _ _ packets _ => packets
  | _ => []

section

variable [Codec] {ns : Namespace} {db db' : Db} {call : Call} {reply : Reply}

theorem transitionInv_run (ns : Namespace) (calls : List Call) :
    TransitionInv (run (step ns) Db.fresh calls) :=
  run_invariant (fun db call h => (step_transitions ns db call).inv h) transitionInv_fresh calls

/-- What a send establishes, whatever its kind. -/
theorem sent_of_reply {result : SendResult} (h : (step ns db call).2 = .ok (.sent result)) :
    ∃ snap id archive attempt, commitSend ns db call.now snap id call.op.packets archive attempt =
      .ok ((step ns db call).1, result) := by
  obtain ⟨op, now, faulty⟩ := call
  have hxc := exec_of_reply h
  cases op with
  | commitSend snap id packets archive =>
    obtain ⟨result', hsd, heq⟩ := pair_ok hxc
    cases heq
    exact ⟨snap, id, archive, none, hsd⟩
  | commitAttempt snap m parts packets archive =>
    obtain ⟨result', hsd, heq⟩ := pair_ok hxc
    cases heq
    exact ⟨snap, attemptID m, archive, _, commitAttempt_ok hsd⟩
  | read =>
    obtain ⟨snap, -, heq⟩ := map_eq_ok.mp hxc
    exact nomatch congrArg Prod.snd heq
  | commitReceive | commitPublication | reserveClaim =>
    obtain ⟨b, -, heq⟩ := pair_ok hxc
    exact nomatch heq
  | _ =>
    obtain ⟨d, -, heq⟩ := map_eq_ok.mp hxc
    exact nomatch congrArg Prod.snd heq

theorem unblocked_of_reply (h : (step ns db call).2 = .ok reply) (hsds : call.op.Sends) :
    db.control.sendingBlocked = false := by
  obtain ⟨op, now, faulty⟩ := call
  have hxc := exec_of_reply h
  cases op with
  | commitSend =>
    obtain ⟨result, hsd, -⟩ := pair_ok hxc
    exact (commitSend_sent hsd).unblocked
  | commitAttempt =>
    obtain ⟨result, hsd, -⟩ := pair_ok hxc
    exact (commitSend_sent (commitAttempt_ok hsd)).unblocked
  | commitPublication =>
    obtain ⟨out, hpub, -⟩ := pair_ok hxc
    exact (commitPublicationForAccount_ok hpub).1.1
  | reserveClaim =>
    obtain ⟨out, hrsv, -⟩ := pair_ok hxc
    exact (reserveClaim_authority hrsv).1
  | _ => exact hsds.elim

/-- A transition that is given up is never promoted. -/
theorem promote_abandoned {id : String} {t : AccountTransition} (hinv : TransitionInv db)
    (ht : HasTransition db id t) (hab : t.abandoned = true) (later : List Call)
    {snap : Snapshot} {receipt : ResetReceipt} (hop : call.op = .promoteAccount snap id receipt) :
    (step ns (run (step ns) db later) call).2 ≠ .ok reply := by
  intro hr
  have hxc := exec_of_op hop hr
  obtain ⟨hact, v, t', hv, hdt, hcs⟩ := promoteAccount_ok (done_ok hxc)
  -- until a logout the record is what it was
  have hsty : HasTransition (run (step ns) db later) id t ∨
      ¬ (run (step ns) db later).control.active = true := by
    refine run_invariant (P := fun db => HasTransition db id t ∨ ¬ db.control.active = true)
      (fun db call h => ?_) (.inl ht) later
    rcases h with h | h
    · refine ((step_transitions ns db call).abandoned_stays h hab).imp_right fun hcld => ?_
      rw [hcld]
      decide
    · exact .inr fun hlv => h ((versioned ns).live_of_live db call hlv)
  obtain rfl := (hasTransition_of_get hv hdt).unique (hsty.resolve_right (not_not.mpr hact))
  rcases hcs with ⟨hrc, -⟩ | ⟨-, ho, -⟩
  · exact nomatch hrc.symm.trans (hinv.abandoned id t' ht hab)
  · exact absurd (hab.symm.trans ho) (by decide)

/-- **Account transitions.** After any calls:

* sending is blocked exactly while one transition is open, and otherwise none is;
* a call that changes the account epoch is a promotion, which raises it, or a logout, which sets it
  to zero for good; a promotion that succeeds raises it unless it repeats the receipt that is
  stored;
* while sending is blocked nothing is sent, retried, published or claimed;
* what a send or a retry answers with is of the current account and epoch, and so are the packets of
  a caller whose send is new, a publication and a claim;
* a transition that is given up is not promoted by any later call. -/
theorem account_transitions (ns : Namespace) (calls : List Call) :
    let db := run (step ns) Db.fresh calls
    (db.control.sendingBlocked = true ↔ ∃! id, OpenTransition db id) ∧
    (db.control.sendingBlocked = false ↔ ∀ id, ¬ OpenTransition db id) ∧
    (∀ call, (step ns db call).1.control.accountEpoch ≠ db.control.accountEpoch →
      (∃ snap id receipt, call.op = .promoteAccount snap id receipt ∧
        db.control.accountEpoch < (step ns db call).1.control.accountEpoch) ∨
      ∃ fence, call.op = .logout fence ∧ (step ns db call).1.control.accountEpoch = 0 ∧
        (step ns db call).1.control.active = false) ∧
    (∀ call snap id receipt reply, call.op = .promoteAccount snap id receipt →
      (step ns db call).2 = .ok reply →
      db.control.accountEpoch < (step ns db call).1.control.accountEpoch ∨
        (step ns db call).1 = db ∧ ∃ t, HasTransition db id t ∧ t.receipt = some receipt) ∧
    (db.control.sendingBlocked = true →
      (∀ call reply, call.op.Sends → (step ns db call).2 ≠ .ok reply) ∧
      (∀ fence id result, retrySend ns db fence id ≠ .ok result) ∧
      ∀ fence id d, attemptWire ns db fence id ≠ .ok d) ∧
    (∀ call result, (step ns db call).2 = .ok (.sent result) →
      (∀ p ∈ result.data.packets, Bound db.control p) ∧
      (result.reused = false → ∀ p ∈ call.op.packets, Bound db.control p)) ∧
    (∀ fence id result, retrySend ns db fence id = .ok result →
      ∀ p ∈ result.data.packets, Bound db.control p) ∧
    (∀ call snap accountID id account signed otks reply,
      call.op = .commitPublication snap accountID id account signed otks →
      (step ns db call).2 = .ok reply → accountID = db.control.accountID) ∧
    (∀ call snap id trustID request reply, call.op = .reserveClaim snap id trustID request →
      (step ns db call).2 = .ok reply → ∃ rec claim,
        (step ns db call).1.get (claimRef id) = some rec ∧ rec.data.claim? = some claim ∧
        claim.accountID = db.control.accountID ∧ claim.accountEpoch = db.control.accountEpoch) ∧
    (∀ id t, HasTransition db id t → t.abandoned = true → ∀ later call snap receipt reply,
      call.op = .promoteAccount snap id receipt →
      (step ns (run (step ns) db later) call).2 ≠ .ok reply) := by
  intro db
  have hinv : TransitionInv db := transitionInv_run ns calls
  have hblk : db.control.sendingBlocked = true ↔ ∃ id, OpenTransition db id :=
    ⟨hinv.exists_open, fun ⟨id, hid⟩ => hinv.blocked id hid⟩
  refine ⟨?_, ?_, ?_, ?_, ?_, ?_, ?_, ?_, ?_, ?_⟩
  · rw [hblk]
    exact ⟨fun ⟨id, hid⟩ => ⟨id, hid, fun id' hid' => hinv.unique id' id hid' hid⟩, fun h =>
      h.exists⟩
  · rw [← Bool.not_eq_true, hblk, not_exists]
  · intro call hne
    exact ((step_transitions ns db call).epoch_cases hinv).resolve_left hne
  · intro call snap id receipt reply hop hr
    have hxc := exec_of_op hop hr
    obtain ⟨-, v, t, hv, ht, ⟨hrc, hsm⟩ | ⟨-, -, hstr, hcom⟩⟩ :=
      promoteAccount_ok (done_ok hxc)
    · exact .inr ⟨hsm, t, hasTransition_of_get hv ht, hrc⟩
    · left
      rw [hstr, (changes_control hcom.written).1.accountEpoch]
      exact hinv.rises id t (hasTransition_of_get hv ht)
  · intro hb
    refine ⟨fun call reply hsds hr => ?_, fun fence id result hrty => ?_,
      fun fence id d hwr => ?_⟩
    · exact absurd (hb.symm.trans (unblocked_of_reply hr hsds)) (by decide)
    · exact absurd (hb.symm.trans (retrySend_ok hrty).1.unblocked) (by decide)
    · obtain ⟨result, hrty, -⟩ := attemptWire_ok hwr
      exact absurd (hb.symm.trans (retrySend_ok hrty).1.unblocked) (by decide)
  · intro call result hr
    obtain ⟨snap, id, archive, attempt, hsd⟩ := sent_of_reply hr
    exact ⟨(commitSend_sent hsd).bound, fun hnew p hp => (commitSend_first hsd hnew p hp).1⟩
  · intro fence id result hrty
    exact (retrySend_ok hrty).1.bound
  · intro call snap accountID id account signed otks reply hop hr
    have hxc := exec_of_op hop hr
    obtain ⟨out, hpub, -⟩ := pair_ok hxc
    exact (commitPublicationForAccount_ok hpub).1.2
  · intro call snap id trustID request reply hop hr
    have hxc := exec_of_op hop hr
    obtain ⟨out, hrsv, -⟩ := pair_ok hxc
    obtain ⟨-, -, rec, claim, hrec, hclm, hac, hep, -⟩ := reserveClaim_authority hrsv
    exact ⟨rec, claim, hrec, hclm, hac, hep⟩
  · intro id t ht hab later call snap receipt reply hop
    exact promote_abandoned hinv ht hab later hop

end

/-! ### The epoch after a logout, and a send that is repeated -/

def sendPacket (context : SessionContext) : SendCandidate :=
  { sessionID := "olm:1", trustID := "bob", state := [1], envelope := [1], context := context }

/-- A send under one id, with the snapshot that was read before. -/
def sendCall (snap : Snapshot) (context : SessionContext) : Call :=
  ⟨.commitSend snap "m1" [sendPacket context] [1], 0, false⟩

/-- A logout changes the epoch, from one to zero, and is no promotion. A send under an id that is in
the outbox succeeds with packets of another account: it is answered with what is stored. -/
theorem epoch_and_packets_exceptions :
    let := Codec.plain
    let db := run (step homeDevice) Db.fresh [trustPeer]
    let sent := (step homeDevice db (sendCall (takeSnapshot db) peerContext)).1
    let foreign := { peerContext with localAccountID := "other", localEpoch := 7 }
    db.control.accountEpoch = 1 ∧
      (step homeDevice db ⟨.logout 1, 0, false⟩).1.control.accountEpoch = 0 ∧
      (step homeDevice sent (sendCall (takeSnapshot db) foreign)).2.isOk = true ∧
      ∃ p ∈ (sendCall (takeSnapshot db) foreign).op.packets, ¬ Bound sent.control p := by
  refine ⟨by decide +kernel, by decide +kernel, by decide +kernel, sendPacket
    { peerContext with localAccountID := "other", localEpoch := 7 }, List.mem_singleton_self _,
    fun hbd => ?_⟩
  exact absurd hbd.2 (by decide +kernel)

end Noxa.Durable

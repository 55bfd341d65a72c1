import Noxa.Durable.Calls

/-!
# What an operation leaves alone

Each operation changes records of a few kinds: a record of any other kind is as it was.

## Main definitions

* `Op.kinds`, `Op.Controls` — the records an operation may change, and what becomes of the control
  record

## Main results

* `Commit.changed`, `Commit.get_of_kind` — what a commit makes of a record
* `exec_frame`, `step_frame` — an operation changes records of its kinds only
-/

namespace Noxa.Durable

open Fallible Directory AList

/-! ### Operations -/

/-- The kinds of the records that an operation may change. -/
def Op.kinds : Op → List Kind
  | read _ | logout _ | noteRetired _ _ => []
  | setTrust _ _ _ _ => [.trust]
  | commitSend _ _ _ _ => [.session, .outbox]
  | commitAttempt _ _ _ _ _ => [.session, .outbox, .logical]
  | ack _ _ => [.outbox]
  | commitReceive _ _ _ => [.session, .inbox, .account, .obligation]
  | commitPublication _ _ _ _ _ _ => [.account, .publication, .obligation]
  | reserveClaim _ _ _ _ => [.claim]
  | prepareTransition _ _ _ _ _ _ _ => [.transition, .account, .publication, .obligation]
  | promoteAccount _ _ _ => [.transition]
  | abandonRecoveryTransition _ _ => [.transition, .obligation]
  | retireUnsubmittedKeys _ _ _ _ => [.account, .obligation]
  | retirePeerSessions _ _ _ _ => [.session]
  | applyAttemptResult _ _ _ => [.session, .outbox, .logical]

/-- What an operation makes of the control record, but for the counters. -/
def Op.Controls (op : Op) (old new : Control) : Prop :=
  match op with
  | commitAttempt _ _ _ _ _ => new = { old with nextAttempt := old.nextAttempt + 1 }
  | prepareTransition _ _ _ _ _ _ _ => new = { old with sendingBlocked := true }
  | promoteAccount _ _ _ => ∃ t, new = old.promoted t
  | abandonRecoveryTransition _ _ => new = { old with sendingBlocked := false }
  | noteRetired _ _ => ∃ seq, new = { old with retired := some (old.mark.note seq) }
  | _ => new = old

variable [Codec] {ns : Namespace} {db db' : Db} {now : Int} {op : Op} {reply : Reply}

/-- A commit of an operation, within its frame. -/
def Framed (ns : Namespace) (db : Db) (op : Op) (db' : Db) : Prop :=
  ∃ snap c reads chs, op.snapshot = some snap ∧ Commit ns db snap c reads chs db' ∧
    ChangesOnly op.kinds chs ∧ op.Controls db.control c

/-- An operation answers without a write, commits within its frame, or logs out. -/
def Outcome (ns : Namespace) (db : Db) (op : Op) (db' : Db) : Prop :=
  db' = db ∨ Framed ns db op db' ∨ ∃ fence, op = .logout fence ∧ logout db fence = .ok db'

/-! ### Commits -/

section

variable {snap : Snapshot} {c : Control} {reads : AList fun _ : Ref => Option Record}
  {chs : Changes} (h : Commit ns db snap c reads chs db')

include h

variable {r : Ref}

theorem Commit.get_of_lookup_none (hr : chs.lookup r = none) : db'.get r = db.get r := by
  rw [changes_get h.written r, afterChange, show chs.entries.dlookup r = none from hr]

variable {v : Value}

theorem Commit.get_of_lookup_some (hr : chs.lookup r = some v) :
    db'.get r = some ⟨db.revision r + 1, v, Nat.succ_pos _⟩ := by
  rw [changes_get h.written r, afterChange, show chs.entries.dlookup r = some v from hr]

theorem Commit.stored (hr : chs.lookup r = some v) : (db'.get r).map (·.data) = some v := by
  rw [h.get_of_lookup_some hr]
  rfl

/-- A record of a kind is kept, or something is written of it. -/
theorem Commit.changed {kind : Kind} {P : String → Value → Prop} (hchs : ChangesOf kind P chs)
    (id : String) : db'.get ⟨kind, id⟩ = db.get ⟨kind, id⟩ ∨
      ∃ v, P id v ∧ (db'.get ⟨kind, id⟩).map (·.data) = some v := by
  cases hv : chs.lookup ⟨kind, id⟩ with
  | none => exact .inl (h.get_of_lookup_none hv)
  | some v => exact .inr ⟨v, hchs id v hv, h.stored hv⟩

theorem Commit.get_of_kind {kinds : List Kind} (hon : ChangesOnly kinds chs)
    (hr : r.kind ∉ kinds) : db'.get r = db.get r :=
  h.get_of_lookup_none (lookup_eq_none.mpr fun hmem => hr (hon r hmem))

theorem Commit.framed (hop : op.snapshot = some snap) (hon : ChangesOnly op.kinds chs)
    (hc : op.Controls db.control c) : Outcome ns db op db' :=
  .inr (.inl ⟨snap, c, reads, chs, hop, h, hon, hc⟩)

end

/-! ### Every operation -/

/-- **The frame of an operation.** -/
theorem exec_frame (h : exec ns db now op = .ok (db', reply)) : Outcome ns db op db' := by
  cases op with
  | read =>
    obtain ⟨snap, -, heq⟩ := map_eq_ok.mp h
    exact .inl (congrArg Prod.fst heq).symm
  | setTrust =>
    exact (setTrust_ok (done_ok h)).framed rfl
      ((ChangesOnly.empty _).insert (by simp [trustRef, Op.kinds]) _) rfl
  | commitSend =>
    obtain ⟨result, hd, -⟩ := pair_ok h
    rcases commitSend_ok hd with ⟨hsm, -⟩ | ⟨start, acc, -, -, hs, hlp, -, hcom⟩
    · exact .inl hsm
    cases hs
    have hse : ChangesOnly [.session, .outbox] acc.1 :=
      (sendLoop_adds hlp).changesOnly (.empty _) (by simp)
    exact hcom.framed rfl (hse.insert (by simp [outboxRef]) _) rfl
  | commitAttempt =>
    obtain ⟨result, hd, -⟩ := pair_ok h
    rcases commitSend_ok (commitAttempt_ok hd) with 
      ⟨hsm, -⟩ | ⟨start, acc, -, -, hs, hlp, -, hcom⟩
    · exact .inl hsm
    obtain ⟨-, -, rfl⟩ := prepareAttempt_ok hs
    have hse : ChangesOnly [.session, .outbox, .logical] acc.1 :=
      (sendLoop_adds hlp).changesOnly
      ((ChangesOnly.empty _).insert (by simp [logicalRef]) _) (by simp)
    exact hcom.framed rfl (hse.insert (by simp [outboxRef]) _) rfl
  | ack =>
    rcases ack_ok (done_ok h) with hsm | ⟨v, b, -, -, -, hcom⟩
    · exact .inl hsm
    · exact hcom.framed rfl ((ChangesOnly.empty _).insert (by simp [outboxRef, Op.kinds]) _) rfl
  | commitReceive snap id p =>
    obtain ⟨archive, hd, -⟩ := pair_ok h
    rcases commitReceive_ok hd with ⟨hsm, -⟩ | ⟨state, chs, chs', -, -, -, hac, hkey, hcom⟩
    · exact .inl hsm
    have hs := ((ChangesOnly.empty [.session, .inbox, .account, .obligation]).insert
      (show (sessionRecord p.sessionID).kind ∈ _ by simp [sessionRecord])
      (.session state)).insert (show (inboxRef id).kind ∈ _ by simp [inboxRef])
      (.inbox ⟨Crypto.digest p.envelope, p.archive⟩)
    exact hcom.framed rfl
      ((consumeKey_adds hkey).changesOnly ((receiveAccount_adds hac).changesOnly hs
        (by simp [Op.kinds])) (by simp [Op.kinds])) rfl
  | logout fence => exact .inr (.inr ⟨fence, rfl, done_ok h⟩)
  | commitPublication snap accountID id account signed =>
    obtain ⟨out, hd, -⟩ := pair_ok h
    obtain ⟨-, hsm | ⟨chs, hlp, hcom⟩⟩ := commitPublicationForAccount_ok hd
    · exact .inl hsm
    have hs := ((ChangesOnly.empty [.account, .publication, .obligation]).insert
      (show (accountRef accountID).kind ∈ _ by simp [accountRef]) (.account account)).insert
      (show (publicationRef id).kind ∈ _ by simp [publicationRef])
      (.publication ⟨accountID, signed⟩)
    exact hcom.framed rfl ((publishLoop_adds hlp).changesOnly hs (by simp [Op.kinds])) rfl
  | reserveClaim =>
    obtain ⟨out, hd, -⟩ := pair_ok h
    obtain ⟨-, -, ⟨hsm, -⟩ | hcom⟩ := reserveClaim_ok hd
    · exact .inl hsm
    · exact hcom.framed rfl ((ChangesOnly.empty _).insert (by simp [claimRef, Op.kinds]) _) rfl
  | prepareTransition snap accountID account =>
    rcases prepareTransition_ok (done_ok h) with hsm | ⟨t, acc, -, -, -, -, -, hlp, -, hcom⟩
    · exact .inl hsm
    have hbd : ChangesOnly [.transition, .account, .publication, .obligation] acc.1 :=
      (transitionLoop_adds hlp).changesOnly
        ((((ChangesOnly.empty _).insert (by simp [transitionRef])
        _).insert (by simp [accountRef]) _).insert (by simp [publicationRef]) _) (by simp)
    exact hcom.framed rfl hbd rfl
  | promoteAccount =>
    obtain ⟨-, v, t, -, -, ⟨-, hsm⟩ | ⟨-, -, -, hcom⟩⟩ := promoteAccount_ok (done_ok h)
    · exact .inl hsm
    · exact hcom.framed rfl
        ((ChangesOnly.empty _).insert (by simp [transitionRef, Op.kinds]) _) ⟨t, rfl⟩
  | abandonRecoveryTransition =>
    rcases abandonRecoveryTransition_ok (done_ok h) with hsm | ⟨v, t, acc, -, -, -, hlp, hcom⟩
    · exact .inl hsm
    · have hfnd : ChangesOnly [.transition, .obligation] acc.chs :=
        (abandonLoop_ok hlp).2.changesOnly (.empty _) (by simp)
      exact hcom.framed rfl (hfnd.insert (by simp [transitionRef]) _) rfl
  | retireUnsubmittedKeys snap accountID account =>
    obtain ⟨chs, hlp, hcom⟩ := retireUnsubmittedKeys_ok (done_ok h)
    have hs := (ChangesOnly.empty [.account, .obligation]).insert
      (show (accountRef accountID).kind ∈ _ by simp [accountRef]) (.account account)
    exact hcom.framed rfl ((retireKeys_adds hlp).changesOnly hs (by simp [Op.kinds])) rfl
  | retirePeerSessions =>
    obtain ⟨chs, hlp, hcom⟩ := retirePeerSessions_ok (done_ok h)
    exact hcom.framed rfl
      ((retireSessions_adds hlp).changesOnly (.empty _) (by simp [Op.kinds])) rfl
  | applyAttemptResult =>
    rcases applyAttemptResult_ok (done_ok h) with
      hsm | ⟨v, b, d, old, logical, acc, -, -, -, -, -, -, -, -, hacc, hcom⟩
    · exact .inl hsm
    have hmvd : ChangesOnly [.session, .outbox, .logical] acc.2 := (establish_ok hacc).2.changesOnly
      (((ChangesOnly.empty _).insert (by simp [outboxRef]) _).insert (by simp [logicalRef]) _)
        (by simp)
    exact hcom.framed rfl hmvd rfl
  | noteRetired =>
    obtain ⟨-, v, b, d, seq, -, -, -, -, ⟨hsm, -⟩ | ⟨-, hcom⟩⟩ := noteRetired_ok (done_ok h)
    · exact .inl hsm
    · exact hcom.framed rfl (ChangesOnly.empty _) ⟨seq, rfl⟩

section

variable (h : Framed ns db op db')

include h

/-- What the control record is after a commit, but for the counters. -/
theorem Framed.control : ∃ c, op.Controls db.control c ∧ SameAuthority c db'.control := by
  obtain ⟨snap, c, reads, chs, -, hcom, -, hctl⟩ := h
  exact ⟨c, hctl, (changes_control hcom.written).1⟩

theorem Framed.get_of_kind {r : Ref} (hr : r.kind ∉ op.kinds) : db'.get r = db.get r := by
  obtain ⟨snap, c, reads, chs, -, hcom, hon, -⟩ := h
  exact hcom.get_of_kind hon hr

theorem Framed.live : db.control.active = true := by
  obtain ⟨snap, c, reads, chs, -, hcom, -⟩ := h
  exact hcom.live

theorem Framed.active_after : db'.control.active = true := by
  obtain ⟨snap, c, reads, chs, -, hcom, -⟩ := h
  exact hcom.active_after

end

/-! ### Every call -/

variable {call : Call}

/-- A call fails and changes nothing, or it is its operation. -/
theorem step_exec (ns : Namespace) (db : Db) (call : Call) :
    ((step ns db call).1 = db ∧ ∃ e, (step ns db call).2 = .error e) ∨
      ∃ reply, (step ns db call).2 = .ok reply ∧
        exec ns db call.now call.op = .ok ((step ns db call).1, reply) := by
  cases hxc : exec ns db call.now call.op with
  | error => exact .inl (by simp [step, hxc])
  | ok result =>
    obtain ⟨db', reply⟩ := result
    cases hf : call.faulty with
    | true => exact .inl (by simp [step, hxc, hf])
    | false => exact .inr ⟨reply, by simp [step, hxc, hf], by simp [step, hxc, hf]⟩

theorem exec_of_reply (h : (step ns db call).2 = .ok reply) :
    exec ns db call.now call.op = .ok ((step ns db call).1, reply) := by
  rcases step_exec ns db call with ⟨-, e, he⟩ | ⟨reply', hrpl, hxc⟩
  · rw [h] at he
    simp at he
  · rw [h] at hrpl
    cases hrpl
    exact hxc

theorem exec_of_op (hop : call.op = op) (h : (step ns db call).2 = .ok reply) :
    exec ns db call.now op = .ok ((step ns db call).1, reply) :=
  hop ▸ exec_of_reply h

/-- **The frame of a call.** -/
theorem step_frame (ns : Namespace) (db : Db) (call : Call) :
    Outcome ns db call.op (step ns db call).1 := by
  rcases step_exec ns db call with ⟨hsm, -⟩ | ⟨reply, -, hxc⟩
  · exact .inl hsm
  · exact exec_frame hxc

end Noxa.Durable

import Noxa.Durable.Attempts
import Noxa.Durable.Held
import Noxa.Durable.Revocation

/-!
# The life of a session record

A session record is written by sends, by receives, by the send that replaces it, by the result of an
attempt and by the reset of a peer's account. Each of them copies what it does not change from the
record before. All but one take that record from the store; a replacement takes it from the caller's
snapshot, so these results are about runs whose snapshots hold records the store once had
(`HeldRun`).

A session that a send creates may carry a claim: the one-time key of the peer that its first message
uses. Every send repeats the claim until the peer has answered or the server has accepted an attempt
with it. Then it is cleared, and nothing sets it again.

## Main definitions

* `ClearsClaim` — the calls that may clear a claim
* `SessionStep` — what a call does to a session

## Main results

* `step_sessions` — the inversion of a call
* `session_life_cycle` — what holds in every run
-/

namespace Noxa.Durable

open Fallible Directory Admission Machine

section

variable {db db' : Db} {id : String} {st st' : SessionState}

theorem HasSession.unique (h : HasSession db id st) (h' : HasSession db id st') : st = st' :=
  Value.session.inj (Option.some.inj (h.symm.trans h'))

theorem hasSession_congr (h : db'.get (sessionRecord id) = db.get (sessionRecord id)) :
    HasSession db' id st ↔ HasSession db id st := by
  rw [HasSession, HasSession, h]

theorem not_hasSession (h : db.get (sessionRecord id) = none) : ¬ HasSession db id st := by
  rw [HasSession, h]
  simp

end

/-! ### The new state of a session -/

/-- A session is new, or its context is the one given and a send repeats its claim. -/
theorem sessionValue_ok {db : Db} {now : Int} {id : String} {state : Bytes}
    {context : SessionContext} {receiving : Bool} {claim : Option SessionClaim} {st : SessionState}
    (h : sessionValue db now id state context receiving claim = .ok st) :
    (db.get (sessionRecord id) = none ∧ st.retired = false ∧ st.pending = claim) ∨
      ∃ prev, HasSession db id prev ∧ st.context = prev.context ∧ st.retired = prev.retired ∧
        (receiving = false → prev.retired = false ∧ claim = prev.pending ∧
          st.pending = prev.pending) ∧
        (receiving = true → st.pending = none) := by
  simp only [sessionValue, bind_eq_ok] at h
  obtain ⟨_, -, h⟩ := h
  split at h
  · rename_i hno
    obtain rfl := pure_eq_ok.mp h
    exact .inl ⟨hno, rfl, rfl⟩
  · rename_i old hold
    simp only [bind_eq_ok, found_eq_ok, sessionAfter, ensure_eq_ok, pure_eq_ok] at h
    obtain ⟨prev, hpr, -, hctx, -, hret, -, hmis, -, hclm, rfl⟩ := h
    refine .inr ⟨prev, hasSession_of_get hold hpr, hctx.symm, rfl, ?_, ?_⟩
    · rintro rfl
      refine ⟨by simpa using hret, ?_, rfl⟩
      rcases hclm with rfl | hsm
      · by_contra hne
        exact hmis ⟨rfl, fun hno => hne hno.symm, rfl⟩
      · exact hsm.symm
    · rintro rfl
      rfl

/-! ### What a call does to a session -/

/-- The call is a receive on the session, or the acceptance of an attempt that used it. -/
def ClearsClaim (db : Db) (call : Call) (id : String) : Prop :=
  (∃ snap message p, call.op = .commitReceive snap message p ∧ p.sessionID = id) ∨
    ∃ snap outbox result b d p, call.op = .applyAttemptResult snap outbox result ∧
      result.state = .accepted ∧ HasAttempt db outbox b d ∧ p ∈ b.packets ∧ p.sessionID = id

/-- What one call may make of a session. -/
structure Evolves (db : Db) (call : Call) (id : String) (st st' : SessionState) : Prop where
  context : st'.context = st.context
  retired : st.retired = true → st'.retired = true
  pending : st'.pending = st.pending ∨ st'.pending = none ∧ ClearsClaim db call id

inductive SessionStep (db : Db) (call : Call) (db' : Db) (id : String) : Prop
  | kept (same : db'.get (sessionRecord id) = db.get (sessionRecord id))
  | created (st : SessionState) (new : db.get (sessionRecord id) = none)
    (stored : HasSession db' id st) (unretired : st.retired = false)
      (claim : st.pending = none ∨ ∃ p ∈ call.op.packets, p.sessionID = id ∧ st.pending = p.claim)
  | moved (st st' : SessionState) (before : HasSession db id st) (stored : HasSession db' id st')
      (evolves : Evolves db call id st st')
  | gone (fence : ℕ) (op : call.op = .logout fence) (out : LoggedOut db')

section

variable [Codec] {ns : Namespace} {db db' : Db} {snap : Snapshot} {call : Call} {c : Control}
  {reads : AList fun _ : Ref => Option Record} {chs : Changes} {id : String} {st : SessionState}
  {archive : Bytes} {result : SendResult}

theorem send_sessions {sendID : String} {packets : List SendCandidate}
    {attempt : Option AttemptDescriptor} (hc : Current db call)
    (hsna : call.op.snapshot = some snap) (hpk : call.op.packets = packets)
    (h : commitSend ns db call.now snap sendID packets archive attempt = .ok (db', result)) :
    SessionStep db call db' id := by
  rcases commitSend_ok h with ⟨rfl, -⟩ | ⟨start, acc, -, -, hstr, hlp, -, hcom⟩
  · exact .kept rfl
  have hse := (sendLoop_adds hlp).changesOf ((prepareSend_ok hstr).2.changesOf (by simp))
  obtain hsm | ⟨v, ⟨p, hp, rfl, st, rfl, hval⟩ | ⟨old, previous, hold, hprv, rfl⟩, hst⟩ :=
    hcom.changed (hse.insert_other (by simp [outboxRef]) _) id
  · exact .kept hsm
  · rcases sessionValue_ok hval with ⟨hn, hret, hclm⟩ | ⟨prev, hpr, hctx, hret, hsd, -⟩
    · exact .created st hn hst hret (.inr ⟨p, hpk ▸ hp, rfl, hclm⟩)
    · exact .moved prev st hpr hst ⟨hctx, fun hr => hret.trans hr, .inl (hsd rfl).2.2⟩
  · -- the snapshot's record is the store's own
    have hget := hc snap hsna _ _ hold hcom.live (cas_ok hcom.current hold)
    exact .moved previous _ (hasSession_of_get hget hprv) hst ⟨rfl, fun _ => rfl, .inl rfl⟩

theorem receive_sessions {message : String} {p : ReceiveCandidate}
    (hop : call.op = .commitReceive snap message p)
    (h : commitReceive ns db call.now snap message p = .ok (db', archive)) :
    SessionStep db call db' id := by
  rcases commitReceive_ok h with ⟨rfl, -⟩ | ⟨st, chs, chs', -, -, hval, hacct, hkey, hcom⟩
  · exact .kept rfl
  have hstr : ChangesOf .session (fun id v => p.sessionID = id ∧ v = .session st)
      (((∅ : Changes).insert (sessionRecord p.sessionID) (.session st)).insert (inboxRef message)
        (.inbox ⟨Crypto.digest p.envelope, p.archive⟩)) :=
    ((Adds.refl.insert ⟨rfl, rfl⟩).changesOf .empty).insert_other (by simp [inboxRef]) _
  have hchs := (consumeKey_adds hkey).changesOf_other
    ((receiveAccount_adds hacct).changesOf_other hstr (by simp)) (by simp)
  obtain hsm | ⟨v, ⟨rfl, rfl⟩, hst⟩ := hcom.changed hchs id
  · exact .kept hsm
  rcases sessionValue_ok hval with ⟨hn, hret, hclm⟩ | ⟨prev, hpr, hctx, hret, -, hno⟩
  · exact .created st hn hst hret (.inl hclm)
  · exact .moved prev st hpr hst ⟨hctx, fun hr => hret.trans hr,
      .inr ⟨hno rfl, .inl ⟨snap, message, p, hop, rfl⟩⟩⟩

theorem result_sessions {outbox : String} {result : Receipt}
    (hop : call.op = .applyAttemptResult snap outbox result)
    (h : applyAttemptResult ns db snap outbox result = .ok db') : SessionStep db call db' id := by
  rcases applyAttemptResult_ok h with
    rfl | ⟨v, b, d, old, logical, acc, hv, hb, hd, -, -, -, -, -, hacc, hcom⟩
  · exact .kept rfl
  have hatt : HasAttempt db outbox b d :=
    ⟨by rw [hv, Option.map_some, outbox_of_outbox? hb], hd⟩
  have hchs := (establish_ok hacc).2.changesOf ((((ChangesOnly.empty [.outbox, .logical]).insert
    (by simp [outboxRef]) _).insert (by simp [logicalRef]) _).changesOf (by simp))
  obtain hsm | ⟨v', ⟨hac, st, hst, rfl, p, hp, hid⟩, hst'⟩ := hcom.changed hchs id
  · exact .kept hsm
  exact .moved st _ hst hst' ⟨rfl, fun hr => hr,
    .inr ⟨rfl, .inr ⟨snap, outbox, result, b, d, p, hop, hac, hatt, hp, hid⟩⟩⟩

/-- **Inversion of a call**, for one session. -/
theorem step_sessions (hc : Current db call) (ns : Namespace) (id : String) :
    SessionStep db call (step ns db call).1 id := by
  rcases step_exec ns db call with ⟨hsm, -⟩ | ⟨reply, -, hxc⟩
  · exact .kept (by rw [hsm])
  obtain ⟨op, now, faulty⟩ := call
  generalize (step ns db ⟨op, now, faulty⟩).1 = db' at hxc
  by_cases hkd : Kind.session ∈ op.kinds
  · cases op with
    | commitSend =>
      obtain ⟨result, hsd, -⟩ := pair_ok hxc
      exact send_sessions hc rfl rfl hsd
    | commitAttempt =>
      obtain ⟨result, hsd, -⟩ := pair_ok hxc
      exact send_sessions hc rfl rfl (commitAttempt_ok hsd)
    | commitReceive =>
      obtain ⟨archive, hrcv, -⟩ := pair_ok hxc
      exact receive_sessions rfl hrcv
    | applyAttemptResult =>
      exact result_sessions rfl (done_ok hxc)
    | retirePeerSessions =>
      obtain ⟨chs, hlp, hcom⟩ := retirePeerSessions_ok (done_ok hxc)
      obtain hsm | ⟨v, ⟨st, hst, rfl⟩, hst'⟩ := hcom.changed
        ((retireSessions_adds hlp).changesOf .empty) id
      · exact .kept hsm
      · exact .moved st _ hst hst' ⟨rfl, fun _ => rfl, .inl rfl⟩
    | _ => simp [Op.kinds] at hkd
  · rcases exec_frame hxc with rfl | hfrm | ⟨fence, hop, hlog⟩
    · exact .kept rfl
    · exact .kept (hfrm.get_of_kind hkd)
    · exact .gone fence hop (loggedOut_of_logout hlog)

/-! ### Runs -/

section

omit [Codec]

variable (hs : SessionStep db call db' id)

include hs

/-- A session is left by a call as a session, unless it is a logout. -/
theorem SessionStep.evolves (hst : HasSession db id st) :
    LoggedOut db' ∨ ∃ st', HasSession db' id st' ∧ Evolves db call id st st' := by
  cases hs with
  | kept same => exact .inr ⟨st, (hasSession_congr same).mpr hst, rfl, fun hr => hr, .inl rfl⟩
  | created st' new => exact absurd hst (not_hasSession new)
  | moved prev st' before stored evolves =>
    obtain rfl := hst.unique before
    exact .inr ⟨st', stored, evolves⟩
  | gone fence op out => exact .inl out

/-- A session that appears is not retired, and its claim is that of the packet that made it. -/
theorem SessionStep.appears (hn : db.get (sessionRecord id) = none) (hst : HasSession db' id st) :
    st.retired = false ∧
      (st.pending = none ∨ ∃ p ∈ call.op.packets, p.sessionID = id ∧ st.pending = p.claim) := by
  cases hs with
  | kept same => exact absurd hst (not_hasSession (same.trans hn))
  | created st' new stored unretired claim =>
    obtain rfl := hst.unique stored
    exact ⟨unretired, claim⟩
  | moved prev st' before => exact absurd before (not_hasSession hn)
  | gone fence op out => exact absurd hst (not_hasSession (out.2 _))

theorem SessionStep.typed
    (h : ∀ rec, db.get (sessionRecord id) = some rec → ∃ st, HasSession db id st) :
    ∀ rec, db'.get (sessionRecord id) = some rec → ∃ st, HasSession db' id st := by
  intro rec hrec
  cases hs with
  | kept same =>
    obtain ⟨st, hst⟩ := h rec (same ▸ hrec)
    exact ⟨st, (hasSession_congr same).mpr hst⟩
  | created st new stored => exact ⟨st, stored⟩
  | moved prev st' before stored => exact ⟨st', stored⟩
  | gone fence op out => exact nomatch (out.2 _).symm.trans hrec

end

/-- Over any calls: the context stays, a retired session stays retired, and the claim is what it was
or is gone. -/
theorem sessions_run {later : List Call} (hl : Along (step ns) Current db later)
    (hst : HasSession db id st) :
    LoggedOut (run (step ns) db later) ∨ ∃ st', HasSession (run (step ns) db later) id st' ∧
      st'.context = st.context ∧ (st.retired = true → st'.retired = true) ∧
      (st'.pending = st.pending ∨ st'.pending = none) := by
  refine run_invariant_along (P := fun db => LoggedOut db ∨ ∃ st', HasSession db id st' ∧
      st'.context = st.context ∧ (st.retired = true → st'.retired = true) ∧
      (st'.pending = st.pending ∨ st'.pending = none)) (fun db call hc h => ?_)
    (.inr ⟨st, hst, rfl, fun hr => hr, .inl rfl⟩) hl
  rcases h with ho | ⟨st', hst', hctx, hret, hpe⟩
  · exact .inl (ho.step ns call)
  refine ((step_sessions hc ns id).evolves hst').imp_right ?_
  rintro ⟨st'', hst'', hev⟩
  refine ⟨st'', hst'', hev.context.trans hctx, fun hr => hev.retired (hret hr), ?_⟩
  rcases hev.pending with hsm | ⟨hno, -⟩
  · rw [hsm]
    exact hpe
  · exact .inr hno

/-- What a new send needs of the sessions it uses. -/
theorem send_checks (h : (step ns db call).2 = .ok (.sent result))
    (hn : result.reused = false) {p : SendCandidate} (hp : p ∈ call.op.packets)
    (hst : HasSession db p.sessionID st) : st.retired = false ∧ p.claim = st.pending := by
  obtain ⟨snap, sendID, archive, attempt, hsd⟩ := sent_of_reply h
  rcases commitSend_ok hsd with ⟨-, hrus, -⟩ | ⟨start, acc, -, -, -, hlp, -⟩
  · exact absurd (hn.symm.trans hrus) (by decide)
  obtain ⟨-, st', hval⟩ := sendLoop_checks hlp hp
  rcases sessionValue_ok hval with ⟨hno, -⟩ | ⟨prev, hpr, -, -, hchk, -⟩
  · exact absurd hst (not_hasSession hno)
  · obtain rfl := hst.unique hpr
    exact ⟨(hchk rfl).1, (hchk rfl).2.1⟩

/-- **The life cycle of a session record.** In every run whose snapshots hold records that the store
once had:

* a call leaves a session as a session with the same context, retired if it was, and with the same
  claim unless it is a receive on the session or the acceptance of an attempt that used it, which
  may clear the claim; only a logout removes it;
* a session that appears is not retired, and a claim that it has is that of the packet that made it;
* between any two points of the run the context is the same, retirement lasts, and the claim is the
  same or gone;
* a send that commits uses no retired session, and with each session exactly the session's claim. -/
theorem session_life_cycle (ns : Namespace) (calls : List Call) (hhd : HeldRun ns Db.fresh calls) :
    (∀ id rec, (run (step ns) Db.fresh calls).get (sessionRecord id) = some rec →
      ∃ st, HasSession (run (step ns) Db.fresh calls) id st) ∧
    (∀ before call after, calls = before ++ call :: after →
      let db := run (step ns) Db.fresh before
      (∀ id st, HasSession db id st → LoggedOut (step ns db call).1 ∨
        ∃ st', HasSession (step ns db call).1 id st' ∧ Evolves db call id st st') ∧
      (∀ id st, db.get (sessionRecord id) = none → HasSession (step ns db call).1 id st →
        st.retired = false ∧
          (st.pending = none ∨ ∃ p ∈ call.op.packets, p.sessionID = id ∧ st.pending = p.claim)) ∧
      (∀ result, (step ns db call).2 = .ok (.sent result) → result.reused = false →
        ∀ p ∈ call.op.packets, ∀ st, HasSession db p.sessionID st →
          st.retired = false ∧ p.claim = st.pending)) ∧
    (∀ before later after, calls = before ++ (later ++ after) → ∀ id st st',
      HasSession (run (step ns) Db.fresh before) id st →
      HasSession (run (step ns) Db.fresh (before ++ later)) id st' →
      st'.context = st.context ∧ (st.retired = true → st'.retired = true) ∧
        (st'.pending = st.pending ∨ st'.pending = none)) := by
  have ha := hhd.along
  refine ⟨fun id => ?_, ?_, ?_⟩
  · exact run_invariant_along (P := fun db => ∀ rec, db.get (sessionRecord id) = some rec →
      ∃ st, HasSession db id st) (fun db call hc h => (step_sessions hc ns id).typed h)
      (fun rec hrec => nomatch (show (none : Option Record) = some rec from hrec)) ha
  · rintro before call after rfl
    obtain ⟨-, hc, -⟩ := along_append.mp ha
    exact ⟨fun id st => (step_sessions hc ns id).evolves,
      fun id st => (step_sessions hc ns id).appears,
      fun result hres hn p hp st => send_checks hres hn hp⟩
  · rintro before later after rfl id st st' hst hst'
    obtain ⟨-, hrs⟩ := along_append.mp ha
    obtain ⟨hl, -⟩ := along_append.mp hrs
    rw [run_append] at hst'
    rcases sessions_run hl hst with ho | ⟨st'', hst'', hlf⟩
    · exact absurd hst' (not_hasSession (ho.2 _))
    · obtain rfl := hst'.unique hst''
      exact hlf

end

/-! ### Sessions with a claim -/

/-- The first message to a peer, with the claim of its one-time key. -/
def firstContact (snap : Snapshot) : Call :=
  ⟨.commitSend snap "m1" [{ sendPacket peerContext with claim := some ⟨"c1", 5⟩ }] [1], 0, false⟩

def contactCalls : List Call :=
  let := Codec.plain
  [trustPeer, firstContact (takeSnapshot (run (step homeDevice) Db.fresh [trustPeer]))]

def contactedPeer : Db :=
  let := Codec.plain
  run (step homeDevice) Db.fresh contactCalls

def contactSession : SessionState where
  snapshot := [1]
  context := peerContext
  createdAt := 0
  pending := some ⟨"c1", 5⟩

theorem hasSession_contact : HasSession contactedPeer "olm:1" contactSession := by
  unfold HasSession
  decide +kernel

/-- The peer's answer on the session. -/
def peerAnswer : Call := receiveCall (takeSnapshot contactedPeer) "a1" 2

theorem session_life_cycle_first_contact :
    let := Codec.plain
    HeldRun homeDevice Db.fresh (contactCalls ++ [peerAnswer]) ∧
      ∃ st st', HasSession contactedPeer "olm:1" st ∧ st.pending = some ⟨"c1", 5⟩ ∧
        HasSession (step homeDevice contactedPeer peerAnswer).1 "olm:1" st' ∧
        Evolves contactedPeer peerAnswer "olm:1" st st' := by
  intro _
  have htru : HeldRun homeDevice Db.fresh [trustPeer] :=
    HeldRun.read (r := [trustRef "bob", sessionRecord "olm:1"]) (heldRun_nil _ _)
      (by decide +kernel) rfl
  have hcnt : HeldRun homeDevice Db.fresh contactCalls :=
    htru.read (r := [trustRef "bob", sessionRecord "olm:1"]) (by decide +kernel) rfl
  have hhd : HeldRun homeDevice Db.fresh (contactCalls ++ [peerAnswer]) :=
    hcnt.read (r := [trustRef "bob", sessionRecord "olm:1"]) (by decide +kernel) rfl
  obtain ⟨-, hcls, -⟩ := session_life_cycle homeDevice (contactCalls ++ [peerAnswer]) hhd
  obtain ⟨hlf, -, -⟩ := hcls contactCalls peerAnswer [] rfl
  rcases hlf _ _ hasSession_contact with ho | ⟨st', hst', hev⟩
  · exact absurd ho.1 (by decide +kernel)
  · exact ⟨hhd, _, st', hasSession_contact, rfl, hst', hev⟩

/-- The session with another device in its context and without the claim. -/
def forgedSession : SessionState :=
  { contactSession with context := { peerContext with peerDevice := "tablet" }, pending := none }

def forgedSnapshot : Snapshot :=
  let snap := snapshotOf [trustRef "bob", sessionRecord "olm:1", sessionRecord "olm:2"]
    contactedPeer
  { snap with records :=
      snap.records.insert (sessionRecord "olm:1") (some ⟨1, .session forgedSession, Nat.one_pos⟩) }

/-- A message on a new session, which replaces the one of the snapshot. -/
def forgedReplacement : Call :=
  ⟨.commitSend forgedSnapshot "m2" [{ sendPacket forgedSession.context with
    sessionID := "olm:2", replaces := "olm:1" }] [1], 0, false⟩

/-- Only revisions are compared with the snapshot, so the replaced session gets another context and
loses its claim. -/
theorem forged_snapshot_rewrites_session :
    let := Codec.plain
    (step homeDevice contactedPeer forgedReplacement).2.isOk = true ∧
      ∃ st st', HasSession contactedPeer "olm:1" st ∧
        HasSession (step homeDevice contactedPeer forgedReplacement).1 "olm:1" st' ∧
        st'.context ≠ st.context ∧ st.pending = some ⟨"c1", 5⟩ ∧ st'.pending = none := by
  intro _
  refine ⟨by decide +kernel, contactSession, { forgedSession with retired := true },
    hasSession_contact, ?_, by decide, rfl, rfl⟩
  unfold HasSession
  decide +kernel

end Noxa.Durable

import Noxa.Durable.Loops

/-!
# Calls of the durable store

A run of the store is a list of calls, by any clients and in any order. A call carries what its
client holds, in particular a snapshot as old as it may be, the time at which the store reads its
clock, and whether the database fails to commit. Operations are atomic: a call that fails leaves
the store as it was.

## Main definitions

* `Op`, `Call`, `exec`, `step` — the operations as a machine
* `Commit` — a write that passed the fence and the comparison of revisions

## Main results

* `setTrust_ok`, `commitSend_ok` and so on — what an operation does when it succeeds
* `Commit.get_or_next`, `Commit.snapshot_current` — what a commit establishes
-/

namespace Noxa.Durable

open Fallible Directory Admission

inductive Op
  | read (refs : List Ref)
  | setTrust (snap : Snapshot) (id : String) (value : Bytes) (revoked : Bool)
  | commitSend (snap : Snapshot) (id : String) (packets : List SendCandidate) (archive : Bytes)
  | commitAttempt (snap : Snapshot) (m : Manifest) (parts : List Bytes)
      (packets : List SendCandidate) (archive : Bytes)
  | ack (snap : Snapshot) (id : String)
  | commitReceive (snap : Snapshot) (id : String) (p : ReceiveCandidate)
  | logout (fence : ℕ)
  | commitPublication (snap : Snapshot) (accountID id : String) (account signed : Bytes)
      (otks : Obligations)
  | reserveClaim (snap : Snapshot) (id trustID : String) (request : Bytes)
  | prepareTransition (snap : Snapshot) (accountID : String) (account : Bytes) (r : Reset)
      (b : Bundle) (otks : Obligations) (recovery : Bool)
  | promoteAccount (snap : Snapshot) (id : String) (receipt : ResetReceipt)
  | abandonRecoveryTransition (snap : Snapshot) (id : String)
  | retireUnsubmittedKeys (snap : Snapshot) (accountID : String) (account : Bytes)
      (proofs : AList fun _ : String => KeyClosure)
  | retirePeerSessions (snap : Snapshot) (trustID : String) (r : Reset) (ids : List String)
  | applyAttemptResult (snap : Snapshot) (id : String) (result : Receipt)
  | noteRetired (snap : Snapshot) (id : String)

/-- The snapshot an operation commits against. -/
def Op.snapshot : Op → Option Snapshot
  | read _ | logout _ => none
  | setTrust snap _ _ _ | commitSend snap _ _ _ | commitAttempt snap _ _ _ _ | ack snap _
  | commitReceive snap _ _ | commitPublication snap _ _ _ _ _ | reserveClaim snap _ _ _
  | prepareTransition snap _ _ _ _ _ _ | promoteAccount snap _ _
  | abandonRecoveryTransition snap _ | retireUnsubmittedKeys snap _ _ _
  | retirePeerSessions snap _ _ _ | applyAttemptResult snap _ _ | noteRetired snap _ => some snap

inductive Reply
  | done
  | snapshot (snap : Snapshot)
  | sent (result : SendResult)
  | bytes (b : Bytes)

variable [Codec]

/-- The transaction of an operation at a time. -/
def exec (ns : Namespace) (db : Db) (now : Int) : Op → Except Error (Db × Reply)
  | .read refs => (read ns db refs).map fun snap => (db, .snapshot snap)
  | .setTrust snap id value revoked =>
    (setTrust ns db snap id value revoked).map fun db' => (db', .done)
  | .commitSend snap id packets archive =>
    (commitSend ns db now snap id packets archive none).map fun r => (r.1, .sent r.2)
  | .commitAttempt snap m parts packets archive =>
    (commitAttempt ns db now snap m parts packets archive).map fun r => (r.1, .sent r.2)
  | .ack snap id => (ack ns db snap id).map fun db' => (db', .done)
  | .commitReceive snap id p =>
    (commitReceive ns db now snap id p).map fun r => (r.1, .bytes r.2)
  | .logout fence => (logout db fence).map fun db' => (db', .done)
  | .commitPublication snap accountID id account signed otks =>
    (commitPublicationForAccount ns db snap accountID id account signed otks).map
      fun r => (r.1, .bytes r.2)
  | .reserveClaim snap id trustID request =>
    (reserveClaim ns db snap id trustID request).map fun r => (r.1, .bytes r.2)
  | .prepareTransition snap accountID account r b otks recovery =>
    (prepareTransition ns db snap accountID account r b otks recovery).map
      fun db' => (db', .done)
  | .promoteAccount snap id receipt =>
    (promoteAccount ns db snap id receipt).map fun db' => (db', .done)
  | .abandonRecoveryTransition snap id =>
    (abandonRecoveryTransition ns db snap id).map fun db' => (db', .done)
  | .retireUnsubmittedKeys snap accountID account proofs =>
    (retireUnsubmittedKeys ns db snap accountID account proofs).map fun db' => (db', .done)
  | .retirePeerSessions snap trustID r ids =>
    (retirePeerSessions ns db snap trustID r ids).map fun db' => (db', .done)
  | .applyAttemptResult snap id result =>
    (applyAttemptResult ns db snap id result).map fun db' => (db', .done)
  | .noteRetired snap id => (noteRetired ns db snap id).map fun db' => (db', .done)

/-- `faulty` says that the database fails to commit. -/
structure Call where
  op : Op
  now : Int
  faulty : Bool

def step (ns : Namespace) (db : Db) (call : Call) : Db × Except Error Reply :=
  match exec ns db call.now call.op with
  | .error e => (db, .error e)
  | .ok (db', reply) => if call.faulty then (db, .error .failed) else (db', .ok reply)

/-! ### Commits -/

/-- A write of `chs`, with `c` as the new control record but for its counters. `reads` is what the
write may change: the snapshot's records and what the transaction itself has read. -/
structure Commit (ns : Namespace) (db : Db) (snap : Snapshot) (c : Control)
    (reads : AList fun _ : Ref => Option Record) (chs : Changes) (db' : Db) : Prop where
  fenced : fence ns db snap = .ok db.control
  current : cas db snap = .ok ⟨⟩
  reads_current : ∀ r rec, reads.lookup r = some rec →
    snap.records.lookup r = some rec ∨ rec = db.get r
  active : c.active = db.control.active
  written : changes db c { snap with records := reads } chs = .ok db'

/-- A commit with the records of its snapshot. -/
theorem Commit.of_changes {ns : Namespace} {db db' : Db} {snap : Snapshot} {c c' : Control}
    {chs : Changes} (hf : fence ns db snap = .ok c) (hc : cas db snap = .ok ⟨⟩)
    (hact : c'.active = c.active) (hwrn : changes db c' snap chs = .ok db') :
    Commit ns db snap c' snap.records chs db' := by
  obtain ⟨rfl, -⟩ := fence_ok hf
  exact ⟨hf, hc, fun r rec hr => .inl hr, hact, hwrn⟩

/-- Some write of an operation on a snapshot. -/
def Commits (ns : Namespace) (db : Db) (snap : Snapshot) (db' : Db) : Prop :=
  ∃ c reads chs, Commit ns db snap c reads chs db'

/-! ### What each operation does when it succeeds -/

section

variable {ns : Namespace} {db db' : Db} {snap : Snapshot} {now : Int} {id : String}

theorem setTrust_ok {value : Bytes} {revoked : Bool}
    (h : setTrust ns db snap id value revoked = .ok db') : Commit ns db snap db.control snap.records
      ((∅ : Changes).insert (trustRef id) (.trust ⟨revoked, value⟩)) db' := by
  simp only [setTrust, bind_eq_ok, ensure_eq_ok] at h
  obtain ⟨-, -, c, hf, _, hc, _, -, hch⟩ := h
  obtain ⟨rfl, -⟩ := fence_ok hf
  exact .of_changes hf hc rfl hch

variable {archive : Bytes} {packets : List SendCandidate}

/-- A new send: the attempt is numbered, the packets are taken one by one, and the outbox record is
written with them. -/
theorem commitSend_ok {attempt : Option AttemptDescriptor} {result : SendResult}
    (h : commitSend ns db now snap id packets archive attempt = .ok (db', result)) :
    (db' = db ∧ result.reused = true ∧
      (∃ rec, db.get (outboxRef id) = some rec ∧ rec.data.outbox? = some result.data) ∧
      checkSendAuthority db.control result.data.packets result.data.attempt = .ok ⟨⟩ ∧
      result.data.packets.forM (checkRetryTrust db snap) = .ok ⟨⟩) ∨
    ∃ start acc, db.get (outboxRef id) = none ∧
      checkSendAuthority db.control packets attempt = .ok ⟨⟩ ∧
      prepareSend db db.control snap attempt = .ok start ∧
      packets.foldlM (sendOne db now snap attempt.isSome) (start.2, []) = .ok acc ∧
      result = ⟨⟨attempt, none, acc.2, .pending, archive⟩, false⟩ ∧
      Commit ns db snap start.1 snap.records
        (acc.1.insert (outboxRef id) (.outbox ⟨attempt, none, acc.2, .pending, archive⟩)) db' := by
  simp only [commitSend, bind_eq_ok, ensure_eq_ok] at h
  obtain ⟨-, -, -, -, -, -, c, hf, h⟩ := h
  obtain ⟨rfl, -⟩ := fence_ok hf
  split at h
  · rename_i old hold
    simp only [resend, bind_eq_ok, found_eq_ok, pure_eq_ok] at h
    obtain ⟨saved, hs, _, hau, _, htru, heq⟩ := h
    cases heq
    exact .inl ⟨rfl, rfl, ⟨old, hold, hs⟩, hau, htru⟩
  · rename_i hno
    simp only [firstSend, bind_eq_ok, pure_eq_ok] at h
    obtain ⟨_, hc, _, hau, start, hstr, acc, ha, db₁, hch, heq⟩ := h
    obtain rfl : db₁ = db' := congrArg Prod.fst heq
    exact .inr ⟨start, acc, hno, hau, hstr, ha, (congrArg Prod.snd heq).symm,
      .of_changes hf hc (prepareSend_ok hstr).1 hch⟩

/-- An attempt is a send under the attempt's own id. -/
theorem commitAttempt_ok {m : Manifest} {parts : List Bytes} {r : Db × SendResult}
    (h : commitAttempt ns db now snap m parts packets archive = .ok r) :
    commitSend ns db now snap (attemptID m) packets archive (some ⟨m, parts⟩) = .ok r := by
  simp only [commitAttempt, bind_eq_ok] at h
  obtain ⟨_, -, _, -, _, -, hsd⟩ := h
  exact hsd

theorem ack_ok (h : ack ns db snap id = .ok db') :
    db' = db ∨ ∃ v b, db.get (outboxRef id) = some v ∧ v.data.outbox? = some b ∧
      b.attempt = none ∧ Commit ns db snap db.control snap.records
        ((∅ : Changes).insert (outboxRef id) (.outbox { b with status := .sent })) db' := by
  simp only [ack, bind_eq_ok, ensure_eq_ok, found_eq_ok] at h
  obtain ⟨c, hf, _, hc, v, hv, b, hb, -, hatt, h⟩ := h
  obtain ⟨rfl, -⟩ := fence_ok hf
  split at h
  · exact .inl (pure_eq_ok.mp h).symm
  · exact .inr ⟨v, b, hv, hb, hatt, .of_changes hf hc rfl h⟩

theorem commitReceive_ok {p : ReceiveCandidate}
    (h : commitReceive ns db now snap id p = .ok (db', archive)) :
    (db' = db ∧ db.get (inboxRef id) ≠ none) ∨ ∃ state chs chs', db.get (inboxRef id) = none ∧
      checkTrust db snap p.trustID = .ok ⟨⟩ ∧
        sessionValue db now p.sessionID p.session p.context true none = .ok state ∧
      receiveAccount snap p (((∅ : Changes).insert (sessionRecord p.sessionID)
        (.session state)).insert (inboxRef id)
          (.inbox ⟨Crypto.digest p.envelope, p.archive⟩)) = .ok chs ∧
      consumeKey snap p chs = .ok chs' ∧ Commit ns db snap db.control snap.records chs' db' := by
  simp only [commitReceive, bind_eq_ok, ensure_eq_ok] at h
  obtain ⟨-, -, -, -, -, -, c, hf, h⟩ := h
  obtain ⟨rfl, -⟩ := fence_ok hf
  split at h
  · rename_i old hold
    simp only [rereceive, bind_eq_ok, pure_eq_ok] at h
    obtain ⟨_, -, _, -, heq⟩ := h
    exact .inl ⟨(congrArg Prod.fst heq).symm, by simp [hold]⟩
  · rename_i hno
    simp only [firstReceive, bind_eq_ok, pure_eq_ok] at h
    obtain ⟨_, hc, _, htru, _, -, state, hst, chs, hchs, chs', hchs', db₁, hch, heq⟩ := h
    obtain rfl : db₁ = db' := congrArg Prod.fst heq
    exact .inr ⟨state, chs, chs', hno, htru, hst, hchs, hchs', .of_changes hf hc rfl hch⟩

omit [Codec] in
theorem logout_ok {fence : ℕ} (h : logout db fence = .ok db') : ∃ f, db' =
      { records := ∅, controlRevision := 1, control := { fence := f, active := false } } := by
  simp only [logout, bind_eq_ok, ensure_eq_ok, pure_eq_ok] at h
  obtain ⟨c, -, -, -, -, -, rfl⟩ := h
  exact ⟨_, rfl⟩

variable {accountID : String} {account out : Bytes} {otks : Obligations}

theorem commitPublicationForAccount_ok {signed : Bytes}
    (h : commitPublicationForAccount ns db snap accountID id account signed otks = .ok (db', out)) :
    (db.control.sendingBlocked = false ∧ accountID = db.control.accountID) ∧
      (db' = db ∨ ∃ chs, otks.entries.foldlM (publishOne db db.control accountID id)
          (((∅ : Changes).insert (accountRef accountID) (.account account)).insert
            (publicationRef id) (.publication ⟨accountID, signed⟩)) = .ok chs ∧
        Commit ns db snap db.control snap.records chs db') := by
  simp only [commitPublicationForAccount, bind_eq_ok, ensure_eq_ok] at h
  obtain ⟨-, -, -, -, c, hf, -, hau, h⟩ := h
  obtain ⟨rfl, -⟩ := fence_ok hf
  refine ⟨hau, ?_⟩
  split at h
  · simp only [republish, bind_eq_ok, pure_eq_ok] at h
    obtain ⟨_, -, _, -, heq⟩ := h
    exact .inl (congrArg Prod.fst heq).symm
  · simp only [firstPublish, bind_eq_ok, pure_eq_ok] at h
    obtain ⟨_, hc, _, -, _, -, chs, hchs, db₁, hch, heq⟩ := h
    obtain rfl : db₁ = db' := congrArg Prod.fst heq
    exact .inr ⟨chs, hchs, .of_changes hf hc rfl hch⟩

variable {trustID : String}

theorem reserveClaim_ok {request : Bytes}
    (h : reserveClaim ns db snap id trustID request = .ok (db', out)) :
    db.control.sendingBlocked = false ∧ checkTrust db snap trustID = .ok ⟨⟩ ∧
      ((db' = db ∧ ∃ old saved, db.get (claimRef id) = some old ∧ old.data.claim? = some saved ∧
        saved.accountID = db.control.accountID ∧ saved.accountEpoch = db.control.accountEpoch ∧
        saved.trustID = trustID) ∨
      Commit ns db snap db.control snap.records ((∅ : Changes).insert (claimRef id)
        (.claim ⟨db.control.accountID, db.control.accountEpoch, trustID,
          snap.revision (trustRef trustID), request⟩)) db') := by
  simp only [reserveClaim, bind_eq_ok, ensure_eq_ok] at h
  obtain ⟨-, -, -, -, c, hf, -, hop, _, htru, h⟩ := h
  obtain ⟨rfl, -⟩ := fence_ok hf
  refine ⟨hop, htru, ?_⟩
  split at h
  · rename_i old hold
    simp only [rereserve, bind_eq_ok, found_eq_ok, ensure_eq_ok, pure_eq_ok] at h
    obtain ⟨saved, hs, -, hac, -, htrd, heq⟩ := h
    exact .inl ⟨(congrArg Prod.fst heq).symm, old, saved, hold, hs, hac.1, hac.2, htrd.1⟩
  · simp only [firstReserve, bind_eq_ok, pure_eq_ok] at h
    obtain ⟨_, hc, db₁, hch, heq⟩ := h
    obtain rfl : db₁ = db' := congrArg Prod.fst heq
    exact .inr (.of_changes hf hc rfl hch)

variable {r : Reset}

/-- A new transition: stored with the candidate account, its keys and a block on sending. -/
theorem prepareTransition_ok {b : Bundle} {recovery : Bool}
    (h : prepareTransition ns db snap accountID account r b otks recovery = .ok db') :
    db' = db ∨ ∃ t acc, t.reset = r ∧ t.recovery = recovery ∧
      (recovery = true → t.fromEpoch = db.control.accountEpoch) ∧
      r.newEpoch = r.oldEpoch + 1 ∧
      (recovery = true → db.control.accountEpoch ≤ r.oldEpoch) ∧
      otks.entries.foldlM (transitionKey db accountID r b)
        ((((∅ : Changes).insert (transitionRef r.transitionID) (.transition t)).insert
          (accountRef accountID) (.account account)).insert (publicationRef r.transitionID)
            (.publication ⟨accountID, Codec.bundleBytes b⟩), []) = .ok acc ∧
      (db.get (transitionRef r.transitionID) = none ∧ db.control.sendingBlocked = false ∧
        t.receipt = none ∧ t.abandoned = false) ∧
      Commit ns db snap { db.control with sendingBlocked := true } snap.records acc.1 db' := by
  simp only [prepareTransition, bind_eq_ok, ensure_eq_ok, pure_eq_ok] at h
  obtain ⟨-, -, -, -, -, -, -, -, c, hf, _, hc, t, rfl, h⟩ := h
  obtain ⟨rfl, -⟩ := fence_ok hf
  split at h
  · simp only [reprepare, bind_eq_ok, pure_eq_ok] at h
    obtain ⟨_, -, _, -, rfl⟩ := h
    exact .inl rfl
  · rename_i hno
    simp only [firstPrepare, bind_eq_ok, ensure_eq_ok] at h
    obtain ⟨-, hep, -, -, acc, ha, hch⟩ := h
    exact .inr ⟨_, acc, rfl, rfl, fun hrec => by simp [hrec], hep.1, hep.2.2.2.1, ha,
      ⟨hno, hep.2.2.1, rfl, rfl⟩, .of_changes hf hc rfl hch⟩

theorem promoteAccount_ok {receipt : ResetReceipt}
    (h : promoteAccount ns db snap id receipt = .ok db') :
    db.control.active = true ∧ ∃ v t, db.get (transitionRef id) = some v ∧
      v.data.transition? = some t ∧ (t.receipt = some receipt ∧ db' = db ∨
        t.receipt = none ∧ t.abandoned = false ∧ db.control.accountEpoch = t.startEpoch ∧
        Commit ns db snap (db.control.promoted t) snap.records ((∅ : Changes).insert
          (transitionRef id) (.transition { t with receipt := some receipt })) db') := by
  simp only [promoteAccount, bind_eq_ok, ensure_eq_ok, found_eq_ok] at h
  obtain ⟨c, hf, _, hc, v, hv, t, ht, -, -, h⟩ := h
  obtain ⟨rfl, hact, -⟩ := fence_ok hf
  refine ⟨hact, v, t, hv, ht, ?_⟩
  split at h
  · rename_i hkn
    simp only [bind_eq_ok, ensure_eq_ok, pure_eq_ok] at h
    obtain ⟨-, rfl, rfl⟩ := h
    exact .inl ⟨hkn, rfl⟩
  · rename_i hrc
    simp only [firstPromote, bind_eq_ok, ensure_eq_ok] at h
    obtain ⟨-, hab, -, hep, hch⟩ := h
    exact .inr ⟨hrc, hab, hep.1, .of_changes hf hc rfl hch⟩

theorem abandonRecoveryTransition_ok (h : abandonRecoveryTransition ns db snap id = .ok db') :
    db' = db ∨ ∃ v t acc, db.get (transitionRef id) = some v ∧ v.data.transition? = some t ∧
      (t.recovery = true ∧ t.receipt = none ∧ t.abandoned = false ∧
        db.control.sendingBlocked = true) ∧
      db.records.entries.foldlM (abandonOne id t)
        ⟨t.bundle.oneTimeKeys.foldl (fun keys k => keys.insert k.id k.key) ∅, snap.records, ∅⟩ =
          .ok acc ∧
      Commit ns db snap { db.control with sendingBlocked := false } acc.reads (acc.chs.insert
        (transitionRef id) (.transition { t with abandoned := true })) db' := by
  simp only [abandonRecoveryTransition, bind_eq_ok, ensure_eq_ok, found_eq_ok] at h
  obtain ⟨c, hf, _, hc, v, hv, t, ht, -, hrcy, h⟩ := h
  obtain ⟨rfl, -⟩ := fence_ok hf
  split at h
  · exact .inl (pure_eq_ok.mp h).symm
  rename_i hab
  simp only [firstAbandon, bind_eq_ok, ensure_eq_ok] at h
  obtain ⟨-, hblk, acc, ha, -, -, hch⟩ := h
  exact .inr ⟨v, t, acc, hv, ht, ⟨hrcy.1, hrcy.2, by simpa using hab,
    hblk.2.1⟩, ha, hf, hc, (abandonLoop_ok ha).1, rfl, hch⟩

theorem retireUnsubmittedKeys_ok {proofs : AList fun _ : String => KeyClosure}
    (h : retireUnsubmittedKeys ns db snap accountID account proofs = .ok db') :
    ∃ chs, proofs.entries.foldlM (retireKey ns db accountID)
        ((∅ : Changes).insert (accountRef accountID) (.account account)) = .ok chs ∧
      Commit ns db snap db.control snap.records chs db' := by
  simp only [retireUnsubmittedKeys, bind_eq_ok, ensure_eq_ok] at h
  obtain ⟨-, -, c, hf, _, hc, -, -, chs, hchs, hch⟩ := h
  obtain ⟨rfl, -⟩ := fence_ok hf
  exact ⟨chs, hchs, .of_changes hf hc rfl hch⟩

theorem retirePeerSessions_ok {ids : List String}
    (h : retirePeerSessions ns db snap trustID r ids = .ok db') :
    ∃ chs, ids.foldlM (retireSession db r) ∅ = .ok chs ∧
      Commit ns db snap db.control snap.records chs db' := by
  simp only [retirePeerSessions, bind_eq_ok, ensure_eq_ok] at h
  obtain ⟨-, -, -, -, c, hf, _, hc, _, -, chs, hchs, hch⟩ := h
  obtain ⟨rfl, -⟩ := fence_ok hf
  exact ⟨chs, hchs, .of_changes hf hc rfl hch⟩

/-- A result: the attempt had no receipt, its logical id still names it, and both get the state. -/
theorem applyAttemptResult_ok {result : Receipt}
    (h : applyAttemptResult ns db snap id result = .ok db') :
    db' = db ∨ ∃ v b d old logical acc, db.get (outboxRef id) = some v ∧
      v.data.outbox? = some b ∧ b.attempt = some d ∧ b.receipt = none ∧
      (result.state = .accepted ∨ result.state = .rejected ∨ result.state = .aborted) ∧
      db.get (logicalRef d.manifest.logicalID) = some old ∧ old.data.logical? = some logical ∧
      logical.attemptID = id ∧
      establish db snap b result.state (((∅ : Changes).insert (outboxRef id)
        (.outbox { b with receipt := some result, status := .result result.state })).insert
          (logicalRef d.manifest.logicalID)
            (.logical { logical with state := .result result.state })) = .ok acc ∧
      Commit ns db snap db.control acc.1 acc.2 db' := by
  simp only [applyAttemptResult, bind_eq_ok, ensure_eq_ok, found_eq_ok] at h
  obtain ⟨-, hst, c, hf, _, hc, v, hv, b, hb, d, hd, -, -, h⟩ := h
  obtain ⟨rfl, -⟩ := fence_ok hf
  split at h
  · simp only [bind_eq_ok, pure_eq_ok] at h
    obtain ⟨_, -, rfl⟩ := h
    exact .inl rfl
  · rename_i hrc
    simp only [firstResult, bind_eq_ok, ensure_eq_ok, found_eq_ok] at h
    obtain ⟨old, hold, logical, hlog, -, hid, acc, ha, hch⟩ := h
    exact .inr ⟨v, b, d, old, logical, acc, hv, hb, hd, hrc, hst, hold, hlog, hid, ha,
      hf, hc, (establish_ok ha).1, rfl, hch⟩

/-- A note of the attempt with this number: it is known already, or it is added. -/
theorem noteRetired_ok (h : noteRetired ns db snap id = .ok db') :
    db.control.active = true ∧ ∃ v b d seq, db.get (outboxRef id) = some v ∧
      v.data.outbox? = some b ∧ b.attempt = some d ∧
      attemptSequence d.manifest.attemptID = some seq ∧
      (db' = db ∧ db.control.mark.has seq = true ∨ db.control.mark.has seq = false ∧
        Commit ns db snap { db.control with retired := some (db.control.mark.note seq) }
          snap.records ∅
          db') := by
  simp only [noteRetired, bind_eq_ok, ensure_eq_ok, found_eq_ok] at h
  obtain ⟨c, hf, -, -, _, hc, v, hv, b, hb, d, hd, -, -, seq, hseq, -, -, h⟩ := h
  obtain ⟨rfl, hact, -⟩ := fence_ok hf
  refine ⟨hact, v, b, d, seq, hv, hb, hd, hseq, ?_⟩
  split at h
  · rename_i hh
    exact .inl ⟨(pure_eq_ok.mp h).symm, hh⟩
  rename_i hh
  simp only [bind_eq_ok, ensure_eq_ok] at h
  obtain ⟨-, -, hch⟩ := h
  exact .inr ⟨by simpa using hh, .of_changes hf hc rfl hch⟩

variable {reply : Reply}

omit [Codec] in
/-- An operation that returns only a store. -/
theorem done_ok {x : Except Error Db}
    (h : (x.map fun d => (d, Reply.done)) = .ok (db', reply)) : x = .ok db' := by
  obtain ⟨d, hd, heq⟩ := map_eq_ok.mp h
  obtain rfl : d = db' := congrArg Prod.fst heq
  exact hd

omit [Codec] in
/-- An operation that returns a store and something else. -/
theorem pair_ok {α : Type} {f : α → Reply} {x : Except Error (Db × α)}
    (h : (x.map fun r => (r.1, f r.2)) = .ok (db', reply)) :
    ∃ a, x = .ok (db', a) ∧ reply = f a := by
  obtain ⟨⟨d, a⟩, hd, heq⟩ := map_eq_ok.mp h
  cases heq
  exact ⟨a, hd, rfl⟩

/-! ### What a commit establishes -/

section

variable {c : Control} {reads : AList fun _ : Ref => Option Record} {chs : Changes}
  (h : Commit ns db snap c reads chs db')

include h

theorem Commit.live : db.control.active = true :=
  (fence_ok h.fenced).2.1

theorem Commit.active_after : db'.control.active = true := by
  rw [(changes_control h.written).1.active, h.active, h.live]

theorem Commit.snapshot_current {r : Ref} (hr : r ∈ snap.records) :
    snap.revision r = db.revision r := by
  obtain ⟨want, hwn⟩ := Option.isSome_iff_exists.mp (AList.lookup_isSome.mpr hr)
  rw [Snapshot.revision, hwn, cas_ok h.current hwn]
  rfl

/-- A record is left alone or has the next revision. -/
theorem Commit.get_or_next (r : Ref) :
    db'.get r = db.get r ∨ db'.revision r = db.revision r + 1 := by
  have hg := changes_get h.written r
  unfold afterChange at hg
  split at hg
  · exact .inr (by rw [Db.revision, hg, revisionOf])
  · exact .inl hg

end

end

end Noxa.Durable

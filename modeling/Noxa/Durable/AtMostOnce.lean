import Noxa.Durable.Attempts
import Noxa.Durable.Transitions

/-!
# At most one admission of a message

Every call of the store is an `AttemptStep`, so the invariant of the attempts holds in every run
whose sends are attempts. The one thing a step needs to know of earlier ones is that a stored
account transition leads to a later epoch than it starts from: then a promotion leaves all attempts
in earlier epochs, and the numbering can start again.

## Main definitions

* `EpochsRise` — what is known of stored transitions
* `AttemptsOnly` — the runs considered

## Main results

* `step_attempts` — the inversion of a call
* `attempts_at_most_once` — numbering, at most one live attempt, accepted attempts are final
* `accepted_attempt_commits_again` — committing an accepted attempt again succeeds, and only returns
  what is saved
-/

namespace Noxa.Durable

open Fallible Text Directory Admission Machine AList

/-- The send without an attempt, `CommitSend`. -/
def Op.isPlainSend : Op → Bool
  | commitSend _ _ _ _ => true
  | _ => false

/-! ### Account epochs

A stored transition leads to a later epoch than the one it starts from, so a promotion always
raises the epoch. -/

/-- Every stored transition raises the epoch. -/
def EpochsRise (db : Db) : Prop := ∀ id rec t, db.get (transitionRef id) = some rec →
  rec.data.transition? = some t → t.startEpoch < t.reset.newEpoch

theorem TransitionInv.epochsRise {db : Db} (h : TransitionInv db) : EpochsRise db :=
  fun id _ t hrec ht => h.rises id t (hasTransition_of_get hrec ht)

section

variable [Codec] {ns : Namespace} {db db' : Db} {snap : Snapshot} {c : Control}
  {reads : AList fun _ : Ref => Option Record} {chs : Changes}

/-- The authority of a commit, when its control record is the old one but for the counters. -/
theorem Commit.quiet {kinds : List Kind} (hcom : Commit ns db snap c reads chs db')
    (hon : ChangesOnly kinds chs) (hobx : Kind.outbox ∉ kinds) (hlg : Kind.logical ∉ kinds)
    (hep : c.accountEpoch = db.control.accountEpoch)
    (hnx : c.nextAttempt = db.control.nextAttempt) : AttemptStep db db' := by
  obtain ⟨hau, -⟩ := changes_control hcom.written
  refine .quiet (fun r hr => ?_) (hau.accountEpoch.trans hep) (hau.nextAttempt.trans hnx)
  refine hcom.get_of_kind hon ?_
  rcases hr with hr | hr
  · rwa [hr]
  · rwa [hr]

/-! ### Starting and answering an attempt -/

variable {id : String} {d : AttemptDescriptor} {now : Int}

omit [Codec] in
theorem logicalFree_of_check (h : checkLogicalFree (db.get (logicalRef id)) = .ok ⟨⟩) :
    LogicalFree db id := by
  intro l hl
  cases hg : db.get (logicalRef id) with
  | none => simp [HasLogical, hg] at hl
  | some rec =>
    have hdt : rec.data = .logical l := by simpa [HasLogical, hg] using hl
    rw [hg] at h
    simp only [checkLogicalFree, bind_eq_ok, found_eq_ok, ensure_eq_ok] at h
    obtain ⟨l', hl', hfld⟩ := h
    rw [hdt] at hl'
    cases hl'
    exact hfld

variable {packets : List SendCandidate} {start : Control × Changes} {archive : Bytes}

/-- A commit of an attempt starts it. -/
theorem began_of_commit {acc : Changes × List SendCandidate}
    (hu : db.get (outboxRef (attemptID d.manifest)) = none)
    (hau : checkSendAuthority db.control packets (some d) = .ok ⟨⟩)
    (hstr : prepareSend db db.control snap (some d) = .ok start)
    (hlp : packets.foldlM (sendOne db now snap (some d).isSome) (start.2, []) = .ok acc)
    (hcom : Commit ns db snap start.1 snap.records (acc.1.insert (outboxRef (attemptID d.manifest))
        (.outbox ⟨some d, none, acc.2, .pending, archive⟩)) db') : AttemptStep db db' := by
  obtain ⟨hseq, hfe, rfl⟩ := prepareAttempt_ok hstr
  -- the changes to outbox and logical records
  have hne : logicalRef d.manifest.logicalID ≠ outboxRef (attemptID d.manifest) := by
    simp [logicalRef, outboxRef]
  have hlg : (acc.1.insert (outboxRef (attemptID d.manifest))
      (.outbox ⟨some d, none, acc.2, .pending, archive⟩)).lookup (logicalRef d.manifest.logicalID) =
          some (.logical ⟨attemptID d.manifest, .pending⟩) := by
    rw [lookup_insert_ne hne, (sendLoop_adds hlp).other _ (by simp [logicalRef])]
    exact lookup_insert _
  have ho : OthersKept db db' (outboxRef (attemptID d.manifest))
      (logicalRef d.manifest.logicalID) := by
    intro r hr hout hlog
    refine hcom.get_of_lookup_none ?_
    have hses : r.kind ≠ .session := by
      rcases hr with hr | hr <;> simp [hr]
    rw [lookup_insert_ne hout, (sendLoop_adds hlp).other r hses, lookup_insert_ne hlog]
    exact lookup_empty r
  obtain ⟨hsm, -⟩ := changes_control hcom.written
  exact .began ⟨some d, none, acc.2, .pending, archive⟩ d hu
    (logicalFree_of_check hfe) hseq ((checkSendAuthority_ok hau).2.1 d rfl) ⟨rfl, rfl⟩
    ⟨hcom.stored (lookup_insert _), rfl⟩ (hcom.stored hlg) ho hsm.accountEpoch
    hsm.nextAttempt

variable {b : SentBatch}

/-- A commit of a result answers the attempt. -/
theorem resolved_of_commit {v old : Record} {logical : LogicalRecord}
    {result : Receipt} {acc : (AList fun _ : Ref => Option Record) × Changes}
    (hv : db.get (outboxRef id) = some v) (hb : v.data.outbox? = some b) (hd : b.attempt = some d)
    (hrc : b.receipt = none)
    (hf : result.state = .accepted ∨ result.state = .rejected ∨ result.state = .aborted)
    (hold : db.get (logicalRef d.manifest.logicalID) = some old)
    (hlg : old.data.logical? = some logical) (hla : logical.attemptID = id)
    (ha : establish db snap b result.state (((∅ : Changes).insert (outboxRef id)
      (.outbox { b with receipt := some result, status := .result result.state })).insert
        (logicalRef d.manifest.logicalID)
          (.logical { logical with state := .result result.state })) = .ok acc)
    (hcom : Commit ns db snap db.control acc.1 acc.2 db') : AttemptStep db db' := by
  have hdt : v.data = .outbox b := outbox_of_outbox? hb
  have hol : old.data = .logical logical := by
    cases hold : old.data <;> simp_all [Value.logical?]
  have hne : outboxRef id ≠ logicalRef d.manifest.logicalID := by simp [logicalRef, outboxRef]
  have hobx : acc.2.lookup (outboxRef id) =
      some (.outbox { b with receipt := some result, status := .result result.state }) := by
    rw [(establish_ok ha).2.other _ (by simp [outboxRef]), lookup_insert_ne hne]
    exact lookup_insert _
  have hlog' : acc.2.lookup (logicalRef d.manifest.logicalID) =
      some (.logical { logical with state := .result result.state }) := by
    rw [(establish_ok ha).2.other _ (by simp [logicalRef])]
    exact lookup_insert _
  have ho : OthersKept db db' (outboxRef id) (logicalRef d.manifest.logicalID) := by
    intro r hr hout hlog
    refine hcom.get_of_lookup_none ?_
    have hses : r.kind ≠ .session := by
      rcases hr with hr | hr <;> simp [hr]
    rw [(establish_ok ha).2.other r hses, lookup_insert_ne hlog, lookup_insert_ne hout]
    exact lookup_empty r
  obtain ⟨hsm, -⟩ := changes_control hcom.written
  exact .resolved id b d result logical ⟨by simp [hv, hdt], hd⟩ hrc hf
    (by simp [HasLogical, hold, hol]) hla ⟨hcom.stored hobx, hd⟩
    (hcom.stored hlog') ho hsm.accountEpoch hsm.nextAttempt

/-! ### Every operation -/

omit [Codec] in
theorem AttemptStep.of_eq (h : db' = db) : AttemptStep db db' := by
  subst h
  exact .quiet (fun _ _ => rfl) rfl rfl

/-- A promotion: the epoch rises and the numbering starts again. -/
theorem promote_attempts {receipt : ResetReceipt} (hrs : EpochsRise db)
    (h : promoteAccount ns db snap id receipt = .ok db') : AttemptStep db db' := by
  obtain ⟨-, v, t, hv, ht, ⟨-, rfl⟩ | ⟨-, -, hep, hcom⟩⟩ := promoteAccount_ok h
  · exact .of_eq rfl
  have hon : ChangesOnly [.transition] ((∅ : Changes).insert (transitionRef id)
      (.transition { t with receipt := some receipt })) :=
    (ChangesOnly.empty _).insert (by simp [transitionRef]) _
  obtain ⟨hsm, -⟩ := changes_control hcom.written
  refine .promoted (fun r hr => hcom.get_of_kind hon ?_) ?_ hsm.nextAttempt
  · rcases hr with hr | hr <;> simp [hr]
  · rw [hsm.accountEpoch, hep]
    exact hrs id v t hv ht

/-- An attempt: a retry, or a new attempt. -/
theorem commitAttempt_attempts {m : Manifest} {parts : List Bytes} {result : SendResult}
    (h : commitAttempt ns db now snap m parts packets archive = .ok (db', result)) :
    AttemptStep db db' := by
  rcases commitSend_ok (commitAttempt_ok h) with
    ⟨rfl, -⟩ | ⟨start, acc, hu, hau, hstr, hlp, -, hcom⟩
  · exact .of_eq rfl
  · exact began_of_commit (d := ⟨m, parts⟩) hu hau hstr hlp hcom

theorem exec_attempts {op : Op} {reply : Reply} (hp : op.isPlainSend = false)
    (hinv : AttemptInv db) (hrs : EpochsRise db) (h : exec ns db now op = .ok (db', reply)) :
    AttemptStep db db' := by
  -- operations that change no attempt and leave the numbering alone
  have hfrm : (∀ k ∈ [Kind.outbox, .logical], k ∉ op.kinds) →
      (∀ c, op.Controls db.control c → c.accountEpoch = db.control.accountEpoch ∧
        c.nextAttempt = db.control.nextAttempt) →
      (∀ fence, op ≠ .logout fence) → AttemptStep db db' := by
    intro hkd hctl hlo
    rcases exec_frame h with rfl | ⟨snap, c, reads, chs, -, hcom, hon, hc⟩ | ⟨fence, hop, -⟩
    · exact .of_eq rfl
    · obtain ⟨hep, hnx⟩ := hctl c hc
      exact hcom.quiet hon (hkd _ (by simp)) (hkd _ (by simp)) hep hnx
    · exact absurd hop (hlo fence)
  cases op with
  | noteRetired =>
    refine hfrm (by simp [Op.kinds]) (fun c hc => ?_) (by simp)
    obtain ⟨seq, rfl⟩ := hc
    exact ⟨rfl, rfl⟩
  | commitSend => simp [Op.isPlainSend] at hp
  | commitAttempt =>
    obtain ⟨result, hd, -⟩ := pair_ok h
    exact commitAttempt_attempts hd
  | ack snap id =>
    rcases ack_ok (done_ok h) with rfl | ⟨v, b, hv, hb, hatt, -⟩
    · exact .of_eq rfl
    -- every outbox record is an attempt, and `ack` refuses those
    obtain ⟨b', d, hbd, hd⟩ := hinv.isAttempt id v hv
    rw [hv, Option.map_some, outbox_of_outbox? hb] at hbd
    obtain rfl := Value.outbox.inj (Option.some.inj hbd)
    exact absurd (hatt.symm.trans hd) (by simp)
  | logout =>
    obtain ⟨f, rfl⟩ := logout_ok (done_ok h)
    exact .closed (fun r => rfl) rfl rfl
  | promoteAccount => exact promote_attempts hrs (done_ok h)
  | applyAttemptResult =>
    rcases applyAttemptResult_ok (done_ok h) with rfl | ⟨v, b, d, old, logical, acc, hv, hb, hd,
      hrc, hf, hold, hlg, hla, ha, hcom⟩
    · exact .of_eq rfl
    · exact resolved_of_commit hv hb hd hrc hf hold hlg hla ha hcom
  | _ =>
    refine hfrm (by simp [Op.kinds]) (fun c hc => ?_) (by simp)
    obtain rfl := hc
    exact ⟨rfl, rfl⟩

/-- **Inversion of a call**, for the attempts. -/
theorem step_attempts {call : Call} (hp : call.op.isPlainSend = false) (hinv : AttemptInv db)
    (htr : TransitionInv db) :
    AttemptStep db (step ns db call).1 ∧ TransitionInv (step ns db call).1 := by
  refine ⟨?_, (step_transitions ns db call).inv htr⟩
  rcases step_exec ns db call with ⟨hsm, -⟩ | ⟨reply, -, hxc⟩
  · exact .of_eq hsm
  · exact exec_attempts hp hinv htr.epochsRise hxc

/-! ### Runs -/

/-- All sends of the run are attempts. -/
def AttemptsOnly (calls : List Call) : Prop := ∀ call ∈ calls, call.op.isPlainSend = false

variable {calls : List Call}

theorem run_attempts (hinv : AttemptInv db) (htr : TransitionInv db) (hcls : AttemptsOnly calls) :
    AttemptInv (run (step ns) db calls) ∧ TransitionInv (run (step ns) db calls) :=
  run_invariant_of (P := fun db => AttemptInv db ∧ TransitionInv db)
    (Q := fun call : Call => call.op.isPlainSend = false)
    (fun _ _ hp hs =>
      have hstp := step_attempts hp hs.1 hs.2
      ⟨hstp.1.inv hs.1, hstp.2⟩) ⟨hinv, htr⟩ hcls

/-- An answered attempt is as it was after any run that leaves the store open. By induction on the
run: the store was open all along. -/
theorem run_keeps_answered (hinv : AttemptInv db) (htr : TransitionInv db)
    (hcls : AttemptsOnly calls) (hbd : HasAttempt db id b d)
    (hrc : b.receipt ≠ none) (hact : (run (step ns) db calls).control.active = true) :
    HasAttempt (run (step ns) db calls) id b d := by
  induction calls generalizing db with
  | nil => exact hbd
  | cons call calls ih =>
    obtain ⟨hstp, htr'⟩ : AttemptStep db (step ns db call).1 ∧ TransitionInv (step ns db call).1 :=
      step_attempts (hcls call List.mem_cons_self) hinv htr
    rw [run_cons] at hact ⊢
    have hope := ((versioned ns).run_open hact).1
    exact ih (hstp.inv hinv) htr' (fun c hc => hcls c (List.mem_cons_of_mem _ hc))
      (hstp.keeps_answered hbd hrc hope) hact

/-- A call for an attempt answers from the outbox, or finds the logical id free in an open store. -/
theorem commitAttempt_cases (db : Db) (snap : Snapshot) (m : Manifest) (parts : List Bytes)
    (packets : List SendCandidate) (archive : Bytes) (now : Int) (faulty : Bool) :
    ((step ns db ⟨.commitAttempt snap m parts packets archive, now, faulty⟩).1 = db ∧
      ∀ reply, (step ns db ⟨.commitAttempt snap m parts packets archive, now, faulty⟩).2 =
        .ok reply → ∃ rec batch, db.get (outboxRef (attemptID m)) = some rec ∧
          rec.data.outbox? = some batch ∧ reply = .sent ⟨batch, true⟩) ∨
      (db.control.active = true ∧ LogicalFree db m.logicalID) := by
  cases hsd : commitAttempt ns db now snap m parts packets archive with
  | error => exact .inl (by simp [step, exec, hsd, Except.map])
  | ok r =>
    obtain ⟨db', result⟩ := r
    rcases commitSend_ok (commitAttempt_ok hsd) with
      ⟨rfl, hrus, ⟨rec, hrec, hsav⟩, -⟩ | ⟨start, acc, -, -, hstr, -, -, hcom⟩
    · have hres : result = ⟨result.data, true⟩ := by rw [← hrus]
      left
      cases faulty with
      | true => simp [step, exec, hsd, Except.map]
      | false =>
        refine ⟨by simp [step, exec, hsd, Except.map], fun reply hrpl => ?_⟩
        simp only [step, exec, hsd, Except.map] at hrpl
        exact ⟨rec, result.data, hrec, hsav, hres ▸ (Except.ok.inj hrpl).symm⟩
    · exact .inr ⟨hcom.live, logicalFree_of_check (prepareAttempt_ok hstr).2.1⟩

/-- **At most one admission.** In a run whose sends are attempts: the attempts of the current epoch
are numbered from one to the last; a logical id has at most one attempt that is open or accepted;
an accepted attempt stays as it is as long as the store is open, and a later call for its logical
id changes nothing and at most returns the batch saved for its own attempt; a new attempt is written
only when the earlier ones of its logical id have failed. -/
theorem attempts_at_most_once (ns : Namespace) (calls : List Call) (hcls : AttemptsOnly calls) :
    let db := run (step ns) Db.fresh calls
    (∀ id, (∃ b d, HasAttempt db id b d ∧ d.manifest.accountEpoch = db.control.accountEpoch) ↔
      ∃ n : Int, 1 ≤ n ∧ n ≤ db.control.nextAttempt ∧
        id = numbered db.control.accountEpoch (toString n)) ∧
    (∀ i j b b' d d', HasAttempt db i b d → HasAttempt db j b' d' →
      d.manifest.logicalID = d'.manifest.logicalID → b.status.Live → b'.status.Live → i = j) ∧
    (∀ id b d, HasAttempt db id b d → b.status = .result .accepted → ∀ later, AttemptsOnly later →
      let db' := run (step ns) db later
      (db'.control.active = true → HasAttempt db' id b d) ∧
      ∀ snap m parts packets archive now faulty, m.logicalID = d.manifest.logicalID →
        (step ns db' ⟨.commitAttempt snap m parts packets archive, now, faulty⟩).1 = db' ∧
        ∀ reply, (step ns db' ⟨.commitAttempt snap m parts packets archive, now, faulty⟩).2 =
          .ok reply → ∃ rec batch, db'.get (outboxRef (attemptID m)) = some rec ∧
            rec.data.outbox? = some batch ∧ reply = .sent ⟨batch, true⟩) ∧
    (∀ snap m parts packets archive now faulty,
      (step ns db ⟨.commitAttempt snap m parts packets archive, now, faulty⟩).1 ≠ db →
      ∀ id b d, HasAttempt db id b d → d.manifest.logicalID = m.logicalID → b.status.Failed) := by
  intro db
  obtain ⟨hinv, htr⟩ : AttemptInv db ∧ TransitionInv db :=
    run_attempts attemptInv_fresh transitionInv_fresh hcls
  refine ⟨fun id => ⟨?_, ?_⟩, ?_, ?_, ?_⟩
  · rintro ⟨b, d, hbd, hep⟩
    obtain ⟨n, hn, hle⟩ := hinv.sequence id b d hbd
    obtain ⟨hnm, hpos, -⟩ := attemptSequence_some hn
    refine ⟨n, hpos, hle hep, ?_⟩
    rw [hinv.named id b d hbd, attemptID, hep, hnm]
  · rintro ⟨n, hlow, hhi, rfl⟩
    obtain ⟨b, d, hbd⟩ := hinv.complete n hlow hhi
    exact ⟨b, d, hbd, (numbered_injective (hinv.named _ b d hbd)).1.symm⟩
  · intro i j b b' d d' hi hj hsm hb hb'
    exact hinv.live_unique hi hj hsm hb hb'
  · intro id b d hbd hac later hlat db'
    have hrc : b.receipt ≠ none := by
      rcases hinv.status id b d hbd with ⟨-, hpe⟩ | ⟨r, hr, -⟩
      · rw [hpe] at hac
        simp at hac
      · simp [hr]
    have hkps : db'.control.active = true → HasAttempt db' id b d :=
      run_keeps_answered hinv htr hlat hbd hrc
    refine ⟨hkps, fun snap m parts packets archive now faulty hm => ?_⟩
    rcases commitAttempt_cases db' snap m parts packets archive now faulty with
      hsm | ⟨hact, hfe⟩
    · exact hsm
    -- the accepted attempt is still there, so its logical id is not free
    have hinv' : AttemptInv db' := (run_attempts hinv htr hlat).1
    have hfld := hinv'.failed_of_free (hkps hact) (hm ▸ hfe)
    exact absurd hfld (Status.Live.not_failed (.inr hac))
  · intro snap m parts packets archive now faulty hne id b d hbd hm
    rcases commitAttempt_cases db snap m parts packets archive now faulty with
      ⟨hsm, -⟩ | ⟨-, hfe⟩
    · exact absurd hsm hne
    · exact hinv.failed_of_free hbd (hm ▸ hfe)

end

/-! ### A run

A device that has no other device to reach sends a note, and the server accepts it. -/

def zeroDigest : String := "0000000000000000000000000000000000000000000000000000000000000000"

def noteDevice : Namespace := ⟨"tls-sha256:" ++ zeroDigest, "alice", "phone"⟩

/-- The manifest of an attempt for the note: its only target is the device itself. -/
def noteManifest (attempt : String) : Manifest where
  version := admissionVersion
  server := noteDevice.server
  sender := "alice"
  device := "phone"
  accountEpoch := 1
  attemptID := attempt
  logicalID := "note"
  purpose := .chat
  scope := .direct
  peer := "bob"
  deadline := 1
  rosters := [⟨"alice", 1⟩, ⟨"bob", 1⟩]
  targets := [⟨"alice", "phone", 1, "key", true⟩]
  parts := [⟨zeroDigest, 2⟩]

/-- The records of the note as the device reads them. -/
def noteSnapshot (db : Db) : Snapshot :=
  let := Codec.plain
  (read noteDevice db [logicalRef "note", outboxRef "1:1"]).toOption.getD ⟨noteDevice, 0, ∅⟩

/-- Send the note; its part is the text of an empty list. -/
def sendNote (db : Db) (attempt : String) : Call :=
  ⟨.commitAttempt (noteSnapshot db) (noteManifest attempt) [[91, 93]] [] [1], 0, false⟩

def noteReceipt : Receipt :=
  { state := .accepted, attemptID := "1", digest := zeroDigest, server := noteDevice.server
    accountEpoch := 1, logicalID := "note", messageID := "m" }

def acceptNote (db : Db) : Call :=
  ⟨.applyAttemptResult (noteSnapshot db) "1:1" noteReceipt, 0, false⟩

/-- The calls of the run: the note is sent and accepted. -/
def noteCalls : List Call :=
  let := Codec.plain
  let sent := (step noteDevice Db.fresh (sendNote Db.fresh "1")).1
  [sendNote Db.fresh "1", acceptNote sent]

/-- The attempt of the note after the run. -/
def acceptedNote : SentBatch where
  attempt := some ⟨noteManifest "1", [[91, 93]]⟩
  receipt := some noteReceipt
  packets := []
  status := .result .accepted
  archive := [1]

theorem noteCalls_attemptsOnly : AttemptsOnly noteCalls := by
  intro call hca
  simp only [noteCalls, List.mem_cons, List.not_mem_nil, or_false] at hca
  rcases hca with rfl | rfl <;> rfl

theorem hasAttempt_acceptedNote :
    let := Codec.plain
    HasAttempt (run (step noteDevice) Db.fresh noteCalls) "1:1" acceptedNote
      ⟨noteManifest "1", [[91, 93]]⟩ :=
  ⟨by decide +kernel, rfl⟩

/-- After the note is accepted another attempt for it is not written. -/
theorem attempts_at_most_once_note :
    let := Codec.plain
    let db := run (step noteDevice) Db.fresh noteCalls
    AttemptsOnly noteCalls ∧ db.control.nextAttempt = 1 ∧ (∀ id, (∃ b d, HasAttempt db id b d ∧
        d.manifest.accountEpoch = db.control.accountEpoch) ↔
          ∃ n : Int, 1 ≤ n ∧ n ≤ db.control.nextAttempt ∧
            id = numbered db.control.accountEpoch (toString n)) ∧
      (step noteDevice db (sendNote db "2")).1 = db := by
  intro _ db
  have hnx : db.control.nextAttempt = 1 := by decide +kernel
  have hatt : HasAttempt db "1:1" acceptedNote ⟨noteManifest "1", [[91, 93]]⟩ :=
    hasAttempt_acceptedNote
  have hmn := attempts_at_most_once noteDevice noteCalls noteCalls_attemptsOnly
  have hdb : db = run (step noteDevice) Db.fresh noteCalls := rfl
  -- from here on the store is not evaluated
  clear_value db
  rw [← hdb] at hmn
  obtain ⟨hnum, -, hf, -⟩ := hmn
  obtain ⟨-, hlat⟩ := hf "1:1" acceptedNote _ hatt rfl [] (by simp [AttemptsOnly])
  exact ⟨noteCalls_attemptsOnly, hnx, hnum,
    (hlat (noteSnapshot db) (noteManifest "2") [[91, 93]] [] [1] 0 false rfl).1⟩

/-- The attempt of an accepted message can be committed again: the store returns the saved batch
and reports success. -/
theorem accepted_attempt_commits_again :
    let := Codec.plain
    let db := run (step noteDevice) Db.fresh noteCalls
    AttemptsOnly noteCalls ∧ HasAttempt db "1:1" acceptedNote ⟨noteManifest "1", [[91, 93]]⟩ ∧
      acceptedNote.status = .result .accepted ∧
      (step noteDevice db (sendNote db "1")).2.isOk = true :=
  ⟨noteCalls_attemptsOnly, hasAttempt_acceptedNote, rfl, by decide +kernel⟩

end Noxa.Durable

import Noxa.Durable.Frame
import Noxa.Lib.Versioned

/-!
# No fork and no rewind of a ratchet

A ratchet state must be used once. The store guards it with revisions: a commit names the revision
it is based on, and the store raises the revision with every write. Here the calls of the store are
shown to be a versioned store in the sense of `Noxa.Lib.Versioned`, which is open as long as it is
active; a logout closes it for good. What is claimed of snapshots, sessions and logouts follows for
every run, by any number of clients with snapshots of any age.

## Main definitions

* `Writes` — a call leaves a new version of a record
* `LogsOut`, `WrittenIn` — a run has such a call

## Main results

* `versioned` — the store is a versioned store
* `no_fork_no_rewind` — two writes of a record are never based on the same revision, and a snapshot
  that is behind never commits
-/

namespace Noxa.Durable

open Fallible Machine

section

variable [Codec]

/-- The call writes the record: afterwards it exists and is not what it was. -/
def Writes (ns : Namespace) (db : Db) (call : Call) (r : Ref) : Prop :=
  (step ns db call).1.get r ≠ db.get r ∧ (step ns db call).1.get r ≠ none

instance (ns : Namespace) (db : Db) (call : Call) (r : Ref) : Decidable (Writes ns db call r) :=
  inferInstanceAs (Decidable (_ ∧ _))

/-- Some call of the run is a logout that succeeds. -/
def LogsOut (ns : Namespace) (db : Db) (calls : List Call) : Prop :=
  ∃ before fence now faulty after reply,
    calls = before ++ ⟨.logout fence, now, faulty⟩ :: after ∧
      (step ns (run (step ns) db before) ⟨.logout fence, now, faulty⟩).2 = .ok reply

/-- Some call of the run writes the record. -/
def WrittenIn (ns : Namespace) (db : Db) (calls : List Call) (r : Ref) : Prop :=
  ∃ before call after, calls = before ++ call :: after ∧ Writes ns (run (step ns) db before) call r

variable {ns : Namespace} {db : Db} {call : Call}

/-! ### One call -/

theorem step_error {e : Error} (h : (step ns db call).2 = .error e) : (step ns db call).1 = db := by
  unfold step at h ⊢
  split
  · rfl
  split
  · rfl
  · rename_i hxc hfty
    simp [hxc, hfty] at h

/-- **Inversion of a call.** -/
theorem step_cases (ns : Namespace) (db : Db) (call : Call) : (step ns db call).1 = db ∨
      (∃ snap, call.op.snapshot = some snap ∧ Commits ns db snap (step ns db call).1) ∨
      ∃ fence, call.op = .logout fence ∧ (step ns db call).1.records = ∅ ∧
        (step ns db call).1.control.active = false := by
  rcases step_frame ns db call with hsm | ⟨snap, c, reads, chs, hsna, hc, -⟩ | ⟨fence, hop, ho⟩
  · exact .inl hsm
  · exact .inr (.inl ⟨snap, hsna, c, reads, chs, hc⟩)
  · obtain ⟨f, heq⟩ := logout_ok ho
    exact .inr (.inr ⟨fence, hop, by rw [heq], by rw [heq]⟩)

/-- A call that changes the store and keeps it open is a commit. -/
theorem commits_of_active (h : (step ns db call).1.control.active = true)
    (hne : (step ns db call).1 ≠ db) :
    ∃ snap, call.op.snapshot = some snap ∧ Commits ns db snap (step ns db call).1 := by
  rcases step_cases ns db call with hsm | hc | ⟨_, -, -, hina⟩
  · exact absurd hsm hne
  · exact hc
  · rw [hina] at h
    exact absurd h (by decide)

variable {r : Ref} {snap : Snapshot} {refs : List Ref}

/-- A call that writes a record is a commit: a logout leaves no record. -/
theorem commits_of_writes (h : Writes ns db call r) :
    ∃ snap, call.op.snapshot = some snap ∧ Commits ns db snap (step ns db call).1 := by
  rcases step_cases ns db call with hsm | hc | ⟨_, -, hemp, -⟩
  · exact absurd (by rw [hsm]) h.1
  · exact hc
  · exact absurd (by rw [Db.get, hemp]; rfl) h.2

theorem revision_of_writes (h : Writes ns db call r) :
    (step ns db call).1.revision r = db.revision r + 1 := by
  obtain ⟨snap, -, c, reads, chs, hc⟩ := commits_of_writes h
  exact (hc.get_or_next r).resolve_left h.1

theorem active_of_writes (h : Writes ns db call r) : db.control.active = true := by
  obtain ⟨snap, -, c, reads, chs, hc⟩ := commits_of_writes h
  exact hc.live

/-- A snapshot with which a call changes the store is current in all its records. -/
theorem snapshot_current (hsna : call.op.snapshot = some snap) (hne : (step ns db call).1 ≠ db)
    (hr : r ∈ snap.records) : db.control.active = true ∧ snap.revision r = db.revision r := by
  rcases step_cases ns db call with hsm | ⟨snap', hsna', c, reads, chs, hc⟩ | ⟨fence, hop, -⟩
  · exact absurd hsm hne
  · obtain rfl : snap' = snap := Option.some.inj (hsna'.symm.trans hsna)
    exact ⟨hc.live, hc.snapshot_current hr⟩
  · rw [hop] at hsna
    simp [Op.snapshot] at hsna

/-! ### Runs -/

theorem versioned (ns : Namespace) :
    Versioned (step ns) (fun db => db.control.active = true) Db.revision where
  live_of_live db call h := by
    by_cases hsm : (step ns db call).1 = db
    · rwa [hsm] at h
    · obtain ⟨snap, -, c, reads, chs, hc⟩ := commits_of_active h hsm
      exact hc.live
  version_le db call h r := by
    by_cases hsm : (step ns db call).1 = db
    · rw [hsm]
    obtain ⟨snap, -, c, reads, chs, hc⟩ := commits_of_active h hsm
    rcases hc.get_or_next r with hget | hnx
    · rw [Db.revision, Db.revision, hget]
    · omega

/-- A snapshot has the records of the moment at which it was read. -/
theorem read_get (h : read ns db refs = .ok snap) {rec : Option Record}
    (hr : snap.records.lookup r = some rec) : rec = db.get r := by
  simp only [read, bind_eq_ok, pure_eq_ok] at h
  obtain ⟨_, -, c, -, _, -, acc, hlp, rfl⟩ := h
  refine foldlM_ok_invariant (P := fun acc : ℕ × AList fun _ : Ref => Option Record => ∀ r rec,
      acc.2.lookup r = some rec → rec = db.get r) hlp ?_
        (fun r rec hr => absurd hr (by simp)) r rec hr
  intro r₀ _ s s' hs hrnd r rec hr
  simp only [readOne, bind_eq_ok, pure_eq_ok] at hrnd
  obtain ⟨_, -, _, -, rfl⟩ := hrnd
  by_cases heq : r = r₀
  · subst heq
    rw [AList.lookup_insert] at hr
    exact (Option.some.inj hr).symm
  · rw [AList.lookup_insert_ne heq] at hr
    exact hs r rec hr

theorem read_revision (h : read ns db refs = .ok snap) (hr : r ∈ snap.records) :
    snap.revision r = db.revision r := by
  obtain ⟨rec, hrec⟩ := Option.isSome_iff_exists.mp (AList.lookup_isSome.mpr hr)
  rw [Snapshot.revision, hrec, read_get h hrec]
  rfl

theorem read_of_reply {now : Int} {faulty : Bool}
    (h : (step ns db ⟨.read refs, now, faulty⟩).2 = .ok (.snapshot snap)) :
    read ns db refs = .ok snap := by
  cases hrd : read ns db refs with
  | error => simp [step, exec, hrd, Except.map] at h
  | ok =>
    cases faulty <;> simp [step, exec, hrd, Except.map] at h
    rw [h]

/-- After a logout the store is closed. -/
theorem closed_of_logsOut {calls : List Call} (h : LogsOut ns db calls) :
    (run (step ns) db calls).control.active ≠ true := by
  obtain ⟨before, fence, now, faulty, after, reply, rfl, hrpl⟩ := h
  rw [run_append, run_cons]
  refine (versioned ns).run_closed ?_ after
  cases ho : logout (run (step ns) db before) fence with
  | error => simp [step, exec, ho, Except.map] at hrpl
  | ok =>
    cases faulty <;> simp [step, exec, ho, Except.map] at hrpl ⊢
    obtain ⟨f, rfl⟩ := logout_ok ho
    rfl

/-- After a write the old revision is passed, as long as the store is open. -/
theorem revision_lt_of_writtenIn {calls : List Call} (h : WrittenIn ns db calls r)
    (hlv : (run (step ns) db calls).control.active = true) :
    db.revision r < (run (step ns) db calls).revision r := by
  obtain ⟨before, call, after, rfl, hwr⟩ := h
  rw [run_append, run_cons] at hlv ⊢
  have hrsd : (run (step ns) db before).revision r <
      (step ns (run (step ns) db before) call).1.revision r := by
    rw [revision_of_writes hwr]
    exact Nat.lt_succ_self _
  calc db.revision r ≤ (run (step ns) db before).revision r :=
        ((versioned ns).run_open (active_of_writes hwr)).2 r
    _ < _ := (versioned ns).lt_of_advance hrsd hlv

/-- **No fork and no rewind.** From any state of the store: a write raises the revision by one; of
two writes of one record in a run the later has the larger base; a snapshot that changes the store
is current in all its records; a snapshot read before a logout, or before a write of one of its
records, changes nothing afterwards; and a call that fails leaves the store as it was. -/
theorem no_fork_no_rewind (ns : Namespace) (db : Db) :
    (∀ call r, Writes ns db call r → (step ns db call).1.revision r = db.revision r + 1) ∧
    (∀ first calls second r, Writes ns db first r →
      Writes ns (run (step ns) (step ns db first).1 calls) second r →
      db.revision r < (run (step ns) (step ns db first).1 calls).revision r) ∧
    (∀ call snap, call.op.snapshot = some snap → (step ns db call).1 ≠ db →
      ∀ r ∈ snap.records, snap.revision r = db.revision r) ∧ (∀ refs now faulty snap,
      (step ns db ⟨.read refs, now, faulty⟩).2 = .ok (.snapshot snap) →
      ∀ calls call, call.op.snapshot = some snap →
      (LogsOut ns db calls ∨ ∃ r ∈ snap.records, WrittenIn ns db calls r) →
      (step ns (run (step ns) db calls) call).1 = run (step ns) db calls) ∧
    (∀ call e, (step ns db call).2 = .error e → (step ns db call).1 = db) := by
  refine ⟨fun call r => revision_of_writes, ?_, ?_, ?_, fun call e => step_error⟩
  · intro first calls second r hf hsec
    have hrsd : db.revision r < (step ns db first).1.revision r := by
      rw [revision_of_writes hf]
      exact Nat.lt_succ_self _
    exact (versioned ns).lt_of_advance hrsd (active_of_writes hsec)
  · intro call snap hsna hne r hr
    exact (snapshot_current hsna hne hr).2
  · intro refs now faulty snap hrd calls call hsna hb
    by_contra hne
    rcases hb with ho | ⟨r, hr, hwrn⟩
    · rcases step_cases ns (run (step ns) db calls) call with
        hsm | ⟨_, -, c, reads, chs, hc⟩ | ⟨fence, hop, -⟩
      · exact hne hsm
      · exact closed_of_logsOut ho hc.live
      · rw [hop] at hsna
        simp [Op.snapshot] at hsna
    · obtain ⟨hlv, hcur⟩ := snapshot_current hsna hne hr
      have hlt := revision_lt_of_writtenIn hwrn hlv
      rw [← hcur, read_revision (read_of_reply hrd) hr] at hlt
      exact absurd hlt (Nat.lt_irrefl _)

end

/-! ### A run

A device trusts a peer and receives two messages in one session. -/

/-- Encodings that tell nothing apart: every part of a message is empty. -/
@[reducible] def Codec.plain : Codec where
  digest _ := "0000000000000000000000000000000000000000000000000000000000000000"
  agrees _ := false
  signingPoint _ := false
  manifestBytes _ := []
  pairText _ _ := ""
  decodeCopies _ := some []
  decodeEnvelope _ := none
  jsonValid _ := false
  encodedSize _ := 1
  bundleBytes _ := []
  resetBytes _ := []
  closureBytes _ := []

def homeDevice : Namespace := ⟨"server", "alice", "phone"⟩

def peerContext : SessionContext :=
  ⟨"local", 1, 1, "bob", "laptop", "key", devicePairScope, "noxa-olm-v1"⟩

/-- Any records as a client reads them. -/
def snapshotOf (refs : List Ref) (db : Db) : Snapshot :=
  let := Codec.plain
  (read homeDevice db refs).toOption.getD ⟨homeDevice, 0, ∅⟩

/-- The peer and the session. -/
def takeSnapshot (db : Db) : Snapshot := snapshotOf [trustRef "bob", sessionRecord "olm:1"] db

theorem read_snapshotOf {refs : List Ref} {db : Db}
    (h : letI := Codec.plain; (read homeDevice db refs).isOk = true) :
    letI := Codec.plain; read homeDevice db refs = .ok (snapshotOf refs db) := by
  obtain ⟨snap, hsna⟩ := exists_ok h
  rw [snapshotOf, hsna]
  rfl

def trustPeer : Call := ⟨.setTrust (takeSnapshot Db.fresh) "bob" [1] false, 0, false⟩

def receiveCall (snap : Snapshot) (id : String) (state : UInt8) : Call :=
  ⟨.commitReceive snap id
    { sessionID := "olm:1", trustID := "bob", session := [state], archive := [1], envelope := [1]
      context := peerContext }, 0, false⟩

/-- The second message is based on the session as the first one left it. The snapshot from before
the first message is refused afterwards, and so it is after a logout. -/
theorem no_fork_no_rewind_two_messages :
    let := Codec.plain
    let db := run (step homeDevice) Db.fresh [trustPeer]
    let first := receiveCall (takeSnapshot db) "m1" 1
    let db₁ := (step homeDevice db first).1
    let second := receiveCall (takeSnapshot db₁) "m2" 2
    let stale := receiveCall (takeSnapshot db) "m2" 2
    let logout : Call := ⟨.logout 1, 0, false⟩
    let r := sessionRecord "olm:1"
    Writes homeDevice db first r ∧ Writes homeDevice db₁ second r ∧
      db.revision r < db₁.revision r ∧ (step homeDevice db₁ stale).1 = db₁ ∧
      (step homeDevice (step homeDevice db logout).1 first).1 = (step homeDevice db logout).1 := by
  intro _ db first db₁ second stale logout r
  have hf : Writes homeDevice db first r := by decide +kernel
  have hsec : Writes homeDevice db₁ second r := by decide +kernel
  have hrd : (step homeDevice db ⟨.read [trustRef "bob", r], 0, false⟩).2 =
      .ok (.snapshot (takeSnapshot db)) := by
    have hok : (read homeDevice db [trustRef "bob", r]).isOk = true := by decide +kernel
    rw [step, exec, read_snapshotOf hok]
    rfl
  have hmem : r ∈ (takeSnapshot db).records := by decide +kernel
  obtain ⟨-, hbs, -, hb, -⟩ := no_fork_no_rewind homeDevice db
  exact ⟨hf, hsec, hbs first [] second r hf hsec,
    hb _ _ _ _ hrd [first] stale rfl (.inr ⟨r, hmem, [], first, [], rfl, hf⟩),
    hb _ _ _ _ hrd [logout] first rfl (.inl ⟨[], 1, 0, false, [], .done, rfl, rfl⟩)⟩

end Noxa.Durable

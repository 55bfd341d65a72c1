import Noxa.Durable.Types

/-!
# Transactions of the durable store

Every operation runs in one transaction: it checks the fence, compares the revisions of its snapshot
with the current ones and hands a set of changes to `changes`, the only function that writes. An
error anywhere discards the transaction, so an operation is a function to `Except` and what it
wrote before an error does not exist.

A set of changes is a table, and the source goes over it in no particular order. Whether `changes`
succeeds and what it writes do not depend on the order; which of several errors it reports does.

## Main definitions

* `fence`, `cas`, `changes` — the steps of a transaction

## Main results

* `changes_get` — what `changes` writes: a changed record has the next revision
* `changes_control` — `changes` counts, and leaves the rest of the control record to its caller
-/

namespace Noxa.Durable

open Fallible List

abbrev Changes := AList fun _ : Ref => Value

def control (db : Db) : Except Error Control := do
  ensure (db.control.fence ≠ 0 ∧ db.control.fence ≤ maxRevision ∧ 0 ≤ db.control.count ∧
    0 ≤ db.control.bytes) .corrupt
  pure db.control

def fence (ns : Namespace) (db : Db) (snap : Snapshot) : Except Error Control := do
  ensure (snap.ns = ns) .invalid
  let c ← control db
  ensure (c.active = true ∧ c.fence = snap.fence) .fenced
  pure c

/-- One comparison of `cas`. -/
def casOne (db : Db) (entry : Sigma fun _ : Ref => Option Record) : Except Error Unit := do
  ensure (validRef entry.1) .invalid
  ensure (db.revision entry.1 = revisionOf entry.2) .conflict

def cas (db : Db) (snap : Snapshot) : Except Error Unit := do
  ensure (snap.records.entries.length ≤ maxReads) .exhausted
  snap.records.entries.forM (casOne db)

theorem control_ok {db : Db} {c : Control} (h : control db = .ok c) : c = db.control := by
  simp only [control, bind_eq_ok, ensure_eq_ok, pure_eq_ok] at h
  obtain ⟨-, -, rfl⟩ := h
  rfl

variable {snap : Snapshot}

theorem fence_ok {ns : Namespace} {db : Db} {c : Control} (h : fence ns db snap = .ok c) :
    c = db.control ∧ db.control.active = true ∧ db.control.fence = snap.fence := by
  simp only [fence, bind_eq_ok, ensure_eq_ok, pure_eq_ok] at h
  obtain ⟨-, -, c, hc, -, hact, rfl⟩ := h
  obtain rfl := control_ok hc
  exact ⟨rfl, hact⟩

theorem cas_ok {db : Db} {u : Unit} (h : cas db snap = .ok u) {r : Ref}
    {want : Option Record} (hr : snap.records.lookup r = some want) :
    db.revision r = revisionOf want := by
  simp only [cas, bind_eq_ok, ensure_eq_ok] at h
  obtain ⟨-, -, hall⟩ := h
  have hmem : (⟨r, want⟩ : Sigma fun _ : Ref => Option Record) ∈ snap.records.entries :=
    AList.mem_lookup_iff.mp hr
  have hone := forM_ok hall hmem
  simp only [casOne, bind_eq_ok, ensure_eq_ok] at hone
  obtain ⟨-, -, hrev⟩ := hone
  exact hrev

/-- The parts of the control record that `changes` leaves to its caller. -/
structure SameAuthority (c c' : Control) : Prop where
  fence : c'.fence = c.fence
  active : c'.active = c.active
  accountID : c'.accountID = c.accountID
  accountEpoch : c'.accountEpoch = c.accountEpoch
  sendingBlocked : c'.sendingBlocked = c.sendingBlocked
  nextAttempt : c'.nextAttempt = c.nextAttempt
  retired : c'.retired = c.retired

theorem SameAuthority.refl (c : Control) : SameAuthority c c := ⟨rfl, rfl, rfl, rfl, rfl, rfl, rfl⟩

theorem SameAuthority.trans {a b c : Control} (h : SameAuthority a b) (k : SameAuthority b c) :
    SameAuthority a c :=
  ⟨k.fence.trans h.fence, k.active.trans h.active, k.accountID.trans h.accountID,
    k.accountEpoch.trans h.accountEpoch, k.sendingBlocked.trans h.sendingBlocked,
    k.nextAttempt.trans h.nextAttempt, k.retired.trans h.retired⟩

/-! ### Writing -/

/-- The state of the loop of `changes`. -/
structure Batch where
  db : Db
  control : Control
  total : ℕ

def open? (o : OTKObligation) : Bool := !o.consumed && !o.closed

/-- The number of outstanding one-time keys after a change of an obligation. -/
def outstandingAfter (n : Int) (old : Option OTKObligation) (new : OTKObligation) : Int :=
  match old with
  | none => if open? new then n + 1 else n
  | some before => if open? before ∧ ¬ open? new then n - 1 else n

/-- The count of outstanding one-time keys after one change. -/
def countObligation (n : Int) (r : Ref) (old : Option Record) (v : Value) : Except Error Int :=
  if r.kind ≠ .obligation then .ok n
  else do
    let after ← found v.obligation? .invalid
    match old with
    | none => pure (outstandingAfter n none after)
    | some rec => do
      let before ← found rec.data.obligation? .corrupt
      pure (outstandingAfter n (some before) after)

variable [Codec]

/-- The length of the data of a record that may be absent. -/
def sizeOf : Option Record → ℕ
  | none => 0
  | some r => r.data.size

def recordLimit (r : Ref) : ℕ := if r.kind = .outbox then 24 * 1024 * 1024 else maxRecordBytes

/-- One round of the loop of `changes`. -/
def writeOne (snap : Snapshot) (b : Batch) (entry : Sigma fun _ : Ref => Value) :
    Except Error Batch := do
  ensure (validRef entry.1 ∧ entry.2.size ≠ 0) .invalid
  ensure (entry.2.size ≤ recordLimit entry.1) .exhausted
  ensure (b.total + entry.2.size ≤ maxBatchBytes) .exhausted
  let outstanding ← countObligation b.control.outstanding entry.1 (b.db.get entry.1) entry.2
  ensure (entry.1 ∈ snap.records ∨ b.db.revision entry.1 = 0) .conflict
  ensure (b.db.revision entry.1 + 1 ≤ maxRevision) .exhausted
  pure
    { db := { b.db with
        records := b.db.records.insert entry.1
          ⟨b.db.revision entry.1 + 1, entry.2, Nat.succ_pos _⟩ }
      control := { b.control with
        count := if b.db.revision entry.1 = 0 then b.control.count + 1 else b.control.count
        bytes := b.control.bytes + (entry.2.size - sizeOf (b.db.get entry.1))
        outstanding := outstanding }
      total := b.total + entry.2.size }

/-- Write the changes and the control record. -/
def changes (db : Db) (c : Control) (snap : Snapshot) (chs : Changes) : Except Error Db := do
  let b ← chs.entries.foldlM (writeOne snap) ⟨db, c, 0⟩
  ensure (b.control.count ≤ maxRecords ∧ b.control.bytes ≤ maxNamespaceBytes ∧
    b.control.outstanding ≤ 100) .exhausted
  ensure (b.db.controlRevision + 1 ≤ maxRevision) .exhausted
  pure { b.db with controlRevision := b.db.controlRevision + 1, control := b.control }

/-! ### What is written -/

/-- What one round of the loop does. -/
structure Wrote (snap : Snapshot) (b : Batch) (r : Ref) (v : Value) (b' : Batch) : Prop where
  known : r ∈ snap.records ∨ b.db.revision r = 0
  get_self : b'.db.get r = some ⟨b.db.revision r + 1, v, Nat.succ_pos _⟩
  get_ne : ∀ r', r' ≠ r → b'.db.get r' = b.db.get r'
  controlRevision : b'.db.controlRevision = b.db.controlRevision
  authority : SameAuthority b.control b'.control

theorem writeOne_ok {b b' : Batch} {r : Ref} {v : Value}
    (h : writeOne snap b ⟨r, v⟩ = .ok b') : Wrote snap b r v b' := by
  simp only [writeOne, bind_eq_ok, ensure_eq_ok, pure_eq_ok] at h
  obtain ⟨-, -, -, -, -, -, n, -, -, hkn, -, -, rfl⟩ := h
  exact
    { known := hkn
      get_self := AList.lookup_insert _
      get_ne := fun r' hne => AList.lookup_insert_ne hne
      controlRevision := rfl
      authority := ⟨rfl, rfl, rfl, rfl, rfl, rfl, rfl⟩ }

/-- The record that a change leaves behind. -/
def afterChange (db : Db) (chs : List (Sigma fun _ : Ref => Value)) (r : Ref) : Option Record :=
  match chs.dlookup r with
  | some v => some ⟨db.revision r + 1, v, Nat.succ_pos _⟩
  | none => db.get r

/-- **The loop of `changes`.** By induction on the changes, which name each record once. -/
theorem writeLoop_ok {chs : List (Sigma fun _ : Ref => Value)} {b b' : Batch}
    (hnd : chs.NodupKeys) (h : chs.foldlM (writeOne snap) b = .ok b') :
    (∀ r, b'.db.get r = afterChange b.db chs r) ∧
      (∀ r, r ∈ chs.keys → r ∈ snap.records ∨ b.db.revision r = 0) ∧
      b'.db.controlRevision = b.db.controlRevision ∧ SameAuthority b.control b'.control := by
  induction chs generalizing b with
  | nil =>
    rw [foldlM_nil, pure_eq_ok] at h
    subst h
    exact ⟨fun r => rfl, by simp, rfl, .refl _⟩
  | cons e chs ih =>
    obtain ⟨r₀, v₀⟩ := e
    rw [foldlM_cons, bind_eq_ok] at h
    obtain ⟨b₁, hfst, hrs⟩ := h
    have hw := writeOne_ok hfst
    obtain ⟨hfr, hnd⟩ := nodupKeys_cons.mp hnd
    obtain ⟨hget, hkn, hrev, hau⟩ := ih hnd hrs
    refine ⟨fun r => ?_, fun r hr => ?_, hrev.trans hw.controlRevision, hw.authority.trans hau⟩
    · rw [hget r]
      by_cases hr : r = r₀
      · subst hr
        have hno : chs.dlookup r = none := dlookup_eq_none.mpr hfr
        simp only [afterChange, hno, dlookup_cons_eq]
        exact hw.get_self
      · have hsm : b₁.db.revision r = b.db.revision r := by
          rw [Db.revision, Db.revision, hw.get_ne r hr]
        simp only [afterChange, dlookup_cons_ne chs ⟨r₀, v₀⟩ hr, hsm, hw.get_ne r hr]
    · rcases mem_cons.mp hr with rfl | hin
      · exact hw.known
      have hne : r ≠ r₀ := fun heq => hfr (heq ▸ hin)
      rcases hkn r hin with hsna | hz
      · exact .inl hsna
      · right
        rwa [Db.revision, hw.get_ne r hne] at hz

section

variable {db db' : Db} {c : Control} {snap : Snapshot} {chs : Changes}

/-- A successful write is a run of the loop and then one write of the control record. -/
theorem changes_loop (h : changes db c snap chs = .ok db') :
    ∃ b : Batch, chs.entries.foldlM (writeOne snap) ⟨db, c, 0⟩ = .ok b ∧
      db' = { b.db with controlRevision := b.db.controlRevision + 1, control := b.control } := by
  simp only [changes, bind_eq_ok, ensure_eq_ok, pure_eq_ok] at h
  obtain ⟨b, hlp, -, -, -, -, rfl⟩ := h
  exact ⟨b, hlp, rfl⟩

theorem changes_get (h : changes db c snap chs = .ok db') (r : Ref) :
    db'.get r = afterChange db chs.entries r := by
  obtain ⟨b, hlp, rfl⟩ := changes_loop h
  exact (writeLoop_ok chs.nodupKeys hlp).1 r

theorem changes_control (h : changes db c snap chs = .ok db') :
    SameAuthority c db'.control ∧ db'.controlRevision = db.controlRevision + 1 := by
  obtain ⟨b, hlp, rfl⟩ := changes_loop h
  obtain ⟨-, -, hrev, hau⟩ := writeLoop_ok chs.nodupKeys hlp
  exact ⟨hau, by rw [hrev]⟩

end

end Noxa.Durable

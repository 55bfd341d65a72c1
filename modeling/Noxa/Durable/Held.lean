import Noxa.Durable.NoFork

/-!
# Snapshots that were read

Some operations copy part of a record from the caller's snapshot and not from the store: a send that
replaces a session, and a receive that consumes a one-time key. Then it matters that the snapshot's
records are records the store once had. A client may have merged several snapshots, kept them for
any time and dropped entries; `Held` only asks that each entry was what the store had for that
reference at some earlier point of the run.

A commit compares revisions. An entry with the current revision that the store once had is the
current record, since a revision never comes back: that is `HeldRun.along`, and `Current` is what
the operations' proofs use.

## Main definitions

* `Held`, `HeldRun` — every snapshot of a run is of this kind
* `Current` — an entry of the call's snapshot with the current revision is the current record

## Main results

* `get_of_revision` — between two states with the same revision a record did not change
* `HeldRun.along` — in such a run every call is current
* `commits_serialize` — a commit finds its snapshot as it was read
-/

namespace Noxa.Durable

open Machine

section

variable [Codec]

/-- Every entry of the snapshot is what the store had after some of the calls. -/
def Held (ns : Namespace) (db : Db) (before : List Call) (snap : Snapshot) : Prop :=
  ∀ r rec, snap.records.lookup r = some rec →
    ∃ earlier later, before = earlier ++ later ∧ (run (step ns) db earlier).get r = rec

def HeldRun (ns : Namespace) (db : Db) (calls : List Call) : Prop :=
  ∀ before call after, calls = before ++ call :: after → ∀ snap, call.op.snapshot = some snap →
    Held ns db before snap

def Current (db : Db) (call : Call) : Prop :=
  ∀ snap, call.op.snapshot = some snap → ∀ r rec, snap.records.lookup r = some rec →
    db.control.active = true → db.revision r = revisionOf rec → db.get r = rec

variable {ns : Namespace} {db : Db} {calls : List Call}

/-- By induction on the calls: none of them lowers the revision, so none of them writes the
record. -/
theorem get_of_revision {r : Ref} {later : List Call}
    (hlv : (run (step ns) db later).control.active = true)
    (hrev : (run (step ns) db later).revision r = db.revision r) :
    (run (step ns) db later).get r = db.get r := by
  induction later generalizing db with
  | nil => rfl
  | cons call later ih =>
    rw [run_cons] at hlv hrev ⊢
    obtain ⟨hope, hle⟩ := (versioned ns).run_open hlv
    have hfst := (versioned ns).version_le db call hope r
    have hsm : (step ns db call).1.revision r = db.revision r := by
      have := hle r
      omega
    rw [ih hlv (hrev.trans hsm.symm)]
    by_contra hne
    by_cases hno : (step ns db call).1.get r = none
    · rw [Db.revision_eq_zero.mpr hno] at hsm
      exact hne (hno.trans (Db.revision_eq_zero.mp hsm.symm).symm)
    · have := revision_of_writes ⟨hne, hno⟩
      omega

theorem heldRun_nil (ns : Namespace) (db : Db) : HeldRun ns db [] := by
  intro before call after hspl
  simp at hspl

theorem heldRun_append {call : Call} : HeldRun ns db (calls ++ [call]) ↔
      HeldRun ns db calls ∧ ∀ snap, call.op.snapshot = some snap → Held ns db calls snap := by
  constructor
  · intro h
    refine ⟨fun before call' after hspl => h before call' (after ++ [call]) ?_, h calls call [] rfl⟩
    rw [hspl, List.append_assoc, List.cons_append]
  · rintro ⟨hc, hca⟩ before call' after hspl
    rcases split_last hspl with ⟨rfl, rfl, -⟩ | ⟨after', -, rfl⟩
    · exact hca
    · exact hc before call' after' rfl

theorem HeldRun.along (h : HeldRun ns db calls) : Along (step ns) Current db calls := by
  -- by induction from the last call, which comes after all the others
  induction calls using List.reverseRecOn with
  | nil => exact trivial
  | append_singleton calls call ih =>
    obtain ⟨hc, hca⟩ := heldRun_append.mp h
    refine along_append.mpr ⟨ih hc, fun snap hsna r rec hr hlv hrev => ?_, trivial⟩
    obtain ⟨earlier, later, rfl, rfl⟩ := hca snap hsna r rec hr
    rw [run_append] at hlv hrev ⊢
    exact get_of_revision hlv hrev

/-- Commits are serializable: one that writes anything finds every record of its snapshot as it was
read, whatever was called in between. -/
theorem commits_serialize (ns : Namespace) (db : Db) (between : List Call) (call : Call) :
    let now := run (step ns) db between
    (step ns now call).1 = now ∨ ∀ refs snap, read ns db refs = .ok snap →
      call.op.snapshot = some snap → now.control.fence = snap.fence ∧
        ∀ r rec, snap.records.lookup r = some rec → now.get r = rec := by
  intro now
  rcases step_cases ns now call with hsm | ⟨snap, hsna, c, reads, chs, hcom⟩ | ⟨fence, hop, -⟩
  · exact .inl hsm
  · refine .inr fun refs snap' hrd hsna' => ?_
    obtain rfl := Option.some.inj (hsna.symm.trans hsna')
    refine ⟨(fence_ok hcom.fenced).2.2, fun r rec hr => ?_⟩
    have hmem : r ∈ snap.records := AList.lookup_isSome.mp (by rw [hr]; rfl)
    rw [read_get hrd hr]
    exact get_of_revision hcom.live
      ((hcom.snapshot_current hmem).symm.trans (read_revision hrd hmem))
  · refine .inr fun refs snap _ hsna => ?_
    simp [hop, Op.snapshot] at hsna

end

/-- A client that reads right before it commits. -/
theorem HeldRun.read {r : List Ref} {calls : List Call} {call : Call}
    (h : letI := Codec.plain; HeldRun homeDevice Db.fresh calls)
    (hok : letI := Codec.plain; (read homeDevice
    (run (step homeDevice) Db.fresh calls) r).isOk = true)
    (hsna : letI := Codec.plain
      call.op.snapshot = some (snapshotOf r (run (step homeDevice) Db.fresh calls))) :
    letI := Codec.plain; HeldRun homeDevice Db.fresh (calls ++ [call]) := by
  let := Codec.plain
  refine heldRun_append.mpr ⟨h, fun snap hs => ?_⟩
  obtain rfl := Option.some.inj (hsna.symm.trans hs)
  exact fun _ _ hr => ⟨calls, [], by simp, (read_get (read_snapshotOf hok) hr).symm⟩

end Noxa.Durable

import Noxa.Durable.Attempts
import Noxa.Durable.Transitions

/-!
# The watermark of retired attempts

`NoteRetired` records that the server has retired an attempt. The control record keeps the numbers
of those attempts as a watermark and a sorted list of the numbers above it; a number that follows
the watermark raises it, and so do the ones that then follow.

The mark is for one account epoch. A mark of an older epoch is kept in the control record but read
as the empty one (`Control.mark`, which is also what `AccountAuthority` returns), so a promotion
starts with no number noted. That an older mark is never read again rests on the epoch rising with
every promotion.

## Main definitions

* `RetiredMark.Normal` — sorted, with a gap after the watermark
* `Notes`, `Noted` — a call notes a number; some call of a run did, in the current epoch

## Main results

* `RetiredMark.note_normal`, `RetiredMark.note_has` — one more number
* `retired_mark_exact` — the mark after any calls
-/

namespace Noxa.Durable

open Admission Machine List RetiredMark

/-- The numbers above the watermark are in order, and the watermark could not be higher. -/
structure RetiredMark.Normal (mark : RetiredMark) : Prop where
  increasing : mark.above.Pairwise (· < ·)
  gap : ∀ x ∈ mark.above, mark.through + 1 < x

theorem RetiredMark.normal_empty (epoch : Int) : RetiredMark.Normal { epoch := epoch } where
  increasing := List.Pairwise.nil
  gap := by simp

theorem RetiredMark.has_eq_true {mark : RetiredMark} {x : Int} :
    mark.has x = true ↔ x ≤ mark.through ∨ x ∈ mark.above :=
  decide_eq_true_iff

theorem RetiredMark.has_empty {epoch x : Int} :
    RetiredMark.has { epoch := epoch } x = true ↔ x ≤ 0 := by
  simp [has_eq_true]

/-! ### One more number -/

/-- Absorbing keeps the numbers, and leaves a gap. -/
theorem absorb_normal {through : Int} {above : List Int} (hsrt : above.Pairwise (· < ·))
    (habv : ∀ x ∈ above, through < x) : (absorb through above).2.Pairwise (· < ·) ∧
      (∀ x ∈ (absorb through above).2, (absorb through above).1 + 1 < x) ∧
      ∀ x, (x ≤ (absorb through above).1 ∨ x ∈ (absorb through above).2) ↔
        (x ≤ through ∨ x ∈ above) := by
  induction above generalizing through with
  | nil => simp [absorb]
  | cons a above ih =>
    obtain ⟨hfst, hrs⟩ := pairwise_cons.mp hsrt
    have ha := habv a mem_cons_self
    unfold absorb
    split
    · rename_i hnx
      have hnext_lt : ∀ x ∈ above, through + 1 < x := fun x hx => hnx ▸ hfst x hx
      obtain ⟨hinc, hg, hsm⟩ := ih hrs hnext_lt
      refine ⟨hinc, hg, fun x => ?_⟩
      rw [hsm x, mem_cons]
      constructor
      · rintro (hx | hx)
        · rcases Int.lt_or_eq_of_le hx with hlt | heq
          · exact .inl (by omega)
          · exact .inr (.inl (by omega))
        · exact .inr (.inr hx)
      · rintro (hx | hx | hx)
        · exact .inl (by omega)
        · exact .inl (by omega)
        · exact .inr hx
    · rename_i hnx
      refine ⟨hsrt, fun x hx => ?_, fun x => Iff.rfl⟩
      change through + 1 < x
      rcases mem_cons.mp hx with rfl | hx
      · omega
      · have := hfst x hx
        omega

section

variable {mark : RetiredMark} {seq : Int}

/-- The numbers above the watermark after one more, before any is absorbed. -/
theorem RetiredMark.sorted_insert (h : mark.Normal) (hnew : mark.has seq = false) :
    ((mark.above ++ [seq]).insertionSort (· ≤ ·)).Pairwise (· < ·) ∧
      ∀ x ∈ (mark.above ++ [seq]).insertionSort (· ≤ ·), mark.through < x := by
  have hu : ¬ (seq ≤ mark.through ∨ seq ∈ mark.above) := by
    rw [← has_eq_true, hnew]
    decide
  rw [not_or, Int.not_le] at hu
  have hnd : (mark.above ++ [seq]).Nodup := by
    refine nodup_append'.mpr ⟨h.increasing.imp Int.ne_of_lt, nodup_singleton seq, ?_⟩
    rw [disjoint_singleton]
    exact hu.2
  constructor
  · have hle := pairwise_insertionSort (· ≤ ·) (mark.above ++ [seq])
    have hne : ((mark.above ++ [seq]).insertionSort (· ≤ ·)).Nodup :=
      (perm_insertionSort _ _).nodup_iff.mpr hnd
    exact (hle.and hne).imp fun hpr => lt_of_le_of_ne hpr.1 hpr.2
  · intro x hx
    rw [mem_insertionSort, mem_append, mem_singleton] at hx
    rcases hx with hx | rfl
    · have := h.gap x hx
      omega
    · exact hu.1

theorem RetiredMark.note_normal (h : mark.Normal) (hnew : mark.has seq = false) :
    (mark.note seq).Normal := by
  obtain ⟨hsrt, habv⟩ := sorted_insert h hnew
  obtain ⟨hinc, hg, -⟩ := absorb_normal hsrt habv
  exact ⟨hinc, hg⟩

theorem RetiredMark.note_has (h : mark.Normal) (hnew : mark.has seq = false) (x : Int) :
    (mark.note seq).has x = true ↔ mark.has x = true ∨ x = seq := by
  obtain ⟨hsrt, habv⟩ := sorted_insert h hnew
  obtain ⟨-, -, hsm⟩ := absorb_normal hsrt habv
  rw [has_eq_true, has_eq_true]
  refine (hsm x).trans ?_
  rw [mem_insertionSort, mem_append, mem_singleton, or_assoc]

end

/-! ### What a call does to the mark -/

section

variable [Codec] {ns : Namespace} {db : Db} {call : Call}

/-- The call notes the number of an attempt. -/
def Notes (ns : Namespace) (db : Db) (call : Call) (seq : Int) : Prop :=
  ∃ snap id b d reply, call.op = .noteRetired snap id ∧ (step ns db call).2 = .ok reply ∧
    HasAttempt db id b d ∧ attemptSequence d.manifest.attemptID = some seq

theorem Notes.unique {seq seq' : Int} (h : Notes ns db call seq) (h' : Notes ns db call seq') :
    seq = seq' := by
  obtain ⟨snap, id, b, d, reply, hop, -, hatt, hs⟩ := h
  obtain ⟨snap', id', b', d', reply', hop', -, hatt', hs'⟩ := h'
  obtain ⟨rfl, rfl⟩ := Op.noteRetired.inj (hop.symm.trans hop')
  obtain ⟨-, rfl⟩ := hatt.unique hatt'
  exact Option.some.inj (hs.symm.trans hs')

inductive MarkStep (ns : Namespace) (db : Db) (call : Call) (db' : Db) : Prop
  | kept (epoch : db'.control.accountEpoch = db.control.accountEpoch)
      (active : db'.control.active = db.control.active)
      (retired : db'.control.retired = db.control.retired)
      (known : ∀ seq, Notes ns db call seq → db.control.mark.has seq = true)
  | noted (seq : Int) (call : Notes ns db call seq) (new : db.control.mark.has seq = false)
      (active : db'.control.active = true)
      (epoch : db'.control.accountEpoch = db.control.accountEpoch)
      (retired : db'.control.retired = some (db.control.mark.note seq))
  | promoted (quiet : ∀ seq, ¬ Notes ns db call seq) (live : db.control.active = true)
      (active : db'.control.active = true)
      (epoch : db.control.accountEpoch < db'.control.accountEpoch)
      (retired : db'.control.retired = db.control.retired)
  | closed (quiet : ∀ seq, ¬ Notes ns db call seq) (inactive : db'.control.active = false)
      (epoch : db'.control.accountEpoch = 0) (retired : db'.control.retired = none)

theorem Notes.live {seq : Int} (h : Notes ns db call seq) : db.control.active = true := by
  obtain ⟨snap, id, b, d, reply, hop, hr, -⟩ := h
  exact (noteRetired_ok (done_ok (exec_of_op hop hr))).1

theorem noteRetired_mark {snap : Snapshot} {id : String} {reply : Reply}
    (hop : call.op = .noteRetired snap id) (hr : (step ns db call).2 = .ok reply) :
    MarkStep ns db call (step ns db call).1 := by
  have hxc := exec_of_op hop hr
  obtain ⟨-, v, b, d, seq, hv, hb, hd, hs, hcs⟩ := noteRetired_ok (done_ok hxc)
  have hn : Notes ns db call seq :=
    ⟨snap, id, b, d, reply, hop, hr,
      ⟨by rw [hv, Option.map_some, outbox_of_outbox? hb], hd⟩, hs⟩
  rcases hcs with ⟨hsm, hkn⟩ | ⟨hnew, hcom⟩
  · refine .kept (by rw [hsm]) (by rw [hsm]) (by rw [hsm]) fun seq' hs' => ?_
    rw [hs'.unique hn]
    exact hkn
  · obtain ⟨hsm, -⟩ := changes_control hcom.written
    exact .noted seq hn hnew hcom.active_after hsm.accountEpoch hsm.retired

/-- **Inversion of a call**, for the mark. -/
theorem step_mark (hi : TransitionInv db) (ns : Namespace) (call : Call) :
    MarkStep ns db call (step ns db call).1 := by
  rcases step_exec ns db call with ⟨hsm, e, he⟩ | ⟨reply, hr, hxc⟩
  · refine .kept (by rw [hsm]) (by rw [hsm]) (by rw [hsm]) fun seq hs => ?_
    obtain ⟨snap, id, b, d, reply, -, hr, -⟩ := hs
    exact nomatch he.symm.trans hr
  have hep := (step_transitions ns db call).epoch_cases hi
  by_cases hno : ∃ snap id, call.op = .noteRetired snap id
  · obtain ⟨snap, id, hop⟩ := hno
    exact noteRetired_mark hop hr
  have hqt : ∀ seq, ¬ Notes ns db call seq :=
    fun _ ⟨snap, id, _, _, _, hop, _⟩ => hno ⟨snap, id, hop⟩
  rcases exec_frame hxc with hsm | hf | ⟨fence, hop, hlog⟩
  · exact .kept (by rw [hsm]) (by rw [hsm]) (by rw [hsm])
      fun seq hs => absurd hs (hqt seq)
  · -- no other operation touches the stored mark
    have hret : (step ns db call).1.control.retired = db.control.retired := by
      obtain ⟨c, hc, hsm⟩ := hf.control
      refine hsm.retired.trans ?_
      cases hop : call.op with
      | noteRetired snap id => exact absurd ⟨snap, id, hop⟩ hno
      | promoteAccount =>
        rw [hop] at hc
        obtain ⟨t, rfl⟩ := hc
        rfl
      | _ =>
        rw [hop] at hc
        rw [show c = _ from hc]
    rcases hep with hsm | ⟨_, _, _, -, hlt⟩ | ⟨_, -, -, hina⟩
    · exact .kept hsm (hf.active_after.trans hf.live.symm) hret
        fun seq hs => absurd hs (hqt seq)
    · exact .promoted hqt hf.live hf.active_after hlt hret
    · exact absurd (hf.active_after.symm.trans hina) (by decide)
  · obtain ⟨f, heq⟩ := logout_ok hlog
    exact .closed hqt (by rw [heq]) (by rw [heq]) (by rw [heq])

/-! ### Runs -/

/-- The epoch is positive until a logout sets it to zero, and no stored mark is of a later one. -/
structure MarkInv (db : Db) : Prop where
  positive : db.control.active = true → 1 ≤ db.control.accountEpoch
  closed : db.control.active = false → db.control.accountEpoch = 0
  stored : ∀ m, db.control.retired = some m → m.Normal ∧ m.epoch ≤ db.control.accountEpoch

section

omit [Codec]

theorem markInv_fresh : MarkInv Db.fresh where
  positive _ := Int.le_refl 1
  closed h := absurd h (by decide)
  stored m h := nomatch h

variable {c c' : Control}

theorem Control.mark_empty (h : ∀ m, c.retired = some m → m.epoch ≠ c.accountEpoch) :
    c.mark = { epoch := c.accountEpoch } := by
  unfold Control.mark
  split
  · rename_i m hm
    rw [if_neg (h m hm)]
  · rfl

theorem Control.mark_of_retired {m : RetiredMark} (h : c.retired = some m)
    (hep : m.epoch = c.accountEpoch) : c.mark = m := by
  rw [Control.mark, h]
  exact if_pos hep

theorem Control.mark_epoch (c : Control) : c.mark.epoch = c.accountEpoch := by
  unfold Control.mark
  split
  · split
    · assumption
    · rfl
  · rfl

theorem MarkInv.mark_normal (h : MarkInv db) : db.control.mark.Normal := by
  unfold Control.mark
  split
  · rename_i m hm
    split
    · exact (h.stored m hm).1
    · exact normal_empty _
  · exact normal_empty _

end

theorem MarkStep.inv {db' : Db} (hstp : MarkStep ns db call db') (h : MarkInv db) :
    MarkInv db' := by
  cases hstp with
  | kept epoch active retired =>
    exact ⟨fun ha => epoch ▸ h.positive (active ▸ ha), fun ha => epoch ▸ h.closed (active ▸ ha),
      fun m hm => epoch ▸ h.stored m (retired ▸ hm)⟩
  | noted seq hca new active epoch retired =>
    refine ⟨fun _ => epoch ▸ h.positive hca.live, fun ha =>
      absurd (active.symm.trans ha) (by decide),
      fun m hm => ?_⟩
    obtain rfl := Option.some.inj (retired.symm.trans hm)
    refine ⟨note_normal h.mark_normal new, Int.le_of_eq ?_⟩
    exact (Control.mark_epoch _).trans epoch.symm
  | promoted quiet live active epoch retired =>
    refine ⟨fun _ => ?_, fun ha => absurd (active.symm.trans ha) (by decide), fun m hm => ?_⟩
    · have := h.positive live
      omega
    · obtain ⟨hnor, hle⟩ := h.stored m (retired ▸ hm)
      exact ⟨hnor, by omega⟩
  | closed quiet inactive epoch retired =>
    exact ⟨fun ha => absurd (inactive.symm.trans ha) (by decide), fun _ => epoch,
      fun m hm => nomatch retired.symm.trans hm⟩

theorem markInv_run (ns : Namespace) (calls : List Call) :
    TransitionInv (run (step ns) Db.fresh calls) ∧ MarkInv (run (step ns) Db.fresh calls) :=
  run_invariant (P := fun db => TransitionInv db ∧ MarkInv db)
    (fun db call h => ⟨(step_transitions ns db call).inv h.1, (step_mark h.1 ns call).inv h.2⟩)
    ⟨transitionInv_fresh, markInv_fresh⟩ calls

/-- While the store is open its epoch only rises. -/
theorem epoch_le_run (hi : TransitionInv db) {later : List Call}
    (hlv : (run (step ns) db later).control.active = true) :
    db.control.accountEpoch ≤ (run (step ns) db later).control.accountEpoch := by
  induction later generalizing db with
  | nil => exact le_rfl
  | cons call later ih =>
    have hrs := ih ((step_transitions ns db call).inv hi) hlv
    rw [run_cons] at hlv ⊢
    rcases (step_transitions ns db call).epoch_cases hi with hsm | ⟨_, _, _, -, hlt⟩ |
      ⟨_, -, -, hout⟩
    · omega
    · omega
    · have hope := ((versioned ns).run_open hlv).1
      exact absurd (hope.symm.trans hout) (by decide)

/-- Some call of the run noted the number, in the epoch that the run ends in. -/
def Noted (ns : Namespace) (calls : List Call) (seq : Int) : Prop :=
  ∃ before call after, calls = before ++ call :: after ∧
    Notes ns (run (step ns) Db.fresh before) call seq ∧
    (run (step ns) Db.fresh before).control.accountEpoch =
      (run (step ns) Db.fresh calls).control.accountEpoch

/-- One more call: it notes the number, or an earlier one did. -/
theorem noted_append {calls : List Call} {seq : Int} (h : Noted ns (calls ++ [call]) seq) :
    Notes ns (run (step ns) Db.fresh calls) call seq ∨
      ∃ before earlier after, calls = before ++ earlier :: after ∧
        Notes ns (run (step ns) Db.fresh before) earlier seq ∧
        (run (step ns) Db.fresh before).control.accountEpoch =
          (step ns (run (step ns) Db.fresh calls) call).1.control.accountEpoch := by
  obtain ⟨before, earlier, after, hspl, hn, hep⟩ := h
  rw [run_append, run_cons, run_nil] at hep
  rcases split_last hspl with ⟨rfl, rfl, -⟩ | ⟨after', -, rfl⟩
  · exact .inl hn
  · exact .inr ⟨before, earlier, after', rfl, hn, hep⟩

/-- An earlier note counts as long as the epoch is the same. -/
theorem noted_append_iff {calls : List Call} {seq : Int}
    (hep : (step ns (run (step ns) Db.fresh calls) call).1.control.accountEpoch =
      (run (step ns) Db.fresh calls).control.accountEpoch) :
    Noted ns (calls ++ [call]) seq ↔
      Notes ns (run (step ns) Db.fresh calls) call seq ∨ Noted ns calls seq := by
  constructor
  · intro h
    refine (noted_append h).imp_right ?_
    rintro ⟨before, earlier, after, hspl, hn, hsm⟩
    exact ⟨before, earlier, after, hspl, hn, hsm.trans hep⟩
  · rintro (hn | ⟨before, earlier, after, rfl, hn, hsm⟩)
    · refine ⟨calls, call, [], rfl, hn, ?_⟩
      rw [run_append, run_cons, run_nil, hep]
    · refine ⟨before, earlier, after ++ [call], by rw [append_assoc, cons_append], hn, ?_⟩
      rw [run_append, run_cons, run_nil, hep, hsm]

/-- A note was made while the store was open, so in a positive epoch and not in a later one than
that of an open store. -/
theorem noted_epoch {before : List Call} {earlier : Call} {seq : Int}
    (h : Notes ns (run (step ns) Db.fresh before) earlier seq) (after : List Call) :
    1 ≤ (run (step ns) Db.fresh before).control.accountEpoch ∧
      ((run (step ns) Db.fresh (before ++ earlier :: after)).control.active = true →
        (run (step ns) Db.fresh before).control.accountEpoch ≤
          (run (step ns) Db.fresh (before ++ earlier :: after)).control.accountEpoch) := by
  obtain ⟨ht, hmk⟩ := markInv_run ns before
  refine ⟨hmk.positive h.live, fun hlv => ?_⟩
  rw [run_append] at hlv ⊢
  exact epoch_le_run ht hlv

/-- The mark has the numbers noted, by induction on the calls from the last one. -/
theorem has_iff_noted (ns : Namespace) (calls : List Call) (x : Int) :
    (run (step ns) Db.fresh calls).control.mark.has x = true ↔ x ≤ 0 ∨ Noted ns calls x := by
  induction calls using List.reverseRecOn with
  | nil =>
    refine has_empty.trans (or_iff_left ?_).symm
    rintro ⟨before, call, after, hspl, -⟩
    simp at hspl
  | append_singleton calls call ih =>
    obtain ⟨ht, hmk⟩ := markInv_run ns calls
    have hrun : run (step ns) Db.fresh (calls ++ [call]) =
        (step ns (run (step ns) Db.fresh calls) call).1 := by
      rw [run_append, run_cons, run_nil]
    have hstp := step_mark ht ns call
    rw [hrun]
    cases hstp with
    | kept epoch active retired known =>
      have hkn := fun hn => ih.mp (known x hn)
      rw [Control.mark, retired, epoch, ← Control.mark, ih, noted_append_iff epoch]
      tauto
    | noted seq hca new active epoch retired =>
      rw [Control.mark_of_retired retired ((Control.mark_epoch _).trans epoch.symm),
        note_has hmk.mark_normal new, ih, noted_append_iff epoch]
      have hsf : Notes ns (run (step ns) Db.fresh calls) call x ↔ x = seq :=
        ⟨fun hn => hn.unique hca, fun heq => heq ▸ hca⟩
      rw [hsf, or_assoc, or_comm (a := x = seq)]
    | promoted quiet live active epoch retired =>
      have hemp := Control.mark_empty (c := (step ns (run (step ns) Db.fresh calls) call).1.control)
        fun m hm => by
          have := (hmk.stored m (retired ▸ hm)).2
          omega
      rw [hemp]
      refine has_empty.trans (or_iff_left fun hnt => ?_).symm
      rcases noted_append hnt with hn | ⟨before, earlier, after, rfl, hn, hsm⟩
      · exact quiet x hn
      · -- the earlier note was made in an epoch that the store has left
        have := (noted_epoch hn after).2 live
        omega
    | closed quiet inactive epoch retired =>
      rw [Control.mark_empty fun m hm => nomatch retired.symm.trans hm]
      refine has_empty.trans (or_iff_left fun hnt => ?_).symm
      rcases noted_append hnt with hn | ⟨before, earlier, after, rfl, hn, hsm⟩
      · exact quiet x hn
      · have := (noted_epoch hn after).1
        omega

/-- **The watermark of retired attempts.** After any calls, so after any notes in any order and with
any repetitions: the mark has exactly the numbers noted in the current epoch, besides the numbers up
to zero, which no attempt has; the numbers above the watermark increase and leave a gap after it; a
call that fails, the one that finds the mark full among them, leaves it as it was; and a call that
changes the epoch leaves the empty mark. -/
theorem retired_mark_exact (ns : Namespace) (calls : List Call) :
    let db := run (step ns) Db.fresh calls
    (∀ seq, db.control.mark.has seq = true ↔ seq ≤ 0 ∨ Noted ns calls seq) ∧
    (∀ seq, Noted ns calls seq → 0 < seq) ∧
    db.control.mark.above.Pairwise (· < ·) ∧
    (∀ x ∈ db.control.mark.above, db.control.mark.through + 1 < x) ∧
    (∀ call e, (step ns db call).2 = .error e →
      (step ns db call).1.control.retired = db.control.retired ∧
        (step ns db call).1.control.mark = db.control.mark) ∧
    (∀ call, (step ns db call).1.control.accountEpoch ≠ db.control.accountEpoch →
      (step ns db call).1.control.mark =
        { epoch := (step ns db call).1.control.accountEpoch, through := 0, above := [] }) := by
  intro db
  obtain ⟨ht, hmk⟩ := markInv_run ns calls
  refine ⟨has_iff_noted ns calls, ?_, hmk.mark_normal.increasing, hmk.mark_normal.gap, ?_, ?_⟩
  · rintro seq ⟨before, call, after, -, ⟨snap, id, b, d, reply, -, -, -, hs⟩, -⟩
    exact (attemptSequence_some hs).2.1
  · intro call e he
    rw [step_error he]
    exact ⟨rfl, rfl⟩
  · intro call hne
    refine Control.mark_empty fun m hm => ?_
    cases step_mark ht ns call with
    | kept epoch => exact absurd epoch hne
    | noted seq hca new active epoch => exact absurd epoch hne
    | promoted quiet live active epoch retired =>
      exact Int.ne_of_lt (Int.lt_of_le_of_lt (hmk.stored m (retired ▸ hm)).2 epoch)
    | closed quiet inactive epoch retired => exact nomatch retired.symm.trans hm

end

end Noxa.Durable

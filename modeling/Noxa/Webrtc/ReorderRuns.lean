import Noxa.Lib.Machine
import Noxa.Webrtc.VideoReorder

/-!
# Histories of the video reorder queue

Pushes, flushes and repair estimates in any order, at any times. A packet is tagged when it is
pushed, with its place among the pushes and with the integer that has its sequence number and is
nearest to the one expected next. What has been emitted is in the order of these integers.

The invariant speaks of the integer that is expected next: everything pending lies ahead of it, by
less than half the space (`QueueInv`). A flush is a `drain`, so it keeps that; inside a push the
expected packet itself may be pending (`Holding`), until the flush at its end.

## Main definitions

* `Holding`, `QueueInv` — the queue with respect to the integer expected next
* `Tagged`, `ReorderSystem`, `reorderStep` — the queue with its log

## Main results

* `QueueInv.push`, `QueueInv.flush`, `QueueInv.applyRepairWait` — the calls keep the invariant
* `video_reorder_ordered`, `flush_loses_nothing` — what holds in all histories
-/

namespace Noxa.Webrtc

open Machine Unwrapping VideoReorder
open List hiding after

section Queue

variable {α : Type*} [Rtp α]

/-! ### The invariant -/

/-- The queue, when the integer `base` is expected next. -/
structure Holding (U : Unwrapping α) (base : ℤ) (q : VideoReorder α) : Prop where
  next : q.next = BitVec.ofInt 16 base
  ahead : ∀ e ∈ q.pending.rows, base ≤ U.of e ∧ U.of e < base + 2 ^ 15
  bytes : q.bytes = totalSize q.pending.rows
  packets : q.pending.rows.length ≤ videoReorderPackets
  room : q.bytes ≤ videoReorderBytes
  cached : q.Cached

/-- Between calls, the expected packet is not pending. -/
structure QueueInv (U : Unwrapping α) (base : ℤ) (q : VideoReorder α) :
    Prop extends Holding U base q where
  missing : ∀ e ∈ q.pending.rows, U.of e ≠ base

/-- What was emitted while the expected integer went from one to another. -/
structure Progress (U : Unwrapping α) (base base' : ℤ) (out : List α) : Prop where
  increasing : out.Pairwise fun a b => U.number a < U.number b
  between : ∀ a ∈ out, base ≤ U.number a ∧ U.number a < base'
  last : base' = out.getLast?.elim base fun a => U.number a + 1
  le : base ≤ base'

variable {U : Unwrapping α} {base base' base'' : ℤ} {q : VideoReorder α}

theorem Progress.nil (base : ℤ) : Progress U base base [] :=
  ⟨.nil, fun _ h => absurd h not_mem_nil, rfl, le_refl _⟩

theorem Progress.append {out out' : List α} (h : Progress U base base' out)
    (h' : Progress U base' base'' out') : Progress U base base'' (out ++ out') where
  increasing := by
    refine pairwise_append.mpr ⟨h.increasing, h'.increasing, fun a ha b hb => ?_⟩
    exact lt_of_lt_of_le (h.between a ha).2 (h'.between b hb).1
  between a ha := by
    have hle := h.le
    have hle' := h'.le
    rcases mem_append.mp ha with ha | ha
    · have := h.between a ha
      omega
    · have := h'.between a ha
      omega
  last := by
    rw [List.getLast?_append, h'.last]
    cases out'.getLast? with
    | none => exact h.last
    | some => rfl
  le := h.le.trans h'.le

theorem Progress.le_of_forall {out : List α} {bound : ℤ} (h : Progress U base base' out)
    (hbs : base ≤ bound) (ho : ∀ a ∈ out, U.number a < bound) : base' ≤ bound := by
  rw [h.last]
  cases hla : out.getLast? with
  | none => exact hbs
  | some a => exact ho a (mem_of_getLast? hla)

theorem Progress.single (a : α) : Progress U (U.number a) (U.number a + 1) [a] where
  increasing := pairwise_singleton _ _
  between b hb := by
    rw [mem_singleton.mp hb]
    omega
  last := rfl
  le := by omega

/-! ### Flushes -/

theorem after_eq (U : Unwrapping α) (base : ℤ) (l : List (OrderedVideoPacket α)) :
    U.after base l = (l.map (·.packet)).getLast?.elim base fun a => U.number a + 1 := by
  induction l generalizing base with
  | nil => rfl
  | cons e rest ih =>
    rw [after, ih, map_cons, List.getLast?_cons]
    cases (rest.map (·.packet)).getLast? with
    | none => rfl
    | some => rfl

/-- What is pending can be sorted. -/
theorem Holding.lists (h : Holding U base q) : ∃ l, U.Lists base l q.next q.pending := by
  have hpm := perm_insertionSort (fun a b : OrderedVideoPacket α => U.of a ≤ U.of b) q.pending.rows
  have : Std.Total fun a b : OrderedVideoPacket α => U.of a ≤ U.of b := ⟨fun _ _ => le_total _ _⟩
  have : IsTrans (OrderedVideoPacket α) fun a b => U.of a ≤ U.of b := ⟨fun _ _ _ => le_trans⟩
  have hsrt := pairwise_insertionSort (fun a b : OrderedVideoPacket α => U.of a ≤ U.of b)
    q.pending.rows
  have hnd : (q.pending.rows.insertionSort fun a b => U.of a ≤ U.of b).Nodup :=
    hpm.nodup_iff.mpr (List.Nodup.of_map _ q.pending.nodup)
  refine ⟨_, ⟨?_, fun e he => h.ahead e (hpm.mem_iff.mp he)⟩, hpm, h.next⟩
  refine (hsrt.and hnd).imp_of_mem fun {a b} ha hb hab => lt_of_le_of_ne hab.1 fun heq => ?_
  refine hab.2 (q.pending.eq_of_key (hpm.mem_iff.mp ha) (hpm.mem_iff.mp hb) ?_)
  rw [U.sequence_eq a, U.sequence_eq b, heq]

/-- What a call does to the queue. -/
structure Stepped (U : Unwrapping α) (base : ℤ) (P : α → Prop) (r : List α × VideoReorder α) :
    Prop where
  inv : ∃ base', QueueInv U base' r.2 ∧ Progress U base base' r.1
  out : ∀ a ∈ r.1, P a
  held : ∀ e ∈ r.2.pending.rows, P e.packet
  seen : r.2.seen = true

variable {P : α → Prop}

section

variable (h : Holding U base q) (now : ℕ) (force : Bool)

include h

theorem Holding.flush (hP : ∀ e ∈ q.pending.rows, P e.packet) (hsn : q.seen = true) :
    Stepped U base P (q.flushFormats now force) := by
  obtain ⟨l, hl⟩ := h.lists
  have hfl := flushFormats_flushed now force hl h.cached
  have hspl := @drain_append _ _ U base l now force
  have hrs := drain_rest now force hl.sorted
  have htk := drain_taken now force hl.sorted
  have hpm : ((U.drain now force base l).1 ++ (U.drain now force base l).2).Perm
    q.pending.rows := by
    rw [hspl]
    exact hl.perm
  have hsz : totalSize q.pending.rows = totalSize (U.drain now force base l).1 +
      totalSize (U.drain now force base l).2 := by
    rw [totalSize, ← (hpm.map OrderedVideoPacket.size).sum_eq, map_append, sum_append]
    rfl
  have hlf : totalSize (U.drain now force base l).2 =
      totalSize (q.flushFormats now force).2.pending.rows :=
    (hfl.perm.map OrderedVideoPacket.size).sum_eq
  have hnn : ∀ l : List (OrderedVideoPacket α), 0 ≤ totalSize l := fun l => by
    refine sum_nonneg fun x hx => ?_
    obtain ⟨e, -, rfl⟩ := mem_map.mp hx
    exact Int.natCast_nonneg _
  have hlen := hpm.length_eq
  have hlen' := hfl.perm.length_eq
  rw [length_append] at hlen
  have hby := hfl.bytes
  have hbef := h.bytes
  have hpk := h.packets
  have hrm := h.room
  have hta := hnn (U.drain now force base l).1
  refine ⟨⟨U.after base (U.drain now force base l).1, ⟨⟨hfl.next, fun e he => ?_, by omega,
    by omega, by omega, hfl.cached⟩, fun e he => ?_⟩, ?_⟩, fun a ha => ?_, fun e he => ?_,
    hfl.seen.trans hsn⟩
  · have he := hrs.2 e (hfl.perm.mem_iff.mpr he)
    exact ⟨he.1.le, he.2⟩
  · exact ne_of_gt (hrs.2 e (hfl.perm.mem_iff.mpr he)).1
  · rw [hfl.out]
    refine ⟨?_, fun a ha => ?_, after_eq U base _, hrs.1⟩
    · rw [pairwise_map]
      have hsub := sublist_append_left (U.drain now force base l).1 (U.drain now force base l).2
      rw [hspl] at hsub
      exact hl.sorted.increasing.sublist hsub
    · obtain ⟨e, he, rfl⟩ := mem_map.mp ha
      exact htk e he
  · rw [hfl.out] at ha
    obtain ⟨e, he, rfl⟩ := mem_map.mp ha
    exact hP e (hpm.mem_iff.mp (mem_append_left _ he))
  · exact hP e (hpm.mem_iff.mp (mem_append_right _ (hfl.perm.mem_iff.mpr he)))

/-- A flush that is forced leaves nothing. -/
theorem Holding.flush_forced : (q.flushFormats now true).2.pending.rows = [] := by
  obtain ⟨l, hl⟩ := h.lists
  have hpm := (flushFormats_flushed now true hl h.cached).perm
  rw [drain_forced] at hpm
  exact nil_perm.mp hpm

/-- A flush leaves nothing that has expired. -/
theorem Holding.flush_unexpired :
    ∀ e ∈ (q.flushFormats now false).2.pending.rows, now < e.expires := by
  obtain ⟨l, hl⟩ := h.lists
  have hpm := (flushFormats_flushed now false hl h.cached).perm
  intro e he
  exact @drain_unexpired _ _ U base l now e (hpm.mem_iff.mpr he)

/-- A flush emits what the simple loop does, and so does the release of gaps. -/
theorem Holding.flush_naive {fuel : ℕ} (hfu : 2 * q.pending.rows.length ≤ fuel) :
    (q.flushFormats now force).1 = naiveFlush now force fuel q.next q.pending ∧
    (q.flushGapsFormats now force).1 = naiveFlush now force fuel q.next q.pending := by
  obtain ⟨l, hl⟩ := h.lists
  have hlen := hl.perm.length_eq
  have hnv : naiveFlush now force fuel q.next q.pending = _ := naiveFlush_eq now force hl (by omega)
  exact ⟨(flushFormats_flushed now force hl h.cached).out.trans hnv.symm,
    (flushGapsFormats_flushed now force hl h.cached.positive).out.trans hnv.symm⟩

end

/-! ### Estimates -/

omit [Rtp α] in
/-- The fold is the least of where it starts and of what was shortened. -/
theorem loweredExpires_fold {wait : ℕ} (hwt : 0 < wait) (rows : List (OrderedVideoPacket α)) {m : ℕ}
    (hm : 0 < m) (hle : ∀ e ∈ rows, m ≤ e.expires) : rows.foldl (fun expires e =>
      if e.arrived + wait < e.expires ∧ (expires = 0 ∨ e.arrived + wait < expires) then
        e.arrived + wait else expires) m =
      (rows.map fun e => (shortened wait e).expires).foldl min m := by
  induction rows generalizing m with
  | nil => rfl
  | cons e rest ih =>
    have he := hle e mem_cons_self
    rw [map_cons, foldl_cons, foldl_cons, shortened, apply_ite OrderedVideoPacket.expires]
    have hstp : (if e.arrived + wait < e.expires ∧ (m = 0 ∨ e.arrived + wait < m) then
        e.arrived + wait else m) =
        min m (if e.arrived + wait < e.expires then e.arrived + wait else e.expires) := by
      split <;> split <;> omega
    rw [hstp]
    refine ih (lt_min hm (by split <;> omega)) fun x hx => ?_
    exact (Nat.min_le_left _ _).trans (hle x (mem_cons_of_mem _ hx))

theorem cached_applyRepairWait (h : q.Cached) {wait : ℕ} (hwt : 0 < wait)
    (hne : q.pending.rows ≠ []) : { q with
      pending := q.pending.update (fun _ => true) (shortened wait) (shortened_sequence wait)
      expires := q.loweredExpires wait }.Cached where
  positive e he := by
    obtain ⟨x, hx, rfl⟩ := mem_map.mp he
    have hpos := h.positive x hx
    rw [if_pos rfl, shortened]
    split
    · dsimp only
      omega
    · exact hpos
  least hc _ := by
    have hc : q.dirty = false := hc
    obtain ⟨⟨x, hx, hxe⟩, hle⟩ := h.least hc hne
    have hlow : q.loweredExpires wait =
        (q.pending.rows.map fun e => (shortened wait e).expires).foldl min q.expires := by
      rw [loweredExpires, hc]
      exact loweredExpires_fold hwt q.pending.rows (hxe ▸ h.positive x hx) hle
    obtain ⟨hwho, hall⟩ := List.min?_eq_some_iff.mp (hlow ▸ List.min?_cons')
    have hall : ∀ e ∈ q.pending.rows, q.loweredExpires wait ≤ (shortened wait e).expires :=
      fun e he => hall _ (mem_cons_of_mem _ (mem_map_of_mem he))
    have hmem : ∀ {e}, e ∈ q.pending.rows → shortened wait e ∈
        (q.pending.update (fun _ => true) (shortened wait) (shortened_sequence wait)).rows :=
      fun he => mem_map.mpr ⟨_, he, if_pos rfl⟩
    refine ⟨?_, fun e he => ?_⟩
    · rcases mem_cons.mp hwho with hsm | hlw
      · have hxsh : (shortened wait x).expires ≤ x.expires := by
          rw [shortened]
          split
          · next hls => exact hls.le
          · exact le_rfl
        rw [hsm] at hall ⊢
        exact ⟨_, hmem hx, le_antisymm (hxe ▸ hxsh) (hall x hx)⟩
      · obtain ⟨y, hy, hye⟩ := mem_map.mp hlw
        exact ⟨_, hmem hy, hye⟩
    · obtain ⟨y, hy, rfl⟩ := mem_map.mp he
      exact hall y hy

omit [Rtp α] in
theorem shortened_packet (wait : ℕ) (e : OrderedVideoPacket α) :
    (shortened wait e).packet = e.packet := by
  rw [shortened]
  split <;> rfl

theorem QueueInv.applyRepairWait (h : QueueInv U base q) (epoch wait measuredAt now : ℕ) :
    QueueInv U base (q.applyRepairWait epoch wait measuredAt now) := by
  rw [VideoReorder.applyRepairWait]
  split
  · exact h
  rename_i hgo
  have hmin : 0 < videoReorderMinWait := by decide
  rw [not_or, not_or, not_or] at hgo
  have hne : q.pending.rows ≠ [] := fun hn => hgo.1 (by rw [hn]; rfl)
  have hcch := cached_applyRepairWait h.cached (show 0 < wait by omega) hne
  -- an entry keeps its packet, so its number and its size
  have hmem : ∀ e ∈ (q.pending.update (fun _ => true) (shortened wait)
      (shortened_sequence wait)).rows, ∃ x ∈ q.pending.rows, U.of e = U.of x := fun e he => by
    obtain ⟨x, hx, rfl⟩ := mem_map.mp he
    exact ⟨x, hx, congrArg U.number (shortened_packet wait x)⟩
  refine ⟨⟨h.next, fun e he => ?_, ?_, ?_, h.room, ⟨hcch.positive, hcch.least⟩⟩, fun e he => ?_⟩
  · obtain ⟨x, hx, heq⟩ := hmem e he
    rw [heq]
    exact h.ahead x hx
  · refine h.bytes.trans ?_
    refine congrArg List.sum ?_
    refine Eq.trans ?_ map_map.symm
    refine map_congr_left fun e _ => ?_
    exact congrArg (fun a => (Rtp.marshalSize a : ℤ)) (shortened_packet wait e).symm
  · exact (length_map _).trans_le h.packets
  · obtain ⟨x, hx, heq⟩ := hmem e he
    rw [heq]
    exact h.missing x hx

theorem applyRepairWait_packet (epoch wait measuredAt now : ℕ) :
    ∀ e ∈ (q.applyRepairWait epoch wait measuredAt now).pending.rows,
      ∃ x ∈ q.pending.rows, e.packet = x.packet := by
  rw [VideoReorder.applyRepairWait]
  split
  · exact fun e he => ⟨e, he, rfl⟩
  · intro e he
    obtain ⟨x, hx, rfl⟩ := mem_map.mp he
    exact ⟨x, hx, shortened_packet wait x⟩

/-! ### Pushes -/

theorem repairWait_pos (q : VideoReorder α) (now : ℕ) : 0 < q.repairWait now := by
  rw [repairWait]
  split
  · decide
  · omega

variable {packet : α}

section

variable (h : Holding U base q) (now : ℕ)
  (hahd : base ≤ U.number packet ∧ U.number packet < base + 2 ^ 15)
  (hnew : q.pending.get (Rtp.sequenceNumber packet) = none)
  (hpk : q.pending.rows.length < videoReorderPackets)
  (hrm : q.bytes + Rtp.marshalSize packet ≤ videoReorderBytes)

include h hahd hnew hpk hrm

/-- A new packet, with a deadline that is the one kept if nothing was pending. -/
theorem Holding.put {expires : ℕ} (hex : 0 < expires)
    (hfst : q.pending.rows = [] → q.expires = expires) :
    Holding U base { q with
      expires := if q.dirty = false ∧ expires < q.expires then expires else q.expires
      pending := q.pending.put ⟨packet, now, expires⟩
      bytes := q.bytes + Rtp.marshalSize packet } := by
  have hrw : (q.pending.put ⟨packet, now, expires⟩).rows = q.pending.rows ++
    [⟨packet, now, expires⟩] := by
    refine congrArg (· ++ _) (filter_eq_self.mpr fun x hx => decide_eq_true ?_)
    exact Table.get_eq_none.mp hnew x hx
  refine ⟨h.next, Table.forall_put hahd h.ahead, ?_, ?_, hrm,
    Table.forall_put hex h.cached.positive, fun hc _ => ?_⟩
  · dsimp only
    rw [hrw, totalSize, map_append, sum_append, ← totalSize, ← h.bytes]
    simp [OrderedVideoPacket.size]
  · dsimp only
    rw [hrw, length_append, length_singleton]
    exact hpk
  · have hc : q.dirty = false := hc
    have hsf : (⟨packet, now, expires⟩ : OrderedVideoPacket α) ∈
        (q.pending.put ⟨packet, now, expires⟩).rows := Table.mem_put.mpr (.inl rfl)
    rcases eq_nil_or_concat' q.pending.rows with hn | ⟨_, _, hso⟩
    · have hkt := hfst hn
      rw [if_neg (by omega), hkt]
      refine ⟨⟨_, hsf, rfl⟩, Table.forall_put (le_refl _) fun e he => ?_⟩
      rw [hn] at he
      exact absurd he not_mem_nil
    · obtain ⟨⟨x, hx, hxe⟩, hle⟩ := h.cached.least hc (by simp [hso])
      split
      · next hls =>
        refine ⟨⟨_, hsf, rfl⟩, Table.forall_put (le_refl _) fun e he => ?_⟩
        exact hls.2.le.trans (hle e he)
      · next hmo =>
        refine ⟨⟨x, ?_, hxe⟩, Table.forall_put ?_ hle⟩
        · rw [hrw]
          exact mem_append_left _ hx
        · by_contra hlt
          exact hmo ⟨hc, not_le.mp hlt⟩

theorem Holding.hold (hP : ∀ e ∈ q.pending.rows, P e.packet) (hpkt : P packet)
    (hsn : q.seen = true) : Stepped U base P (q.hold packet now) := by
  have hhd : ∀ {q' : VideoReorder α} {expires}, q'.pending = q.pending →
      ∀ e ∈ (q'.pending.put ⟨packet, now, expires⟩).rows, P e.packet := by
    intro q' expires heq
    rw [heq]
    exact Table.forall_put hpkt hP
  rw [VideoReorder.hold]
  split
  · next hemp =>
    have hn := length_eq_zero_iff.mp hemp
    have hopd : Holding U base { q with
        wait := 0, waitUntil := 0, epoch := q.epoch + 1, expires := now + videoReorderWait
        dirty := false } := by
      refine ⟨h.next, h.ahead, h.bytes, h.packets, h.room, h.cached.positive, fun _ hne => ?_⟩
      exact absurd hn hne
    refine (hopd.put now hahd hnew hpk hrm (Nat.add_pos_right _ (repairWait_pos _ _))
      fun _ => ?_).flush 0 false (hhd rfl) hsn
    rw [repairWait, if_pos (.inl rfl)]
  · next hso =>
    refine (h.put now hahd hnew hpk hrm (Nat.add_pos_right _ (repairWait_pos _ _))
      fun hn => ?_).flush 0 false (hhd rfl) hsn
    exact absurd (length_eq_zero_iff.mpr hn) hso

end

theorem Stepped.append {r r' : List α × VideoReorder α}
    (hi : ∃ base', Progress U base base' r.1 ∧ Stepped U base' P r') (ho : ∀ a ∈ r.1, P a) :
    Stepped U base P (r.1 ++ r'.1, r'.2) := by
  obtain ⟨base', hp, h'⟩ := hi
  obtain ⟨base'', hinv', hprg'⟩ := h'.inv
  refine ⟨⟨base'', hinv', hp.append hprg'⟩, fun a ha => ?_, h'.held, h'.seen⟩
  exact (mem_append.mp ha).elim (ho a) (h'.out a)

theorem QueueInv.unchanged (h : QueueInv U base q)
    (hP : ∀ e ∈ q.pending.rows, P e.packet) (hsn : q.seen = true) : Stepped U base P ([], q) :=
  ⟨⟨base, h, .nil base⟩, fun _ ha => absurd ha not_mem_nil, hP, hsn⟩

/-- A packet is pushed, with the integer that is nearest to the one expected. -/
theorem QueueInv.push (h : QueueInv U base q) (now : ℕ)
    (hnr : U.number packet = Serial.near base (Rtp.sequenceNumber packet))
    (hP : ∀ e ∈ q.pending.rows, P e.packet) (hpkt : P packet) (hsn : q.seen = true) :
    Stepped U base P (q.pushFormats packet now) := by
  have hdlt : rtpSequenceDelta (Rtp.sequenceNumber packet) q.next = U.number packet - base := by
    rw [rtpSequenceDelta_eq, hnr, Serial.near, h.next]
    omega
  have hbd := BitVec.toInt_lt (x := Rtp.sequenceNumber packet - q.next)
  rw [← rtpSequenceDelta_eq, hdlt] at hbd
  rw [pushFormats, if_neg (show ¬ q.seen = false by simp [hsn])]
  dsimp only
  split
  · exact h.unchanged hP hsn
  next hfwd =>
  rw [hdlt] at hfwd
  split
  · -- the packet that is expected
    next hexp =>
    have heq : U.number packet = base := by
      rw [hnr, Serial.near, ← h.next, hexp]
      simp
    have hhld : Holding U (base + 1) { q with next := q.next + 1 } := by
      refine ⟨?_, fun e he => ?_, h.bytes, h.packets, h.room, h.cached.positive, h.cached.least⟩
      · rw [Serial.ofInt_succ, ← h.next]
      · have := h.ahead e he
        have := h.missing e he
        omega
    refine Stepped.append (r := ([packet], q)) ⟨base + 1, ?_, hhld.flush 0 false hP hsn⟩ ?_
    · rw [← heq]
      exact .single packet
    · exact fun a ha => mem_singleton.mp ha ▸ hpkt
  split
  · exact h.unchanged hP hsn
  next hfr =>
  split
  · exact h.unchanged hP hsn
  next hsml =>
  have hnew : q.pending.get (Rtp.sequenceNumber packet) = none := by simpa using hfr
  split
  · -- everything is released first
    have hf := h.flush now true hP hsn
    have hemp := h.flush_forced now
    obtain ⟨base', hi, hp⟩ := hf.inv
    have hle := hp.le
    have hwin : base' ≤ base + 2 ^ 15 := by
      refine hp.le_of_forall (by omega) ?_
      exact (h.flush now true (P := fun a => U.number a < base + 2 ^ 15)
        (fun e he => (h.ahead e he).2)
        hsn).out
    split
    · exact hf
    next hfwd' =>
    refine .append ⟨base', hp, ?_⟩ hf.out
    have hdlt' : rtpSequenceDelta (Rtp.sequenceNumber packet) (q.flushFormats now true).2.next =
        U.number packet - base' := by
      rw [rtpSequenceDelta_eq, hi.next, U.aligned packet]
      exact Serial.sub_toInt (by omega) (by omega)
    rw [hdlt'] at hfwd'
    have hby := hi.bytes
    rw [hemp] at hby
    have hby : (q.flushFormats now true).2.bytes = 0 := hby
    refine hi.hold now (by omega) ?_ ?_ ?_ hf.held hpkt hf.seen
    · exact Table.get_eq_none.mpr (by simp [hemp])
    · rw [hemp, length_nil]
      decide
    · rw [hby, videoReorderBytes]
      omega
  · next hft =>
    exact h.hold now (by omega) hnew (by omega) (by omega) hP hpkt hsn

end Queue

/-! ### Histories -/

/-- A packet with its place among the pushes, and its number unwrapped when it was pushed. -/
structure Tagged (π : Type*) [Rtp π] where
  packet : π
  index : ℕ
  unwrapped : ℤ
  aligned : Rtp.sequenceNumber packet = BitVec.ofInt 16 unwrapped

section Histories

variable {π : Type*} [Rtp π]

instance : Rtp (Tagged π) where
  sequenceNumber t := Rtp.sequenceNumber t.packet
  marshalSize t := Rtp.marshalSize t.packet

def tagged : Unwrapping (Tagged π) where
  number := Tagged.unwrapped
  aligned := Tagged.aligned

variable (π) in
/-- The queue, with what was pushed to it and what it has emitted. -/
structure ReorderSystem where
  queue : VideoReorder (Tagged π) := {}
  pushed : List (Tagged π) := []
  emitted : List (Tagged π) := []

inductive ReorderInput (π : Type*) where
  | push (packet : π) (now : ℕ)
  | flush (now : ℕ) (force : Bool)
  | applyRepairWait (epoch wait measuredAt now : ℕ)

/-- The integer expected next: one more than the last one emitted, or that of the first packet. -/
def ReorderSystem.expected (s : ReorderSystem π) (packet : π) : ℤ :=
  s.emitted.getLast?.elim ((Rtp.sequenceNumber packet).toNat : ℤ) fun t => t.unwrapped + 1

def ReorderSystem.tag (s : ReorderSystem π) (packet : π) : Tagged π where
  packet := packet
  index := s.pushed.length
  unwrapped := Serial.near (s.expected packet) (Rtp.sequenceNumber packet)
  aligned := (Serial.ofInt_near _ _).symm

/-- A call, and what it emits. -/
def reorderStep (s : ReorderSystem π) : ReorderInput π → ReorderSystem π × List (Tagged π)
  | .push packet now =>
    let r := s.queue.pushFormats (s.tag packet) now
    (⟨r.2, s.pushed ++ [s.tag packet], s.emitted ++ r.1⟩, r.1)
  | .flush now force =>
    let r := s.queue.flushFormats now force
    (⟨r.2, s.pushed, s.emitted ++ r.1⟩, r.1)
  | .applyRepairWait epoch wait measuredAt now =>
    ({ s with queue := s.queue.applyRepairWait epoch wait measuredAt now }, [])

/-- What the inputs push. -/
def ReorderInput.packet? : ReorderInput π → Option π
  | .push packet _ => some packet
  | _ => none

/-- What has been emitted and what is pending was pushed, in the order of the integers. -/
structure ReorderInv (s : ReorderSystem π) (base : ℤ) : Prop where
  queue : QueueInv tagged base s.queue
  seen : s.queue.seen = true
  progress : ∃ first, Progress tagged first base s.emitted
  emitted : s.emitted ≠ []
  subset : ∀ t ∈ s.emitted, t ∈ s.pushed
  held : ∀ e ∈ s.queue.pending.rows, e.packet ∈ s.pushed

/-- Nothing has been pushed, or the queue is in order. -/
def ReorderSystem.Ordered (s : ReorderSystem π) : Prop :=
  s = {} ∨ ∃ base, ReorderInv s base

variable {s : ReorderSystem π}

theorem ReorderInv.expected {base : ℤ} (h : ReorderInv s base) (packet : π) :
    s.expected packet = base := by
  obtain ⟨first, hp⟩ := h.progress
  rw [hp.last, ReorderSystem.expected]
  cases hla : s.emitted.getLast? with
  | none => exact absurd (List.getLast?_eq_none_iff.mp hla) h.emitted
  | some => rfl

theorem ReorderInv.stepped {base : ℤ} (h : ReorderInv s base)
    {pushed : List (Tagged π)} {r : List (Tagged π) × VideoReorder (Tagged π)}
    (hpsh : ∀ t ∈ s.pushed, t ∈ pushed) (hr : Stepped tagged base (· ∈ pushed) r) :
    ∃ base, ReorderInv ⟨r.2, pushed, s.emitted ++ r.1⟩ base := by
  obtain ⟨base', hi, hp⟩ := hr.inv
  obtain ⟨first, hbef⟩ := h.progress
  refine ⟨base', hi, hr.seen, ⟨first, hbef.append hp⟩, ?_, fun t ht => ?_, hr.held⟩
  · exact append_ne_nil_of_left_ne_nil h.emitted _
  · exact (mem_append.mp ht).elim (fun ht => hpsh t (h.subset t ht)) (hr.out t)

/-- A queue with nothing in it. -/
theorem QueueInv.fresh (base : ℤ) : QueueInv (tagged : Unwrapping (Tagged π)) base
      { seen := true, next := BitVec.ofInt 16 base } := by
  have hrm : (0 : ℤ) ≤ videoReorderBytes := Int.natCast_nonneg _
  refine ⟨⟨rfl, ?_, rfl, Nat.zero_le _, hrm, ?_, fun _ hne => absurd rfl hne⟩, ?_⟩ <;>
    exact fun e he => absurd he not_mem_nil

/-- The first packet is handed on. -/
theorem ordered_first (packet : π) (now : ℕ) :
    ∃ base, ReorderInv (reorderStep ({} : ReorderSystem π) (.push packet now)).1 base := by
  set t := ({} : ReorderSystem π).tag packet with ht
  have hfst : ({} : VideoReorder (Tagged π)).pushFormats t now =
      ({ seen := true, next := BitVec.ofInt 16 t.unwrapped } : VideoReorder _).pushFormats t
      now := by
    rw [← t.aligned]
    rfl
  have hnr : tagged.number t = Serial.near t.unwrapped (Rtp.sequenceNumber t) := by
    rw [show Rtp.sequenceNumber t = BitVec.ofInt 16 t.unwrapped from t.aligned,
      Serial.near_ofInt (by omega) (by omega)]
    rfl
  have hr := (QueueInv.fresh t.unwrapped).push now hnr (P := (· ∈ [t]))
    (fun e he => absurd he not_mem_nil) mem_cons_self rfl
  rw [← hfst] at hr
  obtain ⟨base, hi, hp⟩ := hr.inv
  refine ⟨base, hi, hr.seen, ⟨_, hp⟩, ?_, hr.out, hr.held⟩
  have hemt : (({} : VideoReorder (Tagged π)).pushFormats t now).1 ≠ [] := by
    rw [pushFormats, if_pos rfl, if_neg (by simp [rtpSequenceDelta]), if_pos rfl]
    exact cons_ne_nil _ _
  exact hemt

theorem ReorderSystem.Ordered.step (h : s.Ordered) (i : ReorderInput π) :
    (reorderStep s i).1.Ordered := by
  rcases h with rfl | ⟨base, h⟩
  · cases i with
    | push packet now => exact .inr (ordered_first packet now)
    | flush | applyRepairWait => exact .inl rfl
  · right
    cases i with
    | push packet now =>
      have hnr : tagged.number (s.tag packet) =
          Serial.near base (Rtp.sequenceNumber (s.tag packet)) := by
        rw [← h.expected packet]
        rfl
      have hmem : s.tag packet ∈ s.pushed ++ [s.tag packet] :=
        mem_append_right _ mem_cons_self
      exact h.stepped (fun t ht => mem_append_left _ ht) (h.queue.push now hnr
        (fun e he => mem_append_left _ (h.held e he)) hmem h.seen)
    | flush now force =>
      exact h.stepped (fun t ht => ht) (h.queue.flush now force h.held h.seen)
    | applyRepairWait epoch wait measuredAt now =>
      refine ⟨base, h.queue.applyRepairWait epoch wait measuredAt now, ?_, h.progress, h.emitted,
        h.subset, fun e he => ?_⟩
      · refine Eq.trans ?_ h.seen
        dsimp only [reorderStep, VideoReorder.applyRepairWait]
        split <;> rfl
      · obtain ⟨x, hx, heq⟩ := applyRepairWait_packet epoch wait measuredAt now e he
        rw [heq]
        exact h.held x hx

variable (inputs : List (ReorderInput π))

theorem run_ordered : (run reorderStep ({} : ReorderSystem π) inputs).Ordered :=
  run_invariant (P := ReorderSystem.Ordered) (fun _ i h => h.step i) (.inl rfl) inputs

/-- The log of pushes is what the inputs push, numbered. -/
theorem pushed_eq (s : ReorderSystem π)
    (hs : s.pushed.map Tagged.index = List.range s.pushed.length) :
    (run reorderStep s inputs).pushed.map Tagged.packet =
      s.pushed.map Tagged.packet ++ inputs.filterMap ReorderInput.packet? ∧
    (run reorderStep s inputs).pushed.map Tagged.index =
      List.range (run reorderStep s inputs).pushed.length := by
  induction inputs generalizing s with
  | nil => exact ⟨(append_nil _).symm, hs⟩
  | cons i inputs ih =>
    cases i with
    | push packet now =>
      obtain ⟨hpk, hixs⟩ := ih (reorderStep s (.push packet now)).1 (by
        simp [reorderStep, hs, range_succ, ReorderSystem.tag])
      refine ⟨hpk.trans ?_, hixs⟩
      simp [reorderStep, ReorderSystem.tag, ReorderInput.packet?]
    | flush | applyRepairWait => exact ih _ hs

/-- The queue of a system in order, empty or not. -/
theorem ReorderSystem.Ordered.inv (h : s.Ordered) : ∃ base, QueueInv tagged base s.queue := by
  rcases h with rfl | ⟨base, h⟩
  · have hi : QueueInv (tagged : Unwrapping (Tagged π)) 0 _ := QueueInv.fresh 0
    exact ⟨0, ⟨⟨rfl, hi.ahead, hi.bytes, hi.packets, hi.room, hi.cached.positive,
      hi.cached.least⟩, hi.missing⟩⟩
  · exact ⟨base, h.queue⟩

theorem ReorderSystem.Ordered.emitted_increasing (h : s.Ordered) :
    s.emitted.Pairwise fun a b => a.unwrapped < b.unwrapped := by
  rcases h with rfl | ⟨base, h⟩
  · exact .nil
  · obtain ⟨first, hp⟩ := h.progress
    exact hp.increasing

theorem ReorderSystem.Ordered.emitted_subset (h : s.Ordered) : s.emitted ⊆ s.pushed := by
  rcases h with rfl | ⟨base, h⟩
  · exact nil_subset _
  · exact fun t ht => h.subset t ht

/-- In every history of pushes, flushes and estimates, at any times: what was emitted was pushed,
each push at most once, in the order of the unwrapped numbers. What is pending is strictly ahead of
the expected number by less than half the space, is counted, and within the limits. A flush leaves
nothing that has expired, and it emits, gaps included, what the simple loop emits. -/
theorem video_reorder_ordered (inputs : List (ReorderInput π)) :
    let s := run reorderStep ({} : ReorderSystem π) inputs
    s.pushed.map Tagged.packet = inputs.filterMap ReorderInput.packet? ∧
    s.pushed.map Tagged.index = List.range s.pushed.length ∧
    s.emitted ⊆ s.pushed ∧ (s.emitted.map Tagged.index).Nodup ∧
    (s.emitted.Pairwise fun a b => a.unwrapped < b.unwrapped) ∧
    (∀ e ∈ s.queue.pending.rows, 0 < (e.sequence - s.queue.next).toNat ∧
      (e.sequence - s.queue.next).toNat < 2 ^ 15) ∧
    s.queue.bytes = totalSize s.queue.pending.rows ∧
    s.queue.pending.rows.length ≤ videoReorderPackets ∧ s.queue.bytes ≤ videoReorderBytes ∧
    (∀ now, ∀ e ∈ (s.queue.flushFormats now false).2.pending.rows, now < e.expires) ∧
    ∀ now force fuel, 2 * s.queue.pending.rows.length ≤ fuel →
      (s.queue.flushFormats now force).1 = naiveFlush now force fuel s.queue.next s.queue.pending ∧
      (s.queue.flushGapsFormats now force).1 =
        naiveFlush now force fuel s.queue.next s.queue.pending := by
  intro s
  have hord : s.Ordered := run_ordered inputs
  obtain ⟨hpk, hixs⟩ := pushed_eq inputs ({} : ReorderSystem π) rfl
  obtain ⟨base, hi⟩ := hord.inv
  have hinc := hord.emitted_increasing
  have hsb := hord.emitted_subset
  refine ⟨hpk, hixs, hsb, ?_, hinc, fun e he => ?_, hi.bytes, hi.packets,
    hi.room, hi.flush_unexpired, fun now force fuel hfu => hi.flush_naive now force hfu⟩
  · have hnd : s.emitted.Nodup :=
      hinc.imp fun hlt heq => absurd (congrArg Tagged.unwrapped heq) (ne_of_lt hlt)
    have hinj : (s.pushed.map Tagged.index).Nodup := by
      rw [hixs]
      exact nodup_range
    refine hnd.map_on fun a ha b hb heq => ?_
    exact inj_on_of_nodup_map hinj (hsb ha) (hsb hb) heq
  · have hahd := hi.ahead e he
    have hmis := hi.missing e he
    have hdst := Serial.sub_toNat (w := 16) hahd.1 (by omega)
    rw [← hi.next, ← tagged.sequence_eq e] at hdst
    omega

/-- A flush after any history loses nothing: what it emits and what it leaves are the packets that
were pending. One that is forced leaves none. -/
theorem flush_loses_nothing (inputs : List (ReorderInput π)) (now : ℕ) (force : Bool) :
    let q := (run reorderStep ({} : ReorderSystem π) inputs).queue
    ((q.flushFormats now force).1 ++ (q.flushFormats now force).2.pending.rows.map (·.packet)).Perm
        (q.pending.rows.map (·.packet)) ∧
      (q.flushFormats now true).2.pending.rows = [] := by
  intro q
  obtain ⟨base, hi⟩ := (run_ordered inputs).inv
  obtain ⟨l, hl⟩ := hi.lists
  have hfl := flushFormats_flushed now force hl hi.cached
  refine ⟨?_, hi.flush_forced now⟩
  rw [hfl.out, ← map_append]
  refine Perm.map _ ((hfl.perm.symm.append_left _).trans ?_)
  rw [drain_append]
  exact hl.perm

end Histories

end Noxa.Webrtc

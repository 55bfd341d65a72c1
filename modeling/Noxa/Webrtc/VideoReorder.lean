import Mathlib.Data.List.Sort
import Noxa.Lib.Serial
import Noxa.Lib.Table
import Noxa.Webrtc.Packet

/-!
# The video reorder queue

`videoReorder` holds packets back behind a missing one, up to a deadline, and hands them on in the
order of their 16-bit sequence numbers. Contiguous packets are found in the map. Gaps that are given
up are released from a sorted list, with the earliest deadline of what is left at each place.

A packet is of any type with a sequence number and a size (`Rtp`); the format it was read in is part
of it. What is emitted is returned. Times are nanoseconds after the zero time.

For the proofs the numbers are unwrapped to integers (`Unwrapping`). What is pending is then a
sorted list ahead of an integer, and a flush takes off the front of it (`drain`). Both the queue and
the simple loop that looks for the nearest packet again and again (`naiveFlush`) do that.

## Main definitions

* `VideoReorder`, `pushFormats`, `flushFormats`, `flushGapsFormats`, `applyRepairWait` — the queue
* `naiveFlush` — the loop without the sorted list
* `drain` — what a flush takes off a sorted list

## Main results

* `flushFormats_flushed` — a flush of the queue is a `drain`
* `naiveFlush_eq` — and so is the loop
-/

namespace Noxa.Webrtc

open List

/-- What the queue reads of a packet. -/
class Rtp (α : Type*) where
  sequenceNumber : α → SequenceNumber
  marshalSize : α → ℕ

def videoReorderWait : ℕ := 2500 * 1000000

def videoReorderMinWait : ℕ := 250 * 1000000

def videoRepairRTTFreshness : ℕ := 10 * 1000000000

def videoReorderPackets : ℕ := 16384

def videoReorderBytes : ℕ := 16 * 1024 * 1024

structure OrderedVideoPacket (α : Type*) where
  packet : α
  arrived : ℕ
  expires : ℕ

section Queue

variable {α : Type*} [Rtp α]

def OrderedVideoPacket.sequence (e : OrderedVideoPacket α) : SequenceNumber :=
  Rtp.sequenceNumber e.packet

def OrderedVideoPacket.size (e : OrderedVideoPacket α) : ℤ := Rtp.marshalSize e.packet

variable (α) in
abbrev PendingVideo := Table (OrderedVideoPacket α) OrderedVideoPacket.sequence

variable (α) in
structure VideoReorder where
  seen : Bool := false
  next : SequenceNumber := 0
  bytes : ℤ := 0
  pending : PendingVideo α := Table.empty
  expires : ℕ := 0
  dirty : Bool := false
  wait : ℕ := 0
  waitUntil : ℕ := 0
  epoch : ℕ := 0

namespace VideoReorder

variable (q : VideoReorder α) (packet : α) (now : ℕ) (force : Bool)

def repairWait : ℕ :=
  if q.wait = 0 ∨ q.waitUntil < now then videoReorderWait else q.wait

/-- A packet held back no longer than the estimate. -/
def shortened (wait : ℕ) (e : OrderedVideoPacket α) : OrderedVideoPacket α :=
  if e.arrived + wait < e.expires then { e with expires := e.arrived + wait } else e

theorem shortened_sequence (wait : ℕ) (e : OrderedVideoPacket α) :
    (shortened wait e).sequence = e.sequence := by
  rw [shortened]
  split <;> rfl

/-- The deadline that is kept, lowered by what was shortened. -/
def loweredExpires (wait : ℕ) : ℕ :=
  if q.dirty then q.expires
  else q.pending.rows.foldl (fun expires e =>
    if e.arrived + wait < e.expires ∧ (expires = 0 ∨ e.arrived + wait < expires) then
      e.arrived + wait
    else expires) q.expires

/-- An estimate shortens what is pending, and never extends it. -/
def applyRepairWait (epoch wait measuredAt now : ℕ) : VideoReorder α :=
  if q.pending.rows.length = 0 ∨ q.epoch ≠ epoch ∨ wait < videoReorderMinWait ∨
      videoReorderWait < wait ∨ measuredAt = 0 ∨ now < measuredAt ∨
      videoRepairRTTFreshness < now - measuredAt then q
  else
    { q with
      wait := wait
      waitUntil := measuredAt + videoRepairRTTFreshness
      pending := q.pending.update (fun _ => true) (shortened wait) (shortened_sequence wait)
      expires := q.loweredExpires wait }

/-- The earliest deadline, or zero. -/
def earliest (rows : List (OrderedVideoPacket α)) : ℕ :=
  rows.foldl (fun expires e => if expires = 0 ∨ e.expires < expires then e.expires else expires) 0

/-- Recomputed if the entry it came from is gone. -/
def deadline : ℕ × VideoReorder α :=
  if q.dirty then (earliest q.pending.rows,
    { q with expires := earliest q.pending.rows, dirty := false })
  else (q.expires, q)

/-- Nothing is pending any more. -/
def settle : VideoReorder α :=
  { q with expires := 0, dirty := false, wait := 0, waitUntil := 0 }

/-- An entry leaves the queue. -/
def remove (e : OrderedVideoPacket α) : VideoReorder α :=
  { q with
    pending := q.pending.delete fun x => decide (x.sequence = e.sequence)
    bytes := q.bytes - e.size
    next := e.sequence + 1 }

/-- Each entry with the earliest deadline from there on. -/
def suffixDeadlines : List (OrderedVideoPacket α) → List (OrderedVideoPacket α × ℕ)
  | [] => []
  | e :: rest =>
    match suffixDeadlines rest with
    | [] => [(e, e.expires)]
    | (x, expires) :: rest =>
      (e, if expires < e.expires then expires else e.expires) :: (x, expires) :: rest

/-- The loop over the sorted list. -/
def releaseOrdered (now : ℕ) (force : Bool) :
    List (OrderedVideoPacket α × ℕ) → VideoReorder α → List α × VideoReorder α
  | [], q => ([], q.settle)
  | (e, expires) :: rest, q =>
    if e.sequence ≠ q.next ∧ force = false ∧ now < expires then
      ([], { q with expires := expires, dirty := false })
    else
      let r := releaseOrdered now force rest (q.remove e)
      (e.packet :: r.1, r.2)

def flushGapsFormats : List α × VideoReorder α :=
  let ordered := q.pending.rows.insertionSort fun a b =>
    (a.sequence - q.next).toNat ≤ (b.sequence - q.next).toNat
  releaseOrdered now force (suffixDeadlines ordered) q

/-- The loop of `flushFormats`, one round for each packet that is pending. -/
def flushRounds (now : ℕ) (force : Bool) : ℕ → VideoReorder α → List α × VideoReorder α
  | 0, q => ([], q.settle)
  | rounds + 1, q =>
    match q.pending.get q.next with
    | none =>
      if force = true then q.flushGapsFormats now force
      else if now < q.deadline.1 then ([], q.deadline.2)
      else q.deadline.2.flushGapsFormats now force
    | some e =>
      let r := flushRounds now force rounds
        { q.remove e with dirty := if e.expires = q.expires then true else q.dirty }
      (e.packet :: r.1, r.2)

def flushFormats : List α × VideoReorder α :=
  flushRounds now force q.pending.rows.length q

/-- A packet is held back, and the packets that are contiguous now are released. -/
def hold : List α × VideoReorder α :=
  let q := if q.pending.rows.length = 0 then
      { q with
        wait := 0
        waitUntil := 0
        epoch := q.epoch + 1
        expires := now + videoReorderWait
        dirty := false }
    else q
  let expires := now + q.repairWait now
  { q with
    expires := if q.dirty = false ∧ expires < q.expires then expires else q.expires
    pending := q.pending.put ⟨packet, now, expires⟩
    bytes := q.bytes + Rtp.marshalSize packet }.flushFormats 0 false

def pushFormats : List α × VideoReorder α :=
  let sequence := Rtp.sequenceNumber packet
  let q := if q.seen = false then { q with seen := true, next := sequence } else q
  if rtpSequenceDelta sequence q.next < 0 then ([], q)
  else if sequence = q.next then
    let r := { q with next := q.next + 1 }.flushFormats 0 false
    (packet :: r.1, r.2)
  else if (q.pending.get sequence).isSome = true then ([], q)
  else if Rtp.marshalSize packet > 65535 then ([], q)
  else if q.pending.rows.length ≥ videoReorderPackets ∨
      q.bytes + Rtp.marshalSize packet > videoReorderBytes then
    -- the oldest gap is declared lost
    let flushed := q.flushFormats now true
    if rtpSequenceDelta sequence flushed.2.next < 0 then flushed
    else
      let r := flushed.2.hold packet now
      (flushed.1 ++ r.1, r.2)
  else q.hold packet now

end VideoReorder

/-! ### The loop without the sorted list -/

/-- Emit the next packet if it is there. Otherwise, if that is forced or a deadline has passed, go
on at the nearest one. -/
def naiveFlush (now : ℕ) (force : Bool) : ℕ → SequenceNumber → PendingVideo α → List α
  | 0, _, _ => []
  | fuel + 1, next, pending =>
    match pending.get next with
    | some e =>
      e.packet :: naiveFlush now force fuel (next + 1)
        (pending.delete fun x => decide (x.sequence = e.sequence))
    | none =>
      match pending.rows.argmin fun e => (e.sequence - next).toNat with
      | none => []
      | some e =>
        if force = true ∨ ∃ x ∈ pending.rows, x.expires ≤ now then
          naiveFlush now force fuel e.sequence pending
        else []

/-! ### Sorted lists -/

variable (α) in
/-- An integer for each packet, with its sequence number. -/
structure Unwrapping where
  number : α → ℤ
  aligned : ∀ a, Rtp.sequenceNumber a = BitVec.ofInt 16 (number a)

namespace Unwrapping

variable (U : Unwrapping α)

def of (e : OrderedVideoPacket α) : ℤ := U.number e.packet

theorem sequence_eq (e : OrderedVideoPacket α) : e.sequence = BitVec.ofInt 16 (U.of e) :=
  U.aligned e.packet

/-- What a flush takes off a sorted list, and what it leaves. -/
def drain (now : ℕ) (force : Bool) : ℤ → List (OrderedVideoPacket α) →
    List (OrderedVideoPacket α) × List (OrderedVideoPacket α)
  | _, [] => ([], [])
  | base, e :: rest =>
    if U.of e = base ∨ force = true ∨ ∃ x ∈ e :: rest, x.expires ≤ now then
      let r := drain now force (U.of e + 1) rest
      (e :: r.1, r.2)
    else ([], e :: rest)

/-- Where the next packet is expected after these. -/
def after (base : ℤ) : List (OrderedVideoPacket α) → ℤ
  | [] => base
  | e :: rest => after (U.of e + 1) rest

/-- The list is sorted, and lies at or ahead of the base by less than half the space. -/
structure Sorted (base : ℤ) (l : List (OrderedVideoPacket α)) : Prop where
  increasing : l.Pairwise fun a b => U.of a < U.of b
  ahead : ∀ e ∈ l, base ≤ U.of e ∧ U.of e < base + 2 ^ 15

variable {U} {base : ℤ} {e : OrderedVideoPacket α} {l rest : List (OrderedVideoPacket α)}

theorem Sorted.head_le {x : OrderedVideoPacket α} (h : U.Sorted base (e :: rest))
    (hx : x ∈ e :: rest) : U.of e ≤ U.of x := by
  rcases mem_cons.mp hx with rfl | hx
  · exact le_rfl
  · exact ((pairwise_cons.mp h.increasing).1 x hx).le

theorem Sorted.tail (h : U.Sorted base (e :: rest)) : U.Sorted (U.of e + 1) rest := by
  obtain ⟨hfst, hrs⟩ := pairwise_cons.mp h.increasing
  refine ⟨hrs, fun x hx => ?_⟩
  have hlt := hfst x hx
  have hx' := h.ahead x (mem_cons_of_mem _ hx)
  have he := h.ahead e mem_cons_self
  omega

variable (now : ℕ) (force : Bool)

theorem drain_append : (U.drain now force base l).1 ++ (U.drain now force base l).2 = l := by
  induction l generalizing base with
  | nil => rfl
  | cons e rest ih =>
    rw [drain]
    split
    · dsimp only
      rw [cons_append, ih]
    · rfl

/-- What is left lies ahead of where the next packet is expected. -/
theorem drain_rest (h : U.Sorted base l) : base ≤ U.after base (U.drain now force base l).1 ∧
    ∀ e ∈ (U.drain now force base l).2, U.after base (U.drain now force base l).1 < U.of e ∧
      U.of e < U.after base (U.drain now force base l).1 + 2 ^ 15 := by
  induction l generalizing base with
  | nil => exact ⟨le_refl _, fun e he => absurd he not_mem_nil⟩
  | cons e rest ih =>
    have he := h.ahead e mem_cons_self
    rw [drain]
    split
    · obtain ⟨hle, hrs⟩ := ih h.tail
      rw [after]
      exact ⟨by omega, hrs⟩
    · next hsp =>
      rw [not_or] at hsp
      refine ⟨le_refl _, fun x hx => ?_⟩
      have hx' := h.ahead x hx
      have hle := h.head_le hx
      rw [after]
      exact ⟨by omega, hx'.2⟩

/-- What is taken off comes before where the next packet is expected. -/
theorem drain_taken (h : U.Sorted base l) : ∀ e ∈ (U.drain now force base l).1,
      base ≤ U.of e ∧ U.of e < U.after base (U.drain now force base l).1 := by
  induction l generalizing base with
  | nil => exact fun e he => absurd he not_mem_nil
  | cons e rest ih =>
    have he := h.ahead e mem_cons_self
    rw [drain]
    split
    · intro x hx
      have hle := (drain_rest now force h.tail).1
      rw [after]
      rcases mem_cons.mp hx with rfl | hm
      · exact ⟨he.1, by omega⟩
      · have hx' := ih h.tail x hm
        exact ⟨by omega, hx'.2⟩
    · exact fun x hx => absurd hx not_mem_nil

/-- Nothing that is left has expired, unless the flush was forced and nothing is left. -/
theorem drain_unexpired : ∀ e ∈ (U.drain now false base l).2, now < e.expires := by
  induction l generalizing base with
  | nil => exact fun e he => absurd he not_mem_nil
  | cons e rest ih =>
    rw [drain]
    split
    · exact ih
    rename_i hsp
    intro x hx
    by_contra hexp
    exact hsp (.inr (.inr ⟨x, hx, not_lt.mp hexp⟩))

theorem drain_forced : U.drain now true base l = (l, []) := by
  induction l generalizing base with
  | nil => rfl
  | cons e rest ih =>
    rw [drain, if_pos (.inr (.inl rfl)), ih]

/-! ### The list and the map -/

/-- What is pending, sorted. -/
structure Lists (U : Unwrapping α) (base : ℤ) (l : List (OrderedVideoPacket α))
    (next : SequenceNumber) (pending : PendingVideo α) : Prop where
  sorted : U.Sorted base l
  perm : l.Perm pending.rows
  next : next = BitVec.ofInt 16 base

section Lists

variable {base : ℤ} {e x : OrderedVideoPacket α} {l rest : List (OrderedVideoPacket α)}
  {next : SequenceNumber} {pending : PendingVideo α}

theorem Lists.sequence_eq_iff (h : U.Lists base l next pending)
    (hx : x ∈ l) : x.sequence = next ↔ U.of x = base := by
  rw [h.next, U.sequence_eq x]
  have hx := h.sorted.ahead x hx
  constructor
  · intro heq
    exact Serial.ofInt_inj (by omega) (by omega) heq
  · intro heq
    rw [heq]

/-- How far ahead a packet is. -/
theorem Lists.distance (h : U.Lists base l next pending) (hx : x ∈ l) :
    ((x.sequence - next).toNat : ℤ) = U.of x - base := by
  have hx := h.sorted.ahead x hx
  rw [h.next, U.sequence_eq x]
  exact Serial.sub_toNat hx.1 (by omega)

/-- Without its first packet, from there on. -/
theorem Lists.tail (h : U.Lists base (e :: rest) next pending) :
    U.Lists (U.of e + 1) rest (e.sequence + 1)
      (pending.delete fun x => decide (x.sequence = e.sequence)) where
  sorted := h.sorted.tail
  perm := by
    have hflt := h.perm.filter fun x => !decide (x.sequence = e.sequence)
    have hrs : rest.filter (fun x => !decide (x.sequence = e.sequence)) = rest := by
      refine filter_eq_self.mpr fun x hx => ?_
      rw [Bool.not_eq_true', decide_eq_false_iff_not, U.sequence_eq x, U.sequence_eq e]
      intro heq
      have hx' := h.sorted.tail.ahead x hx
      have := Serial.ofInt_inj (w := 16) (by omega) (by omega) heq
      omega
    rw [filter_cons_of_neg (by simp), hrs] at hflt
    exact hflt
  next := by
    rw [U.sequence_eq e, Serial.ofInt_succ]

theorem Lists.get_head (h : U.Lists base (e :: rest) next pending) (heq : U.of e = base) :
    pending.get next = some e := by
  refine Table.get_eq_some.mpr ⟨h.perm.mem_iff.mp mem_cons_self, ?_⟩
  exact (h.sequence_eq_iff mem_cons_self).mpr heq

theorem Lists.get_none (h : U.Lists base (e :: rest) next pending) (hne : U.of e ≠ base) :
    pending.get next = none := by
  refine Table.get_eq_none.mpr fun x hx hseq => ?_
  have hm := h.perm.mem_iff.mpr hx
  have heq := (h.sequence_eq_iff hm).mp hseq
  have hle := h.sorted.head_le hm
  have he := h.sorted.ahead e mem_cons_self
  omega

end Lists

end Unwrapping

/-! ### Deadlines -/

/-- A deadline of the packets, and none is earlier. -/
def Least (rows : List (OrderedVideoPacket α)) (expires : ℕ) : Prop :=
  (∃ e ∈ rows, e.expires = expires) ∧ ∀ e ∈ rows, expires ≤ e.expires

variable {rows rows' : List (OrderedVideoPacket α)} {expires now : ℕ} {q q' : VideoReorder α}

omit [Rtp α] in
theorem Least.perm (h : Least rows expires) (hpm : rows.Perm rows') : Least rows' expires := by
  obtain ⟨⟨e, he, heq⟩, hle⟩ := h
  exact ⟨⟨e, hpm.mem_iff.mp he, heq⟩, fun x hx => hle x (hpm.mem_iff.mpr hx)⟩

omit [Rtp α] in
theorem Least.lt_iff (h : Least rows expires) : now < expires ↔ ¬ ∃ x ∈ rows, x.expires ≤ now := by
  obtain ⟨⟨e, he, rfl⟩, hle⟩ := h
  constructor
  · rintro hlt ⟨x, hx, hexp⟩
    have := hle x hx
    omega
  · intro hno
    by_contra hexp
    exact hno ⟨e, he, not_lt.mp hexp⟩

namespace VideoReorder

omit [Rtp α] in
theorem least_iff {m : ℕ} : (rows.map (·.expires)).min? = some m ↔ Least rows m := by
  simp [List.min?_eq_some_iff, Least]

omit [Rtp α] in
/-- From a deadline on, the fold is a minimum. -/
theorem foldl_least {x : OrderedVideoPacket α} (hp : ∀ e ∈ x :: rows, 0 < e.expires) :
    Least (x :: rows) (rows.foldl (fun expires e =>
      if expires = 0 ∨ e.expires < expires then e.expires else expires) x.expires) := by
  rw [← least_iff, map_cons, List.min?_cons']
  obtain ⟨hx, hrs⟩ := forall_mem_cons.mp hp
  clear hp
  refine congrArg some ?_
  generalize x.expires = m at hx ⊢
  induction rows generalizing m with
  | nil => rfl
  | cons e rest ih =>
    obtain ⟨he, hrs⟩ := forall_mem_cons.mp hrs
    have hstp : (if m = 0 ∨ e.expires < m then e.expires else m) = min m e.expires := by
      split <;> omega
    rw [map_cons, foldl_cons, foldl_cons, hstp]
    exact ih hrs _ (lt_min hx he)

omit [Rtp α] in
theorem earliest_least (hne : rows ≠ []) (hp : ∀ e ∈ rows, 0 < e.expires) :
    Least rows (earliest rows) := by
  obtain ⟨e, rest, rfl⟩ := exists_cons_of_ne_nil hne
  exact foldl_least hp

omit [Rtp α] in
/-- The list of `flushGapsFormats` has the entries, each with the earliest deadline from there
on. -/
theorem suffixDeadlines_cons (e : OrderedVideoPacket α) (rest : List (OrderedVideoPacket α)) :
    ∃ expires, suffixDeadlines (e :: rest) = (e, expires) :: suffixDeadlines rest ∧
      Least (e :: rest) expires := by
  induction rest generalizing e with
  | nil => exact ⟨e.expires, rfl, least_iff.mp rfl⟩
  | cons x rest ih =>
    obtain ⟨expires, heq, hl⟩ := ih x
    rw [suffixDeadlines, heq]
    refine ⟨_, rfl, least_iff.mp ?_⟩
    rw [map_cons, List.min?_cons, least_iff.mpr hl, Option.elim_some, Option.some_inj]
    split <;> omega

/-- The deadline that is kept is the least one, unless it is dirty. -/
structure Cached (q : VideoReorder α) : Prop where
  positive : ∀ e ∈ q.pending.rows, 0 < e.expires
  least : q.dirty = false → q.pending.rows ≠ [] → Least q.pending.rows q.expires

theorem Cached.deadline (h : q.Cached) (hne : q.pending.rows ≠ []) :
    Least q.pending.rows q.deadline.1 ∧ q.deadline.2.Cached := by
  rw [VideoReorder.deadline]
  split
  · have hl := earliest_least hne h.positive
    exact ⟨hl, h.positive, fun _ _ => hl⟩
  · next hcln => exact ⟨h.least (by simpa using hcln) hne, h⟩

theorem deadline_pending (q : VideoReorder α) : q.deadline.2.pending = q.pending := by
  rw [deadline]
  split <;> rfl

theorem deadline_rest (q : VideoReorder α) :
    q.deadline.2.next = q.next ∧ q.deadline.2.bytes = q.bytes ∧ q.deadline.2.seen = q.seen := by
  rw [deadline]
  split <;> exact ⟨rfl, rfl, rfl⟩

theorem Cached.settle (h : q.pending.rows = []) : q.settle.Cached where
  positive e he := by
    rw [show q.settle.pending = q.pending from rfl, h] at he
    exact absurd he not_mem_nil
  least _ hne := absurd h hne

end VideoReorder

/-! ### A flush of the queue -/

open Unwrapping VideoReorder

/-- The sizes of entries. -/
def totalSize (l : List (OrderedVideoPacket α)) : ℤ := (l.map (·.size)).sum

/-- A flush takes off the queue what `drain` takes off the list. -/
structure Flushed (U : Unwrapping α) (now : ℕ) (force : Bool) (base : ℤ)
    (l : List (OrderedVideoPacket α)) (q : VideoReorder α) (r : List α × VideoReorder α) :
    Prop where
  out : r.1 = (U.drain now force base l).1.map (·.packet)
  perm : (U.drain now force base l).2.Perm r.2.pending.rows
  next : r.2.next = BitVec.ofInt 16 (U.after base (U.drain now force base l).1)
  bytes : r.2.bytes = q.bytes - totalSize (U.drain now force base l).1
  cached : r.2.Cached
  seen : r.2.seen = q.seen

variable {U : Unwrapping α} {l rest : List (OrderedVideoPacket α)} {force : Bool} {base : ℤ}
  {e : OrderedVideoPacket α}

/-- The flush stops, with nothing due. -/
theorem Flushed.stop (h : U.Lists base (e :: rest) q.next q.pending)
    (hsp : ¬ (U.of e = base ∨ force = true ∨ ∃ x ∈ e :: rest, x.expires ≤ now))
    (hpe : q'.pending = q.pending) (hnx : q'.next = q.next) (hby : q'.bytes = q.bytes)
    (hsn : q'.seen = q.seen) (hc : q'.Cached) :
    Flushed U now force base (e :: rest) q ([], q') := by
  have hd : U.drain now force base (e :: rest) = ([], e :: rest) := by
    rw [drain, if_neg hsp]
  refine ⟨?_, ?_, ?_, ?_, hc, hsn⟩
  · rw [hd]
    rfl
  · rw [hd, hpe]
    exact h.perm
  · rw [hd, hnx]
    exact h.next
  · rw [hd, hby, totalSize]
    simp

/-- The flush goes on with the first packet. -/
theorem Flushed.go {r : List α × VideoReorder α}
    (hgo : U.of e = base ∨ force = true ∨ ∃ x ∈ e :: rest, x.expires ≤ now)
    (h : Flushed U now force (U.of e + 1) rest q' r) (hby : q'.bytes = q.bytes - e.size)
    (hsn : q'.seen = q.seen) : Flushed U now force base (e :: rest) q (e.packet :: r.1, r.2) := by
  have hd : U.drain now force base (e :: rest) =
      (e :: (U.drain now force (U.of e + 1) rest).1, (U.drain now force (U.of e + 1) rest).2) := by
    rw [drain, if_pos hgo]
  refine ⟨?_, ?_, ?_, ?_, h.cached, h.seen.trans hsn⟩
  · rw [hd, h.out]
    rfl
  · rw [hd]
    exact h.perm
  · rw [hd]
    exact h.next
  · rw [hd, h.bytes, hby, totalSize, totalSize, map_cons, sum_cons]
    omega

theorem Flushed.settle (h : U.Lists base [] q.next q.pending) :
    Flushed U now force base [] q ([], q.settle) where
  out := rfl
  perm := h.perm
  next := h.next
  bytes := by simp [VideoReorder.settle, drain, totalSize]
  cached := Cached.settle (nil_perm.mp h.perm)
  seen := rfl

namespace VideoReorder

theorem positive_remove (h : ∀ x ∈ q.pending.rows, 0 < x.expires)
    (e : OrderedVideoPacket α) : ∀ x ∈ (q.remove e).pending.rows, 0 < x.expires :=
  fun x hx => h x (Table.mem_delete.mp hx).1

variable (now : ℕ) (force : Bool) (h : U.Lists base l q.next q.pending)

include h

theorem releaseOrdered_flushed (hp : ∀ e ∈ q.pending.rows, 0 < e.expires) :
    Flushed U now force base l q (releaseOrdered now force (suffixDeadlines l) q) := by
  induction l generalizing base q with
  | nil => exact .settle h
  | cons e rest ih =>
    obtain ⟨expires, heq, hl⟩ := suffixDeadlines_cons e rest
    have hi : (e.sequence ≠ q.next ∧ force = false ∧ now < expires) ↔
        ¬ (U.of e = base ∨ force = true ∨ ∃ x ∈ e :: rest, x.expires ≤ now) := by
      rw [ne_eq, h.sequence_eq_iff mem_cons_self, hl.lt_iff, not_or, not_or, Bool.not_eq_true]
    rw [heq, releaseOrdered]
    split
    · next hsp =>
      exact .stop h (hi.mp hsp) rfl rfl rfl rfl ⟨hp, fun _ _ => hl.perm h.perm⟩
    · next hgo =>
      rw [hi, not_not] at hgo
      exact .go hgo (ih h.tail (positive_remove hp e)) rfl rfl

/-- The sorted list is the one of the integers. -/
theorem insertionSort_eq : (q.pending.rows.insertionSort fun a b =>
      (a.sequence - q.next).toNat ≤ (b.sequence - q.next).toNat) = l := by
  have hso := perm_insertionSort
    (fun a b : OrderedVideoPacket α => (a.sequence - q.next).toNat ≤ (b.sequence - q.next).toNat)
    q.pending.rows
  have : Std.Total fun a b : OrderedVideoPacket α =>
    (a.sequence - q.next).toNat ≤ (b.sequence - q.next).toNat := ⟨fun _ _ => le_total _ _⟩
  have : IsTrans (OrderedVideoPacket α) fun a b =>
    (a.sequence - q.next).toNat ≤ (b.sequence - q.next).toNat := ⟨fun _ _ _ => le_trans⟩
  refine List.Perm.eq_of_pairwise (fun a b ha hb hab hba => ?_)
    (pairwise_insertionSort _ q.pending.rows) ?_ (hso.trans h.perm.symm)
  · have ha' : a ∈ q.pending.rows := hso.mem_iff.mp ha
    refine q.pending.eq_of_key ha' (h.perm.mem_iff.mp hb) ?_
    have heq : a.sequence - q.next = b.sequence - q.next := BitVec.eq_of_toNat_eq
      (le_antisymm hab hba)
    rw [← BitVec.sub_add_cancel a.sequence q.next, heq, BitVec.sub_add_cancel]
  · refine h.sorted.increasing.imp_of_mem fun {a b} ha hb hlt => ?_
    have hda := h.distance ha
    have hdb := h.distance hb
    omega

theorem flushGapsFormats_flushed (hp : ∀ e ∈ q.pending.rows, 0 < e.expires) :
    Flushed U now force base l q (q.flushGapsFormats now force) := by
  rw [flushGapsFormats, insertionSort_eq h]
  exact releaseOrdered_flushed now force h hp

omit h in
/-- The first packet leaves, and the deadline that is kept becomes dirty if it was the packet's. -/
theorem Cached.remove (h : q.Cached) (e : OrderedVideoPacket α) (he : e ∈ q.pending.rows) :
    { q.remove e with dirty := if e.expires = q.expires then true else q.dirty }.Cached := by
  refine ⟨positive_remove h.positive e, fun hcln hne => ?_⟩
  dsimp only at hcln hne ⊢
  split at hcln
  · exact absurd hcln (by decide)
  rename_i hoth
  obtain ⟨⟨x, hx, hxe⟩, hle⟩ := h.least hcln (ne_nil_of_mem he)
  refine ⟨⟨x, Table.mem_delete.mpr ⟨hx, decide_eq_false fun heq => hoth ?_⟩, hxe⟩, fun y hy =>
    hle y (Table.mem_delete.mp hy).1⟩
  rw [← q.pending.eq_of_key hx he heq]
  exact hxe

theorem flushRounds_flushed (hc : q.Cached) :
    Flushed U now force base l q (flushRounds now force l.length q) := by
  induction l generalizing base q with
  | nil => exact .settle h
  | cons e rest ih =>
    have hm : e ∈ q.pending.rows := h.perm.mem_iff.mp mem_cons_self
    rw [length_cons, flushRounds]
    by_cases hhe : U.of e = base
    · rw [h.get_head hhe]
      exact .go (.inl hhe) (ih h.tail (hc.remove e hm)) rfl rfl
    rw [h.get_none hhe]
    dsimp only
    split
    · exact flushGapsFormats_flushed now force h hc.positive
    rename_i hfor
    obtain ⟨hl, hdl⟩ := hc.deadline (ne_nil_of_mem hm)
    have hi : now < q.deadline.1 ↔ _ := (hl.perm h.perm.symm).lt_iff
    obtain ⟨hnx, hby, hsn⟩ := q.deadline_rest
    have hpe := q.deadline_pending
    split
    · next hear =>
      exact .stop h (not_or.mpr ⟨hhe, not_or.mpr ⟨hfor, hi.mp hear⟩⟩) hpe hnx hby hsn hdl
    · have h' : U.Lists base (e :: rest) q.deadline.2.next q.deadline.2.pending := by
        rw [hnx, hpe]
        exact h
      have hfl := flushGapsFormats_flushed now force h' hdl.positive
      exact ⟨hfl.out, hfl.perm, hfl.next, hby ▸ hfl.bytes, hfl.cached, hfl.seen.trans hsn⟩

theorem flushFormats_flushed (hc : q.Cached) :
    Flushed U now force base l q (q.flushFormats now force) := by
  rw [flushFormats, ← h.perm.length_eq]
  exact flushRounds_flushed now force h hc

end VideoReorder

/-! ### The simple loop -/

theorem naiveFlush_eq (now : ℕ) (force : Bool) {next : SequenceNumber} {pending : PendingVideo α}
    (h : U.Lists base l next pending) {fuel : ℕ} (hfu : 2 * l.length ≤ fuel) :
    naiveFlush now force fuel next pending = (U.drain now force base l).1.map (·.packet) := by
  induction l generalizing base next pending fuel with
  | nil =>
    have hrw : pending.rows = [] := nil_perm.mp h.perm
    have hget : pending.get next = none := Table.get_eq_none.mpr (by simp [hrw])
    cases fuel with
    | zero => rfl
    | succ fuel =>
      rw [naiveFlush, hget, hrw]
      rfl
  | cons e rest ih =>
    have hm : e ∈ pending.rows := h.perm.mem_iff.mp mem_cons_self
    rw [length_cons] at hfu
    -- a round that emits the first packet
    have hem : ∀ {fuel base next}, U.Lists base (e :: rest) next pending → U.of e = base →
        2 * rest.length ≤ fuel → naiveFlush now force (fuel + 1) next pending =
          e.packet :: (U.drain now force (U.of e + 1) rest).1.map (·.packet) := by
      intro fuel base next h hhe hfu
      have hsq := (h.sequence_eq_iff mem_cons_self).mpr hhe
      rw [naiveFlush, h.get_head hhe]
      dsimp only
      rw [← hsq, ih h.tail hfu]
    obtain ⟨fuel, rfl⟩ : ∃ n, fuel = n + 2 := ⟨fuel - 2, by omega⟩
    by_cases hhe : U.of e = base
    · rw [hem h hhe (by omega), drain, if_pos (.inl hhe)]
      rfl
    -- the first packet of the list is the nearest
    have hnr : pending.rows.argmin (fun x => (x.sequence - next).toNat) = some e := by
      cases hmin : pending.rows.argmin fun x => (x.sequence - next).toNat with
      | none =>
        rw [argmin_eq_none] at hmin
        exact absurd hmin (ne_nil_of_mem hm)
      | some x =>
        have hx := h.perm.mem_iff.mpr (argmin_mem hmin)
        have hle := le_of_mem_argmin hm hmin
        have hde := h.distance mem_cons_self
        have hdx := h.distance hx
        rcases mem_cons.mp hx with rfl | hrs
        · rfl
        · have hlt := (pairwise_cons.mp h.sorted.increasing).1 x hrs
          omega
    have hi : (∃ x ∈ pending.rows, x.expires ≤ now) ↔ ∃ x ∈ e :: rest, x.expires ≤ now :=
      exists_congr fun x => and_congr_left fun _ => h.perm.mem_iff.symm
    rw [naiveFlush, h.get_none hhe, hnr]
    dsimp only
    rw [drain]
    by_cases hgo : force = true ∨ ∃ x ∈ e :: rest, x.expires ≤ now
    · rw [if_pos (hgo.imp_right hi.mpr), if_pos (.inr hgo)]
      have hjmp : U.Lists (U.of e) (e :: rest) e.sequence pending := by
        refine ⟨⟨h.sorted.increasing, fun x hx => ?_⟩, h.perm, U.sequence_eq e⟩
        have hx' := h.sorted.ahead x hx
        have he := h.sorted.ahead e mem_cons_self
        have hle := h.sorted.head_le hx
        omega
      rw [hem hjmp rfl (by omega)]
      rfl
    · rw [if_neg fun hps => hgo (hps.imp_right hi.mp), if_neg (not_or.mpr ⟨hhe, hgo⟩)]
      rfl

end Queue

end Noxa.Webrtc

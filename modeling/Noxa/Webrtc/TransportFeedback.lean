import Mathlib.Data.List.Flatten
import Noxa.Lib.Machine
import Noxa.Webrtc.Packet

/-!
# Transport-wide feedback

A receiver reports on packets by the 16-bit numbers they were sent with. The estimator behind
`boundedTransportFeedback` (`internal/webrtc`) remembers a bounded number of packets and reads the
statuses that pad the last chunk, so a report is passed on only if all its packets are remembered,
and with the statuses cut to their number. The numbers come from `mediaPacer.writePacketRetry`.

## Main results

* `boundedChunks_spec` — the statuses that are left, and when there are enough
* `transport_feedback_bounded` — which reports are passed on after any number of packets
-/

namespace Noxa.Webrtc

open Machine List

def FeedbackHistorySize : ℕ := 4096

/-- A chunk of a type that is not known is `other`. -/
inductive PacketStatusChunk
  | runLength (packetStatusSymbol runLength : BitVec 16)
  | statusVector (symbolSize : BitVec 16) (symbolList : List (BitVec 16))
  | other
  deriving DecidableEq

structure TransportLayerCC where
  baseSequenceNumber : SequenceNumber
  packetStatusCount : BitVec 16
  packetChunks : List PacketStatusChunk
  recvDeltas : List ℤ
  deriving DecidableEq

/-- The loop over the chunks, with the number of statuses that remain. -/
def boundedChunks : ℕ → List PacketStatusChunk → Option (List PacketStatusChunk)
  | 0, _ => some []
  | _ + 1, [] | _ + 1, .other :: _ => none
  | remaining + 1, .runLength symbol runLength :: chunks =>
    let copied := if BitVec.ofNat 16 (remaining + 1) ≤ runLength then
      BitVec.ofNat 16 (remaining + 1)
      else runLength
    (boundedChunks (remaining + 1 - copied.toNat) chunks).map (.runLength symbol copied :: ·)
  | remaining + 1, .statusVector size symbols :: chunks =>
    let n := min (remaining + 1) symbols.length
    (boundedChunks (remaining + 1 - n) chunks).map (.statusVector size (symbols.take n) :: ·)

def boundedTransportFeedback (feedback : TransportLayerCC) (sent : ℕ) : Option TransportLayerCC :=
  if sent = 0 ∨ feedback.packetStatusCount = 0 ∨
      FeedbackHistorySize < feedback.packetStatusCount.toNat then none
  else
    let distance := BitVec.ofNat 16 (sent - 1) - feedback.baseSequenceNumber
    if min sent FeedbackHistorySize ≤ distance.toNat ∨ distance + 1 <
      feedback.packetStatusCount then
      none
    else (boundedChunks feedback.packetStatusCount.toNat feedback.packetChunks).map fun chunks =>
      { feedback with packetChunks := chunks }

/-- What a chunk stands for. -/
def PacketStatusChunk.statuses : PacketStatusChunk → List (BitVec 16)
  | .runLength symbol n => replicate n.toNat symbol
  | .statusVector _ symbols => symbols
  | .other => []

def expanded (chunks : List PacketStatusChunk) : List (BitVec 16) :=
  chunks.flatMap PacketStatusChunk.statuses

/-- The statuses before the first chunk that is not known. -/
def knownStatuses (chunks : List PacketStatusChunk) : List (BitVec 16) :=
  expanded (chunks.takeWhile (· ≠ .other))

/-- The chunks are cut to as many statuses as remain, if there are as many. -/
structure Bounded (remaining : ℕ) (chunks : List PacketStatusChunk)
    (r : Option (List PacketStatusChunk)) : Prop where
  enough : r.isSome = true ↔ remaining ≤ (knownStatuses chunks).length
  cut : ∀ out, r = some out → expanded out = (expanded chunks).take remaining

/-- A chunk that is known gives as many statuses as it has, and no more than remain. -/
theorem Bounded.cons {remaining n : ℕ} {chunk copied : PacketStatusChunk}
    {chunks : List PacketStatusChunk} {r : Option (List PacketStatusChunk)}
    (h : Bounded (remaining - n) chunks r) (hkn : chunk ≠ .other)
    (hn : n = min remaining chunk.statuses.length)
    (hcps : copied.statuses = chunk.statuses.take n) :
    Bounded remaining (chunk :: chunks) (r.map (copied :: ·)) := by
  refine ⟨?_, fun out ho => ?_⟩
  · have hspl : knownStatuses (chunk :: chunks) = chunk.statuses ++ knownStatuses chunks := by
      simp [knownStatuses, expanded, hkn]
    rw [Option.isSome_map, h.enough, hspl, length_append]
    omega
  · obtain ⟨rest, heq, rfl⟩ := Option.map_eq_some_iff.mp ho
    have hrs : expanded rest = _ := h.cut rest heq
    rw [expanded, flatMap_cons, ← expanded, hrs, hcps, expanded, expanded, flatMap_cons,
      take_append,
      hn]
    rcases Nat.le_total remaining chunk.statuses.length with hle | hle
    · rw [Nat.min_eq_left hle, Nat.sub_self, Nat.sub_eq_zero_of_le hle]
    · rw [Nat.min_eq_right hle, take_of_length_le hle, take_length]

theorem boundedChunks_spec {remaining : ℕ} (hlt : remaining < 2 ^ 16)
    (chunks : List PacketStatusChunk) :
    Bounded remaining chunks (boundedChunks remaining chunks) := by
  fun_induction boundedChunks remaining chunks with
  | case1 => exact ⟨by simp, by simp [expanded]⟩
  | case2 | case3 => exact ⟨by simp [knownStatuses, expanded], nofun⟩
  | case4 remaining symbol n chunks copied ih =>
    have hrem : (BitVec.ofNat 16 (remaining + 1)).toNat = remaining + 1 := Nat.mod_eq_of_lt hlt
    have hcps : copied.toNat = min (remaining + 1) n.toNat := by
      simp only [copied, BitVec.le_def, hrem]
      split <;> omega
    refine (ih (by omega)).cons nofun ?_ ?_
    · rw [hcps, PacketStatusChunk.statuses, length_replicate]
    · simp [PacketStatusChunk.statuses, hcps]
  | case5 remaining size symbols chunks n ih => exact (ih (by omega)).cons nofun rfl rfl

/-! ### The numbers on the wire -/

/-- The sending side, with the numbers on the wire, the latest first. -/
structure NumberedWrites where
  transportSequence : BitVec 16 := 0
  sent : ℕ := 0
  wire : List SequenceNumber := []

/-- One write. The header may not take the extension for the number. -/
def writeNumbered (s : NumberedWrites) (extended : Bool) : NumberedWrites × Unit :=
  if extended = true then (⟨s.transportSequence + 1, s.sent + 1, s.transportSequence :: s.wire⟩, ())
  else (s, ())

/-- The numbers count back from the last one. -/
structure NumberedWrites.Inv (s : NumberedWrites) : Prop where
  next : s.transportSequence = BitVec.ofNat 16 s.sent
  wire : s.wire = (range s.sent).map fun age => s.transportSequence - 1 - BitVec.ofNat 16 age

variable {s : NumberedWrites}

theorem NumberedWrites.Inv.write (h : s.Inv) (extended : Bool) :
    (writeNumbered s extended).1.Inv := by
  rw [writeNumbered]
  split
  · refine ⟨?_, ?_⟩
    · rw [h.next, BitVec.ofNat_add]
      rfl
    dsimp only
    rw [range_succ_eq_map, map_cons, map_map, h.wire]
    congr 1
    · bv_omega
    · refine map_congr_left fun age _ => ?_
      simp only [Function.comp_apply, Nat.succ_eq_add_one, BitVec.ofNat_add]
      bv_omega
  · exact h

/-- The numbers of the packets that are remembered. -/
def NumberedWrites.recent (s : NumberedWrites) :
    List SequenceNumber := s.wire.take FeedbackHistorySize

theorem NumberedWrites.Inv.mem_recent (h : s.Inv) (hse : s.sent ≠ 0)
    {seq : SequenceNumber} : seq ∈ s.recent ↔
      (BitVec.ofNat 16 (s.sent - 1) - seq).toNat < min s.sent FeedbackHistorySize := by
  have hla : s.transportSequence - 1 = BitVec.ofNat 16 (s.sent - 1) := by
    rw [h.next]
    bv_omega
  rw [recent, h.wire, ← map_take, take_range, mem_map, hla]
  simp only [mem_range, FeedbackHistorySize]
  constructor
  · rintro ⟨age, hage, rfl⟩
    rw [show BitVec.ofNat 16 (s.sent - 1) - (BitVec.ofNat 16 (s.sent - 1) - BitVec.ofNat 16 age) =
      BitVec.ofNat 16 age by bv_omega, BitVec.toNat_ofNat]
    omega
  · intro hlt
    refine ⟨(BitVec.ofNat 16 (s.sent - 1) - seq).toNat, by omega, ?_⟩
    rw [BitVec.ofNat_toNat, BitVec.setWidth_eq]
    bv_omega

/-- All packets of the report are remembered. -/
def TransportLayerCC.Covered (feedback : TransportLayerCC) (recent : List SequenceNumber) : Prop :=
  ∀ i < feedback.packetStatusCount.toNat, feedback.baseSequenceNumber + BitVec.ofNat 16 i ∈ recent

/-- The comparisons of the source, in 16 bits. -/
theorem NumberedWrites.Inv.covered_iff (h : s.Inv) (hse : s.sent ≠ 0)
    {feedback : TransportLayerCC} (hcnt : feedback.packetStatusCount ≠ 0) {distance : BitVec 16}
    (hdst : distance = BitVec.ofNat 16 (s.sent - 1) - feedback.baseSequenceNumber) :
    feedback.Covered s.recent ↔
      distance.toNat < min s.sent FeedbackHistorySize ∧ feedback.packetStatusCount ≤
        distance + 1 := by
  have hm : ∀ i, feedback.baseSequenceNumber + BitVec.ofNat 16 i ∈ s.recent ↔
      (distance - BitVec.ofNat 16 i).toNat < min s.sent FeedbackHistorySize := fun i => by
    rw [h.mem_recent hse, hdst, BitVec.sub_sub]
  simp only [TransportLayerCC.Covered, hm, FeedbackHistorySize]
  constructor
  · intro ha
    have hfst := ha 0 (by bv_omega)
    refine ⟨by simpa using hfst, ?_⟩
    by_contra hov
    -- the number after the last one sent would be covered
    have hla := ha (distance.toNat + 1) (by bv_omega)
    bv_omega
  · rintro ⟨hlt, hle⟩ i hi
    bv_omega

/-- A report is passed on if and only if it is about at least one packet, all its packets are
remembered, and it has a status for each. Its statuses are then cut to the number of its packets. No
reduction to 16 bits shows. -/
theorem transport_feedback_bounded (writes : List Bool) (feedback : TransportLayerCC) :
    let s := run writeNumbered {} writes
    let count := feedback.packetStatusCount.toNat
    (∀ out, boundedTransportFeedback feedback s.sent = some out →
      out = { feedback with packetChunks := out.packetChunks } ∧ out.Covered s.recent ∧
      expanded out.packetChunks = (expanded feedback.packetChunks).take count ∧
      (expanded out.packetChunks).length = count) ∧
    ((boundedTransportFeedback feedback s.sent).isSome = true ↔
      0 < count ∧ feedback.Covered s.recent ∧ count ≤
        (knownStatuses feedback.packetChunks).length) := by
  intro s count
  have hs : s.Inv := run_invariant (fun _ extended h => h.write extended) ⟨rfl, rfl⟩ writes
  have hsc := boundedChunks_spec feedback.packetStatusCount.isLt feedback.packetChunks
  have hkn : (knownStatuses feedback.packetChunks).length ≤
    (expanded feedback.packetChunks).length :=
    ((takeWhile_sublist _).flatMap _).length_le
  rw [boundedTransportFeedback]
  split
  · next hrej =>
    refine ⟨nofun, iff_of_false nofun fun ⟨hp, hc, _⟩ => ?_⟩
    have hcnt : feedback.packetStatusCount ≠ 0 := by bv_omega
    have hse : s.sent ≠ 0 := fun hz => by
      have hm := hc 0 hp
      simp [NumberedWrites.recent, hs.wire, hz] at hm
    have hbds := (hs.covered_iff hse hcnt rfl).mp hc
    simp only [hse, hcnt, false_or, FeedbackHistorySize] at hrej hbds
    bv_omega
  · next hbs =>
    simp only [not_or] at hbs
    have hc := hs.covered_iff hbs.1 hbs.2.1 rfl
    have hp : 0 < count := by bv_omega
    dsimp only
    split
    · next hfar =>
      refine ⟨nofun, iff_of_false nofun fun ⟨_, ha, _⟩ => ?_⟩
      have hbds := hc.mp ha
      bv_omega
    · next hne =>
      rw [not_or, Nat.not_le, BitVec.not_lt] at hne
      have ha := hc.mpr hne
      rw [Option.isSome_map, hsc.enough]
      refine ⟨fun out ho => ?_, (and_iff_right hp).trans (and_iff_right ha) |>.symm⟩
      obtain ⟨chunks, hchk, rfl⟩ := Option.map_eq_some_iff.mp ho
      have hcut := hsc.cut chunks hchk
      have hen := hsc.enough.mp (by rw [hchk]; rfl)
      refine ⟨rfl, ha, hcut, ?_⟩
      rw [hcut, length_take]
      omega

/-- A report about no packet covers only packets that were sent, has enough statuses and is
rejected. -/
theorem transport_feedback_empty :
    let s := run writeNumbered {} [true]
    let feedback : TransportLayerCC := ⟨0, 0, [], []⟩
    feedback.Covered s.recent ∧
    feedback.packetStatusCount.toNat ≤ (knownStatuses feedback.packetChunks).length ∧
    boundedTransportFeedback feedback s.sent = none := by
  refine ⟨fun i hi => absurd hi (Nat.not_lt_zero i), ?_, ?_⟩ <;> decide

end Noxa.Webrtc

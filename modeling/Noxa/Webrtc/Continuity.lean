import Noxa.Lib.Machine
import Noxa.Lib.Serial
import Noxa.Webrtc.Packet

/-!
# Continuity of a receiver's stream

A receiver has one RTP stream for each slot of a publisher. When the source changes, sequence
numbers and timestamps are shifted so that the stream goes on where it was: `videoContinuity` for
VP8, H.264 and H.265, `audioContinuity` for the microphone and the sound of a screen. A packet is
passed on, shifted, or rejected.

The VP8 descriptor is read by a codec library (`VP8`). Times are integers, in nanoseconds. The
fields that only the H.265 unit filter of the router reads are left out.

All of them treat the numbers alike, and the proofs see only that (`Numbering`): a packet goes on in
the current epoch, switches to a new one, or is the first of all.

## Main definitions

* `VideoContinuity.translate`, `VideoContinuity.translateH264`, `AudioContinuity.translate` — the
  code
* `Moves` — what passing a packet on does to the numbers

## Main results

* `VideoContinuity.translate_answers` and its like — a packet is rejected, or the numbers move
-/

namespace Noxa.Webrtc

/-- The payload descriptor of VP8. -/
structure VP8Packet where
  S : Byte
  PID : Byte
  I : Byte
  L : Byte
  K : Byte
  PictureID : BitVec 16
  TL0PICIDX : Byte
  KEYIDX : Byte

/-- The codec library: the descriptor at the front of a payload, and the data behind it. -/
class VP8 where
  unmarshal : List Byte → Option (VP8Packet × List Byte)

/-- `time.Time.Sub`. -/
def timeSub (now last : ℤ) : ℤ := max (-2 ^ 63) (min (2 ^ 63 - 1) (now - last))

def second : ℤ := 1000000000

def timingPreserveMaxStep : ℕ := 2 ^ 30

/-! ### Video -/

structure VideoContinuity where
  seen : Bool := false
  pendingEpoch : Bool := false
  ssrc : BitVec 32 := 0
  sequence : SequenceNumber := 0
  sequenceOffset : SequenceNumber := 0
  mediaSequence : SequenceNumber := 0
  timestamp : BitVec 32 := 0
  timestampOffset : BitVec 32 := 0
  picture : BitVec 16 := 0
  pictureInput : BitVec 16 := 0
  tl0 : Byte := 0
  tl0Offset : Byte := 0
  key : Byte := 0
  keyOffset : Byte := 0
  last : ℤ := 0
  epochPackets : ℕ := 0
  preferredOffset : BitVec 32 := 0
  preferredOffsetOK : Bool := false
  deriving DecidableEq

namespace VideoContinuity

variable (v : VideoContinuity) (pkt : RtpPacket) (now : ℤ)

def switchTimestampOffset : BitVec 32 :=
  let step := pkt.timestamp + v.preferredOffset - v.timestamp
  if v.preferredOffsetOK = true ∧ step ≠ 0 ∧ step.toNat < timingPreserveMaxStep then
    v.preferredOffset
  else
    let gap := timeSub now v.last
    let elapsed := max 1 (gap.tdiv second * 90000 + (gap.tmod second * 90000).tdiv second)
    v.timestamp + BitVec.ofInt 32 elapsed - pkt.timestamp

def beginEpoch : VideoContinuity := { v with pendingEpoch := true }

/-- The packet with both offsets added. -/
def shift : RtpPacket :=
  { pkt with
    sequenceNumber := pkt.sequenceNumber + v.sequenceOffset
    timestamp := pkt.timestamp + v.timestampOffset }

/-- Padding keeps the sequence of the current source going. It never starts or completes a
switch. -/
def translatePadding : Option RtpPacket × VideoContinuity :=
  if v.seen = false ∨ v.pendingEpoch = true ∨ v.ssrc ≠ pkt.ssrc then (none, v)
  else
    let out := v.shift pkt
    let delta := rtpSequenceDelta out.sequenceNumber v.sequence
    if delta < 0 ∧ -delta > v.epochPackets then (none, v)
    else if delta > 0 then
      (some out, { v with
        sequence := out.sequenceNumber
        epochPackets := min 32768 (v.epochPackets + delta.toNat) })
    else (some out, v)

/-- The first packet of a VP8 keyframe. -/
def startsKeyframe (descriptor : VP8Packet) (data : List Byte) : Bool :=
  descriptor.S == 1 && descriptor.PID == 0 && decide (10 ≤ data.length) &&
    data.getD 0 0 &&& 1 == 0 &&
    data.getD 3 0 == 0x9d && data.getD 4 0 == 1 && data.getD 5 0 == 0x2a

/-- The picture number of the outgoing packet. -/
def pictureOut (descriptor : VP8Packet) (pkt : RtpPacket) (switching : Bool) (mediaDelta : ℤ) :
    BitVec 16 :=
  if switching then (v.picture + 1) &&& 0x7fff
  else if v.seen = true ∧ descriptor.I ≠ 0 then
    let mask : BitVec 16 := if pkt.payload.getD 2 0 &&& 0x80 == 0 then 0x7f else 0x7fff
    if mediaDelta ≥ 0 then (v.picture + ((descriptor.PictureID - v.pictureInput) &&& mask)) &&&
      0x7fff
    else (v.picture - ((v.pictureInput - descriptor.PictureID) &&& mask)) &&& 0x7fff
  else descriptor.PictureID

/-- The optional descriptor is rebuilt, always with a 15-bit picture number. -/
def rewritePayload (descriptor : VP8Packet) (payload data : List Byte) (picture : BitVec 16)
    (tl0 key : Byte) : List Byte :=
  let header := payload.take (payload.length - data.length)
  let (header, pos) := if descriptor.I ≠ 0 then
      let width := if header.getD 2 0 &&& 0x80 != 0 then 2 else 1
      (header.take 2 ++ [0x80 ||| (picture >>> 8).setWidth 8, (picture &&& 0xff).setWidth 8] ++
        header.drop (2 + width), 4)
    else (header, 2)
  let (header, pos) := if descriptor.L ≠ 0 then (header.set pos tl0, pos + 1) else (header, pos)
  let header := if descriptor.K ≠ 0 then header.set pos (header.getD pos 0 &&& 0xe0 ||| key)
    else header
  header ++ data

/-- The offsets of a switch. -/
def switchTo (descriptor : VP8Packet) (pkt : RtpPacket) (now : ℤ) : VideoContinuity :=
  { v with
    sequenceOffset := v.sequence + 1 - pkt.sequenceNumber
    timestampOffset := v.switchTimestampOffset pkt now
    tl0Offset := v.tl0 + 1 - descriptor.TL0PICIDX
    keyOffset := v.key + 1 - descriptor.KEYIDX }

/-- The highest number, and how far back the epoch goes. -/
def advance (out : RtpPacket) (starting : Bool) (delta : ℤ) : VideoContinuity :=
  if starting = true ∨ delta > 0 then
    { v with
      epochPackets := if starting then 0 else min 32768 (v.epochPackets + delta.toNat)
      sequence := out.sequenceNumber }
  else v

/-- The reference spaces follow the media. -/
def follow (descriptor : VP8Packet) (pkt out : RtpPacket) (now : ℤ) (starting : Bool)
    (mediaDelta : ℤ) (picture : BitVec 16) (tl0 key : Byte) : VideoContinuity :=
  if starting = true ∨ mediaDelta > 0 then
    { v with
      last := if starting = true ∨ out.timestamp ≠ v.timestamp then now else v.last
      seen := true
      ssrc := pkt.ssrc
      mediaSequence := out.sequenceNumber
      timestamp := out.timestamp
      picture := picture
      tl0 := tl0
      key := key
      pictureInput := descriptor.PictureID }
  else v

def switching : Bool :=
  v.seen && (v.ssrc != pkt.ssrc || v.pendingEpoch)

/-- A VP8 packet with the offsets in place. -/
def carry (descriptor : VP8Packet) (data : List Byte) (pkt : RtpPacket) (now : ℤ)
    (switching : Bool) : Option RtpPacket × VideoContinuity :=
  let first := !v.seen
  let out := v.shift pkt
  let sequenceDelta := rtpSequenceDelta out.sequenceNumber v.sequence
  let mediaDelta := rtpSequenceDelta out.sequenceNumber v.mediaSequence
  if v.seen = true ∧ switching = false ∧ sequenceDelta < 0 ∧ -sequenceDelta > v.epochPackets then
    (none, v)
  else
    let picture := v.pictureOut descriptor pkt switching mediaDelta
    let tl0 := descriptor.TL0PICIDX + v.tl0Offset
    let key := (descriptor.KEYIDX + v.keyOffset) &&& 31
    let payload := if descriptor.I ≠ 0 ∨ v.tl0Offset ≠ 0 ∨ v.keyOffset ≠ 0 then
        rewritePayload descriptor pkt.payload data picture tl0 key
      else out.payload
    (some { out with payload := payload },
      (v.advance out (first || switching) sequenceDelta).follow descriptor pkt out now
        (first || switching) mediaDelta picture tl0 key)

def translate [VP8] (v : VideoContinuity) (pkt : RtpPacket) (now : ℤ) :
    Option RtpPacket × VideoContinuity :=
  if isVideoPadding pkt = true then v.translatePadding pkt
  else
    match VP8.unmarshal pkt.payload with
    | none => (none, v)
    | some (descriptor, data) =>
      if data.length = 0 then (none, v)
      else if (v.switching pkt || v.pendingEpoch) = true ∧
        startsKeyframe descriptor data = false then
        (none, v)
      else if v.switching pkt = true then
        ({ v with pendingEpoch := false }.switchTo descriptor pkt now).carry descriptor data
          pkt now true
      else { v with pendingEpoch := false }.carry descriptor data pkt now false

/-- An H.264 packet with the offsets in place. -/
def carryH264 (switching : Bool) : Option RtpPacket × VideoContinuity :=
  let first := !v.seen
  let out := v.shift pkt
  let delta := rtpSequenceDelta out.sequenceNumber v.sequence
  if v.seen = true ∧ switching = false ∧ delta < 0 ∧ -delta > v.epochPackets then (none, v)
  else if (first || switching) = true ∨ delta > 0 then
    (some out, { v with
      pendingEpoch := false
      epochPackets := if first || switching then 0 else min 32768 (v.epochPackets + delta.toNat)
      last := if (first || switching) = true ∨ out.timestamp ≠ v.timestamp then now else v.last
      seen := true
      ssrc := pkt.ssrc
      sequence := out.sequenceNumber
      timestamp := out.timestamp })
  else (some out, { v with pendingEpoch := false })

/-- Only sequence number and timestamp change. `frameStart` marks a unit that a new receiver can
start with. -/
def translateH264 (frameStart : Bool) : Option RtpPacket × VideoContinuity :=
  -- `translate` does the same with padding, before it reads a descriptor
  if isVideoPadding pkt = true then v.translatePadding pkt
  else
    if (!v.seen || v.switching pkt || v.pendingEpoch) = true ∧ frameStart = false then (none, v)
    else if v.switching pkt = true then
      { v with
        sequenceOffset := v.sequence + 1 - pkt.sequenceNumber
        timestampOffset := v.switchTimestampOffset pkt now }.carryH264 pkt now true
    else v.carryH264 pkt now false

def translateH265 (frameStart : Bool) :
    Option RtpPacket × VideoContinuity := v.translateH264 pkt now frameStart

end VideoContinuity

/-! ### Audio -/

/-- A forward distance. -/
theorem rtpSequenceDelta_toNat {sequence previous : SequenceNumber}
    (h : rtpSequenceDelta sequence previous > 0) :
    (rtpSequenceDelta sequence previous).toNat = (sequence - previous).toNat := by
  rw [rtpSequenceDelta] at h ⊢
  have hlt := (sequence - previous).isLt
  split at h
  · omega
  · next hne => rw [if_neg hne, Int.toNat_natCast]

structure AudioContinuity where
  seen : Bool := false
  epoch : ℕ := 0
  ssrc : BitVec 32 := 0
  sequence : SequenceNumber := 0
  sequenceOffset : SequenceNumber := 0
  timestamp : BitVec 32 := 0
  timestampOffset : BitVec 32 := 0
  epochPackets : ℕ := 0
  last : ℤ := 0
  deriving DecidableEq

namespace AudioContinuity

variable (a : AudioContinuity) (packet : RtpPacket)

/-- The timestamp offset of a switch. -/
def switchTimestampOffset (clockRate : BitVec 32) (now : ℤ) (preferred : BitVec 32)
    (havePreferred : Bool) : BitVec 32 :=
  let elapsed := (max 0 (timeSub now a.last)).toNat
  let ticks := elapsed / 1000000000 * clockRate.toNat + elapsed % 1000000000 * clockRate.toNat /
    1000000000
  let step := packet.timestamp + preferred - a.timestamp
  if havePreferred = true ∧ step ≠ 0 ∧ step.toNat < timingPreserveMaxStep then preferred
  else a.timestamp + (if BitVec.ofNat 32 ticks = 0 then 1 else BitVec.ofNat 32 ticks) -
    packet.timestamp

/-- A packet with the offsets in place. -/
def carry (epoch : ℕ) (now : ℤ) (switching : Bool) : Option RtpPacket × AudioContinuity :=
  let first := !a.seen
  let out := { packet with
    sequenceNumber := packet.sequenceNumber + a.sequenceOffset
    timestamp := packet.timestamp + a.timestampOffset }
  let delta := rtpSequenceDelta out.sequenceNumber a.sequence
  if a.seen = true ∧ switching = false ∧ delta < 0 ∧ -delta > a.epochPackets then (none, a)
  else if (first || switching) = true ∨ delta > 0 then
    (some out, { a with
      epochPackets :=
        if first then 32768
        else if switching then 0
        else min 32768 (a.epochPackets + (out.sequenceNumber - a.sequence).toNat)
      seen := true
      epoch := epoch
      ssrc := packet.ssrc
      sequence := out.sequenceNumber
      timestamp := out.timestamp
      last := now })
  else (some out, a)

def switching (epoch : ℕ) : Bool :=
  a.seen && (epoch != a.epoch || packet.ssrc != a.ssrc)

def translate (epoch : ℕ) (clockRate : BitVec 32) (now : ℤ) (preferred : BitVec 32)
    (havePreferred : Bool) : Option RtpPacket × AudioContinuity :=
  if clockRate = 0 ∨ a.seen = true ∧ epoch < a.epoch then (none, a)
  -- a claimed reader has a single source
  else if a.seen = true ∧ epoch ≠ 0 ∧ epoch = a.epoch ∧ packet.ssrc ≠ a.ssrc then (none, a)
  else if a.switching packet epoch = true then
    { a with
      sequenceOffset := a.sequence + 1 - packet.sequenceNumber
      timestampOffset := a.switchTimestampOffset packet clockRate now preferred havePreferred
      }.carry packet epoch now true
  else a.carry packet epoch now false

end AudioContinuity

/-! ### What happens to the numbers -/

/-- The part of both records that the numbers of the stream depend on. -/
structure Numbering where
  seen : Bool
  sequence : SequenceNumber
  sequenceOffset : SequenceNumber
  timestampOffset : BitVec 32
  epochPackets : ℕ

/-- How a packet that is passed on belongs to the epochs. -/
inductive Place where
  | first
  | switch
  | inside

/-- A packet that is passed on. `reach` is how far the first epoch reaches back behind its first
packet. -/
structure Moves (reach : ℕ) (place : Place) (n : Numbering) (input output : RtpPacket)
    (n' : Numbering) : Prop where
  sequence : output.sequenceNumber = input.sequenceNumber + n'.sequenceOffset
  timestamp : output.timestamp = input.timestamp + n'.timestampOffset
  seen : n'.seen = true
  effect : match place with
    | .first => n.seen = false ∧ n'.sequence = output.sequenceNumber ∧ n'.epochPackets = reach
    | .switch => n.seen = true ∧ output.sequenceNumber = n.sequence + 1 ∧
        n'.sequence = output.sequenceNumber ∧ n'.epochPackets = 0
    | .inside =>
      let delta := rtpSequenceDelta output.sequenceNumber n.sequence
      n.seen = true ∧ n'.sequenceOffset = n.sequenceOffset ∧
        n'.timestampOffset = n.timestampOffset ∧
      -delta ≤ n.epochPackets ∧
      if delta > 0 then n'.sequence = output.sequenceNumber ∧
        n'.epochPackets = min 32768 (n.epochPackets + delta.toNat)
      else n'.sequence = n.sequence ∧ n'.epochPackets = n.epochPackets

def placeOf (seen switching : Bool) : Place :=
  if seen = false then .first else if switching = true then .switch else .inside

/-- The numbers after a packet. -/
def Numbering.advance (reach : ℕ) (n : Numbering) (sequence : SequenceNumber) (switching : Bool) :
    Numbering :=
  let delta := rtpSequenceDelta sequence n.sequence
  if (!n.seen || switching) = true ∨ delta > 0 then
    { n with
      seen := true
      sequence := sequence
      epochPackets :=
        if n.seen = false then reach
        else if switching = true then 0
        else min 32768 (n.epochPackets + delta.toNat) }
  else n

variable {switching : Bool} {sequence : SequenceNumber} {reach : ℕ} {n : Numbering}

theorem Numbering.advance_of_pos
    (h : (!n.seen || switching) = true ∨ rtpSequenceDelta sequence n.sequence > 0) :
    n.advance reach sequence switching = { n with
      seen := true
      sequence := sequence
      epochPackets :=
        if n.seen = false then reach
        else if switching = true then 0
        else min 32768 (n.epochPackets + (rtpSequenceDelta sequence n.sequence).toNat) } := if_pos h

theorem Numbering.advance_of_neg
    (h : ¬ ((!n.seen || switching) = true ∨ rtpSequenceDelta sequence n.sequence > 0)) :
    n.advance reach sequence switching = n := if_neg h

theorem Numbering.advance_timestampOffset :
    (n.advance reach sequence switching).timestampOffset = n.timestampOffset := by
  rw [advance]
  split <;> rfl

/-- Only the numbers before the offsets changed matter. -/
theorem Numbering.advance_moves (reach : ℕ) (n : Numbering) {input : RtpPacket} (output : RtpPacket)
    (hseq : output.sequenceNumber = input.sequenceNumber + n.sequenceOffset)
    (hts : output.timestamp = input.timestamp + n.timestampOffset)
    (hbk : ¬ (n.seen = true ∧ switching = false ∧
      rtpSequenceDelta output.sequenceNumber n.sequence < 0 ∧
      -rtpSequenceDelta output.sequenceNumber n.sequence > n.epochPackets))
    (hswi : switching = true → n.sequenceOffset = n.sequence + 1 - input.sequenceNumber) :
    Moves reach (placeOf n.seen switching) n input output
      (n.advance reach output.sequenceNumber switching) := by
  obtain ⟨seen, sequence, sequenceOffset, timestampOffset, epochPackets⟩ := n
  cases seen with
  | false => exact ⟨hseq, hts, rfl, rfl, rfl, rfl⟩
  | true =>
    cases switching with
    | true =>
      refine ⟨hseq, hts, rfl, rfl, ?_, rfl, rfl⟩
      rw [hseq, hswi rfl]
      rw [BitVec.add_comm, BitVec.sub_add_cancel]
    | false =>
      rw [Numbering.advance]
      dsimp only at hbk ⊢
      split
      · next hf =>
        have hf : rtpSequenceDelta output.sequenceNumber sequence > 0 := by simpa using hf
        exact ⟨hseq, hts, rfl, rfl, rfl, rfl, by dsimp only; omega, (if_pos hf).mpr ⟨rfl, rfl⟩⟩
      · next hb =>
        rw [not_or] at hb
        refine ⟨hseq, hts, rfl, rfl, rfl, rfl, ?_, (if_neg hb.2).mpr ⟨rfl, rfl⟩⟩
        dsimp only at hb ⊢
        by_contra hle
        exact hbk ⟨rfl, rfl, by omega, by omega⟩

/-- The answer for a packet: it is refused and nothing changes, or it is passed on. -/
def Answers {σ : Type} (s : σ) (Passes : RtpPacket → σ → Prop) (r : Option RtpPacket × σ) : Prop :=
  match r with
  | (none, s') => s' = s
  | (some out, s') => Passes out s'

theorem Answers.refused {σ : Type} {s s' : σ} {Passes : RtpPacket → σ → Prop}
    {r : Option RtpPacket × σ} (h : Answers s Passes r) (hr : r = (none, s')) : s' = s := by
  subst hr
  exact h

namespace VideoContinuity

def numbering (v : VideoContinuity) : Numbering :=
  ⟨v.seen, v.sequence, v.sequenceOffset, v.timestampOffset, v.epochPackets⟩

/-- A packet is passed on, in a state that may have new offsets. -/
structure Passed (v : VideoContinuity) (switching : Bool) (pkt out : RtpPacket)
    (v' : VideoContinuity) : Prop where
  moves : Moves 0 (placeOf v.seen switching) v.numbering pkt out v'.numbering
  ssrc : v'.ssrc = pkt.ssrc
  pending : v'.pendingEpoch = false
  newest : v'.timestamp = out.timestamp ∨
    v'.timestamp = v.timestamp ∧ v.seen = true ∧ switching = false

/-- A packet is passed on, and a switch has its timestamp offset. -/
def Translated (v : VideoContinuity) (pkt : RtpPacket) (now : ℤ) (out : RtpPacket)
    (v' : VideoContinuity) : Prop :=
  v.Passed (v.switching pkt) pkt out v' ∧
    (v.switching pkt = true → v'.timestampOffset = v.switchTimestampOffset pkt now)

/-- What becomes of a packet, with the offsets in place. -/
def Carries (v : VideoContinuity) (switching : Bool) (pkt : RtpPacket)
    (r : Option RtpPacket × VideoContinuity) : Prop :=
  r = (none, v) ∧ v.seen = true ∧ switching = false ∨ ∃ out v', r = (some out, v') ∧
    v.Passed switching pkt out v' ∧ v'.timestampOffset = v.timestampOffset

variable {v v' w : VideoContinuity} {pkt out : RtpPacket} {now : ℤ} {switching : Bool}
  {r : Option RtpPacket × VideoContinuity}

theorem not_switching (hsn : v.seen = true) (h : v.switching pkt = false) :
    v.ssrc = pkt.ssrc ∧ v.pendingEpoch = false := by
  rw [switching, hsn] at h
  simpa using h

theorem seen_of_switching (h : v.switching pkt = true) : v.seen = true := by
  rw [switching, Bool.and_eq_true] at h
  exact h.1

/-- A switch depends on where the numbers were, not on the offsets. -/
theorem Carries.switched (h : w.Carries true pkt r) (hsw : v.switching pkt = true)
    (hsn : w.seen = v.seen) (hseq : w.sequence = v.sequence)
    (ho : w.timestampOffset = v.switchTimestampOffset pkt now) :
    Answers v (v.Translated pkt now) r := by
  rcases h with ⟨-, -, hfls⟩ | ⟨out, v', rfl, ⟨⟨hnm, hts, ha, he⟩, hss, hpe, hn⟩, hkt⟩
  · cases hfls
  refine ⟨⟨⟨hnm, hts, ha, ?_⟩, hss, hpe,
    hn.imp_right fun hold => absurd hold.2.2 (by decide)⟩, fun _ => hkt.trans ho⟩
  rw [hsn] at he
  rw [hsw]
  rw [seen_of_switching hsw] at he ⊢
  obtain ⟨-, hnx, hla⟩ := he
  exact ⟨seen_of_switching hsw, hnx.trans (congrArg (· + 1) hseq), hla⟩

theorem Carries.stays (h : w.Carries false pkt r) (hsw : v.switching pkt = false)
    (hnum : w.numbering = v.numbering) (hsm : v.seen = true → w = v) :
    Answers v (v.Translated pkt now) r := by
  have hsn : w.seen = v.seen := congrArg Numbering.seen hnum
  rcases h with ⟨rfl, hsn', -⟩ | ⟨out, v', rfl, hps, -⟩
  · exact hsm (hsn.symm.trans hsn')
  rw [Answers, Translated, hsw]
  refine ⟨⟨?_, hps.ssrc, hps.pending, hps.newest.imp_right fun hold => ?_⟩, nofun⟩
  · rw [← hsn, ← hnum]
    exact hps.moves
  · rw [← hsm (hsn.symm.trans hold.2.1)]
    exact hold

/-- Padding that is passed on is of the current source. -/
theorem translatePadding_current (h : v.translatePadding pkt = (some out, v')) :
    v.seen = true ∧ v.pendingEpoch = false ∧ v.ssrc = pkt.ssrc := by
  rw [translatePadding] at h
  split at h
  · cases h
  · next hc => simpa [not_or] using hc

theorem translatePadding_answers (v : VideoContinuity) (pkt : RtpPacket) (now : ℤ) :
    Answers v (v.Translated pkt now) (v.translatePadding pkt) := by
  rw [translatePadding]
  split
  · rfl
  next hc =>
  rw [not_or, not_or, not_not, Bool.not_eq_true, Bool.not_eq_false] at hc
  obtain ⟨hsn, hpe, hss⟩ := hc
  have hs : v.switching pkt = false := by simp [switching, hpe, hss]
  dsimp only
  split
  · rfl
  next hbk =>
  have hm : Moves 0 (placeOf v.seen false) v.numbering pkt (v.shift pkt)
      (v.numbering.advance 0 (v.shift pkt).sequenceNumber false) :=
    Numbering.advance_moves 0 v.numbering (v.shift pkt) rfl rfl (fun hfar => hbk hfar.2.2) nofun
  split
  · next hf =>
    rw [v.numbering.advance_of_pos (.inr hf)] at hm
    rw [Answers, Translated, hs]
    exact ⟨⟨by simpa [numbering, hsn] using hm, hss, hpe, .inr ⟨rfl, hsn, rfl⟩⟩, nofun⟩
  · next hb =>
    rw [v.numbering.advance_of_neg (by simpa [numbering, hsn] using hb)] at hm
    rw [Answers, Translated, hs]
    exact ⟨⟨hm, hss, hpe, .inr ⟨rfl, hsn, rfl⟩⟩, nofun⟩

section

variable (descriptor : VP8Packet) (hs : v.seen = true → switching = false → v.ssrc = pkt.ssrc)

include hs

/-- The numbers and the source after `advance` and `follow`. -/
theorem follow_advance (mediaDelta : ℤ) (picture : BitVec 16) (tl0 key : Byte) :
    let w := (v.advance out (!v.seen || switching)
      (rtpSequenceDelta out.sequenceNumber v.sequence)).follow descriptor pkt out now
        (!v.seen || switching) mediaDelta picture tl0 key
    w.numbering = v.numbering.advance 0 out.sequenceNumber switching ∧ w.ssrc = pkt.ssrc ∧
      w.pendingEpoch = v.pendingEpoch ∧ (w.timestamp = out.timestamp ∨
        w.timestamp = v.timestamp ∧ v.seen = true ∧ switching = false) := by
  obtain ⟨seen, _, ssrc, sequence⟩ := v
  cases seen with
  | false => exact ⟨rfl, rfl, rfl, .inl rfl⟩
  | true =>
    cases switching with
    | true => exact ⟨rfl, rfl, rfl, .inl rfl⟩
    | false =>
      obtain rfl : ssrc = pkt.ssrc := hs rfl rfl
      by_cases hf : rtpSequenceDelta out.sequenceNumber sequence > 0 <;>
        by_cases hmed : mediaDelta > 0 <;>
        simp [Numbering.advance, VideoContinuity.advance, follow, numbering, hf, hmed]

variable (hswi : switching = true → v.sequenceOffset = v.sequence + 1 - pkt.sequenceNumber)

include hswi

theorem carry_carries (data : List Byte) (hpe : v.pendingEpoch = false) :
    v.Carries switching pkt (v.carry descriptor data pkt now switching) := by
  rw [carry]
  split
  · next hbk => exact .inl ⟨rfl, hbk.1, hbk.2.1⟩
  next hbk =>
  obtain ⟨hnum, hss, hep, hn⟩ := follow_advance descriptor hs _ _ _ _
  refine .inr ⟨_, _, rfl, ⟨?_, hss, hep.trans hpe, hn⟩,
    (congrArg Numbering.timestampOffset hnum).trans Numbering.advance_timestampOffset⟩
  rw [hnum]
  exact Numbering.advance_moves 0 v.numbering _ rfl rfl hbk hswi

theorem carryH264_carries : v.Carries switching pkt (v.carryH264 pkt now switching) := by
  rw [carryH264]
  split
  · next hbk => exact .inl ⟨rfl, hbk.1, hbk.2.1⟩
  next hbk =>
  have hm := Numbering.advance_moves 0 v.numbering (v.shift pkt) rfl rfl hbk hswi
  split
  · next hf =>
    refine .inr ⟨_, _, rfl, ⟨?_, rfl, rfl, .inl rfl⟩, rfl⟩
    rw [v.numbering.advance_of_pos hf] at hm
    cases hsn : v.seen <;> cases switching <;> simpa [numbering, hsn] using hm
  · next hb =>
    rw [v.numbering.advance_of_neg hb] at hm
    rw [not_or, Bool.not_eq_true, Bool.or_eq_false_iff, Bool.not_eq_false'] at hb
    exact .inr ⟨_, _, rfl, ⟨hm, hs hb.1.1 hb.1.2, rfl, .inr ⟨rfl, hb.1⟩⟩, rfl⟩

end

theorem translate_answers [VP8] (v : VideoContinuity) (pkt : RtpPacket) (now : ℤ) :
    Answers v (v.Translated pkt now) (v.translate pkt now) := by
  rw [translate]
  split
  · exact v.translatePadding_answers pkt now
  split
  · rfl
  split
  · rfl
  split
  · rfl
  split
  · next hsw =>
    refine Carries.switched (carry_carries _ ?_ (fun _ => rfl) _ rfl) hsw rfl rfl rfl
    exact nofun
  · next hsw =>
    rw [Bool.not_eq_true] at hsw
    have hs := fun hsn => not_switching (v := v) hsn hsw
    -- nothing was pending, as the source goes on
    refine Carries.stays (carry_carries _ ?_ ?_ _ rfl) hsw rfl fun hsn => ?_
    · exact fun hsn _ => (hs hsn).1
    · exact nofun
    · rw [← (hs hsn).2]

theorem translateH264_answers (v : VideoContinuity) (pkt : RtpPacket) (now : ℤ)
    (frameStart : Bool) :
    Answers v (v.Translated pkt now) (v.translateH264 pkt now frameStart) := by
  rw [translateH264]
  split
  · exact v.translatePadding_answers pkt now
  split
  · rfl
  split
  · next hsw =>
    refine Carries.switched (carryH264_carries ?_ fun _ => rfl) hsw rfl rfl rfl
    exact nofun
  · next hsw =>
    rw [Bool.not_eq_true] at hsw
    refine Carries.stays (carryH264_carries (fun hsn _ => (not_switching hsn hsw).1) ?_)
      hsw rfl fun _ => rfl
    exact nofun

end VideoContinuity

namespace AudioContinuity

def numbering (a : AudioContinuity) : Numbering :=
  ⟨a.seen, a.sequence, a.sequenceOffset, a.timestampOffset, a.epochPackets⟩

/-- A packet is passed on, in a state that may have new offsets. -/
structure Passed (a : AudioContinuity) (switching : Bool) (packet : RtpPacket) (epoch : ℕ)
    (out : RtpPacket) (a' : AudioContinuity) : Prop where
  moves : Moves 32768 (placeOf a.seen switching) a.numbering packet out a'.numbering
  ssrc : a'.ssrc = packet.ssrc
  epoch : a'.epoch = epoch
  newest : a'.timestamp = out.timestamp ∨
    a'.timestamp = a.timestamp ∧ a.seen = true ∧ switching = false

variable {a : AudioContinuity} {packet : RtpPacket} {epoch : ℕ}

/-- What becomes of a packet, with the offsets in place. -/
theorem carry_cases {now : ℤ} {switching : Bool} {r : Option RtpPacket × AudioContinuity}
    (hr : a.carry packet epoch now switching = r)
    (hswi : switching = true → a.sequenceOffset = a.sequence + 1 - packet.sequenceNumber)
    (hs : a.seen = true → switching = false → a.ssrc = packet.ssrc ∧ a.epoch = epoch) :
    r = (none, a) ∧ switching = false ∨ ∃ out a', r = (some out, a') ∧
      a.Passed switching packet epoch out a' ∧ a'.timestampOffset = a.timestampOffset := by
  rw [← hr, carry]
  split
  · next hbk => exact .inl ⟨rfl, hbk.2.1⟩
  next hbk =>
  have hm := Numbering.advance_moves 32768 a.numbering { packet with
    sequenceNumber := packet.sequenceNumber + a.sequenceOffset
    timestamp := packet.timestamp + a.timestampOffset } rfl rfl hbk hswi
  split
  · next hf =>
    rw [a.numbering.advance_of_pos hf] at hm
    refine .inr ⟨_, _, rfl, ⟨?_, rfl, rfl, .inl rfl⟩, rfl⟩
    cases hsn : a.seen <;> cases switching
    · simpa [numbering, hsn] using hm
    · simpa [numbering, hsn] using hm
    · have hdlt := rtpSequenceDelta_toNat (hf.resolve_left (by simp [hsn]))
      simpa [numbering, hsn, hdlt] using hm
    · simpa [numbering, hsn] using hm
  · next hb =>
    rw [a.numbering.advance_of_neg hb] at hm
    rw [not_or, Bool.not_eq_true, Bool.or_eq_false_iff, Bool.not_eq_false'] at hb
    obtain ⟨hss, hep⟩ := hs hb.1.1 hb.1.2
    exact .inr ⟨_, _, rfl, ⟨hm, hss, hep, .inr ⟨rfl, hb.1⟩⟩, rfl⟩

theorem not_switching (hsn : a.seen = true) (h : a.switching packet epoch = false) :
    a.ssrc = packet.ssrc ∧ a.epoch = epoch := by
  rw [switching, hsn] at h
  obtain ⟨hep, hss⟩ : epoch = a.epoch ∧ packet.ssrc = a.ssrc := by simpa using h
  exact ⟨hss.symm, hep.symm⟩

theorem translate_answers (a : AudioContinuity) (packet : RtpPacket) (epoch : ℕ)
    (clockRate : BitVec 32) (now : ℤ) (preferred : BitVec 32) (havePreferred : Bool) :
    Answers a (fun out a' => a.Passed (a.switching packet epoch) packet epoch out a' ∧
      (a.switching packet epoch = true → a'.timestampOffset =
        a.switchTimestampOffset packet clockRate now preferred havePreferred))
      (a.translate packet epoch clockRate now preferred havePreferred) := by
  rw [translate]
  split
  · rfl
  split
  · rfl
  split
  · next hsw =>
    generalize hr : carry _ _ _ _ _ = r
    obtain ⟨-, hfls⟩ | ⟨out, a', rfl, ⟨⟨hnm, hts, ha, he⟩, hss, hep, hn⟩, ho⟩ :=
      carry_cases hr (fun _ => rfl) nofun
    · cases hfls
    have hsn : a.seen = true := by
      rw [switching, Bool.and_eq_true] at hsw
      exact hsw.1
    rw [Answers, hsw]
    refine ⟨⟨⟨hnm, hts, ha, ?_⟩, hss, hep,
      hn.imp_right fun hold => absurd hold.2.2 (by decide)⟩, fun _ => ho⟩
    rw [hsn] at he ⊢
    exact ⟨hsn, he.2⟩
  · next hsw =>
    rw [Bool.not_eq_true] at hsw
    generalize hr : carry _ _ _ _ _ = r
    obtain ⟨rfl, -⟩ | ⟨out, a', rfl, hps, -⟩ :=
      carry_cases hr nofun fun hsn _ => not_switching hsn hsw
    · rfl
    · rw [Answers, hsw]
      exact ⟨hps, nofun⟩

end AudioContinuity

end Noxa.Webrtc

import Mathlib.Algebra.Group.Int.Defs
import Mathlib.Algebra.GroupWithZero.Nat
import Mathlib.Tactic.Common

/-!
# RTP packets

The fields of a packet that the forwarders read, and the order of its 16-bit sequence numbers.
-/

namespace Noxa.Webrtc

abbrev Byte := BitVec 8

abbrev SequenceNumber := BitVec 16

/-- The difference of sequence numbers in the signed half of their space. -/
def rtpSequenceDelta (sequence previous : SequenceNumber) : ℤ :=
  let delta : ℤ := (sequence - previous).toNat
  if delta ≥ 2 ^ 15 then delta - 2 ^ 16 else delta

theorem rtpSequenceDelta_eq (sequence previous : SequenceNumber) :
    rtpSequenceDelta sequence previous = (sequence - previous).toInt := by
  rw [rtpSequenceDelta, BitVec.toInt_eq_toNat_cond]
  have hlt := (sequence - previous).isLt
  split <;> split <;> omega

/-- The header and the payload. Padding is counted in the header, or by readers that came before. -/
structure RtpPacket where
  marker : Bool := false
  padding : Bool := false
  headerPaddingSize : Byte := 0
  paddingSize : Byte := 0
  ssrc : BitVec 32
  sequenceNumber : SequenceNumber
  timestamp : BitVec 32
  payload : List Byte
  deriving DecidableEq, Repr

def isVideoPadding (pkt : RtpPacket) : Bool :=
  pkt.padding && pkt.payload.length == 0 && (pkt.headerPaddingSize != 0 || pkt.paddingSize != 0)

end Noxa.Webrtc

import Noxa.Webrtc.Packet

/-!
# The log of received packets

`receiveLog` (`internal/webrtc/nackgen`) is a ring of bits, one for each of the last `size` sequence
numbers, and tells which of them are missing.

## Main definitions

* `ReceiveLog.add`, `ReceiveLog.missingSeqNumbers` — the code
-/

namespace Noxa.Webrtc

/-- `last` is `end` in the source. -/
structure ReceiveLog where
  packets : List (BitVec 64)
  size : BitVec 16
  last : SequenceNumber := 0
  started : Bool := false
  lastConsecutive : SequenceNumber := 0
  deriving DecidableEq

namespace ReceiveLog

def new (size : BitVec 16) : ReceiveLog where
  packets := List.replicate (size.toNat / 64) 0
  size := size

variable (s : ReceiveLog) (seq : SequenceNumber)

def pos : ℕ := (seq % s.size).toNat

def setReceived : ReceiveLog :=
  { s with packets := s.packets.modify (s.pos seq / 64) (· ||| 1#64 <<< (s.pos seq % 64)) }

def delReceived : ReceiveLog :=
  { s with packets := s.packets.modify (s.pos seq / 64) (· &&& ~~~(1#64 <<< (s.pos seq % 64))) }

def getReceived : Bool :=
  s.packets.getD (s.pos seq / 64) 0 &&& 1#64 <<< (s.pos seq % 64) != 0

def clear : ReceiveLog := { s with packets := s.packets.map fun _ => 0 }

/-- The loop that clears slots, for as many numbers as are left. -/
def delFrom (s : ReceiveLog) (i : SequenceNumber) : ℕ → ReceiveLog
  | 0 => s
  | n + 1 => (s.delReceived i).delFrom (i + 1) n

/-- The loop of `fixLastConsecutive`. -/
def firstMissing (s : ReceiveLog) (i : SequenceNumber) : ℕ → SequenceNumber
  | 0 => i
  | n + 1 => if s.getReceived i then s.firstMissing (i + 1) n else i

def fixLastConsecutive : ReceiveLog :=
  { s with
    lastConsecutive :=
      s.firstMissing (s.lastConsecutive + 1) (s.last - s.lastConsecutive).toNat - 1 }

/-- The slots between the last number and a newer one are cleared, all at once after a jump. -/
def clearBetween : ReceiveLog :=
  if s.size < seq - s.last then s.clear else s.delFrom (s.last + 1) (seq - (s.last + 1)).toNat

/-- A packet ahead of the last one, but for its own bit. -/
def forward : ReceiveLog :=
  let s := { s.clearBetween seq with last := seq }
  if s.lastConsecutive + 1 = seq then { s with lastConsecutive := seq }
  else if s.size < seq - s.lastConsecutive then
    { s with lastConsecutive := seq - s.size }.fixLastConsecutive
  else s

def add : ReceiveLog :=
  if s.started = false then
    { s.setReceived seq with last := seq, started := true, lastConsecutive := seq }
  else if seq - s.last = 0 then s
  else if (seq - s.last).toNat < 2 ^ 15 then (s.forward seq).setReceived seq
  else if s.lastConsecutive + 1 = seq then
    ({ s with lastConsecutive := seq }.fixLastConsecutive).setReceived seq
  else s.setReceived seq

/-- The loop of `missingSeqNumbers`. -/
def missingFrom (s : ReceiveLog) (i : SequenceNumber) : ℕ → List SequenceNumber
  | 0 => []
  | n + 1 => if s.getReceived i then s.missingFrom (i + 1) n else i :: s.missingFrom (i + 1) n

def missingSeqNumbers : List SequenceNumber :=
  if (s.last - s.lastConsecutive).toNat ≥ 2 ^ 15 then []
  else s.missingFrom (s.lastConsecutive + 1) (s.last - s.lastConsecutive).toNat

end ReceiveLog

end Noxa.Webrtc

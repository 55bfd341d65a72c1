import Mathlib.Data.List.Chain
import Noxa.Lib.Machine
import Noxa.Webrtc.Packet

/-!
# The cache of a group of pictures

`gopCache` (`internal/webrtc`) keeps the latest keyframe of a source and the units after it, so that
a viewer can be started from the server. Anything that breaks the dependency of a unit on the ones
before it empties the cache until the next keyframe. What a reset leaves behind is only the next
number, and a cache without units does not look at it.

Mime types are compared without regard to case. Those that are cached have no letter with a case
outside of ASCII.

## Main results

* `GopCache.append_holds` — a unit that starts or continues the run
* `gop_cache_continuous` — what is cached is the run since the last keyframe
-/

namespace Noxa.Webrtc

open Machine List

def gopCacheMaxAge : ℤ := 2 * 1000000000

def gopCacheMaxBytes : ℕ := 2 ^ 23

def gopCacheMaxPackets : ℕ := 8192

def gopCacheLiveness : ℤ := 250 * 1000000

structure GopPacket where
  ssrc : BitVec 32
  sequenceNumber : SequenceNumber
  marshalSize : ℕ
  deriving DecidableEq

structure GopUnit where
  packets : List GopPacket
  bytes : ℕ
  keyframe : Bool
  deriving DecidableEq

structure GopCache where
  mime : String := ""
  ssrc : BitVec 32 := 0
  units : List GopUnit := []
  packets : ℕ := 0
  bytes : ℕ := 0
  keyAt : ℤ := 0
  lastAt : ℤ := 0
  nextSeq : SequenceNumber := 0

def equalFold (a b : String) : Bool :=
  a.toList.map Char.toLower == b.toList.map Char.toLower

def gopCacheable (mime : String) :
    Bool := equalFold mime "video/H264" || equalFold mime "video/H265"

structure Observation where
  mime : String
  packets : List GopPacket
  keyframe : Bool
  lost : Bool
  now : ℤ
  deriving DecidableEq

def Observation.unit (o : Observation) : GopUnit :=
  ⟨o.packets, (o.packets.map (·.marshalSize)).sum, o.keyframe⟩

namespace GopCache

def resetLocked (c : GopCache) : GopCache := { nextSeq := c.nextSeq }

/-- The end of `observe`, for a unit that starts or continues the run. -/
def append (c : GopCache) (o : Observation) (last : GopPacket) : GopCache :=
  if gopCacheMaxAge < o.now - c.keyAt then c.resetLocked
  else if gopCacheMaxPackets < c.packets + o.packets.length ∨
      gopCacheMaxBytes < c.bytes + o.unit.bytes then c.resetLocked
  else
    { c with
      units := c.units ++ [o.unit]
      packets := c.packets + o.packets.length
      bytes := c.bytes + o.unit.bytes
      lastAt := o.now
      nextSeq := last.sequenceNumber + 1 }

def observe (c : GopCache) (o : Observation) : GopCache :=
  match o.packets with
  | [] => if o.lost = true then c.resetLocked else c
  | first :: rest =>
    if gopCacheable o.mime = false then c.resetLocked
    else if o.keyframe = true then
      { c.resetLocked with mime := o.mime, ssrc := first.ssrc, keyAt := o.now }.append o
        (rest.getLastD first)
    else if c.units = [] ∨ o.lost = true ∨ equalFold c.mime o.mime = false ∨ c.ssrc ≠ first.ssrc ∨
        first.sequenceNumber ≠ c.nextSeq then c.resetLocked
    else c.append o (rest.getLastD first)

def servableLocked (c : GopCache) (now : ℤ) (mime : String) : Bool :=
  (c.units.head?.any (·.keyframe)) && equalFold c.mime mime &&
    decide (now - c.keyAt ≤ gopCacheMaxAge) && decide (now - c.lastAt ≤ gopCacheLiveness)

def snapshotBefore (c : GopCache) (now : ℤ) (next : GopPacket) (mime : String) : List GopUnit :=
  if c.servableLocked now mime = false ∨ next.ssrc ≠ c.ssrc ∨
    next.sequenceNumber ≠ c.nextSeq then []
  else c.units

end GopCache

inductive GopCall
  | observe (o : Observation)
  | invalidate
  deriving DecidableEq

/-- The cache, with the units observed since the last keyframe. -/
structure GopHistory where
  cache : GopCache := {}
  since : List Observation := []

def gopStep (s : GopHistory) : GopCall → GopHistory × Unit
  | .invalidate => ({ s with cache := s.cache.resetLocked }, ())
  | .observe o => (⟨s.cache.observe o, if o.packets = [] then s.since
      else if o.keyframe = true then [o] else s.since ++ [o]⟩, ())

def Follows (a b : GopPacket) : Prop := b.sequenceNumber = a.sequenceNumber + 1

/-- The packets of a unit are of one source and have consecutive numbers. -/
def GopCall.Contiguous : GopCall → Prop
  | .invalidate => True
  | .observe o => o.packets.IsChain Follows ∧ ∀ p ∈ o.packets, ∀ q ∈ o.packets, p.ssrc = q.ssrc

namespace GopCache

/-- The cached units are those observed: a keyframe and what followed it, of one codec and one
source, with consecutive numbers up to the next one. -/
structure Holds (c : GopCache) (since : List Observation) : Prop where
  units : c.units = since.map Observation.unit
  key : ∃ o ∈ since.head?, o.keyframe = true
  codec : ∀ o ∈ since, equalFold c.mime o.mime = true
  ssrc : ∀ p ∈ since.flatMap (·.packets), p.ssrc = c.ssrc
  chain : (since.flatMap (·.packets)).IsChain Follows
  next : ∃ last ∈ (since.flatMap (·.packets)).getLast?, c.nextSeq = last.sequenceNumber + 1
  packets : c.packets = (since.flatMap (·.packets)).length
  bytes : c.bytes = ((since.flatMap (·.packets)).map (·.marshalSize)).sum
  fits : c.packets ≤ gopCacheMaxPackets ∧ c.bytes ≤ gopCacheMaxBytes

/-- Nothing is cached. -/
structure Idle (c : GopCache) : Prop where
  units : c.units = []
  packets : c.packets = 0
  bytes : c.bytes = 0

variable {c : GopCache} {o : Observation} {since : List Observation}

theorem idle_reset (c : GopCache) : c.resetLocked.Idle := ⟨rfl, rfl, rfl⟩

/-- A unit that starts a run, or continues the run it finds. -/
theorem append_holds {first : GopPacket} {rest : List GopPacket} (hpk : o.packets = first :: rest)
    (hun : c.units = since.map Observation.unit)
    (hkey : ∃ k ∈ (since ++ [o]).head?, k.keyframe = true)
    (hcdc : ∀ x ∈ since ++ [o], equalFold c.mime x.mime = true)
    (hss : ∀ p ∈ (since ++ [o]).flatMap (·.packets), p.ssrc = c.ssrc)
    (hchn : ((since ++ [o]).flatMap (·.packets)).IsChain Follows)
    (hcnt : c.packets = (since.flatMap (·.packets)).length)
    (hby : c.bytes = ((since.flatMap (·.packets)).map (·.marshalSize)).sum) :
    (c.append o (rest.getLastD first)).Idle ∨
      (c.append o (rest.getLastD first)).Holds (since ++ [o]) := by
  rw [append]
  split
  · exact .inl c.idle_reset
  split
  · exact .inl c.idle_reset
  rename_i hrm
  rw [not_or, not_lt, not_lt] at hrm
  refine .inr ⟨?_, hkey, hcdc, hss, hchn, ?_, ?_, ?_, hrm⟩
  · simp [hun]
  · exact ⟨_, by simp [hpk, getLast?_cons], rfl⟩
  · simp [hcnt]
  · simp [hby, Observation.unit]

theorem observe_holds (h : c.Idle ∨ c.Holds since) (ho : (GopCall.observe o).Contiguous) :
    (c.observe o).Idle ∨ (c.observe o).Holds
      (if o.packets = [] then since else if o.keyframe = true then [o] else since ++ [o]) := by
  rw [observe]
  split
  · next hno =>
    rw [if_pos hno]
    split
    · exact .inl c.idle_reset
    · exact h
  · next first rest hpk =>
    rw [if_neg (show o.packets ≠ [] by simp [hpk])]
    split
    · exact .inl c.idle_reset
    have hfst : first ∈ o.packets := by simp [hpk]
    split
    · next hkey =>
      refine @append_holds _ o [] _ _ hpk rfl ⟨o, rfl, hkey⟩ (by simp [equalFold]) ?_ ?_ rfl rfl
      · simpa using fun p hp => ho.2 p hp first hfst
      · simpa using ho.1
    split
    · exact .inl c.idle_reset
    rename_i hjn
    simp only [not_or, Bool.not_eq_true, Bool.not_eq_false, not_not] at hjn
    obtain ⟨hso, -, hmm, hss, hnx⟩ := hjn
    have h := h.resolve_left fun hi => hso hi.units
    obtain ⟨last, hla, hseq⟩ := h.next
    refine append_holds hpk h.units ?_ ?_ ?_ ?_ h.packets h.bytes
    · obtain ⟨k, hk, hkf⟩ := h.key
      exact ⟨k, by simp [head?_append, Option.mem_def.mp hk], hkf⟩
    · simpa [or_imp, forall_and] using ⟨h.codec, hmm⟩
    · rw [flatMap_append, forall_mem_append]
      exact ⟨h.ssrc, by simpa [hss] using fun p hp => ho.2 p hp first hfst⟩
    · rw [flatMap_append]
      refine h.chain.append (by simpa using ho.1) fun x hx y hy => ?_
      obtain rfl := Option.mem_unique hx hla
      obtain rfl : first = y := by simpa [hpk] using hy
      exact hnx.trans hseq

end GopCache

/-- After every history the cache is empty or holds all units since the last keyframe, as one run of
one source and codec within the limits. A packet that a snapshot is taken for continues that run. -/
theorem gop_cache_continuous {calls : List GopCall} (hc : ∀ call ∈ calls, call.Contiguous) :
    let s := run gopStep {} calls
    (s.cache.Idle ∨ s.cache.Holds s.since) ∧
    ∀ now next mime, s.cache.snapshotBefore now next mime ≠ [] →
      s.cache.snapshotBefore now next mime = s.since.map Observation.unit ∧
      equalFold s.cache.mime mime = true ∧ next.ssrc = s.cache.ssrc ∧
      ((s.since.flatMap (·.packets)) ++ [next]).IsChain Follows := by
  intro s
  have hs : s.cache.Idle ∨ s.cache.Holds s.since := by
    refine run_invariant_of (P := fun s : GopHistory => s.cache.Idle ∨ s.cache.Holds s.since)
      (fun s call hca h => ?_) (.inl ⟨rfl, rfl, rfl⟩) hc
    cases call with
    | invalidate => exact .inl s.cache.idle_reset
    | observe => exact GopCache.observe_holds h hca
  refine ⟨hs, fun now next mime hso => ?_⟩
  rw [GopCache.snapshotBefore] at hso ⊢
  split at hso
  · exact absurd rfl hso
  rename_i hsrd
  have h := hs.resolve_left fun hi => hso hi.units
  rw [if_neg hsrd]
  simp only [not_or, Bool.not_eq_false, not_not, GopCache.servableLocked, Bool.and_eq_true] at hsrd
  obtain ⟨last, hla, hseq⟩ := h.next
  refine ⟨h.units, hsrd.1.1.1.2, hsrd.2.1,
    h.chain.append (isChain_singleton next) fun x hx y hy => ?_⟩
  obtain rfl := Option.mem_unique hx hla
  obtain rfl : next = y := by simpa using hy
  exact hsrd.2.2.trans hseq

/-- A keyframe and a unit across the end of the numbers. -/
theorem gop_cache_continuous_wrapped :
    let calls := [GopCall.observe ⟨"video/h264", [⟨7, 65534, 10⟩, ⟨7, 65535, 10⟩], true, true, 0⟩,
      .observe ⟨"video/H264", [⟨7, 0, 10⟩], false, false, 5⟩]
    (∀ call ∈ calls, call.Contiguous) ∧
    ((run gopStep {} calls).cache.snapshotBefore 6 ⟨7, 1, 10⟩ "video/H264").length = 2 ∧
    ((run gopStep {} calls).cache.Idle ∨
      (run gopStep {} calls).cache.Holds (run gopStep {} calls).since) := by
  intro calls
  have hc : ∀ call ∈ calls, call.Contiguous := by
    simp [calls, GopCall.Contiguous, Follows]
  exact ⟨hc, by decide +kernel, (gop_cache_continuous hc).1⟩

end Noxa.Webrtc

import Mathlib.Data.Nat.Count
import Noxa.Lib.Machine
import Noxa.Webrtc.ReceiveLog

/-!
# Requests for missing packets

The generator of `internal/webrtc/nackgen` asks for the missing packets of each stream at every
tick, and for each of them at most `maxNacksPerPacket` times. It counts in a map that it builds anew
from the packets that are missing. The counters have 16 bits and are counted up at every tick, also
when nothing is requested any more: after `2 ^ 16` ticks they start again, and so do the requests.

## Main definitions

* `Generator.collect` — the code
* `requests` — how often a run asks for a packet

## Main results

* `requests_add_count` — the requests for a packet while it is missing
* `nack_bound_iff`, `nack_after_wrap`
-/

namespace Noxa.Webrtc

open Machine List Option Function

/-- The counters of a stream. -/
abbrev Counts := SequenceNumber → Option (BitVec 16)

structure Generator where
  size : BitVec 16
  maxNacksPerPacket : BitVec 16
  receiveLogs : BitVec 32 → Option ReceiveLog := fun _ => none
  nackCountLogs : BitVec 32 → Option Counts := fun _ => none

namespace Generator

/-- The loop over the missing packets: what is requested, and the new counters. -/
def countMissing (limit : BitVec 16) (previous : Counts) (missing : List SequenceNumber) :
    List SequenceNumber × Counts :=
  missing.foldl (fun r seq =>
    let n := (previous seq).getD 0
    (if n < limit then r.1 ++ [seq] else r.1, update r.2 seq (some (n + 1))))
    ([], fun _ => none)

/-- One stream: what is requested, and its counters afterwards. -/
def collectStream (limit : BitVec 16) (missing : List SequenceNumber) (previous : Option Counts) :
    List SequenceNumber × Option Counts :=
  if missing = [] then ([], none)
  else if limit > 0 then
    let r := countMissing limit (previous.getD fun _ => none) missing
    (r.1, some r.2)
  else (missing, previous)

def missing (g : Generator) (ssrc : BitVec 32) : List SequenceNumber :=
  ((g.receiveLogs ssrc).map ReceiveLog.missingSeqNumbers).getD []

/-- All streams, each on its own. -/
def collect (g : Generator) : Generator × (BitVec 32 → List SequenceNumber) :=
  let r := fun ssrc => collectStream g.maxNacksPerPacket (g.missing ssrc) (g.nackCountLogs ssrc)
  ({ g with
    nackCountLogs := fun ssrc =>
      if (g.receiveLogs ssrc).isSome then (r ssrc).2 else g.nackCountLogs ssrc },
    fun ssrc => if (g.receiveLogs ssrc).isSome then (r ssrc).1 else [])

inductive Input where
  | bind (ssrc : BitVec 32)
  | unbind (ssrc : BitVec 32)
  | receive (ssrc : BitVec 32) (seq : SequenceNumber)
  | collect
  deriving DecidableEq

/-- The output is what is requested of each stream. -/
def step (g : Generator) : Input → Generator × (BitVec 32 → List SequenceNumber)
  | .bind ssrc =>
    ({ g with receiveLogs := update g.receiveLogs ssrc (some (.new g.size)) }, fun _ => [])
  | .unbind ssrc =>
    ({ g with
      receiveLogs := update g.receiveLogs ssrc none
      nackCountLogs := update g.nackCountLogs ssrc none }, fun _ => [])
  | .receive ssrc seq =>
    ({ g with
      receiveLogs := update g.receiveLogs ssrc ((g.receiveLogs ssrc).map (·.add seq)) },
      fun _ => [])
  | .collect => g.collect

def counter (g : Generator) (ssrc : BitVec 32) (seq : SequenceNumber) : Option (BitVec 16) :=
  (g.nackCountLogs ssrc).bind (· seq)

/-- How often a run asks for a packet. -/
def requests (ssrc : BitVec 32) (seq : SequenceNumber) : Generator → List Input → ℕ
  | _, [] => 0
  | g, i :: is => (if seq ∈ (g.step i).2 ssrc then 1 else 0) + requests ssrc seq (g.step i).1 is

variable {g : Generator} {ssrc : BitVec 32} {seq : SequenceNumber}

theorem countMissing_spec (limit : BitVec 16) (previous : Counts) (missing : List SequenceNumber) :
    (countMissing limit previous missing).1 =
      missing.filter (fun seq => (previous seq).getD 0 < limit) ∧
    ∀ seq, (countMissing limit previous missing).2 seq =
      if seq ∈ missing then some ((previous seq).getD 0 + 1) else none := by
  induction missing using List.reverseRecOn with
  | nil => exact ⟨rfl, fun _ => rfl⟩
  | append_singleton missing last ih =>
    rw [countMissing, foldl_append, foldl_cons, foldl_nil, ← countMissing]
    dsimp only
    refine ⟨?_, fun seq => ?_⟩
    · rw [ih.1, filter_append, filter_cons, filter_nil]
      split
      · next hle => rw [if_pos (decide_eq_true hle)]
      · next hmo => rw [if_neg (mt of_decide_eq_true hmo), append_nil]
    · by_cases hla : seq = last
      · rw [hla, update_self, if_pos (by simp)]
      · rw [update_of_ne hla, ih.2]
        simp [hla]

theorem collect_of_log (hlog : (g.receiveLogs ssrc).isSome = true) : g.collect.2 ssrc =
      (collectStream g.maxNacksPerPacket (g.missing ssrc) (g.nackCountLogs ssrc)).1 ∧
    g.collect.1.nackCountLogs ssrc =
      (collectStream g.maxNacksPerPacket (g.missing ssrc) (g.nackCountLogs ssrc)).2 :=
  ⟨if_pos hlog, if_pos hlog⟩

theorem log_of_missing (hm : seq ∈ g.missing ssrc) : (g.receiveLogs ssrc).isSome = true := by
  cases hlog : g.receiveLogs ssrc with
  | none => simp [missing, hlog] at hm
  | some => rfl

/-- A packet that is missing is requested if its counter is below the limit, and is counted. -/
theorem collect_missing (hl : 0 < g.maxNacksPerPacket) (hm : seq ∈ g.missing ssrc) :
    (seq ∈ g.collect.2 ssrc ↔ (g.counter ssrc seq).getD 0 < g.maxNacksPerPacket) ∧
    g.collect.1.counter ssrc seq = some ((g.counter ssrc seq).getD 0 + 1) := by
  have hprv : ((g.nackCountLogs ssrc).getD fun _ => none) seq = g.counter ssrc seq := by
    rw [counter]
    cases g.nackCountLogs ssrc <;> rfl
  obtain ⟨hr, hcou⟩ := countMissing_spec g.maxNacksPerPacket
    ((g.nackCountLogs ssrc).getD fun _ => none) (g.missing ssrc)
  obtain ⟨hout, haft⟩ := collect_of_log (log_of_missing hm)
  rw [collectStream, if_neg (ne_nil_of_mem hm), if_pos hl] at hout haft
  constructor
  · rw [hout, hr, mem_filter, decide_eq_true_eq, hprv]
    exact and_iff_right hm
  · rw [counter, haft, bind_some, hcou, if_pos hm, hprv]

/-- The counter of a packet that is not missing is gone after a tick. -/
theorem collect_forgets (hl : 0 < g.maxNacksPerPacket)
    (hlog : (g.receiveLogs ssrc).isSome = true) (hm : seq ∉ g.missing ssrc) :
    g.collect.1.counter ssrc seq = none := by
  rw [counter, (collect_of_log hlog).2, collectStream]
  split
  · rfl
  · rw [bind_some, (countMissing_spec _ _ _).2, if_neg hm]

/-- While a packet is missing, the ticks decide by their number whether it is requested. -/
theorem requests_add_count {limit : BitVec 16} (hl : 0 < limit)
    (hg : g.maxNacksPerPacket = limit) {is : List Input}
    (h : Along step (fun g _ => seq ∈ g.missing ssrc) g is) {c : ℕ}
    (hc : (g.counter ssrc seq).getD 0 = BitVec.ofNat 16 c) :
    requests ssrc seq g is + Nat.count (· % 2 ^ 16 < limit.toNat) c =
      Nat.count (· % 2 ^ 16 < limit.toNat) (c + is.count .collect) := by
  induction is generalizing g c with
  | nil => simp [requests]
  | cons i is ih =>
    obtain ⟨hm, hrs⟩ := h
    cases i with
    | collect =>
      obtain ⟨hr, hcn⟩ := collect_missing (hg ▸ hl) hm
      rw [hc, hg, BitVec.lt_def, BitVec.toNat_ofNat] at hr
      have hnx := ih (g := g.collect.1) hg hrs (c := c + 1) (by
        rw [hcn, hc, getD_some]
        exact (BitVec.ofNat_add c 1).symm)
      rw [Nat.count_succ, ← if_congr hr rfl rfl] at hnx
      rw [requests, count_cons_self,
        show c + (is.count .collect + 1) = c + 1 + is.count .collect by omega, ← hnx, step]
      omega
    | unbind ssrc' =>
      by_cases hsm : ssrc = ssrc'
      · -- without its log nothing is missing, so this was the last step
        cases is with
        | nil => simp [requests, step]
        | cons i is =>
          have hgo := hrs.1
          simp [missing, step, hsm] at hgo
      · have hnx := ih (g := (g.step (.unbind ssrc')).1) hg hrs
          (by simpa [counter, step, update_of_ne hsm] using hc)
        simpa [requests, step] using hnx
    | bind ssrc' => simpa [requests, step] using ih (g := (g.step (.bind ssrc')).1) hg hrs hc
    | receive ssrc' seq' =>
      simpa [requests, step] using ih (g := (g.step (.receive ssrc' seq')).1) hg hrs hc

theorem count_of_le {limit n : ℕ} (hn : n ≤ 2 ^ 16) :
    Nat.count (· % 2 ^ 16 < limit) n = min n limit := by
  induction n with
  | zero => simp
  | succ n ih =>
    rw [Nat.count_succ, ih (by omega), Nat.mod_eq_of_lt (by omega)]
    split <;> omega

theorem count_le_iff {limit : BitVec 16} (hl : 0 < limit) (n : ℕ) :
    Nat.count (· % 2 ^ 16 < limit.toNat) n ≤ limit.toNat ↔ n ≤ 2 ^ 16 := by
  have hpos : 0 < limit.toNat := BitVec.lt_def.mp hl
  constructor
  · intro h
    by_contra hmo
    have hw := Nat.count_monotone (· % 2 ^ 16 < limit.toNat) (show 2 ^ 16 + 1 ≤ n by omega)
    rw [Nat.count_succ, count_of_le le_rfl, if_pos (by simpa using hpos)] at hw
    have hlt := limit.isLt
    omega
  · intro h
    rw [count_of_le h]
    exact min_le_right _ _

end Generator

/-- What is reported lies after `lastConsecutive`, up to the last number, and was not received. -/
theorem ReceiveLog.mem_missingFrom {s : ReceiveLog} {i x : SequenceNumber} {n : ℕ}
    (h : x ∈ s.missingFrom i n) : s.getReceived x = false ∧ (x - i).toNat < n := by
  induction n generalizing i with
  | zero => exact absurd h not_mem_nil
  | succ n ih =>
    have hstp : x ∈ s.missingFrom (i + 1) n → s.getReceived x = false ∧ (x - i).toNat < n + 1 :=
      fun hrs => ⟨(ih hrs).1, by have := (ih hrs).2; bv_omega⟩
    rw [missingFrom] at h
    split at h
    · exact hstp h
    rename_i hmis
    rcases mem_cons.mp h with rfl | hrs
    · exact ⟨by simpa using hmis, by simp⟩
    · exact hstp hrs

open Generator

/-- A stream that stopped with one packet missing, with one request for each. -/
def stalled : Generator where
  size := 64
  maxNacksPerPacket := 1
  receiveLogs ssrc := if ssrc = 7 then some (((ReceiveLog.new 64).add 0).add 2) else none

/-- After `2 ^ 16` ticks the packet is requested once more. -/
theorem nack_after_wrap :
    stalled.missing 7 = [1] ∧ requests 7 1 stalled (List.replicate (2 ^ 16 + 1) .collect) = 2 := by
  have hmis : stalled.missing 7 = [1] := by decide +kernel
  have haln : ∀ (n : ℕ) (g : Generator), g.missing 7 = [1] →
      Along step (fun g _ => 1 ∈ g.missing 7) g (List.replicate n .collect) := by
    intro n
    induction n with
    | zero => exact fun _ _ => trivial
    | succ n ih =>
      exact fun g hg => ⟨show 1 ∈ g.missing 7 from hg ▸ mem_singleton_self 1, ih _ hg⟩
  have hcnt : ∀ n, requests 7 1 stalled (List.replicate n .collect) =
      Nat.count (· % 2 ^ 16 < 1) n := by
    intro n
    have hrun := requests_add_count (g := stalled) (by decide) rfl (haln n stalled hmis)
      (c := 0) rfl
    rwa [Nat.count_zero, count_replicate_self, zero_add] at hrun
  -- for a variable: the kernel would count up to a numeral one by one
  have hw : ∀ n, n = 2 ^ 16 → requests 7 1 stalled (List.replicate (n + 1) .collect) = 2 := by
    intro n hn
    rw [hcnt, Nat.count_succ, count_of_le hn.le, hn]
    rfl
  exact ⟨hmis, hw _ rfl⟩

/-- In every run with a positive limit: while a packet is missing, from a tick on before which it
was not counted, it is requested at most as often as the limit says exactly if there are at most
`2 ^ 16` ticks. And the counter of a packet that was received, or is not between `lastConsecutive`
and the last number, is gone after a tick. -/
theorem nack_bound_iff (g : Generator) (ssrc : BitVec 32) (seq : SequenceNumber) :
    (∀ is, 0 < g.maxNacksPerPacket → g.counter ssrc seq = none →
      Along step (fun g _ => seq ∈ g.missing ssrc) g is →
      (requests ssrc seq g is ≤ g.maxNacksPerPacket.toNat ↔ is.count .collect ≤ 2 ^ 16)) ∧
    ∀ log, 0 < g.maxNacksPerPacket → g.receiveLogs ssrc = some log → log.getReceived seq = true ∨
        (log.last - log.lastConsecutive).toNat ≤ (seq - (log.lastConsecutive + 1)).toNat →
      (g.step .collect).1.counter ssrc seq = none := by
  refine ⟨fun is hl hno h => ?_, fun log hl hlog hgo => ?_⟩
  · have hcnt := requests_add_count hl rfl h (c := 0) (by rw [hno]; rfl)
    rw [Nat.count_zero, zero_add, add_zero] at hcnt
    rw [hcnt, count_le_iff hl]
  · refine collect_forgets hl (by rw [hlog]; rfl) fun hm => ?_
    rw [missing, hlog, map_some, getD_some, ReceiveLog.missingSeqNumbers] at hm
    split at hm
    · exact absurd hm not_mem_nil
    obtain ⟨hmis, hbtw⟩ := ReceiveLog.mem_missingFrom hm
    rcases hgo with hrcv | hbeh
    · rw [hmis] at hrcv
      cases hrcv
    · omega

theorem nack_bound_iff_stalled : requests 7 1 stalled [.collect, .collect] ≤ 1 ∧
    (stalled.step .collect).1.counter 7 2 = none := by
  refine ⟨((nack_bound_iff stalled 7 1).1 [.collect, .collect] (by decide) rfl ?_).mpr (by decide),
    (nack_bound_iff stalled 7 2).2 _ (by decide) rfl (.inl (by decide +kernel))⟩
  exact ⟨by decide +kernel, by decide +kernel, trivial⟩

end Noxa.Webrtc

import Noxa.Lib.Machine
import Noxa.Lib.Table

/-!
# Rate limits of the server

A `chatRateLimiter` has a bucket for each key and window. A request charges some keys and gives its
charges back when a later check refuses it, always with the time it read at its start, so that the
time of a refund says nothing about how much later it happens. A bucket lists the requests whose
charges it granted and did not get back. What was granted from buckets that are gone, or without
one, is listed in `stale`.

## Main results

* `charges_bounded` — a bucket grants no more than its limit, when no refund reaches a later bucket
* `late_refund_raises_limit` — a refund after the window was replaced
-/

namespace Noxa.Server

open Machine List Table

structure ChatRateConfig where
  max : Int
  window : Int
  max_pos : 0 < max

def newChatRateLimiter (max window : Int) : ChatRateConfig where
  max := if max ≤ 0 then 5 else max
  window := if window ≤ 0 then 3000000000 else window
  max_pos := by split <;> omega

def chatLimiterSweepAt : ℕ := 4096

def chatLimiterMaxKeys : ℕ := 200000

structure ChatBucket where
  uid : String
  tokens : Int
  limit : Int
  reset : Int
  holders : List ℕ := []

def ChatBucket.grants (b : ChatBucket) : List (ℕ × String) :=
  b.holders.map (·, b.uid)

structure ChatRate where
  buckets : Table ChatBucket ChatBucket.uid := Table.empty
  swept : Int := 0
  stale : List (ℕ × String) := []

namespace ChatRate

variable (cfg : ChatRateConfig) (s : ChatRate) (request : ℕ) (uid : String) (now limit : Int)

/-- Expired buckets go, at most once a second. -/
def sweep : ChatRate :=
  if chatLimiterSweepAt ≤ s.buckets.rows.length ∧ now - s.swept > 1000000000 then
    { swept := now
      buckets := s.buckets.delete fun b => decide (b.reset < now)
      stale := s.stale ++ (s.buckets.rows.filter (·.reset < now)).flatMap ChatBucket.grants }
  else s

/-- Takes a token of the bucket, which is written back. -/
def take (b : ChatBucket) : ChatRate × Bool × Int :=
  if b.tokens ≤ 0 then ({ s with buckets := s.buckets.put b }, false, b.reset - now)
  else
    ({ s with
        buckets := s.buckets.put
          { b with tokens := b.tokens - 1, holders := request :: b.holders } },
      true, 0)

def chargeLocked (skipAtCap : Bool) : ChatRate × Bool × Int :=
  let limit := if limit ≤ 0 then cfg.max else limit
  match s.buckets.get uid with
  | some b =>
    if now > b.reset then
      take { s with stale := s.stale ++ b.grants } request now
        ⟨uid, limit, limit, now + cfg.window, []⟩
    else if limit > b.limit then
      s.take request now { b with tokens := b.tokens + (limit - b.limit), limit := limit }
    else s.take request now b
  | none =>
    let s := s.sweep now
    if chatLimiterMaxKeys ≤ s.buckets.rows.length then
      ({ s with stale := if skipAtCap then (request, uid) :: s.stale else s.stale }, skipAtCap,
        cfg.window)
    else s.take request now ⟨uid, limit, limit, now + cfg.window, []⟩

/-- `refund`, of a charge of the present bucket or a stale one. -/
def refund (old : Bool) : ChatRate :=
  let s := if old then { s with stale := s.stale.erase (request, uid) } else s
  match s.buckets.get uid with
  | some b =>
    let tokens := if now > b.reset then b.tokens else b.tokens + 1
    let holders := if old then b.holders else b.holders.erase request
    { s with buckets := s.buckets.put { b with tokens, holders } }
  | none => s

end ChatRate

inductive RateCall
  | allowWithRetry (request : ℕ) (uid : String) (limit : Int)
  | allowOrSkip (request : ℕ) (uid : String)
  | refund (request : ℕ) (uid : String) (old : Bool)

/-- The request was granted this charge, and has not given it back. -/
def Owed (s : ChatRate) (request : ℕ) (uid : String) (old : Bool) : Prop :=
  if old then (request, uid) ∈ s.stale else ∃ b ∈ s.buckets.get uid, request ∈ b.holders

instance : Decidable (Owed s request uid old) :=
  inferInstanceAs (Decidable (if old then _ else _))

/-- A call, with the time each request has read. -/
def rateStep (cfg : ChatRateConfig) (clock : ℕ → Int) (s : ChatRate) :
    RateCall → ChatRate × Bool × Int
  | .allowWithRetry request uid limit => s.chargeLocked cfg request uid (clock request) limit false
  | .allowOrSkip request uid => s.chargeLocked cfg request uid (clock request) cfg.max true
  | .refund request uid old =>
    if Owed s request uid old then (s.refund request uid (clock request) old, true, 0)
    else (s, false, 0)

/-- A stale charge is given back only when there is no bucket for it. -/
def RefundsOwn (clock : ℕ → Int) (s : ChatRate) : RateCall → Prop
  | .refund request uid true => ∀ b, s.buckets.get uid = some b → b.reset < clock request
  | _ => True

/-- The bucket has its tokens beside the charges that it granted. -/
def Fair (b : ChatBucket) : Prop :=
  0 ≤ b.tokens ∧ b.tokens + b.holders.length ≤ b.limit

structure RateInv (s : ChatRate) : Prop where
  fair : ∀ b ∈ s.buckets.rows, Fair b
  sized : s.buckets.rows.length ≤ chatLimiterMaxKeys

section

variable {cfg : ChatRateConfig} {s : ChatRate} {b : ChatBucket} {request : ℕ} {uid : String}
  {now limit : Int} (h : RateInv s)

include h

theorem RateInv.put (hb : Fair b)
    (hf : s.buckets.get b.uid = none → s.buckets.rows.length < chatLimiterMaxKeys) :
    RateInv { s with buckets := s.buckets.put b } where
  fair := forall_put hb h.fair
  sized := by
    cases hg : s.buckets.get b.uid with
    | none => exact Nat.le_trans (Nat.le_of_eq (length_put_of_none hg)) (hf hg)
    | some r => exact Nat.le_trans (Nat.le_of_eq (length_put_of_some hg)) h.sized

theorem RateInv.take (hb : Fair b)
    (hf : s.buckets.get b.uid = none → s.buckets.rows.length < chatLimiterMaxKeys) :
    RateInv (s.take request now b).1 := by
  rw [ChatRate.take]
  split
  · exact h.put hb hf
  · have := hb.2
    refine h.put ⟨by dsimp only; omega, ?_⟩ hf
    rw [length_cons]
    dsimp only
    omega

theorem RateInv.sweep : RateInv (s.sweep now) := by
  rw [ChatRate.sweep]
  split
  · exact ⟨fun b hb => h.fair b (mem_delete.mp hb).1, Nat.le_trans (length_filter_le _ _) h.sized⟩
  · exact h

theorem RateInv.charge (skip : Bool) :
    RateInv (s.chargeLocked cfg request uid now limit skip).1 := by
  have hl : 0 < if limit ≤ 0 then cfg.max else limit := by
    have := cfg.max_pos
    split <;> omega
  rw [ChatRate.chargeLocked]
  generalize (if limit ≤ 0 then cfg.max else limit) = limit at hl
  have hnew : Fair ⟨uid, limit, limit, now + cfg.window, []⟩ :=
    ⟨Int.le_of_lt hl, Int.le_of_eq (Int.add_zero limit)⟩
  cases hg : s.buckets.get uid with
  | some b =>
    obtain ⟨hb, rfl⟩ := get_eq_some.mp hg
    obtain ⟨ht, hwi⟩ := h.fair b hb
    have hf : s.buckets.get b.uid = none → s.buckets.rows.length < chatLimiterMaxKeys := by
      simp [hg]
    dsimp only
    split
    · exact RateInv.take { h with } hnew hf
    split
    · -- the limit and the tokens grow by the same
      exact h.take ⟨by dsimp only; omega, by dsimp only; omega⟩ hf
    · exact h.take ⟨ht, hwi⟩ hf
  | none =>
    dsimp only
    split
    · exact { h.sweep with }
    · exact h.sweep.take hnew fun _ => by omega

theorem RateInv.refund (old : Bool) (howed : Owed s request uid old)
    (ho : old = true → ∀ b, s.buckets.get uid = some b → b.reset < now) :
    RateInv (s.refund request uid now old) := by
  have hf {b r : ChatBucket} (hg : s.buckets.get uid = some b) (hr : r.uid = b.uid) :
      s.buckets.get r.uid = none → s.buckets.rows.length < chatLimiterMaxKeys := by
    rw [hr, (get_eq_some.mp hg).2, hg]
    simp
  rw [ChatRate.refund]
  cases old with
  | false =>
    obtain ⟨b, hg, hin⟩ := howed
    obtain ⟨ht, hwi⟩ := h.fair b (get_eq_some.mp hg).1
    have hpos := length_pos_of_mem hin
    simp only [Bool.false_eq_true, if_false, Option.mem_def.mp hg]
    refine h.put ⟨?_, ?_⟩ (hf hg rfl)
    · dsimp only
      split <;> omega
    · rw [length_erase_of_mem hin]
      dsimp only
      split <;> omega
  | true =>
    simp only [if_true]
    cases hg : s.buckets.get uid with
    | none => exact { h with }
    | some b =>
      simp only [if_pos (ho rfl b hg)]
      exact { h.put (h.fair b (get_eq_some.mp hg).1) (hf hg rfl) with }

theorem RateInv.step {clock : ℕ → Int} {call : RateCall} (ho : RefundsOwn clock s call) :
    RateInv (rateStep cfg clock s call).1 := by
  cases call with
  | allowWithRetry request uid limit => exact h.charge false
  | allowOrSkip request uid => exact h.charge true
  | refund request uid old =>
    rw [rateStep]
    split
    · next howed => exact h.refund old howed fun hold => by subst hold; exact ho
    · exact h

end

/-- Every state keeps to its limits, while refunds only reach the buckets they are of. -/
theorem charges_bounded (cfg : ChatRateConfig) (clock : ℕ → Int) (calls : List RateCall)
    (h : Along (rateStep cfg clock) (RefundsOwn clock) {} calls) :
    let s := run (rateStep cfg clock) {} calls
    (∀ b ∈ s.buckets.rows, b.holders.length ≤ b.limit ∧ b.tokens ≤ b.limit) ∧
      s.buckets.rows.length ≤ chatLimiterMaxKeys := by
  have hinv : RateInv (run (rateStep cfg clock) {} calls) :=
    run_invariant_along (fun _ _ ho h => h.step ho) ⟨by simp [Table.empty], Nat.zero_le _⟩ h
  refine ⟨fun b hb => ?_, hinv.sized⟩
  obtain ⟨ht, hwi⟩ := hinv.fair b hb
  omega

/-- A charge is given back, and another one after its bucket has expired. -/
theorem charges_bounded_given_back :
    let s := run (rateStep (newChatRateLimiter 1 0) fun request => request * 4000000000) {}
      [.allowOrSkip 0 "a", .refund 0 "a" false, .refund 1 "a" true]
    (∀ b ∈ s.buckets.rows, b.holders.length ≤ b.limit ∧ b.tokens ≤ b.limit) ∧
      s.buckets.rows.length ≤ chatLimiterMaxKeys := by
  refine charges_bounded _ _ _ ⟨trivial, trivial, fun b hb => ?_, trivial⟩
  cases hb
  decide

/-- A request that takes eleven seconds gives its charge back to the next window. -/
theorem late_refund_raises_limit :
    let clock : ℕ → Int := fun request => if request = 0 then 0 else 11000000000
    let s := run (rateStep (newChatRateLimiter 1 10000000000) clock) {} [.allowWithRetry 0 "a" 1,
      .allowWithRetry 1 "a" 1, .refund 0 "a" true, .allowWithRetry 2 "a" 1]
    ∃ b ∈ s.buckets.rows, b.limit = 1 ∧ b.holders = [2, 1] := by
  decide

end Noxa.Server

import Noxa.Lib.BigEndian
import Noxa.Lib.Machine
import Noxa.Lib.Table

/-!
# The replay window

`MediaReplayWindow` (`media-replay.js`) answers for each decrypted frame whether its initialization
vector was seen before. For a source it keeps the newest timestamp and the vectors of the window
behind it. Timestamps are compared by their signed distance, so the argument is about positions on a
stretch of the circle that is shorter than half of it: there a vector that was evicted is behind the
window for good, as the newest timestamp only moves ahead, on frames that are then refused as well.

## Main definitions

* `check` — the code
* `Spanned` — the timestamps of each source lie on a short stretch
* `Source.Remembers` — an accepted vector is still kept, or behind the window

## Main results

* `Source.Remembers.check`, `Source.Remembers.refused` — one check keeps this, and refuses the
  vector
* `replay_window_accepts_once`
-/

namespace Noxa.Media

namespace Replay

open Machine List Table

/-- A vector after its source. The map of a source has the timestamp of a token as its value. -/
structure Token where
  timestamp : BitVec 32
  counter : BitVec 32
  deriving DecidableEq, Repr

structure Source where
  ssrc : BitVec 32
  newest : BitVec 32
  frames : List Token
  deriving DecidableEq, Repr

structure Limits where
  maxSources : ℕ := 8
  maxFrames : ℕ := 8192
  timestampWindow : ℕ := 1800000

inductive Answer where
  | ok
  | duplicate
  | old
  | full
  | invalid
  deriving DecidableEq, Repr

abbrev Sources := Table Source Source.ssrc

/-- The three words of a vector of 12 bytes. -/
def readIv (iv : List UInt8) : Option (BitVec 32 × Token) :=
  let word (i : ℕ) : BitVec 32 := BitVec.ofNat 32 (BigEndian.decode ((iv.drop i).take 4))
  if iv.length = 12 then some (word 0, ⟨word 4, word 8⟩) else none

/-- A newer timestamp evicts what it leaves behind the window. -/
def Source.advance (window : ℕ) (s : Source) (timestamp : BitVec 32) : Source :=
  if (timestamp - s.newest).toInt > 0 then
    { s with
      newest := timestamp
      frames := s.frames.filter fun f => ¬ (timestamp - f.timestamp).toInt > window }
  else s

def Source.check (l : Limits) (s : Source) (t : Token) : Source × Answer :=
  if t ∈ s.frames then (s, .duplicate)
  else if (t.timestamp - s.newest).toInt < -l.timestampWindow then (s, .old)
  else
    let s := s.advance l.timestampWindow t.timestamp
    if s.frames.length ≥ l.maxFrames then (s, .full)
    else ({ s with frames := s.frames ++ [t] }, .ok)

def check (l : Limits) (sources : Sources) (iv : List UInt8) : Sources × Answer :=
  match readIv iv with
  | none => (sources, .invalid)
  | some (ssrc, t) =>
    match sources.get ssrc with
    | some s => (sources.put (s.check l t).1, (s.check l t).2)
    | none =>
      if sources.rows.length ≥ l.maxSources then (sources, .full)
      else
        let s : Source := ⟨ssrc, t.timestamp, []⟩
        (sources.put (s.check l t).1, (s.check l t).2)

/-! ### One source -/

/-- On the stretch that starts at `base`. -/
def Placed (window : ℕ) (base timestamp : BitVec 32) : Prop :=
  (timestamp - base).toNat + window < 2 ^ 31

variable {l : Limits} {window : ℕ} {base : BitVec 32} {s : Source} {t x : Token}

/-- On a short stretch the signed distance is the difference of positions. -/
theorem Placed.sub_toInt {a b : BitVec 32} (ha : Placed window base a) (hb : Placed window base b) :
    (a - b).toInt = (a - base).toNat - (b - base).toNat := by
  rw [Placed] at ha hb
  rw [BitVec.toInt_eq_toNat_cond]
  bv_omega

structure Source.Placed (window : ℕ) (base : BitVec 32) (s : Source) : Prop where
  newest : Replay.Placed window base s.newest
  frames : ∀ f ∈ s.frames, Replay.Placed window base f.timestamp

/-- A vector that was accepted: it is kept, or the newest timestamp has left it behind. -/
structure Source.Remembers (window : ℕ) (s : Source) (x : Token) : Prop where
  kept : x ∈ s.frames ∨ (s.newest - x.timestamp).toInt > window
  behind : 0 ≤ (s.newest - x.timestamp).toInt

/-- What a check does to a source. -/
theorem Source.check_cases (l : Limits) (s : Source) (t : Token) :
    (s.check l t).1 = s ∧ (s.check l t).2 ≠ .ok ∨
    (s.check l t).1 = s.advance l.timestampWindow t.timestamp ∧ (s.check l t).2 = .full ∨
    t ∉ s.frames ∧ -(l.timestampWindow : ℤ) ≤ (t.timestamp - s.newest).toInt ∧
      (s.advance l.timestampWindow t.timestamp).frames.length < l.maxFrames ∧
      s.check l t = ({ s.advance l.timestampWindow t.timestamp with
        frames := (s.advance l.timestampWindow t.timestamp).frames ++ [t] }, .ok) := by
  rw [Source.check]
  split
  · exact .inl ⟨rfl, nofun⟩
  next hn =>
  split
  · exact .inl ⟨rfl, nofun⟩
  next hrct =>
  dsimp only
  split
  · exact .inr (.inl ⟨rfl, rfl⟩)
  next hrm => exact .inr (.inr ⟨hn, not_lt.mp hrct, not_le.mp hrm, rfl⟩)

theorem Source.ssrc_advance (s : Source) (timestamp : BitVec 32) :
    (s.advance window timestamp).ssrc = s.ssrc := by
  rw [Source.advance]
  split <;> rfl

theorem Source.ssrc_check (l : Limits) (s : Source) (t : Token) :
    (s.check l t).1.ssrc = s.ssrc := by
  rcases s.check_cases l t with ⟨h, -⟩ | ⟨h, -⟩ | ⟨-, -, -, h⟩
  · rw [h]
  · rw [h, Source.ssrc_advance]
  · rw [h]
    exact s.ssrc_advance _

theorem Source.frames_advance (s : Source) (timestamp : BitVec 32) :
    (s.advance window timestamp).frames.Sublist s.frames := by
  rw [Source.advance]
  split
  · exact filter_sublist
  · exact List.Sublist.refl _

variable {timestamp : BitVec 32}

theorem Source.Placed.advance (h : s.Placed window base)
    (ht : Replay.Placed window base timestamp) :
    (s.advance window timestamp).Placed window base := by
  refine ⟨?_, fun f hf => h.frames f ((s.frames_advance timestamp).subset hf)⟩
  rw [Source.advance]
  split
  · exact ht
  · exact h.newest

theorem Source.Placed.check (h : s.Placed l.timestampWindow base)
    (ht : Replay.Placed l.timestampWindow base t.timestamp) :
    (s.check l t).1.Placed l.timestampWindow base := by
  rcases s.check_cases l t with ⟨heq, -⟩ | ⟨heq, -⟩ | ⟨-, -, -, heq⟩
  · rwa [heq]
  · rw [heq]
    exact h.advance ht
  · rw [heq]
    exact ⟨(h.advance ht).newest,
      forall_mem_append.mpr ⟨(h.advance ht).frames, forall_mem_singleton.mpr ht⟩⟩

/-- A newer timestamp moves ahead of what it evicts. -/
theorem Source.Remembers.advance (h : s.Remembers window x) (hs : s.Placed window base)
    (hx : Replay.Placed window base x.timestamp)
    (ht : Replay.Placed window base timestamp) :
    (s.advance window timestamp).Remembers window x := by
  obtain ⟨hkt, hbeh⟩ := h
  rw [Source.advance]
  split
  · next hahd =>
    rw [hs.newest.sub_toInt hx] at hkt hbeh
    rw [ht.sub_toInt hs.newest] at hahd
    refine ⟨?_, by rw [ht.sub_toInt hx]; omega⟩
    by_cases hev : (timestamp - x.timestamp).toInt > window
    · exact .inr hev
    rw [ht.sub_toInt hx] at hev
    refine .inl (mem_filter.mpr ⟨hkt.resolve_right (by omega), ?_⟩)
    rw [decide_eq_true_eq, ht.sub_toInt hx]
    exact hev
  · exact ⟨hkt, hbeh⟩

section

variable (hs : s.Placed l.timestampWindow base)
  (hx : Replay.Placed l.timestampWindow base x.timestamp)
  (ht : Replay.Placed l.timestampWindow base t.timestamp)

include hs hx

include ht in
theorem Source.Remembers.check (h : s.Remembers l.timestampWindow x) :
    (s.check l t).1.Remembers l.timestampWindow x := by
  have hadv := h.advance hs hx ht
  rcases s.check_cases l t with ⟨heq, -⟩ | ⟨heq, -⟩ | ⟨-, -, -, heq⟩
  · rwa [heq]
  · rwa [heq]
  · rw [heq]
    exact ⟨hadv.kept.imp_left (mem_append_left _), hadv.behind⟩

/-- An accepted vector is remembered. -/
theorem Source.remembers_of_ok (hok : (s.check l x).2 = .ok) :
    (s.check l x).1.Remembers l.timestampWindow x := by
  rcases s.check_cases l x with ⟨-, hno⟩ | ⟨-, hfu⟩ | ⟨-, -, -, heq⟩
  · exact absurd hok hno
  · rw [hfu] at hok
    exact absurd hok (by decide)
  · rw [heq]
    refine ⟨.inl (mem_append_right _ (mem_singleton_self x)), ?_⟩
    rw [Source.advance]
    split
    · simp
    rename_i hbeh
    rw [hx.sub_toInt hs.newest] at hbeh
    rw [hs.newest.sub_toInt hx]
    omega

include ht in
/-- A remembered vector is refused, and so is one that is more than the window behind it. -/
theorem Source.Remembers.refused (h : s.Remembers l.timestampWindow x)
    (hold : t = x ∨ (x.timestamp - t.timestamp).toInt > l.timestampWindow) :
    (s.check l t).2 ≠ .ok := by
  rcases s.check_cases l t with ⟨-, hno⟩ | ⟨-, hfu⟩ | ⟨hn, hrct, -, -⟩
  · exact hno
  · rw [hfu]
    decide
  · have hbeh := h.behind
    rw [hs.newest.sub_toInt hx] at hbeh
    rw [ht.sub_toInt hs.newest] at hrct
    rcases hold with rfl | hold
    · have hkt := h.kept.resolve_left hn
      rw [hs.newest.sub_toInt hx] at hkt
      omega
    · rw [hx.sub_toInt ht] at hold
      omega

end

theorem Source.length_check (h : s.frames.length ≤ l.maxFrames) (t : Token) :
    (s.check l t).1.frames.length ≤ l.maxFrames := by
  have hadv : (s.advance l.timestampWindow t.timestamp).frames.length ≤ l.maxFrames :=
    (s.frames_advance t.timestamp).length_le.trans h
  rcases s.check_cases l t with ⟨heq, -⟩ | ⟨heq, -⟩ | ⟨-, -, hrm, heq⟩
  · rwa [heq]
  · rwa [heq]
  · rw [heq, length_append]
    exact hrm

/-! ### All sources -/

/-- What a check does: nothing, or a check of one source, which may be new. -/
theorem check_cases (l : Limits) (sources : Sources) (iv : List UInt8) :
    (check l sources iv).1 = sources ∧ (check l sources iv).2 ≠ .ok ∨
    ∃ s t, readIv iv = some (s.ssrc, t) ∧
      (sources.get s.ssrc = some s ∨ sources.get s.ssrc = none ∧ s.newest = t.timestamp ∧
        s.frames = [] ∧ sources.rows.length < l.maxSources) ∧
      check l sources iv = (sources.put (s.check l t).1, (s.check l t).2) := by
  rw [check]
  cases hrd : readIv iv with
  | none => exact .inl ⟨rfl, by simp⟩
  | some words =>
    obtain ⟨ssrc, t⟩ := words
    dsimp only
    cases hg : sources.get ssrc with
    | some s =>
      obtain rfl := (get_eq_some.mp hg).2
      exact .inr ⟨s, t, rfl, .inl hg, rfl⟩
    | none =>
      dsimp only
      split
      · exact .inl ⟨rfl, by simp⟩
      · next hrm =>
        exact .inr ⟨⟨ssrc, t.timestamp, []⟩, t, rfl, .inr ⟨hg, rfl, rfl, not_le.mp hrm⟩, rfl⟩

/-- The timestamps of each source lie on a stretch that is shorter than `2 ^ 31` by the window. -/
def Spanned (window : ℕ) (base : BitVec 32 → BitVec 32) (iv : List UInt8) : Prop :=
  ∀ ssrc t, readIv iv = some (ssrc, t) → Placed window (base ssrc) t.timestamp

variable {bases : BitVec 32 → BitVec 32} {sources : Sources} {iv : List UInt8} {ssrc : BitVec 32}

def AllPlaced (window : ℕ) (bases : BitVec 32 → BitVec 32) (sources : Sources) : Prop :=
  ∀ s ∈ sources.rows, s.Placed window (bases s.ssrc)

/-- A source of `check_cases` is placed, be it old or new. -/
theorem AllPlaced.checked (h : AllPlaced window bases sources)
    (ht : Placed window (bases s.ssrc) t.timestamp)
    (hs : sources.get s.ssrc = some s ∨ sources.get s.ssrc = none ∧ s.newest = t.timestamp ∧
      s.frames = [] ∧ sources.rows.length < l.maxSources) : s.Placed window (bases s.ssrc) := by
  rcases hs with hs | ⟨-, hnst, hfrs, -⟩
  · exact h s (get_eq_some.mp hs).1
  · exact ⟨hnst ▸ ht, fun f hf => absurd (hfrs ▸ hf) not_mem_nil⟩

/-- The vector was accepted, and its source remembers it. -/
def Remembers (window : ℕ) (ssrc : BitVec 32) (x : Token) (sources : Sources) : Prop :=
  ∃ s, sources.get ssrc = some s ∧ s.Remembers window x

section

variable (h : AllPlaced l.timestampWindow bases sources) (hiv : Spanned l.timestampWindow bases iv)

include h hiv

theorem AllPlaced.check : AllPlaced l.timestampWindow bases (Replay.check l sources iv).1 := by
  rcases check_cases l sources iv with ⟨heq, -⟩ | ⟨s, t, hrd, hs, heq⟩
  · rwa [heq]
  rw [heq]
  refine forall_put ?_ h
  rw [Source.ssrc_check]
  exact (h.checked (hiv _ t hrd) hs).check (hiv _ t hrd)

theorem Remembers.check (hx : Placed l.timestampWindow (bases ssrc) x.timestamp)
    (hr : Remembers l.timestampWindow ssrc x sources) :
    Remembers l.timestampWindow ssrc x (Replay.check l sources iv).1 := by
  obtain ⟨s, hg, hrmb⟩ := hr
  rcases check_cases l sources iv with ⟨heq, -⟩ | ⟨s', t, hrd, hs, heq⟩
  · rw [heq]
    exact ⟨s, hg, hrmb⟩
  rw [heq, Remembers, get_put, Source.ssrc_check]
  by_cases hsrc : s'.ssrc = ssrc
  · subst hsrc
    have hsm : s' = s := by
      rcases hs with hs | ⟨hs, -⟩ <;> rw [hg] at hs
      · exact (Option.some.inj hs).symm
      · cases hs
    subst hsm
    rw [if_pos rfl]
    exact ⟨_, rfl, hrmb.check (h.checked (hiv _ t hrd) hs) hx (hiv _ t hrd)⟩
  · rw [if_neg hsrc]
    exact ⟨s, hg, hrmb⟩

theorem remembers_of_ok (hrd : readIv iv = some (ssrc, x)) (hok : (check l sources iv).2 = .ok) :
    Remembers l.timestampWindow ssrc x (check l sources iv).1 := by
  rcases check_cases l sources iv with ⟨-, hno⟩ | ⟨s, t, hrd', hs, heq⟩
  · exact absurd hok hno
  obtain ⟨rfl, rfl⟩ := Prod.mk.inj (Option.some.inj (hrd'.symm.trans hrd))
  rw [heq] at hok ⊢
  refine ⟨_, ?_, Source.remembers_of_ok (h.checked (hiv _ t hrd) hs) (hiv _ t hrd) hok⟩
  rw [get_put, Source.ssrc_check, if_pos rfl]

theorem Remembers.refused (hx : Placed l.timestampWindow (bases ssrc) x.timestamp)
    (hr : Remembers l.timestampWindow ssrc x sources) (hrd : readIv iv = some (ssrc, t))
    (hold : t = x ∨ (x.timestamp - t.timestamp).toInt > l.timestampWindow) :
    (Replay.check l sources iv).2 ≠ .ok := by
  obtain ⟨s, hg, hrmb⟩ := hr
  obtain ⟨hs, rfl⟩ := get_eq_some.mp hg
  rw [Replay.check, hrd]
  dsimp only
  rw [hg]
  exact hrmb.refused (h s hs) hx (hiv _ t hrd) hold

end

def Bounded (l : Limits) (sources : Sources) : Prop :=
  sources.rows.length ≤ l.maxSources ∧ ∀ s ∈ sources.rows, s.frames.length ≤ l.maxFrames

theorem Bounded.check (h : Bounded l sources) (iv : List UInt8) :
    Bounded l (Replay.check l sources iv).1 := by
  rcases check_cases l sources iv with ⟨heq, -⟩ | ⟨s, t, -, hs, heq⟩
  · rwa [heq]
  rw [heq]
  constructor
  · rcases hs with hs | ⟨hs, -, -, hrm⟩ <;> rw [← Source.ssrc_check l s t] at hs
    · rw [length_put_of_some hs]
      exact h.1
    · rw [length_put_of_none hs]
      exact hrm
  · refine forall_put (Source.length_check ?_ t) h.2
    rcases hs with hs | ⟨-, -, hfrs, -⟩
    · exact h.2 s (get_eq_some.mp hs).1
    · simp [hfrs]

/-- In every sequence of checks whose timestamps lie, for each source, on a stretch shorter than
`2 ^ 31` by the window: after a vector is accepted, neither it nor one of its source that is more
than the window behind it is accepted. In all sequences, sources and their frames stay within the
limits. -/
theorem replay_window_accepts_once (l : Limits) : (∀ bases before iv between iv' ssrc x t,
      (∀ i ∈ before ++ iv :: between ++ [iv'], Spanned l.timestampWindow bases i) →
      readIv iv = some (ssrc, x) → (check l (run (check l) .empty before) iv).2 = .ok →
      readIv iv' = some (ssrc, t) → t = x ∨ (x.timestamp - t.timestamp).toInt > l.timestampWindow →
      (check l (run (check l) .empty (before ++ iv :: between)) iv').2 ≠ .ok) ∧
    ∀ ivs, Bounded l (run (check l) .empty ivs) := by
  refine ⟨fun bases before iv between iv' ssrc x t hsp hrd hok hrd' hold => ?_, fun ivs => ?_⟩
  · simp only [forall_mem_append, forall_mem_cons] at hsp
    obtain ⟨⟨hbef, hiv, hbtw⟩, hiv', -⟩ := hsp
    have hpl : AllPlaced l.timestampWindow bases (run (check l) .empty before) :=
      run_invariant_of (P := AllPlaced l.timestampWindow bases)
        (fun _ _ (hi : Spanned _ bases _) h => h.check hi)
        (fun _ hs => absurd hs not_mem_nil) hbef
    have hx := hiv ssrc x hrd
    have haft : AllPlaced l.timestampWindow bases (run (check l) .empty (before ++ iv :: between)) ∧
        Remembers l.timestampWindow ssrc x (run (check l) .empty (before ++ iv :: between)) := by
      rw [run_append, run_cons]
      exact run_invariant_of (P := fun s => AllPlaced l.timestampWindow bases s ∧
          Remembers l.timestampWindow ssrc x s)
        (fun _ _ (hi : Spanned _ bases _) h => ⟨h.1.check hi, h.2.check h.1 hi hx⟩)
        ⟨hpl.check hiv, remembers_of_ok hpl hiv hrd hok⟩ hbtw
    exact haft.2.refused haft.1 hiv' hx hrd' hold
  · exact run_invariant (P := Bounded l) (fun _ i h => h.check i)
      ⟨Nat.zero_le _, fun _ hs => absurd hs not_mem_nil⟩ ivs

theorem replay_window_accepts_once_zero : (check {} .empty (replicate 12 0)).2 = .ok ∧
      (check {} (run (check {}) .empty [replicate 12 0]) (replicate 12 0)).2 ≠ .ok := by
  have hok : (check {} .empty (replicate 12 0)).2 = .ok := by decide
  refine ⟨hok, (replay_window_accepts_once {}).1 (fun _ => 0) [] _ [] _ 0 ⟨0, 0⟩ ⟨0, 0⟩
    (fun i hi ssrc t hrd => ?_) rfl hok rfl (.inl rfl)⟩
  obtain rfl : i = replicate 12 0 := by simpa using hi
  cases hrd
  rw [Placed]
  decide

end Replay

end Noxa.Media

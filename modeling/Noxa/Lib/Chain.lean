import Mathlib.Data.List.Basic
import Mathlib.Logic.Relation

/-!
# Following a partial successor

A partial function `next : α → Option α` gives every point at most one successor: the parent of
a node, the next cell of a linked list. This file is about following `next` until it stops.

Programs do that with an unbounded loop. `walk` is the loop with a bound on the number of
steps, and `EndsWithin` says when the bound is no restriction, so that a definition by `walk`
computes what the loop computes.

## Main definitions

* `Chain.walk` — follow `next` until it stops, at most `n` times
* `Chain.EndsWithin` — the chain from a point stops after at most `n` steps
* `Chain.IsLast` — the point at which the chain stops, with no bound mentioned

## Main results

* `Chain.isLast_walk`, `IsLast.unique` — `walk` finds the end of the chain, and there is only one
* `Chain.endsWithin_of_acc` — a chain without repetition inside a list is no longer than the list
-/

namespace Noxa.Chain

variable {α β : Type*} (next : α → Option α)

/-- Follow `next` from `a` until it stops, at most `n` times. -/
def walk : ℕ → α → α
  | 0, a => a
  | n + 1, a =>
    match next a with
    | none => a
    | some b => walk n b

/-- The chain from `a` stops after at most `n` steps. -/
def EndsWithin : ℕ → α → Prop
  | 0, a => next a = none
  | n + 1, a => ∀ b, next a = some b → EndsWithin n b

/-- One step of the chain, as a relation. -/
def Step (a b : α) : Prop := next a = some b

/-- `z` is where the chain from `a` stops. -/
def IsLast (a z : α) : Prop := Relation.ReflTransGen (Step next) a z ∧ next z = none

variable {next} {a : α} {n : ℕ}

theorem walk_of_none (h : next a = none) : walk next n a = a := by
  cases n with
  | zero => rfl
  | succ n => simp [walk, h]

theorem walk_of_some {b : α} (h : next a = some b) : walk next (n + 1) a = walk next n b := by
  simp [walk, h]

theorem EndsWithin.mono {m : ℕ} (h : EndsWithin next n a) (hnm : n ≤ m) : EndsWithin next m a := by
  induction n generalizing m a with
  | zero =>
    cases m with
    | zero => exact h
    | succ m =>
      intro b hb
      rw [show next a = none from h] at hb
      simp at hb
  | succ n ih =>
    cases m with
    | zero => omega
    | succ m => exact fun b hb => ih (h b hb) (Nat.le_of_succ_le_succ hnm)

/-- `walk` finds the end of the chain when the bound allows it. -/
theorem isLast_walk (h : EndsWithin next n a) : IsLast next a (walk next n a) := by
  induction n generalizing a with
  | zero => exact ⟨.refl, h⟩
  | succ n ih =>
    cases hb : next a with
    | none => rw [walk_of_none hb]; exact ⟨.refl, hb⟩
    | some b =>
      rw [walk_of_some hb]
      obtain ⟨hr, hsp⟩ := ih (h b hb)
      exact ⟨.head hb hr, hsp⟩

/-- A chain stops in one place only. -/
theorem IsLast.unique {y z : α} (hy : IsLast next a y) (hz : IsLast next a z) : y = z := by
  obtain ⟨hr, hsp⟩ := hy
  induction hr using Relation.ReflTransGen.head_induction_on with
  | refl =>
    rcases Relation.ReflTransGen.cases_head hz.1 with h | ⟨c, hc, -⟩
    · exact h
    · exact absurd (hsp.symm.trans hc) (by simp)
  | head hs _ ih =>
    rcases Relation.ReflTransGen.cases_head hz.1 with rfl | ⟨d, hd, hrs⟩
    · exact absurd (hz.2.symm.trans hs) (by simp)
    · have hcd := Option.some.inj (hs.symm.trans hd)
      exact ih ⟨hcd ▸ hrs, hz.2⟩

variable {P : α → Prop}

/-- What holds at the start and along every step holds at the end. -/
theorem walk_induction (h : ∀ a b, P a → next a = some b → P b) (ha : P a) : P (walk next n a) := by
  induction n generalizing a with
  | zero => exact ha
  | succ n ih =>
    cases hb : next a with
    | none => rw [walk_of_none hb]; exact ha
    | some b => rw [walk_of_some hb]; exact ih (h a b ha hb)

/-- A bound on a chain bounds every chain that maps into it. -/
theorem EndsWithin.of_map {next' : β → Option β} (f : α → β)
    (h : ∀ a b, P a → next a = some b → P b ∧ next' (f a) = some (f b)) (ha : P a)
    (hn : EndsWithin next' n (f a)) : EndsWithin next n a := by
  induction n generalizing a with
  | zero =>
    cases hb : next a with
    | none => exact hb
    | some b =>
      have hsp : next' (f a) = none := hn
      rw [(h a b ha hb).2] at hsp
      simp at hsp
  | succ n ih =>
    intro b hb
    obtain ⟨hPb, hs⟩ := h a b ha hb
    exact ih hPb (hn _ hs)

theorem not_transGen_self_of_acc {r : α → α → Prop} (h : Acc r a) : ¬ Relation.TransGen r a a := by
  replace h := h.transGen
  induction h with
  | intro a _ ih => exact fun hcyc => ih a hcyc hcyc

/-- **The length of a chain.** A well-founded chain whose points with a successor all lie in the
list `l` stops within `l.length` steps: it never meets the same point twice. -/
theorem endsWithin_of_acc [DecidableEq α] (l : List α) (hacc : Acc (fun b a => next a = some b) a)
    (hl : ∀ c, Relation.ReflTransGen (Step next) a c → next c ≠ none → c ∈ l) :
    EndsWithin next l.length a := by
  induction hn : l.length generalizing l a with
  | zero =>
    by_contra hne
    have hm := hl a .refl hne
    rw [List.length_eq_zero_iff.mp hn] at hm
    exact absurd hm (List.not_mem_nil)
  | succ n ih =>
    intro b hb
    have hm : a ∈ l := hl a .refl (by rw [hb]; simp)
    refine ih (l.erase a) (hacc.inv hb) ?_ (by rw [List.length_erase_of_mem hm, hn]; rfl)
    intro c hc hsc
    have hne : c ≠ a := by
      -- returning to `a` would make the chain below `a` infinite
      rintro rfl
      have hcyc : Relation.TransGen (fun b a => next a = some b) c c := by
        rw [← Relation.transGen_swap]
        exact Relation.TransGen.head' hb hc
      exact not_transGen_self_of_acc hacc hcyc
    exact (List.mem_erase_of_ne hne).mpr (hl c (.head hb hc) hsc)

end Noxa.Chain

import Mathlib.Data.List.TakeDrop

/-!
# Readers that return what they have

A reader hands out a list in pieces of its own choice: a read returns at most as much as it is asked
for, perhaps nothing, and the end may come with the last piece or after it. How a reader chooses is
a list of `Chunk`s, one for each read; after the last, reads return all they are asked for. Every
finite sequence of reads is one of these.

## Main definitions

* `ChunkReader` — what is left, and how it will come
* `readAtLeast`, `readFull` — the loops of Go's `io` package

## Main results

* `readFull_data`, `readFull_result` — the pieces do not matter
-/

namespace Noxa

/-- How a read goes: the most it returns, and whether it reports the end together with the last
elements. -/
structure Chunk where
  size : ℕ
  eager : Bool
  deriving DecidableEq, Repr

structure ChunkReader (α : Type*) where
  data : List α
  chunks : List Chunk
  deriving DecidableEq, Repr

inductive ReadErr
  | eof
  | unexpectedEOF
  deriving DecidableEq, Repr

namespace ChunkReader

open List

variable {α : Type*}

/-- Read until there is enough or the end is reported. -/
def readAtLeast (want : ℕ) : List Chunk → List α → List α → List α × ChunkReader α
  | [], data, buf =>
    (buf ++ data.take (want - buf.length), ⟨data.drop (want - buf.length), []⟩)
  | c :: cs, data, buf =>
    if want ≤ buf.length then (buf, ⟨data, c :: cs⟩)
    else
      let n := min c.size (want - buf.length)
      if data.isEmpty || (c.eager && decide (data.length ≤ n)) then
        (buf ++ data.take n, ⟨data.drop n, cs⟩)
      else readAtLeast want cs (data.drop n) (buf ++ data.take n)

def readFull (n : ℕ) (r : ChunkReader α) : Except ReadErr (List α) × ChunkReader α :=
  let (buf, r') := readAtLeast n r.chunks r.data []
  (if n ≤ buf.length then .ok buf else if buf.isEmpty then
    .error .eof else .error .unexpectedEOF, r')

/-- The loop ends with all that was wanted, or with all there is. -/
theorem readAtLeast_eq (want : ℕ) (chunks : List Chunk) (data buf : List α) :
    ∃ chunks', readAtLeast want chunks data buf =
      (buf ++ data.take (want - buf.length), ⟨data.drop (want - buf.length), chunks'⟩) := by
  induction chunks generalizing data buf with
  | nil => exact ⟨[], rfl⟩
  | cons c cs ih =>
    rw [readAtLeast]
    split
    · rename_i hen
      exact ⟨c :: cs, by simp [Nat.sub_eq_zero_of_le hen]⟩
    rename_i hmo
    dsimp only
    split
    · rename_i hend
      -- What was read is all there is, and less than what was wanted or just as much.
      have ha : data.length ≤ min c.size (want - buf.length) := by
        rcases Bool.or_eq_true_iff.mp hend with hemp | heag
        · rw [isEmpty_iff.mp hemp]
          exact Nat.zero_le _
        · exact of_decide_eq_true (Bool.and_eq_true_iff.mp heag).2
      have hwn : data.length ≤ want - buf.length := Nat.le_trans ha (Nat.min_le_right _ _)
      refine ⟨cs, ?_⟩
      rw [take_of_length_le ha, take_of_length_le hwn, drop_of_length_le ha,
        drop_of_length_le hwn]
    · obtain ⟨chunks', heq⟩ := ih (data.drop (min c.size (want - buf.length)))
        (buf ++ data.take (min c.size (want - buf.length)))
      refine ⟨chunks', ?_⟩
      generalize hn : min c.size (want - buf.length) = n at heq ⊢
      have hle : n ≤ want - buf.length := hn ▸ Nat.min_le_right _ _
      rw [heq, length_append, length_take]
      rcases Nat.le_total n data.length with hdt | hdt
      · have hrs : want - (buf.length + min n data.length) = want - buf.length - n := by
          rw [Nat.min_eq_left hdt]
          omega
        have hspl : want - buf.length = n + (want - buf.length - n) := by omega
        rw [hrs, append_assoc, drop_drop, ← take_add, ← hspl]
      · have ha : data.length ≤ want - buf.length := Nat.le_trans hdt hle
        rw [take_of_length_le hdt, drop_of_length_le hdt,
          take_of_length_le ha, drop_of_length_le ha]
        simp

theorem readFull_data (n : ℕ) (r : ChunkReader α) : (r.readFull n).2.data = r.data.drop n := by
  obtain ⟨chunks', heq⟩ := readAtLeast_eq n r.chunks r.data []
  simp [readFull, heq]

theorem readFull_result (n : ℕ) (r : ChunkReader α) : (r.readFull n).1 =
    if n ≤ r.data.length then .ok (r.data.take n)
    else if r.data.isEmpty then .error .eof else .error .unexpectedEOF := by
  obtain ⟨chunks', heq⟩ := readAtLeast_eq n r.chunks r.data []
  simp only [readFull, heq, nil_append, length_nil, Nat.sub_zero, length_take,
    Nat.le_min, Nat.le_refl, true_and]
  split
  · rfl
  · rename_i hsh
    rw [take_of_length_le (Nat.le_of_not_le hsh)]

end ChunkReader

end Noxa

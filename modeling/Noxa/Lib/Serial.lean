import Mathlib.Data.Int.ModEq
import Mathlib.Tactic.Positivity

/-!
# Serial numbers

Numbers of a fixed width that count on without end, and start again at zero when the width is used
up. An integer has a serial number (`BitVec.ofInt`), and a serial number near a known integer has
one integer (`near`). Differences of serial numbers are differences of integers while these are
close.

## Main definitions

* `Serial.near` — the integer with a serial number that is nearest to a given one

## Main results

* `Serial.ofInt_near`, `Serial.near_ofInt` — the two ways round
* `Serial.sub_toNat`, `Serial.sub_toInt` — differences, ahead and in both directions
* `Serial.ofInt_inj` — close integers with one number are one
-/

namespace Noxa.Serial

variable {w : ℕ}

/-- The integer with this number that is nearest to `base`. -/
def near (base : ℤ) (s : BitVec w) : ℤ := base + (s - BitVec.ofInt w base).toInt

theorem ofInt_near (base : ℤ) (s : BitVec w) : BitVec.ofInt w (near base s) = s := by
  rw [near, BitVec.ofInt_add, BitVec.ofInt_toInt, BitVec.add_comm, BitVec.sub_add_cancel]

theorem ofInt_sub (a b : ℤ) : BitVec.ofInt w (a - b) = BitVec.ofInt w a - BitVec.ofInt w b := by
  rw [← BitVec.add_sub_cancel (BitVec.ofInt w (a - b)) (BitVec.ofInt w b), ← BitVec.ofInt_add,
    sub_add_cancel]

variable {a b : ℤ}

/-- Ahead of `b` by less than the width. -/
theorem sub_toNat (hle : b ≤ a) (hlt : a - b < 2 ^ w) :
    ((BitVec.ofInt w a - BitVec.ofInt w b).toNat : ℤ) = a - b := by
  rw [← ofInt_sub, BitVec.toNat_ofInt, Int.toNat_of_nonneg]
  · push_cast
    exact Int.emod_eq_of_lt (by omega) hlt
  · exact Int.emod_nonneg _ (by positivity)

/-- In either direction, by less than half the width. -/
theorem sub_toInt (hle : -2 ^ w ≤ 2 * (a - b)) (hlt : 2 * (a - b) < 2 ^ w) :
    (BitVec.ofInt w a - BitVec.ofInt w b).toInt = a - b := by
  rw [← ofInt_sub, BitVec.toInt_ofInt]
  refine Int.bmod_eq_of_le_mul_two ?_ ?_
  · push_cast
    omega
  · push_cast
    omega

theorem near_ofInt {base : ℤ} (hle : -2 ^ w ≤ 2 * (a - base)) (hlt : 2 * (a - base) < 2 ^ w) :
    near base (BitVec.ofInt w a) = a := by
  rw [near, sub_toInt hle hlt]
  omega

theorem ofInt_inj (hle : -2 ^ w < a - b) (hlt : a - b < 2 ^ w)
    (h : BitVec.ofInt w a = BitVec.ofInt w b) : a = b := by
  rcases le_total b a with hab | hab
  · have hs := sub_toNat hab hlt
    rw [h, BitVec.sub_self] at hs
    simp only [BitVec.toNat_zero] at hs
    omega
  · have hs := sub_toNat (w := w) hab (by omega)
    rw [h, BitVec.sub_self] at hs
    simp only [BitVec.toNat_zero] at hs
    omega

theorem ofInt_succ (a : ℤ) : BitVec.ofInt w (a + 1) = BitVec.ofInt w a + 1 := by
  rw [BitVec.ofInt_add]
  rfl

end Noxa.Serial

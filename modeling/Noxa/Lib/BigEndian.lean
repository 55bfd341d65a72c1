import Mathlib.Data.List.Induction
import Mathlib.Tactic.Ring

/-!
# Big-endian numbers

Numbers of a fixed number of bytes, the highest byte first.

## Main results

* `decode_encode`, `encode_decode` — the two are inverse, up to the range of the width
-/

namespace Noxa.BigEndian

/-- The lowest bytes of a number, as many as asked for. -/
def encode : ℕ → ℕ → List UInt8
  | 0, _ => []
  | k + 1, n => encode k (n / 256) ++ [UInt8.ofNat n]

def decode (b : List UInt8) : ℕ := b.foldl (fun n x => 256 * n + x.toNat) 0

@[simp]
theorem decode_nil : decode [] = 0 := rfl

variable (b : List UInt8)

theorem decode_concat (x : UInt8) : decode (b ++ [x]) = 256 * decode b + x.toNat := by
  simp [decode]

@[simp]
theorem length_encode (k n : ℕ) : (encode k n).length = k := by
  induction k generalizing n with
  | zero => rfl
  | succ k ih => simp [encode, ih]

theorem decode_encode (k n : ℕ) : decode (encode k n) = n % 256 ^ k := by
  induction k generalizing n with
  | zero => simp [encode, Nat.mod_one]
  | succ k ih =>
    have hpow : 256 ^ (k + 1) = 256 * 256 ^ k := pow_succ' 256 k
    rw [encode, decode_concat, ih, UInt8.toNat_ofNat', hpow, Nat.mod_mul]
    omega

theorem decode_encode_of_lt {k n : ℕ} (h : n < 256 ^ k) : decode (encode k n) = n := by
  rw [decode_encode, Nat.mod_eq_of_lt h]

theorem encode_decode : encode b.length (decode b) = b := by
  induction b using List.reverseRecOn with
  | nil => rfl
  | append_singleton b x ih =>
    have hx : x.toNat < 256 := x.toNat_lt
    have hdiv : (256 * decode b + x.toNat) / 256 = decode b := by omega
    have hla : UInt8.ofNat (256 * decode b + x.toNat) = x := by
      apply UInt8.toNat_inj.mp
      rw [UInt8.toNat_ofNat']
      omega
    rw [List.length_append, List.length_singleton, encode, decode_concat, hdiv, ih, hla]

theorem encode_decode_of_length {b : List UInt8} {k : ℕ} (h : b.length = k) :
    encode k (decode b) = b := by
  rw [← h, encode_decode]

theorem decode_lt : decode b < 256 ^ b.length := by
  induction b using List.reverseRecOn with
  | nil => simp
  | append_singleton b x =>
    have hx : x.toNat < 256 := x.toNat_lt
    rw [decode_concat, List.length_append, List.length_singleton, pow_succ]
    omega

end Noxa.BigEndian

import Mathlib.Algebra.Ring.Int.Defs
import Mathlib.Algebra.GroupWithZero.Nat
import Mathlib.Data.List.Basic

/-!
# Texts

Character classes and decimal numerals as the standard library of the source has them. A text here
is a `String`, so it is always valid UTF-8; lengths in bytes are `String.utf8ByteSize`.

## Main definitions

* `isSpace`, `isControl` — character classes
* `parseInt` — reading a decimal numeral
* `numbered` — a number and a text, joined by a colon
* `bytes` — the encoding of a text

## Main results

* `numbered_injective` — joining loses nothing
* `bytes_injective`, `bytes_append` — encoding loses nothing either
-/

namespace Noxa.Text

open List

/-- `unicode.IsSpace`. -/
def isSpace (c : Char) : Bool :=
  c.val ∈ [0x09, 0x0a, 0x0b, 0x0c, 0x0d, 0x20, 0x85, 0xa0, 0x1680, 0x2028, 0x2029, 0x202f, 0x205f,
    0x3000] ∨ (0x2000 ≤ c.val ∧ c.val ≤ 0x200a)

/-- The class of a regular expression's white space in a browser. -/
def isWhiteSpace (c : Char) : Bool :=
  c.val ∈ [0x09, 0x0a, 0x0b, 0x0c, 0x0d, 0x20, 0xa0, 0x1680, 0x2028, 0x2029, 0x202f, 0x205f, 0x3000,
    0xfeff] ∨ (0x2000 ≤ c.val ∧ c.val ≤ 0x200a)

/-- `unicode.IsControl`. -/
def isControl (c : Char) : Bool := c.val < 0x20 ∨ (0x7f ≤ c.val ∧ c.val < 0xa0)

/-- A decimal digit's value. -/
def digitValue (c : Char) : Option ℕ :=
  if '0' ≤ c ∧ c ≤ '9' then some (c.toNat - '0'.toNat) else none

/-- The value of a list of decimal digits, after what has been read so far. -/
def digitsValue : ℕ → List Char → Option ℕ
  | n, [] => some n
  | n, c :: cs =>
    match digitValue c with
    | some d => digitsValue (10 * n + d) cs
    | none => none

/-- `strconv.ParseInt(s, 10, 64)`: an optional sign and at least one digit, within 64 bits. -/
def parseInt (s : String) : Option Int :=
  let value (sign : Int) (digits : List Char) : Option Int :=
    if digits.isEmpty then none
    else match digitsValue 0 digits with
      | some n => if -2 ^ 63 ≤ sign * n ∧ sign * n < 2 ^ 63 then some (sign * n) else none
      | none => none
  match s.toList with
  | '-' :: digits => value (-1) digits
  | '+' :: digits => value 1 digits
  | digits => value 1 digits

example : parseInt "-120" = some (-120) := by decide

/-- `fmt.Sprintf("%d:%s", n, s)`. -/
def numbered (n : Int) (s : String) : String := toString n ++ ":" ++ s

theorem isDigit_of_mem_repr {m : ℕ} {c : Char} (hc : c ∈ m.repr.toList) : c.isDigit = true := by
  refine Nat.isDigit_of_mem_toDigits (by decide : 0 < 10) (by decide) (n := m) ?_
  simpa [Nat.repr] using hc

/-- A numeral is made of digits and at most a sign. -/
theorem mem_toString {n : Int} {c : Char} (hc : c ∈ (toString n).toList) :
    c = '-' ∨ c.isDigit = true := by
  cases n with
  | ofNat m =>
    have hm : c ∈ m.repr.toList := hc
    exact .inr (isDigit_of_mem_repr hm)
  | negSucc m =>
    have hmem : c ∈ ("-" ++ (m + 1).repr).toList := hc
    rw [String.toList_append, mem_append] at hmem
    rcases hmem with hmem | hmem
    · exact .inl (by simpa using hmem)
    · exact .inr (isDigit_of_mem_repr hmem)

theorem colon_not_mem_toString (n : Int) : ':' ∉ (toString n).toList := by
  intro h
  rcases mem_toString h with h | h <;> exact absurd h (by decide)

/-- The part before the first separator is determined. -/
theorem append_separator_injective {α : Type*} {x : α} {a b c d : List α} (ha : x ∉ a) (hb : x ∉ b)
    (h : a ++ x :: c = b ++ x :: d) : a = b ∧ c = d := by
  -- what one of the two has more would start with a separator
  rcases append_eq_append_iff.mp h with ⟨more, rfl, hmo⟩ | ⟨more, rfl, hmo⟩
  · cases more with
    | nil => simpa using hmo
    | cons y more => simp [(cons.inj hmo).1] at hb
  · cases more with
    | nil => simpa [eq_comm] using hmo
    | cons y more => simp [(cons.inj hmo).1] at ha

theorem repr_injective {k l : ℕ} (h : k.repr = l.repr) : k = l := by
  have hd : Nat.toDigits 10 k = Nat.toDigits 10 l := by
    simpa [Nat.repr] using congrArg String.toList h
  rw [← Nat.ofDigitChars_toDigits (by decide : 1 < 10) (by decide) (n := k), hd,
    Nat.ofDigitChars_toDigits (by decide) (by decide)]

theorem toString_injective {n m : Int} (h : toString n = toString m) : n = m := by
  have hmin : ∀ k l : ℕ, k.repr ≠ "-" ++ l.repr := by
    intro k l hkl
    have hmem : '-' ∈ k.repr.toList := by rw [hkl]; simp
    exact absurd (isDigit_of_mem_repr hmem) (by decide)
  cases n with
  | ofNat k =>
    cases m with
    | ofNat => rw [repr_injective h]
    | negSucc l => exact absurd h (hmin k (l + 1))
  | negSucc k =>
    cases m with
    | ofNat l => exact absurd h.symm (hmin l (k + 1))
    | negSucc l =>
      have hls := congrArg String.toList (show "-" ++ (k + 1).repr = "-" ++ (l + 1).repr from h)
      rw [String.toList_append, String.toList_append] at hls
      have hrp := String.toList_injective (append_cancel_left hls)
      have hkl : k + 1 = l + 1 := repr_injective hrp
      rw [Nat.succ.inj hkl]

variable {s : String}

theorem numbered_injective {n m : Int} {t : String} (h : numbered n s = numbered m t) :
    n = m ∧ s = t := by
  have hls := congrArg String.toList h
  simp only [numbered, String.toList_append, append_assoc] at hls
  obtain ⟨hn, hs⟩ := append_separator_injective (colon_not_mem_toString n)
    (colon_not_mem_toString m) hls
  exact ⟨toString_injective (String.toList_injective hn), String.toList_injective hs⟩

/-! ### Encoding -/

/-- The UTF-8 encoding. -/
def bytes (s : String) : List UInt8 := s.toUTF8.data.toList

@[simp]
theorem bytes_append (s t : String) : bytes (s ++ t) = bytes s ++ bytes t := by
  simp [bytes]

theorem length_bytes (s : String) : (bytes s).length = s.utf8ByteSize := by
  simp [bytes]

theorem bytes_injective : Function.Injective bytes := by
  intro s t h
  exact String.toByteArray_inj.mp (ByteArray.ext (Array.toList_inj.mp h))

theorem bytes_eq_flatMap (s : String) : bytes s = s.toList.flatMap String.utf8EncodeChar := by
  have henc := String.toByteArray_ofList (l := s.toList)
  rw [String.ofList_toList] at henc
  rw [bytes, String.toUTF8, henc, List.utf8Encode]
  simp

/-- A text of ASCII characters is encoded one by one. -/
theorem bytes_of_ascii (h : ∀ c ∈ s.toList, c.toNat ≤ 127) :
    bytes s = s.toList.map fun c => UInt8.ofNat c.toNat := by
  rw [bytes_eq_flatMap]
  generalize s.toList = cs at h ⊢
  induction cs with
  | nil => rfl
  | cons c cs ih =>
    rw [forall_mem_cons] at h
    have hone : String.utf8EncodeChar c = [UInt8.ofNat c.toNat] := if_pos h.1
    rw [flatMap_cons, ih h.2, hone]
    rfl

theorem code_of_mem_bytes {P : ℕ → Prop} (h : ∀ c ∈ s.toList, c.toNat ≤ 127 ∧ P c.toNat) :
    ∀ x ∈ bytes s, x.toNat ≤ 127 ∧ P x.toNat := by
  rw [bytes_of_ascii fun c hc => (h c hc).1]
  refine forall_mem_map.mpr fun c hc => ?_
  have hascii := (h c hc).1
  rw [UInt8.toNat_ofNat', Nat.mod_eq_of_lt (by omega)]
  exact h c hc

/-- The length of a text in a browser, in UTF-16 units. -/
def utf16Length (s : String) : ℕ :=
  (s.toList.map fun c => if c.toNat < 0x10000 then 1 else 2).sum

theorem utf16Length_le (s : String) : utf16Length s ≤ s.utf8ByteSize := by
  have hch : ∀ c : Char, (if c.toNat < 0x10000 then 1 else 2) ≤ c.utf8Size := by
    intro c
    have hpos := c.utf8Size_pos
    split
    · exact hpos
    rename_i hlar
    have hone : c.utf8Size ≠ 1 := by
      intro hsz
      rw [Char.utf8Size_eq_one_iff, UInt32.le_iff_toNat_le] at hsz
      have hsml : c.toNat ≤ 127 := hsz
      omega
    omega
  rw [utf16Length, ← length_bytes, bytes_eq_flatMap, length_flatMap]
  induction s.toList with
  | nil => exact le_rfl
  | cons c cs ih =>
    rw [map_cons, sum_cons, map_cons, sum_cons, String.length_utf8EncodeChar]
    exact Nat.add_le_add (hch c) ih

theorem utf16Length_of_ascii (h : ∀ c ∈ s.toList, c.toNat ≤ 127) :
    utf16Length s = s.toList.length := by
  rw [utf16Length]
  generalize s.toList = cs at h ⊢
  induction cs with
  | nil => rfl
  | cons c cs ih =>
    rw [forall_mem_cons] at h
    rw [map_cons, sum_cons, ih h.2, if_pos (by omega), length_cons, Nat.add_comm]

theorem utf8ByteSize_of_ascii (h : ∀ c ∈ s.toList, c.toNat ≤ 127) :
    s.utf8ByteSize = s.toList.length := by
  rw [← length_bytes, bytes_of_ascii h, length_map]

/-- The encoding of a decimal numeral. -/
def numeral (n : Int) : List UInt8 := bytes (toString n)

theorem numeral_injective : Function.Injective numeral := by
  intro n m h
  exact toString_injective (bytes_injective h)

theorem numeral_ne_nil (n : Int) : numeral n ≠ [] := by
  intro h
  have hemp : toString n = "" := bytes_injective h
  cases n with
  | ofNat m =>
    have hd := congrArg String.toList (show m.repr = "" from hemp)
    simp [Nat.repr] at hd
  | negSucc m =>
    have hsg : ("-" ++ (m + 1).repr).toList = [] := congrArg String.toList hemp
    simp at hsg

theorem mem_numeral {n : Int} {b : UInt8} (h : b ∈ numeral n) : b = 45 ∨ (48 ≤ b ∧ b ≤ 57) := by
  have hcd : ∀ c ∈ (toString n).toList, c.toNat = 45 ∨ (48 ≤ c.toNat ∧ c.toNat ≤ 57) := by
    intro c hc
    rcases mem_toString hc with rfl | hdg
    · exact .inl rfl
    · rw [Char.isDigit, Bool.and_eq_true, decide_eq_true_eq, decide_eq_true_eq] at hdg
      exact .inr hdg
  rw [← UInt8.toNat_inj, UInt8.le_iff_toNat_le, UInt8.le_iff_toNat_le]
  refine (code_of_mem_bytes (P := fun k => k = 45 ∨ (48 ≤ k ∧ k ≤ 57)) (fun c hc => ?_) b h).2
  exact ⟨by have := hcd c hc; omega, hcd c hc⟩

end Noxa.Text

import Mathlib.Data.List.DropRight

/-!
# Standard base64

The standard alphabet with padding, as characters. The strict decoder skips line breaks, wants full
groups of four, and refuses padding bits that are not zero. The one of browsers skips white space,
does without padding and ignores what is left over.

## Main definitions

* `Base64.encode` — bytes to text
* `Base64.decode` — text to bytes, strictly
* `Base64.encodeRaw` — without padding
* `Base64.atob` — text to bytes as browsers do it

## Main results

* `Base64.decode_encode`, `Base64.atob_encode` — decoding undoes encoding
* `Base64.mem_encode` — the characters of an encoding
-/

namespace Noxa.Base64

open List Option

/-- The sixty-four digits. -/
def alphabet : List Char :=
  "ABCDEFGHIJKLMNOPQRSTUVWXYZabcdefghijklmnopqrstuvwxyz0123456789+/".toList

/-- The digit for a six-bit value. -/
def digit (n : ℕ) : Char := alphabet.getD n '='

/-- The six-bit value of a digit. -/
def value (c : Char) : Option ℕ := alphabet.findIdx? (· = c)

/-- Encode bytes, three to a group of four digits. -/
def encode : List UInt8 → List Char
  | [] => []
  | [a] => [digit (a.toNat / 4), digit (a.toNat % 4 * 16), '=', '=']
  | [a, b] =>
    [digit (a.toNat / 4), digit (a.toNat % 4 * 16 + b.toNat / 16), digit (b.toNat % 16 * 4), '=']
  | a :: b :: c :: rest =>
    digit (a.toNat / 4) :: digit (a.toNat % 4 * 16 + b.toNat / 16) ::
      digit (b.toNat % 16 * 4 + c.toNat / 64) :: digit (c.toNat % 64) :: encode rest

/-- Decode groups of four digits; only the last group may be padded. -/
def decodeGroups : List Char → Option (List UInt8)
  | [] => some []
  | [a, b, '=', '='] => do
    let x ← value a
    let y ← value b
    if y % 16 = 0 then some [UInt8.ofNat (x * 4 + y / 16)] else none
  | [a, b, c, '='] => do
    let x ← value a
    let y ← value b
    let z ← value c
    if z % 4 = 0 then
      some [UInt8.ofNat (x * 4 + y / 16), UInt8.ofNat (y % 16 * 16 + z / 4)]
    else none
  | a :: b :: c :: d :: rest => do
    let x ← value a
    let y ← value b
    let z ← value c
    let w ← value d
    let tail ← decodeGroups rest
    some (UInt8.ofNat (x * 4 + y / 16) :: UInt8.ofNat (y % 16 * 16 + z / 4) ::
      UInt8.ofNat (z % 4 * 64 + w) :: tail)
  | _ => none

/-- Decode strictly. Line breaks are skipped wherever they stand. -/
def decode (text : List Char) : Option (List UInt8) :=
  decodeGroups (text.filter fun c => c ≠ '\r' ∧ c ≠ '\n')

/-! ### Decoding an encoding -/

/-- The digits one by one, so that they can be run through. -/
theorem alphabet_eq : alphabet = [
    'A', 'B', 'C', 'D', 'E', 'F', 'G', 'H', 'I', 'J', 'K', 'L', 'M', 'N', 'O', 'P', 'Q', 'R', 'S',
    'T', 'U', 'V', 'W', 'X', 'Y', 'Z', 'a', 'b', 'c', 'd', 'e', 'f', 'g', 'h', 'i', 'j', 'k', 'l',
    'm', 'n', 'o', 'p', 'q', 'r', 's', 't', 'u', 'v', 'w', 'x', 'y', 'z', '0', '1', '2', '3', '4',
    '5', '6', '7', '8', '9', '+', '/'] := by
  decide

variable {n : ℕ}

theorem value_digit (h : n < 64) : value (digit n) = some n := by
  have hall : ∀ n < 64, value (digit n) = some n := by
    simp only [value, digit, alphabet_eq]
    decide
  exact hall n h

/-- A digit is a letter, a figure, a plus or a slash. -/
theorem digit_mem (h : n < 64) : digit n ∈ alphabet := by
  have hl : n < alphabet.length := by
    exact h
  rw [digit, getD_eq_getElem?_getD, List.getElem?_eq_getElem hl, getD_some]
  exact getElem_mem hl

theorem pad_not_mem_alphabet : '=' ∉ alphabet := by
  rw [alphabet_eq]
  decide

theorem digit_ne_pad (h : n < 64) : digit n ≠ '=' :=
  fun heq => pad_not_mem_alphabet (heq ▸ digit_mem h)

/-- Encode bytes without padding. -/
def encodeRaw : List UInt8 → List Char
  | [] => []
  | [a] => [digit (a.toNat / 4), digit (a.toNat % 4 * 16)]
  | [a, b] => [digit (a.toNat / 4), digit (a.toNat % 4 * 16 + b.toNat / 16),
    digit (b.toNat % 16 * 4)]
  | a :: b :: c :: rest =>
    digit (a.toNat / 4) :: digit (a.toNat % 4 * 16 + b.toNat / 16) ::
      digit (b.toNat % 16 * 4 + c.toNat / 64) :: digit (c.toNat % 64) :: encodeRaw rest

variable {b : List UInt8}

theorem mem_encodeRaw : ∀ c ∈ encodeRaw b, c ∈ alphabet := by
  fun_induction encodeRaw b with
  | case1 => simp
  | case2 a =>
    have ha := a.toNat_lt
    simp (disch := omega) [digit_mem]
  | case3 a b =>
    have ha := a.toNat_lt
    have hb := b.toNat_lt
    simp (disch := omega) [digit_mem]
  | case4 a b c rest ih =>
    have ha := a.toNat_lt
    have hb := b.toNat_lt
    have hc := c.toNat_lt
    simp (disch := omega) only [forall_mem_cons, digit_mem, true_and]
    exact ih

theorem encode_eq_encodeRaw (b : List UInt8) :
    ∃ n ≤ 2, encode b = encodeRaw b ++ List.replicate n '=' := by
  fun_induction encode b with
  | case1 => exact ⟨0, by omega, rfl⟩
  | case2 a => exact ⟨2, by omega, rfl⟩
  | case3 a b => exact ⟨1, by omega, rfl⟩
  | case4 a b c rest ih =>
    obtain ⟨n, hn, heq⟩ := ih
    refine ⟨n, hn, ?_⟩
    rw [heq, encodeRaw]
    rfl

variable {c : Char}

theorem mem_encode (h : c ∈ encode b) : c ∈ alphabet ∨ c = '=' := by
  obtain ⟨n, -, heq⟩ := encode_eq_encodeRaw b
  rw [heq, mem_append] at h
  rcases h with h | h
  · exact .inl (mem_encodeRaw c h)
  · exact .inr (eq_of_mem_replicate h)

theorem digit_plain (h : n < 62) : digit n ≠ '+' ∧ digit n ≠ '/' := by
  have hall : ∀ n < 62, digit n ≠ '+' ∧ digit n ≠ '/' := by
    simp only [digit, alphabet_eq]
    decide
  exact hall n h

/-- A group of ASCII codes has the six bits of a plus or a slash at its end only. -/
theorem plain_of_mem_encode (hb : ∀ x ∈ b, x.toNat ≤ 127 ∧ x.toNat % 64 < 62) :
    ∀ c ∈ encode b, c ≠ '+' ∧ c ≠ '/' := by
  fun_induction encode b with
  | case1 => simp
  | case2 a =>
    simp only [forall_mem_cons] at hb ⊢
    exact ⟨digit_plain (by omega), digit_plain (by omega), by simp⟩
  | case3 a b =>
    simp only [forall_mem_cons] at hb ⊢
    exact ⟨digit_plain (by omega), digit_plain (by omega), digit_plain (by omega), by simp⟩
  | case4 a b c rest ih =>
    simp only [forall_mem_cons] at hb ⊢
    exact ⟨digit_plain (by omega), digit_plain (by omega), digit_plain (by omega),
      digit_plain (by omega), ih hb.2.2.2⟩

theorem length_encode (b : List UInt8) : (encode b).length = 4 * ((b.length + 2) / 3) := by
  fun_induction encode b with
  | case1 => rfl
  | case2 a => simp
  | case3 a b => simp
  | case4 a b c rest ih =>
    simp only [length_cons, ih]
    omega

variable {p : Char → Bool}

theorem forall_mem_encode (hal : alphabet.all p = true)
    (hp : p '=' = true) : ∀ c ∈ encode b, p c = true := by
  intro c hc
  rcases mem_encode hc with hmem | rfl
  · exact all_eq_true.mp hal c hmem
  · exact hp

theorem ascii_of_mem_encode (h : c ∈ encode b) : c.toNat ≤ 127 := by
  have hall := forall_mem_encode (b := b) (p := fun c => c.toNat ≤ 127)
    (by rw [alphabet_eq]; decide) (by decide)
  exact of_decide_eq_true (hall c h)

theorem filter_encode (hal : alphabet.all p = true)
    (hp : p '=' = true) (b : List UInt8) : (encode b).filter p = encode b :=
  filter_eq_self.mpr (forall_mem_encode hal hp)

/-- A byte from the digits that hold it. -/
theorem ofNat_eq {a : UInt8} (h : n = a.toNat) : UInt8.ofNat n = a := by
  rw [h, UInt8.ofNat_toNat]

theorem decodeGroups_encode (b : List UInt8) : decodeGroups (encode b) = some b := by
  fun_induction encode b with
  | case1 => rfl
  | case2 a =>
    have ha := a.toNat_lt
    simp (disch := omega) only [decodeGroups, value_digit, bind_eq_bind, bind_some]
    rw [if_pos (by omega), ofNat_eq (a := a) (by omega)]
  | case3 a b =>
    have ha := a.toNat_lt
    have hb := b.toNat_lt
    have hp := digit_ne_pad (show b.toNat % 16 * 4 < 64 by omega)
    rw [decodeGroups]
    · simp (disch := omega) only [value_digit, bind_eq_bind, bind_some]
      rw [if_pos (by omega), ofNat_eq (a := a) (by omega), ofNat_eq (a := b) (by omega)]
    · exact fun h => hp h
  | case4 a b c rest ih =>
    have ha := a.toNat_lt
    have hb := b.toNat_lt
    have hc := c.toNat_lt
    have hp := digit_ne_pad (show c.toNat % 64 < 64 by omega)
    rw [decodeGroups, ih]
    · simp (disch := omega) only [value_digit, bind_eq_bind, bind_some]
      rw [ofNat_eq (a := a) (by omega), ofNat_eq (a := b) (by omega), ofNat_eq (a := c) (by omega)]
    · exact fun _ h _ => hp h
    · exact fun h _ => hp h

theorem decode_encode (b : List UInt8) : decode (encode b) = some b := by
  rw [decode, filter_encode (by rw [alphabet_eq]; decide) (by decide), decodeGroups_encode]

theorem encode_injective : Function.Injective encode := by
  intro b b' h
  have hd := congrArg decode h
  rw [decode_encode, decode_encode] at hd
  exact some.inj hd

/-! ### Without padding -/

theorem pad_not_mem_encodeRaw (b : List UInt8) : '=' ∉ encodeRaw b :=
  fun h => pad_not_mem_alphabet (mem_encodeRaw _ h)

/-- Dropping the padding at the end leaves the encoding without padding. -/
theorem rdropWhile_encode (b : List UInt8) : (encode b).rdropWhile (· = '=') = encodeRaw b := by
  have hr : (encodeRaw b).rdropWhile (· = '=') = encodeRaw b := by
    rw [rdropWhile_eq_self_iff]
    intro hne hla
    rw [decide_eq_true_eq] at hla
    exact pad_not_mem_encodeRaw b (hla ▸ getLast_mem hne)
  obtain ⟨n, -, heq⟩ := encode_eq_encodeRaw b
  rw [heq, rdropWhile, reverse_append, reverse_replicate, dropWhile_append_of_pos (by simp)]
  exact hr

theorem filter_pad_encode (b : List UInt8) : (encode b).filter (· ≠ '=') = encodeRaw b := by
  obtain ⟨n, -, heq⟩ := encode_eq_encodeRaw b
  have hr : (encodeRaw b).filter (· ≠ '=') = encodeRaw b :=
    filter_eq_self.mpr fun c hc =>
      decide_eq_true fun h => pad_not_mem_encodeRaw b (h ▸ hc)
  rw [heq, filter_append, hr]
  simp

/-! ### The decoder of browsers -/

/-- Full groups of four digits, and two or three at the end whose last bits are ignored. -/
def looseGroups : List Char → Option (List UInt8)
  | [] => some []
  | [a, b] => do
    let x ← value a
    let y ← value b
    some [UInt8.ofNat (x * 4 + y / 16)]
  | [a, b, c] => do
    let x ← value a
    let y ← value b
    let z ← value c
    some [UInt8.ofNat (x * 4 + y / 16), UInt8.ofNat (y % 16 * 16 + z / 4)]
  | a :: b :: c :: d :: rest => do
    let x ← value a
    let y ← value b
    let z ← value c
    let w ← value d
    let tail ← looseGroups rest
    some (UInt8.ofNat (x * 4 + y / 16) :: UInt8.ofNat (y % 16 * 16 + z / 4) ::
      UInt8.ofNat (z % 4 * 64 + w) :: tail)
  | _ => none

/-- Take one padding character from the end. -/
def unpad (text : List Char) : List Char :=
  if text.getLast? = some '=' then text.dropLast else text

def asciiSpace (c : Char) : Bool := c ∈ ['\t', '\n', '\x0c', '\r', ' ']

/-- `atob`: white space is skipped wherever it stands, and a text of full groups may end in one or
two padding characters. -/
def atob (text : List Char) : Option (List UInt8) :=
  let text := text.filter fun c => !asciiSpace c
  looseGroups (if text.length % 4 = 0 then unpad (unpad text) else text)

example : atob "bm9 4YQ".toList = some [110, 111, 120, 97] := by decide

theorem looseGroups_encodeRaw (b : List UInt8) : looseGroups (encodeRaw b) = some b := by
  fun_induction encodeRaw b with
  | case1 => rfl
  | case2 a =>
    have ha := a.toNat_lt
    simp (disch := omega) only [looseGroups, value_digit, bind_eq_bind, bind_some]
    rw [ofNat_eq (a := a) (by omega)]
  | case3 a b =>
    have ha := a.toNat_lt
    have hb := b.toNat_lt
    simp (disch := omega) only [looseGroups, value_digit, bind_eq_bind, bind_some]
    rw [ofNat_eq (a := a) (by omega), ofNat_eq (a := b) (by omega)]
  | case4 a b c rest ih =>
    have ha := a.toNat_lt
    have hb := b.toNat_lt
    have hc := c.toNat_lt
    simp (disch := omega) only [looseGroups, ih, value_digit, bind_eq_bind, bind_some]
    rw [ofNat_eq (a := a) (by omega), ofNat_eq (a := b) (by omega), ofNat_eq (a := c) (by omega)]

theorem encodeRaw_injective : Function.Injective encodeRaw := by
  intro b b' h
  have hd := congrArg looseGroups h
  rw [looseGroups_encodeRaw, looseGroups_encodeRaw] at hd
  exact some.inj hd

theorem unpad_concat (text : List Char) : unpad (text ++ ['=']) = text := by
  simp [unpad]

variable {text : List Char}

theorem unpad_of_not_mem (h : '=' ∉ text) : unpad text = text := by
  refine if_neg fun hla => h ?_
  exact mem_of_getLast? hla

theorem unpad_encode (b : List UInt8) : unpad (unpad (encode b)) = encodeRaw b := by
  have hr := unpad_of_not_mem (pad_not_mem_encodeRaw b)
  obtain ⟨n, hn, heq⟩ := encode_eq_encodeRaw b
  obtain rfl | rfl | rfl : n = 0 ∨ n = 1 ∨ n = 2 := by omega
  · rw [heq, replicate_zero, append_nil, hr, hr]
  · rw [heq, replicate_one, unpad_concat, hr]
  have htwo : encodeRaw b ++ List.replicate 2 '=' = (encodeRaw b ++ ['=']) ++ ['='] := by
    rw [append_assoc]
    rfl
  rw [heq, htwo, unpad_concat, unpad_concat]

/-- White space around an encoding does not matter. -/
theorem atob_of_filter
    (h : text.filter (fun c => !asciiSpace c) = encode b) : atob text = some b := by
  have hl : (encode b).length % 4 = 0 := by
    rw [length_encode]
    omega
  rw [atob]
  simp only [h, hl, if_true, unpad_encode, looseGroups_encodeRaw]

theorem atob_encode (b : List UInt8) : atob (encode b) = some b :=
  atob_of_filter (filter_encode (by rw [alphabet_eq]; decide) (by decide) b)

end Noxa.Base64

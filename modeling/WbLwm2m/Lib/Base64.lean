import Mathlib.Algebra.Order.Floor.Div
import Mathlib.Data.List.Basic
import Mathlib.Data.Nat.Basic

/-!
# Base64

The standard Base64 of a byte string, and the way back. Both are stated on the
numbers of the bytes, with division and remainder, and not on bits: what a program
shifts and masks is compared with them afterwards.

* `Base64.char` is the character of a six-bit digit and `Base64.alphabet` the table of
  all of them;
* `Base64.encode` writes four characters for every three bytes, and pads the last group;
* `Base64.decode` is strict: it wants whole groups, padding in the last one only and
  zero bits behind the last byte.

Decoding gives back what was encoded (`Base64.decode_encode`), and the text is digits
followed by as much padding as the length asks for (`Base64.encode_eq_append`).
-/

namespace Base64

/-! ### The alphabet -/

/-- The padding character, `=`. -/
def pad : UInt8 := 0x3D

/-- The character of a six-bit digit. -/
def char (d : ℕ) : UInt8 :=
  if d < 26 then UInt8.ofNat (0x41 + d)
  else if d < 52 then UInt8.ofNat (0x61 + (d - 26))
  else if d < 62 then UInt8.ofNat (0x30 + (d - 52))
  else if d = 62 then 0x2B
  else 0x2F

/-- The digit a character stands for. -/
def value (c : UInt8) : Option ℕ :=
  if 0x41 ≤ c ∧ c ≤ 0x5A then some (c.toNat - 0x41)
  else if 0x61 ≤ c ∧ c ≤ 0x7A then some (c.toNat - 0x61 + 26)
  else if 0x30 ≤ c ∧ c ≤ 0x39 then some (c.toNat - 0x30 + 52)
  else if c = 0x2B then some 62
  else if c = 0x2F then some 63
  else none

/-- The characters of the 64 digits, in order. -/
def alphabet : List UInt8 := (List.range 64).map char

theorem value_char {d : ℕ} (h : d < 64) : value (char d) = some d := by
  have key : ∀ d : Fin 64, value (char d) = some d.val := by decide
  exact key ⟨d, h⟩

theorem char_ne_pad {d : ℕ} (h : d < 64) : char d ≠ pad := by
  have key : ∀ d : Fin 64, char d ≠ pad := by decide
  exact key ⟨d, h⟩

theorem char_mem_alphabet {d : ℕ} (h : d < 64) : char d ∈ alphabet :=
  List.mem_map_of_mem (List.mem_range.mpr h)

/-! ### Encoding -/

/-- The digits of a byte string, four for every three bytes: a group that is short has
only as many as its bytes need. -/
def digits : List UInt8 → List ℕ
  | [] => []
  | [a] => [a.toNat / 4, a.toNat % 4 * 16]
  | [a, b] => [a.toNat / 4, a.toNat % 4 * 16 + b.toNat / 16, b.toNat % 16 * 4]
  | a :: b :: c :: rest =>
    a.toNat / 4 :: (a.toNat % 4 * 16 + b.toNat / 16) :: (b.toNat % 16 * 4 + c.toNat / 64) ::
      c.toNat % 64 :: digits rest

/-- **The Base64 of a byte string**: four characters a group, the last one padded. -/
def encode : List UInt8 → List UInt8
  | [] => []
  | [a] => (digits [a]).map char ++ [pad, pad]
  | [a, b] => (digits [a, b]).map char ++ [pad]
  | a :: b :: c :: rest => (digits [a, b, c]).map char ++ encode rest

theorem lt_of_mem_digits (bs : List UInt8) : ∀ d ∈ digits bs, d < 64 := by
  induction bs using digits.induct with
  | case1 => simp [digits]
  | case2 a =>
    have ha := a.toNat_lt
    simp only [digits, List.mem_cons, List.not_mem_nil, or_false]
    rintro d (rfl | rfl) <;> omega
  | case3 a b =>
    have ha := a.toNat_lt
    have hb := b.toNat_lt
    simp only [digits, List.mem_cons, List.not_mem_nil, or_false]
    rintro d (rfl | rfl | rfl) <;> omega
  | case4 a b c rest ih =>
    have ha := a.toNat_lt
    have hb := b.toNat_lt
    have hc := c.toNat_lt
    simp only [digits, List.mem_cons]
    rintro d (rfl | rfl | rfl | rfl | hd)
    · omega
    · omega
    · omega
    · omega
    · exact ih d hd

/-- One digit for every six bits, rounded up. -/
theorem length_digits (bs : List UInt8) : (digits bs).length = (4 * bs.length) ⌈/⌉ 3 := by
  simp only [Nat.ceilDiv_eq_add_pred_div]
  induction bs using digits.induct with
  | case1 => rfl
  | case2 a => simp [digits]
  | case3 a b => simp [digits]
  | case4 a b c rest ih =>
    simp only [digits, List.length_cons, ih]
    omega

/-- **The shape of the text**: the characters of the digits, and then the padding. -/
theorem encode_eq_append (bs : List UInt8) :
    encode bs = (digits bs).map char ++ List.replicate ((3 - bs.length % 3) % 3) pad := by
  induction bs using encode.induct with
  | case1 => rfl
  | case2 a => rfl
  | case3 a b => rfl
  | case4 a b c rest ih =>
    simp only [encode, digits, ih, List.length_cons, List.map_cons, List.map_nil,
      List.cons_append, List.nil_append, Nat.add_assoc, Nat.reduceAdd, Nat.add_mod_right]

/-- Only characters of the alphabet, and padding. -/
theorem mem_encode {bs : List UInt8} {c : UInt8} (h : c ∈ encode bs) : c ∈ alphabet ∨ c = pad := by
  rw [encode_eq_append] at h
  rcases List.mem_append.mp h with h | h
  · obtain ⟨d, hd, rfl⟩ := List.mem_map.mp h
    exact Or.inl (char_mem_alphabet (lt_of_mem_digits bs d hd))
  · exact Or.inr (List.eq_of_mem_replicate h)

/-- **Four characters for every three bytes**, rounded up. -/
theorem length_encode (bs : List UInt8) : (encode bs).length = 4 * (bs.length ⌈/⌉ 3) := by
  rw [encode_eq_append, List.length_append, List.length_map, length_digits,
    List.length_replicate]
  simp only [Nat.ceilDiv_eq_add_pred_div]
  omega

/-! ### Decoding -/

/-- The bytes of a padded group of four characters, the last of the text. -/
def decodeLast (x y : ℕ) (r : UInt8) : Option (List UInt8) :=
  if r = pad then
    if y % 16 = 0 then some [UInt8.ofNat (x * 4 + y / 16)] else none
  else match value r with
    | none => none
    | some z =>
      if z % 4 = 0 then some [UInt8.ofNat (x * 4 + y / 16), UInt8.ofNat (y % 16 * 16 + z / 4)]
      else none

/-- **The byte string a Base64 text stands for**, if it is one. -/
def decode : List UInt8 → Option (List UInt8)
  | [] => some []
  | p :: q :: r :: s :: rest =>
    match value p, value q with
    | some x, some y =>
      if s = pad then if rest = [] then decodeLast x y r else none
      else match value r, value s with
        | some z, some w => (decode rest).map fun bs =>
          UInt8.ofNat (x * 4 + y / 16) :: UInt8.ofNat (y % 16 * 16 + z / 4) ::
            UInt8.ofNat (z % 4 * 64 + w) :: bs
        | _, _ => none
    | _, _ => none
  | _ => none

/-- A byte put together from a quotient and a remainder. -/
private theorem ofNat_div_mod (a : UInt8) {k n : ℕ} (h : n = a.toNat / k * k + a.toNat % k) :
    UInt8.ofNat n = a := by
  rw [h, Nat.div_add_mod', UInt8.ofNat_toNat]

/-- **Decoding gives back what was encoded.** -/
theorem decode_encode (bs : List UInt8) : decode (encode bs) = some bs := by
  induction bs using encode.induct with
  | case1 => rfl
  | case2 a =>
    have ha := a.toNat_lt
    simp only [encode, digits, List.map_cons, List.map_nil, List.cons_append, List.nil_append,
      decode, value_char (show a.toNat / 4 < 64 by omega),
      value_char (show a.toNat % 4 * 16 < 64 by omega), reduceIte, decodeLast]
    rw [if_pos (by omega), ofNat_div_mod a (k := 4) (by omega)]
  | case3 a b =>
    have ha := a.toNat_lt
    have hb := b.toNat_lt
    have hz : b.toNat % 16 * 4 < 64 := by omega
    simp only [encode, digits, List.map_cons, List.map_nil, List.cons_append, List.nil_append,
      decode, value_char (show a.toNat / 4 < 64 by omega),
      value_char (show a.toNat % 4 * 16 + b.toNat / 16 < 64 by omega), value_char hz,
      reduceIte, decodeLast, char_ne_pad hz]
    rw [if_pos (by omega), ofNat_div_mod a (k := 4) (by omega),
      ofNat_div_mod b (k := 16) (by omega)]
  | case4 a b c rest ih =>
    have ha := a.toNat_lt
    have hb := b.toNat_lt
    have hc := c.toNat_lt
    have hw : c.toNat % 64 < 64 := by omega
    simp only [encode, digits, List.map_cons, List.map_nil, List.cons_append, List.nil_append,
      decode, value_char (show a.toNat / 4 < 64 by omega),
      value_char (show a.toNat % 4 * 16 + b.toNat / 16 < 64 by omega),
      value_char (show b.toNat % 16 * 4 + c.toNat / 64 < 64 by omega), value_char hw,
      char_ne_pad hw, reduceIte, ih, Option.map_some]
    rw [ofNat_div_mod a (k := 4) (by omega), ofNat_div_mod b (k := 16) (by omega),
      ofNat_div_mod c (k := 64) (by omega)]

end Base64

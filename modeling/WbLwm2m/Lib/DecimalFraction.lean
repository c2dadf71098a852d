import Mathlib.Data.Rat.Cast.Order
import Mathlib.Tactic.FieldSimp
import Mathlib.Tactic.NormNum
import WbLwm2m.Lib.Decimal

/-!
# Decimal fractions, as text

The number a decimal text stands for, exactly and without a bound: digits, with a fraction
part or without, an exponent behind `e` or `E`, and a sign in front. It is a rational number
(`Decimal.readRat`).

Reading goes by splitting the text at its marks, and digits are none of them. So a text
that is put together from digits is read as their values are put together
(`Decimal.readFixed_fraction`, `Decimal.readUnsigned_exponent`). What a fraction part
contributes is the value of its digits as a fraction (`Decimal.fractionValue`), and zeros
at its end contribute nothing (`Decimal.fractionValue_append_zeros`).
-/

namespace Decimal

/-! ### Digits -/

/-- Every byte is a digit; there may be none. -/
def AllDigits (t : List UInt8) : Prop := ∀ b ∈ t, 0x30 ≤ b ∧ b ≤ 0x39

theorem AllDigits.append {s t : List UInt8} (hs : AllDigits s) (ht : AllDigits t) :
    AllDigits (s ++ t) := by
  intro b hb
  rcases List.mem_append.mp hb with hb | hb
  · exact hs b hb
  · exact ht b hb

theorem AllDigits.of_append {s t : List UInt8} (h : AllDigits (s ++ t)) :
    AllDigits s ∧ AllDigits t :=
  ⟨fun b hb => h b (List.mem_append_left _ hb), fun b hb => h b (List.mem_append_right _ hb)⟩

theorem allDigits_ofNat (n : ℕ) : AllDigits (ofNat n) := fun _ hb => mem_ofNat hb

theorem allDigits_replicate_zero (k : ℕ) : AllDigits (List.replicate k 0x30) := by
  intro b hb
  rw [List.eq_of_mem_replicate hb]
  decide

/-- Another byte than a digit is not among digits. -/
theorem AllDigits.not_mem {t : List UInt8} (h : AllDigits t) {b : UInt8}
    (hb : b < 0x30 ∨ 0x39 < b) : b ∉ t := by
  intro hmem
  obtain ⟨hlo, hhi⟩ := h b hmem
  rcases hb with hb | hb
  · exact absurd hlo (UInt8.not_le.mpr hb)
  · exact absurd hhi (UInt8.not_le.mpr hb)

@[simp] theorem value_nil : value [] = 0 := rfl

/-- **Digits behind digits**: the first ones move up. -/
theorem value_append (s t : List UInt8) :
    value (s ++ t) = value s * 10 ^ t.length + value t := by
  have hfold : ∀ (t : List UInt8) (n : ℕ),
      t.foldl (fun n b => b.toNat - 0x30 + 10 * n) n =
        n * 10 ^ t.length + t.foldl (fun n b => b.toNat - 0x30 + 10 * n) 0 := by
    intro t
    induction t with
    | nil => simp
    | cons b t ih =>
      intro n
      rw [List.foldl_cons, List.foldl_cons, ih, ih (b.toNat - 0x30 + 10 * 0), List.length_cons]
      ring
  rw [value, List.foldl_append, hfold]
  rfl

@[simp] theorem value_replicate_zero (k : ℕ) : value (List.replicate k 0x30) = 0 := by
  induction k with
  | zero => rfl
  | succ k ih => rw [List.replicate_succ', value_append, ih]; rfl

theorem read_of_allDigits {t : List UInt8} (hne : t ≠ []) (h : AllDigits t) :
    read t = some (value t) := if_pos ⟨hne, h⟩

/-! ### Fractions -/

/-- The value of digits behind the point. -/
def fractionValue (t : List UInt8) : ℚ := value t / 10 ^ t.length

@[simp] theorem fractionValue_nil : fractionValue [] = 0 := by simp [fractionValue]

theorem fractionValue_append (s t : List UInt8) :
    fractionValue (s ++ t) = fractionValue s + fractionValue t / 10 ^ s.length := by
  rw [fractionValue, fractionValue, fractionValue, value_append, List.length_append, pow_add]
  push_cast
  field_simp

/-- **Zeros at the end** of a fraction part contribute nothing. -/
theorem fractionValue_append_zeros (t : List UInt8) (k : ℕ) :
    fractionValue (t ++ List.replicate k 0x30) = fractionValue t := by
  have hzero : fractionValue (List.replicate k 0x30) = 0 := by simp [fractionValue]
  rw [fractionValue_append, hzero, zero_div, add_zero]

/-- Digits on both sides of the point are those of the whole, moved down. -/
theorem value_add_fractionValue (s t : List UInt8) :
    (value s : ℚ) + fractionValue t = value (s ++ t) / 10 ^ t.length := by
  rw [fractionValue, value_append]
  push_cast
  field_simp

/-! ### Reading -/

/-- Read digits, with a fraction part or without. -/
def readFixed (t : List UInt8) : Option ℚ :=
  match t.splitOn 0x2E with
  | [int] => (read int).map fun n : ℕ => (n : ℚ)
  | [int, frac] =>
    (read int).bind fun n : ℕ => (read frac).map fun _ => (n : ℚ) + fractionValue frac
  | _ => none

/-- Read an exponent, with a sign of either kind or without. -/
def readExponent : List UInt8 → Option ℤ
  | 0x2B :: t => (read t).map fun n : ℕ => (n : ℤ)
  | t => readInt t

/-- Read a number without a sign. -/
def readUnsigned (t : List UInt8) : Option ℚ :=
  match t.splitOnP fun b => b == 0x65 || b == 0x45 with
  | [num] => readFixed num
  | [num, exp] => (readFixed num).bind fun q => (readExponent exp).map fun e => q * 10 ^ e
  | _ => none

/-- **Read a number exactly.** -/
def readRat : List UInt8 → Option ℚ
  | 0x2D :: t => (readUnsigned t).map fun q => -q
  | t => readUnsigned t

theorem readFixed_of_allDigits {t : List UInt8} (hne : t ≠ []) (h : AllDigits t) :
    readFixed t = some (value t : ℚ) := by
  rw [readFixed, List.splitOn_eq_singleton (h.not_mem (Or.inl (by decide)))]
  simp only [read_of_allDigits hne h, Option.map_some]

/-- **A number with a fraction part.** -/
theorem readFixed_fraction {s t : List UInt8} (hs : s ≠ []) (ht : t ≠ []) (hs' : AllDigits s)
    (ht' : AllDigits t) : readFixed (s ++ 0x2E :: t) = some (value s + fractionValue t) := by
  rw [readFixed,
    List.splitOn_append_cons_self_of_not_mem (hs'.not_mem (Or.inl (by decide))),
    List.splitOn_eq_singleton (ht'.not_mem (Or.inl (by decide)))]
  simp only [read_of_allDigits hs hs', read_of_allDigits ht ht', Option.bind_some,
    Option.map_some]

/-- There is no exponent mark in a text. -/
def NoExponent (t : List UInt8) : Prop := ∀ b ∈ t, (b == 0x65 || b == 0x45) = false

theorem AllDigits.noExponent {t : List UInt8} (h : AllDigits t) : NoExponent t := by
  intro b hb
  rw [Bool.or_eq_false_iff, beq_eq_false_iff_ne, beq_eq_false_iff_ne]
  constructor
  · rintro rfl
    exact h.not_mem (Or.inr (by decide)) hb
  · rintro rfl
    exact h.not_mem (Or.inr (by decide)) hb

theorem NoExponent.append {s t : List UInt8} (hs : NoExponent s) (ht : NoExponent t) :
    NoExponent (s ++ t) := by
  intro b hb
  rcases List.mem_append.mp hb with hb | hb
  · exact hs b hb
  · exact ht b hb

theorem readUnsigned_of_noExponent {t : List UInt8} (h : NoExponent t) :
    readUnsigned t = readFixed t := by
  rw [readUnsigned, List.splitOnP_eq_singleton h]

/-- **A number with an exponent.** -/
theorem readUnsigned_exponent {s e : List UInt8} {q : ℚ} {z : ℤ} (hs : NoExponent s)
    (he : NoExponent e) (hq : readFixed s = some q) (hz : readExponent e = some z) :
    readUnsigned (s ++ 0x65 :: e) = some (q * 10 ^ z) := by
  rw [readUnsigned, List.splitOnP_append_cons_of_forall_mem hs 0x65 (by decide),
    List.splitOnP_eq_singleton he]
  simp only [hq, hz, Option.bind_some, Option.map_some]

/-- A positive exponent, with its sign. -/
theorem readExponent_plus {t : List UInt8} (hne : t ≠ []) (h : AllDigits t) :
    readExponent (0x2B :: t) = some (value t : ℤ) := by
  rw [readExponent, read_of_allDigits hne h, Option.map_some]

/-- A negative exponent. -/
theorem readExponent_minus {t : List UInt8} (hne : t ≠ []) (h : AllDigits t) :
    readExponent (0x2D :: t) = some (-(value t : ℤ)) := by
  rw [readExponent, readInt, read_of_allDigits hne h, Option.map_some]
  rintro t' heq
  exact absurd (List.cons.inj heq).1 (by decide)

/-- A number that begins with a digit has no sign. -/
theorem readRat_of_digit {b : UInt8} (t : List UInt8) (hb : 0x30 ≤ b) :
    readRat (b :: t) = readUnsigned (b :: t) := by
  rw [readRat]
  rintro t' heq
  rw [(List.cons.inj heq).1] at hb
  exact absurd hb (by decide)

end Decimal

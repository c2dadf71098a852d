import WbLwm2m.Lib.Decimal
import Mathlib.Algebra.Field.Rat
import Mathlib.Data.Nat.Log
import Mathlib.Data.UInt

/-!
# The floating point of the target

A `double` and a `float` are modelled by their bit patterns. What the encoders ask
of them is little: an equality test (`WbLwm2m.doubleEq`), a test for infinity
(`WbLwm2m.isinf`), and three conversions – narrowing, widening and the `%g` of
`snprintf` – which are the compiler's and the C library's. The encoders take these
three as a parameter, `WbLwm2m.FloatOps`, together with the one law the record
encoder relies on: a `double` that survives the narrowing under the equality test
survives it bit for bit.

`WbLwm2m.ieee754` is the instance the targets have, computed on the bit patterns.
-/

namespace WbLwm2m

/-- The text of an ASCII literal, as the bytes of a `char` array. -/
def ascii (s : String) : List UInt8 := s.toList.map fun c => UInt8.ofNat c.toNat

/-- Whether a `double` is a NaN. -/
def doubleIsNan (d : UInt64) : Bool := 0x7FF0000000000000 < d &&& 0x7FFFFFFFFFFFFFFF

/-- The `==` of two `double`s: no NaN is equal to anything, and the two zeros are
equal. -/
def doubleEq (d e : UInt64) : Bool :=
  !doubleIsNan d && !doubleIsNan e &&
    (d == e || (d &&& 0x7FFFFFFFFFFFFFFF == 0 && e &&& 0x7FFFFFFFFFFFFFFF == 0))

/-- `isinf` of a `float`. -/
def isinf (f : UInt32) : Bool := f &&& 0x7FFFFFFF == 0x7F800000

/-- **The conversions of the floating-point unit and of the C library**, on bit
patterns. -/
structure FloatOps where
  /-- `(float)d` -/
  narrow : UInt64 → UInt32
  /-- `(double)f` -/
  widen : UInt32 → UInt64
  /-- The text `snprintf` prints for a `double` under `%g`. -/
  fmtG : UInt64 → List UInt8
  /-- When the equality test passes, the number comes back as it was. -/
  widen_narrow : ∀ d, doubleEq (widen (narrow d)) d = true → widen (narrow d) = d

/-! ### Narrowing and widening -/

/-- `n / 2 ^ k`, rounded to the nearest integer and to the even one on a tie. -/
def shiftRound (n k : ℕ) : ℕ :=
  let q := n / 2 ^ k
  let r := 2 * (n % 2 ^ k)
  if 2 ^ k < r ∨ (r = 2 ^ k ∧ q % 2 = 1) then q + 1 else q

/-- The fields of a `double`: sign bit, biased exponent and fraction. -/
def doubleFields (d : UInt64) : ℕ × ℕ × ℕ :=
  (d.toNat / 2 ^ 63, d.toNat / 2 ^ 52 % 2 ^ 11, d.toNat % 2 ^ 52)

/-- The number a `double` stands for, if it is finite. -/
def doubleValue (d : UInt64) : Option ℚ :=
  let (s, e, f) := doubleFields d
  if e = 2047 then none
  else if e = 0 then some ((-1) ^ s * f * 2 ^ (-1074 : ℤ))
  else some ((-1) ^ s * (2 ^ 52 + f) * 2 ^ ((e : ℤ) - 1075))

/-- `(float)d`, rounding to nearest and ties to even. -/
def ieeeNarrow (d : UInt64) : UInt32 :=
  let (s, e, f) := doubleFields d
  let sign := s * 2 ^ 31
  if e = 2047 then
    UInt32.ofNat (sign + 0x7F800000 + if f = 0 then 0 else 2 ^ 22 + f / 2 ^ 29 % 2 ^ 22)
  else if e < 872 then
    UInt32.ofNat sign
  else if e ≤ 896 then
    -- a subnormal `float`: the significand moves down to the fixed exponent
    UInt32.ofNat (sign + shiftRound (2 ^ 52 + f) (926 - e))
  else if e - 896 < 255 then
    -- a carry out of the fraction moves into the exponent, up to infinity
    UInt32.ofNat (sign + (e - 897) * 2 ^ 23 + shiftRound (2 ^ 52 + f) 29)
  else
    UInt32.ofNat (sign + 0x7F800000)

/-- `(double)f`, which is exact. -/
def ieeeWiden (u : UInt32) : UInt64 :=
  let sign := u.toNat / 2 ^ 31 * 2 ^ 63
  let e := u.toNat / 2 ^ 23 % 2 ^ 8
  let f := u.toNat % 2 ^ 23
  if e = 255 then
    UInt64.ofNat (sign + 2047 * 2 ^ 52 + if f = 0 then 0 else 2 ^ 51 + f % 2 ^ 22 * 2 ^ 29)
  else if e = 0 then
    if f = 0 then UInt64.ofNat sign
    else
      let k := Nat.log 2 f
      UInt64.ofNat (sign + (k + 874) * 2 ^ 52 + (f - 2 ^ k) * 2 ^ (52 - k))
  else
    UInt64.ofNat (sign + (e + 896) * 2 ^ 52 + f * 2 ^ 29)

theorem ieeeWiden_ieeeNarrow (d : UInt64) (h : doubleEq (ieeeWiden (ieeeNarrow d)) d = true) :
    ieeeWiden (ieeeNarrow d) = d := by
  simp only [doubleEq, Bool.and_eq_true, Bool.or_eq_true, beq_iff_eq] at h
  obtain ⟨-, h | ⟨-, hz⟩⟩ := h
  · exact h
  · -- the two zeros are the only patterns the test identifies
    have hd : d = 0 ∨ d = 0x8000000000000000 := by
      have hz' := congrArg UInt64.toNat hz
      rw [UInt64.toNat_and] at hz'
      have hmod : d.toNat % 2 ^ 63 = 0 := by
        rw [← Nat.and_two_pow_sub_one_eq_mod]
        exact hz'
      have hlt := d.toNat_lt
      rcases Nat.lt_or_ge d.toNat (2 ^ 63) with hs | hs
      · exact Or.inl (UInt64.toNat_inj.mp (by rw [UInt64.toNat_zero]; omega))
      · refine Or.inr (UInt64.toNat_inj.mp ?_)
        change d.toNat = 2 ^ 63
        omega
    rcases hd with rfl | rfl <;> rfl

/-! ### The `%g` of `snprintf` -/

/-- The decimal digits of `n`, with leading zeros up to `width` of them. -/
def padDigits (width n : ℕ) : List UInt8 :=
  List.replicate (width - (Decimal.ofNat n).length) 0x30 ++ Decimal.ofNat n

/-- Drop the zeros a text ends in. -/
def stripZeros (t : List UInt8) : List UInt8 := (t.reverse.dropWhile (· == 0x30)).reverse

/-- A fraction part: nothing when all its digits are zeros. -/
def fractionPart (t : List UInt8) : List UInt8 :=
  if stripZeros t = [] then [] else ascii "." ++ stripZeros t

/-- `num / den`, rounded to the nearest integer and to the even one on a tie. -/
def divRound (num den : ℕ) : ℕ :=
  let q := num / den
  let r := 2 * (num % den)
  if den < r ∨ (r = den ∧ q % 2 = 1) then q + 1 else q

/-- The decimal exponent and the six significant digits of `num / den`. -/
def sixDigits (num den : ℕ) : ℤ × ℕ :=
  let x : ℤ := if den ≤ num then Nat.log 10 (num / den)
    else -(Nat.clog 10 ((num + den - 1) / num) : ℤ)
  let d := if x ≤ 5 then divRound (num * 10 ^ (5 - x).toNat) den
    else divRound num (den * 10 ^ (x - 5).toNat)
  if d = 10 ^ 6 then (x + 1, 10 ^ 5) else (x, d)

/-- The text of a positive number with six significant digits, in the notation its
exponent selects, trailing zeros removed. -/
def sixDigitsText (x : ℤ) (d : ℕ) : List UInt8 :=
  let ds := padDigits 6 d
  if 0 ≤ x ∧ x < 6 then
    ds.take (x.toNat + 1) ++ fractionPart (ds.drop (x.toNat + 1))
  else if -4 ≤ x ∧ x < 0 then
    ascii "0" ++ fractionPart (List.replicate ((-x).toNat - 1) 0x30 ++ ds)
  else
    ds.take 1 ++ fractionPart (ds.drop 1) ++ ascii (if 0 ≤ x then "e+" else "e-") ++
      padDigits 2 x.natAbs

/-- `%g`: six significant digits, rounded to nearest. -/
def ieeeFmtG (d : UInt64) : List UInt8 :=
  let (s, e, f) := doubleFields d
  let sign := if s = 1 then ascii "-" else []
  if e = 2047 then
    sign ++ ascii (if f = 0 then "inf" else "nan")
  else if e = 0 ∧ f = 0 then
    sign ++ ascii "0"
  else
    let (m, p) := if e = 0 then (f, 1) else (2 ^ 52 + f, e)
    let (x, ds) := sixDigits (m * 2 ^ (p - 1075)) (2 ^ (1075 - p))
    sign ++ sixDigitsText x ds

/-- The floating point of the targets. -/
def ieee754 : FloatOps where
  narrow := ieeeNarrow
  widen := ieeeWiden
  fmtG := ieeeFmtG
  widen_narrow := ieeeWiden_ieeeNarrow

-- 23.5, and 1234567, which six digits cannot hold
example : ieee754.fmtG 0x4037800000000000 = ascii "23.5" := by decide +kernel
example : ieee754.fmtG 0x4132D68700000000 = ascii "1.23457e+06" := by decide +kernel

end WbLwm2m

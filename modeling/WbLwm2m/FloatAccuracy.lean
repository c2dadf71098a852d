import Mathlib.Algebra.Order.Field.Basic
import Mathlib.Algebra.Order.Floor.Semifield
import Mathlib.Data.Rat.Floor
import Mathlib.Tactic.Positivity
import WbLwm2m.FloatText
import WbLwm2m.Lib.Rounding

/-!
# How exact `%g` is

`WbLwm2m.FloatText` asks which integers survive `%g`. This module says what happens to every
other number: the text of a finite `double` is a number of JSON, and the rational number it
stands for is a nearest one with six significant digits (`WbLwm2m.ieeeFmtG_finite`), so that it
is off by half a unit of the sixth digit at most. An infinity and a NaN print a word instead,
and no number begins like it (`WbLwm2m.ieeeFmtG_not_finite`).

The decimal exponent is computed with two integer logarithms, one for the numbers from one on
and one for those below. Together they are the logarithm of a rational number,
`WbLwm2m.sixDigits_exponent`, and the rest is `Rounding.nearest_significant`.
-/

namespace WbLwm2m

open Decimal Rounding

/-! ### Six digits of a quotient -/

/-- **Rounding a quotient** is off by one half at most. -/
theorem abs_divRound_sub_le (num : ℕ) {den : ℕ} (hden : 0 < den) :
    |(divRound num den : ℚ) - num / den| ≤ 1 / 2 := by
  have hden' : (0 : ℚ) < den := by exact_mod_cast hden
  have hsplit : (num : ℚ) / den = (num / den : ℕ) + (num % den : ℕ) / den := by
    rw [eq_comm, ← mul_right_inj' hden'.ne', mul_add, mul_div_cancel₀ _ hden'.ne',
      mul_div_cancel₀ _ hden'.ne']
    exact_mod_cast Nat.div_add_mod num den
  have hrem : ((num % den : ℕ) : ℚ) / den < 1 := by
    rw [div_lt_one hden']
    exact_mod_cast Nat.mod_lt num hden
  have hnonneg : (0 : ℚ) ≤ ((num % den : ℕ) : ℚ) / den := by positivity
  rw [hsplit, divRound]
  split
  · next hup =>
    have hhalf : (1 : ℚ) / 2 ≤ ((num % den : ℕ) : ℚ) / den := by
      rw [div_le_div_iff₀ two_pos hden', one_mul, mul_comm]
      have hle : den ≤ 2 * (num % den) := by omega
      exact_mod_cast hle
    rw [Nat.cast_add_one, abs_le]
    constructor <;> linarith
  · next hdown =>
    have hhalf : ((num % den : ℕ) : ℚ) / den ≤ 1 / 2 := by
      rw [div_le_div_iff₀ hden' two_pos, one_mul, mul_comm]
      have hle : 2 * (num % den) ≤ den := by omega
      exact_mod_cast hle
    rw [abs_le]
    constructor <;> linarith

/-- A quotient, rounded up. -/
theorem ceil_div_eq {num den : ℕ} (hnum : 0 < num) :
    Nat.ceil ((den : ℚ) / num) = (num + den - 1) / num := by
  have hnum' : (0 : ℚ) < num := by exact_mod_cast hnum
  refine eq_of_forall_ge_iff fun k => ?_
  rw [Nat.ceil_le, div_le_iff₀ hnum', ← Nat.lt_succ_iff, Nat.div_lt_iff_lt_mul hnum,
    Nat.succ_mul]
  constructor
  · intro h
    have hle : den ≤ k * num := by exact_mod_cast h
    omega
  · intro h
    have hle : den ≤ k * num := by omega
    exact_mod_cast hle

/-- **The decimal exponent** is the integer logarithm of the quotient. -/
theorem sixDigits_exponent {num den : ℕ} (hnum : 0 < num) (hden : 0 < den) :
    (if den ≤ num then (Nat.log 10 (num / den) : ℤ)
      else -(Nat.clog 10 ((num + den - 1) / num) : ℤ)) = Int.log 10 ((num : ℚ) / den) := by
  have hden' : (0 : ℚ) < den := by exact_mod_cast hden
  split
  · next hle =>
    have hone : (1 : ℚ) ≤ num / den := by
      rw [one_le_div hden']
      exact_mod_cast hle
    rw [Int.log_of_one_le_right 10 hone, Nat.floor_div_eq_div]
  · next hlt =>
    have hone : (num : ℚ) / den ≤ 1 := by
      rw [div_le_one hden']
      exact_mod_cast (not_le.mp hlt).le
    rw [Int.log_of_right_le_one 10 hone, inv_div, ceil_div_eq hnum]

/-- The quotient on the scale of its sixth digit, rounded. -/
def scaledRound (num den : ℕ) (x : ℤ) : ℕ :=
  if x ≤ 5 then divRound (num * 10 ^ (5 - x).toNat) den
  else divRound num (den * 10 ^ (x - 5).toNat)

theorem abs_scaledRound_sub_le (num : ℕ) {den : ℕ} (hden : 0 < den) (x : ℤ) :
    |(scaledRound num den x : ℚ) - num / den / 10 ^ (x - 5)| ≤ 1 / 2 := by
  rw [scaledRound]
  split
  · next hle =>
    have hpow : (10 : ℚ) ^ (x - 5) = ((10 : ℚ) ^ (5 - x).toNat)⁻¹ := by
      rw [← zpow_natCast, ← zpow_neg]
      congr 1
      omega
    have hscale : (num : ℚ) / den / 10 ^ (x - 5) = ((num * 10 ^ (5 - x).toNat : ℕ) : ℚ) / den := by
      rw [hpow, div_inv_eq_mul]
      push_cast
      ring
    rw [hscale]
    exact abs_divRound_sub_le _ hden
  · next hgt =>
    have hpow : (10 : ℚ) ^ (x - 5) = (10 : ℚ) ^ (x - 5).toNat := by
      rw [← zpow_natCast]
      congr 1
      omega
    have hscale : (num : ℚ) / den / 10 ^ (x - 5) =
        (num : ℚ) / ((den * 10 ^ (x - 5).toNat : ℕ) : ℚ) := by
      rw [hpow, div_div]
      push_cast
      rfl
    rw [hscale]
    exact abs_divRound_sub_le _ (Nat.mul_pos hden (Nat.pow_pos (by omega)))

theorem sixDigits_eq {num den : ℕ} (hnum : 0 < num) (hden : 0 < den) :
    sixDigits num den =
      if scaledRound num den (Int.log 10 ((num : ℚ) / den)) = 10 ^ 6 then
        (Int.log 10 ((num : ℚ) / den) + 1, 10 ^ 5)
      else (Int.log 10 ((num : ℚ) / den),
        scaledRound num den (Int.log 10 ((num : ℚ) / den))) := by
  rw [← sixDigits_exponent hnum hden]
  rfl

/-- **The numbers six digits hold**, at any magnitude. -/
def SixSignificant (q : ℚ) : Prop := Significant 10 6 q

/-- **The six digits of a quotient** are those of a nearest number that has six. -/
theorem sixDigits_nearest {num den : ℕ} (hnum : 0 < num) (hden : 0 < den) :
    ∃ x ds, sixDigits num den = (x, ds) ∧ 10 ^ 5 ≤ ds ∧ ds < 10 ^ 6 ∧
      Nearest SixSignificant ((num : ℚ) / den) (ds * 10 ^ (x - 5)) ∧
      |(ds : ℚ) * 10 ^ (x - 5) - num / den| ≤
        10 ^ (Int.log 10 ((num : ℚ) / den) - 5) / 2 := by
  have hq : (0 : ℚ) < num / den := by
    have hnum' : (0 : ℚ) < num := by exact_mod_cast hnum
    have hden' : (0 : ℚ) < den := by exact_mod_cast hden
    exact div_pos hnum' hden'
  set q : ℚ := num / den with hqdef
  set l := Int.log 10 q with hl
  have hplace : lastPlace 10 6 q = l - 5 := by
    rw [lastPlace, ← hl]
    push_cast
    ring
  have hround := abs_scaledRound_sub_le num hden l
  rw [← hqdef] at hround
  have hnearest := nearest_significant (K := ℚ) (b := 10) (p := 6) (by omega) (by omega) hq
    (d := scaledRound num den l) (by rw [hplace]; exact_mod_cast hround)
  rw [hplace] at hnearest
  -- the scaled quotient has six digits in front of its point
  have hlow : (10 : ℚ) ^ 5 ≤ q / 10 ^ (l - 5) := by
    have hle := Int.zpow_log_le_self (b := 10) (by omega) hq
    rw [le_div_iff₀ (by positivity), ← zpow_natCast, ← zpow_add₀ (by norm_num)]
    calc (10 : ℚ) ^ (((5 : ℕ) : ℤ) + (l - 5)) = ((10 : ℕ) : ℚ) ^ Int.log 10 q := by
          rw [hl]
          push_cast
          congr 1
          ring
      _ ≤ q := hle
  have hhigh : q / 10 ^ (l - 5) < (10 : ℚ) ^ 6 := by
    have hlt := Int.lt_zpow_succ_log_self (b := 10) (by omega) q
    rw [div_lt_iff₀ (by positivity), ← zpow_natCast, ← zpow_add₀ (by norm_num)]
    calc q < ((10 : ℕ) : ℚ) ^ (Int.log 10 q + 1) := hlt
      _ = (10 : ℚ) ^ (((6 : ℕ) : ℤ) + (l - 5)) := by
          rw [hl]
          push_cast
          congr 1
          ring
  obtain ⟨hlo, hhi⟩ := abs_le.mp hround
  have hge : 10 ^ 5 ≤ scaledRound num den l := by
    have hcast : ((10 ^ 5 - 1 : ℕ) : ℚ) < (scaledRound num den l : ℚ) := by
      push_cast
      linarith
    have hnat := Nat.cast_lt.mp hcast
    omega
  have hle : scaledRound num den l ≤ 10 ^ 6 := by
    have hcast : (scaledRound num den l : ℚ) < ((10 ^ 6 + 1 : ℕ) : ℚ) := by
      push_cast
      linarith
    have hnat := Nat.cast_lt.mp hcast
    omega
  rw [sixDigits_eq hnum hden, ← hqdef, ← hl]
  by_cases hcarry : scaledRound num den l = 10 ^ 6
  · have hmoved : ((10 ^ 5 : ℕ) : ℚ) * 10 ^ (l + 1 - 5) =
        ((scaledRound num den l : ℤ) : ℚ) * ((10 : ℕ) : ℚ) ^ (l - 5) := by
      have hexp : l + 1 - 5 = 1 + (l - 5) := by ring
      rw [hcarry, hexp, zpow_add₀ (by norm_num), zpow_one]
      push_cast
      ring
    refine ⟨l + 1, 10 ^ 5, if_pos hcarry, le_rfl, by omega, ?_, ?_⟩
    · rw [hmoved]
      exact hnearest.1
    · rw [hmoved]
      exact_mod_cast hnearest.2
  · refine ⟨l, scaledRound num den l, if_neg hcarry, hge, by omega, ?_, ?_⟩
    · exact_mod_cast hnearest.1
    · exact_mod_cast hnearest.2

/-! ### The text of a finite number -/

/-- A power of two that is moved up or down. -/
theorem two_zpow_sub (p k : ℕ) :
    (2 : ℚ) ^ ((p : ℤ) - k) = ((2 ^ (p - k) : ℕ) : ℚ) / ((2 ^ (k - p) : ℕ) : ℚ) := by
  have hsub : (p : ℤ) - k = ((p - k : ℕ) : ℤ) - ((k - p : ℕ) : ℤ) := by omega
  rw [hsub, zpow_sub₀ (by norm_num), zpow_natCast, zpow_natCast]
  push_cast
  rfl

/-- **The fields of a finite number**: those of a zero, or a significand that the exponent
moves up or down. -/
theorem doubleFields_of_finite {d : UInt64} {v : ℚ} (hd : doubleValue d = some v) :
    ∃ s e f, doubleFields d = (s, e, f) ∧ s < 2 ∧ e ≠ 2047 ∧
      (e = 0 ∧ f = 0 ∧ v = 0 ∨
        ¬(e = 0 ∧ f = 0) ∧ ∃ m p, (if e = 0 then (f, 1) else (2 ^ 52 + f, e)) = (m, p) ∧ 0 < m ∧
          v = (-1) ^ s * (((m * 2 ^ (p - 1075) : ℕ) : ℚ) / ((2 ^ (1075 - p) : ℕ) : ℚ))) := by
  obtain ⟨hs, -⟩ := doubleFields_bounds d
  rcases hfields : doubleFields d with ⟨s, e, f⟩
  rw [hfields] at hs
  rw [doubleValue, hfields] at hd
  simp only at hd hs
  refine ⟨s, e, f, rfl, hs, ?_⟩
  split_ifs at hd with hinf hsub
  · refine ⟨hinf, ?_⟩
    obtain rfl := Option.some.inj hd
    rcases Nat.eq_zero_or_pos f with rfl | hf
    · exact Or.inl ⟨hsub, rfl, by simp⟩
    · refine Or.inr ⟨fun h => hf.ne' h.2, f, 1, if_pos hsub, hf, ?_⟩
      have hexp : (-1074 : ℤ) = ((1 : ℕ) : ℤ) - (1075 : ℕ) := by norm_num
      rw [hexp, two_zpow_sub, Nat.cast_mul, mul_div_assoc, mul_assoc]
  · refine ⟨hinf, Or.inr ⟨fun h => hsub h.1, 2 ^ 52 + f, e, if_neg hsub, by omega, ?_⟩⟩
    obtain rfl := Option.some.inj hd
    have hexp : (e : ℤ) - 1075 = (e : ℤ) - (1075 : ℕ) := by norm_num
    have hlead : ((2 ^ 52 : ℕ) : ℚ) = 2 ^ 52 := by norm_num
    rw [hexp, two_zpow_sub, Nat.cast_mul, mul_div_assoc, mul_assoc, Nat.cast_add, hlead]

theorem sixSignificant_neg {q : ℚ} (h : SixSignificant q) : SixSignificant (-q) :=
  Significant.neg h

/-- A sign changes nothing about what is nearest. -/
theorem nearest_sign {s : ℕ} (hs : s < 2) {q r : ℚ} (h : Nearest SixSignificant q r) :
    Nearest SixSignificant ((-1) ^ s * q) ((-1) ^ s * r) := by
  obtain rfl | rfl : s = 0 ∨ s = 1 := by omega
  · simpa using h
  · simpa using h.neg fun z hz => sixSignificant_neg hz

/-- **What `%g` prints for a finite number** is a number of JSON, and it stands for a nearest
number with six significant digits, half a unit of the sixth off at most. -/
theorem ieeeFmtG_finite {d : UInt64} {v : ℚ} (hd : doubleValue d = some v) :
    Json.Number (ieeeFmtG d) ∧ ∃ r, readRat (ieeeFmtG d) = some r ∧
      Nearest SixSignificant v r ∧ |r - v| ≤ 10 ^ (Int.log 10 |v| - 5) / 2 := by
  obtain ⟨s, e, f, hfields, hs, hinf, h⟩ := doubleFields_of_finite hd
  have hsign : (if s = 1 then ascii "-" else []) = [] ∨
      (if s = 1 then ascii "-" else []) = [0x2D] := by
    split
    · exact Or.inr rfl
    · exact Or.inl rfl
  rcases h with ⟨rfl, rfl, rfl⟩ | ⟨hne, m, p, hmp, hm, rfl⟩
  · have htext : ieeeFmtG d = (if s = 1 then ascii "-" else []) ++ [0x30] := by
      simp [ieeeFmtG, hfields, ascii]
    have hzero : readUnsigned [0x30] = some (0 : ℚ) := by
      have hdigits : AllDigits [0x30] := allDigits_replicate_zero 1
      rw [readUnsigned_of_noExponent hdigits.noExponent,
        readFixed_of_allDigits (List.cons_ne_nil _ _) hdigits]
      rfl
    rw [htext]
    refine ⟨⟨_, [0x30], [], [], by simp, hsign, Or.inl rfl, Or.inl rfl, Or.inl rfl⟩, 0, ?_, ?_, ?_⟩
    · rw [readRat_sign hs [] (by decide), hzero, Option.map_some, mul_zero]
    · exact ⟨significant_zero (by omega), fun z _ => by rw [sub_self, abs_zero]; exact abs_nonneg _⟩
    · rw [sub_self, abs_zero]
      positivity
  · have hden : 0 < 2 ^ (1075 - p) := Nat.pow_pos (by omega)
    have hnum : 0 < m * 2 ^ (p - 1075) := Nat.mul_pos hm (Nat.pow_pos (by omega))
    obtain ⟨x, ds, hsix, hlow, hhigh, hnear, herr⟩ := sixDigits_nearest hnum hden
    have htext : ieeeFmtG d = (if s = 1 then ascii "-" else []) ++ sixDigitsText x ds := by
      simp only [ieeeFmtG, hfields, if_neg hinf, if_neg hne, hmp, hsix]
    rw [htext]
    refine ⟨number_sixDigitsText hsign x hlow, _, ?_, nearest_sign hs hnear, ?_⟩
    · obtain ⟨b, t, hcons, hb⟩ := sixDigitsText_cons x ds
      rw [hcons, readRat_sign hs t hb, ← hcons, readUnsigned_sixDigitsText x hhigh,
        Option.map_some]
    · have hone : |(-1 : ℚ) ^ s| = 1 := by rw [abs_pow, abs_neg, abs_one, one_pow]
      have hnonneg : (0 : ℚ) ≤ ((m * 2 ^ (p - 1075) : ℕ) : ℚ) / ((2 ^ (1075 - p) : ℕ) : ℚ) := by
        positivity
      rw [← mul_sub, abs_mul, abs_mul, hone, one_mul, one_mul, abs_of_nonneg hnonneg]
      exact herr

/-- **An infinity and a NaN** print a word, behind a sign or not, and no number begins like
it. -/
theorem ieeeFmtG_not_finite {d : UInt64} (hd : doubleValue d = none) :
    ∃ s, s < 2 ∧ ∃ w, (w = ascii "inf" ∨ w = ascii "nan") ∧
      ieeeFmtG d = (if s = 1 then ascii "-" else []) ++ w := by
  obtain ⟨hs, -⟩ := doubleFields_bounds d
  rcases hfields : doubleFields d with ⟨s, e, f⟩
  rw [hfields] at hs
  rw [doubleValue, hfields] at hd
  simp only at hd hs
  split_ifs at hd with hinf hsub
  refine ⟨s, hs, ascii (if f = 0 then "inf" else "nan"), ?_, ?_⟩
  · split
    · exact Or.inl rfl
    · exact Or.inr rfl
  · simp only [ieeeFmtG, hfields, if_pos hinf]

end WbLwm2m

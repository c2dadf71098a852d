import Mathlib.Algebra.Order.Field.Power
import Mathlib.Algebra.Order.Ring.Abs
import Mathlib.Data.List.DropRight
import WbLwm2m.Float
import WbLwm2m.Lib.DecimalFraction
import WbLwm2m.Lib.Json

/-!
# What `%g` prints

`%g` rounds a number to six significant digits and prints these, in one of three notations
that its decimal exponent selects. Read exactly, the text stands for the rounded number
(`WbLwm2m.readUnsigned_sixDigitsText`), whichever notation it is in and however many zeros
have been dropped.

For an integer below `2 ^ 53` the rounding changes nothing exactly if six digits hold it,
apart from zeros at the end (`WbLwm2m.SixDigits`): the significand and exponent of the
`double` are first turned into the integer, and then its digits are counted.
-/

namespace WbLwm2m

open Decimal

/-! ### Rounding -/

theorem divRound_mul_right (a b : ℕ) {c : ℕ} (hc : 0 < c) :
    divRound (a * c) (b * c) = divRound a b := by
  have hmod : 2 * (a * c % (b * c)) = 2 * (a % b) * c := by
    rw [Nat.mul_mod_mul_right, Nat.mul_assoc]
  have hlt : b * c < 2 * (a % b) * c ↔ b < 2 * (a % b) := Nat.mul_lt_mul_right hc
  have heq : 2 * (a % b) * c = b * c ↔ 2 * (a % b) = b := Nat.mul_left_inj (by omega)
  simp only [divRound, hmod, hlt, heq, Nat.mul_div_mul_right _ _ hc]

theorem divRound_one (n : ℕ) : divRound n 1 = n := by
  simp [divRound, Nat.mod_one]

/-- Rounding stays next to the quotient. -/
theorem divRound_eq (n k : ℕ) : divRound n k = n / k ∨ divRound n k = n / k + 1 := by
  simp only [divRound]
  split
  · exact Or.inr rfl
  · exact Or.inl rfl

theorem divRound_of_dvd {n k : ℕ} (hk : 0 < k) (h : k ∣ n) : divRound n k = n / k := by
  simp only [divRound, Nat.mod_eq_zero_of_dvd h]
  rw [if_neg (by omega)]

/-- **Nothing is lost** by rounding to a multiple exactly if it was one. -/
theorem divRound_mul_eq_iff {n k : ℕ} (hk : 0 < k) : divRound n k * k = n ↔ k ∣ n := by
  constructor
  · intro h
    exact ⟨divRound n k, h.symm.trans (Nat.mul_comm _ _)⟩
  · intro h
    rw [divRound_of_dvd hk h, Nat.div_mul_cancel h]

/-! ### Six digits -/

/-- **Six digits hold the integer**, apart from zeros at its end. -/
def SixDigits (z : ℤ) : Prop := ∃ (m : ℤ) (k : ℕ), z = m * 10 ^ k ∧ |m| < 10 ^ 6

theorem sixDigits_zero : SixDigits 0 := ⟨0, 0, by simp, by simp⟩

/-- Counting the digits: those behind the sixth have to be zeros. -/
theorem sixDigits_iff (z : ℤ) : SixDigits z ↔ 10 ^ (Nat.log 10 z.natAbs - 5) ∣ z.natAbs := by
  by_cases hz : z = 0
  · rw [hz]
    exact iff_of_true sixDigits_zero (dvd_zero _)
  have habs : z.natAbs ≠ 0 := Int.natAbs_ne_zero.mpr hz
  have hlow := Nat.pow_log_le_self 10 habs
  have hhigh := Nat.lt_pow_succ_log_self (by omega : 1 < 10) z.natAbs
  constructor
  · rintro ⟨m, k, hmk, hm⟩
    have hnat : z.natAbs = m.natAbs * 10 ^ k := by
      rw [hmk, Int.natAbs_mul, Int.natAbs_pow]
      rfl
    have hm' : m.natAbs < 10 ^ 6 := by
      have hcast : ((m.natAbs : ℕ) : ℤ) < ((10 ^ 6 : ℕ) : ℤ) := by
        rw [Int.natCast_natAbs]
        exact hm
      exact Int.ofNat_lt.mp hcast
    have hlt : 10 ^ Nat.log 10 z.natAbs < 10 ^ (6 + k) := by
      calc 10 ^ Nat.log 10 z.natAbs ≤ m.natAbs * 10 ^ k := hnat ▸ hlow
        _ < 10 ^ 6 * 10 ^ k := Nat.mul_lt_mul_of_pos_right hm' (Nat.pow_pos (by omega))
        _ = 10 ^ (6 + k) := (Nat.pow_add 10 6 k).symm
    have hk := (Nat.pow_lt_pow_iff_right (by omega : 1 < 10)).mp hlt
    rw [hnat]
    exact Dvd.dvd.mul_left (Nat.pow_dvd_pow 10 (by rw [← hnat]; omega)) _
  · rintro ⟨m, hm⟩
    refine ⟨z.sign * m, Nat.log 10 z.natAbs - 5, ?_, ?_⟩
    · have hcast : (z.natAbs : ℤ) = 10 ^ (Nat.log 10 z.natAbs - 5) * m := by
        exact_mod_cast hm
      calc z = z.sign * z.natAbs := (Int.sign_mul_natAbs z).symm
        _ = z.sign * m * 10 ^ (Nat.log 10 z.natAbs - 5) := by rw [hcast]; ring
    · have hlt : m < 10 ^ 6 := by
        by_contra hge
        have hle : 10 ^ (Nat.log 10 z.natAbs - 5) * 10 ^ 6 ≤ z.natAbs :=
          (Nat.mul_le_mul_left _ (not_lt.mp hge)).trans hm.ge
        rw [← Nat.pow_add] at hle
        have hlog := (Nat.pow_lt_pow_iff_right (by omega : 1 < 10)).mp (hle.trans_lt hhigh)
        omega
      rw [abs_mul, Int.abs_sign_of_ne_zero hz, one_mul, Nat.abs_cast]
      exact_mod_cast hlt

instance : DecidablePred SixDigits := fun z => decidable_of_iff _ (sixDigits_iff z).symm

/-- An integer of at most six digits, moved up to six. -/
theorem shifted_bounds {n : ℕ} (hn : n ≠ 0) (hlog : Nat.log 10 n ≤ 5) :
    10 ^ 5 ≤ n * 10 ^ (5 - Nat.log 10 n) ∧ n * 10 ^ (5 - Nat.log 10 n) < 10 ^ 6 := by
  constructor
  · calc 10 ^ 5 = 10 ^ Nat.log 10 n * 10 ^ (5 - Nat.log 10 n) := by
          rw [← Nat.pow_add]
          congr 1
          omega
      _ ≤ n * 10 ^ (5 - Nat.log 10 n) := Nat.mul_le_mul_right _ (Nat.pow_log_le_self 10 hn)
  · calc n * 10 ^ (5 - Nat.log 10 n)
        < 10 ^ (Nat.log 10 n + 1) * 10 ^ (5 - Nat.log 10 n) :=
          Nat.mul_lt_mul_of_pos_right (Nat.lt_pow_succ_log_self (by omega) n)
            (Nat.pow_pos (by omega))
      _ = 10 ^ 6 := by
          rw [← Nat.pow_add]
          congr 1
          omega

/-- The six digits of an integer that has at most six. -/
theorem sixDigits_of_le {n den : ℕ} (hn : n ≠ 0) (hden : 0 < den) (hlog : Nat.log 10 n ≤ 5) :
    sixDigits (n * den) den = ((Nat.log 10 n : ℤ), n * 10 ^ (5 - Nat.log 10 n)) := by
  have hle : den ≤ n * den := Nat.le_mul_of_pos_left den (Nat.pos_of_ne_zero hn)
  have hshift : ((5 : ℤ) - (Nat.log 10 n : ℤ)).toNat = 5 - Nat.log 10 n := by omega
  have hround : divRound (n * den * 10 ^ (5 - Nat.log 10 n)) den =
      n * 10 ^ (5 - Nat.log 10 n) := by
    have hscale := divRound_mul_right (n * 10 ^ (5 - Nat.log 10 n)) 1 hden
    rw [one_mul, divRound_one] at hscale
    rw [← hscale, Nat.mul_right_comm]
  have hlt := (shifted_bounds hn hlog).2
  have hbranch : (Nat.log 10 n : ℤ) ≤ 5 := by omega
  simp only [sixDigits, if_pos hle, Nat.mul_div_cancel n hden, hshift, if_pos hbranch, hround,
    if_neg hlt.ne]

/-- The six digits of a longer integer: the rest is rounded away, and a carry out of the
first digit moves the exponent. -/
theorem sixDigits_of_gt {n den : ℕ} (hn : n ≠ 0) (hden : 0 < den) (hlog : 5 < Nat.log 10 n) :
    sixDigits (n * den) den = if divRound n (10 ^ (Nat.log 10 n - 5)) = 10 ^ 6 then
      ((Nat.log 10 n : ℤ) + 1, 10 ^ 5)
    else ((Nat.log 10 n : ℤ), divRound n (10 ^ (Nat.log 10 n - 5))) := by
  have hle : den ≤ n * den := Nat.le_mul_of_pos_left den (Nat.pos_of_ne_zero hn)
  have hshift : ((Nat.log 10 n : ℤ) - 5).toNat = Nat.log 10 n - 5 := by omega
  have hround : divRound (n * den) (den * 10 ^ (Nat.log 10 n - 5)) =
      divRound n (10 ^ (Nat.log 10 n - 5)) := by
    rw [Nat.mul_comm den]
    exact divRound_mul_right _ _ hden
  have hbranch : ¬(Nat.log 10 n : ℤ) ≤ 5 := by omega
  simp only [sixDigits, if_pos hle, Nat.mul_div_cancel n hden, hshift, if_neg hbranch, hround]

/-- Rounding a number of more than six digits leaves six, or a million. -/
theorem divRound_bounds {n : ℕ} (hn : n ≠ 0) (hlog : 5 < Nat.log 10 n) :
    10 ^ 5 ≤ divRound n (10 ^ (Nat.log 10 n - 5)) ∧
      divRound n (10 ^ (Nat.log 10 n - 5)) ≤ 10 ^ 6 := by
  have hpos : 0 < 10 ^ (Nat.log 10 n - 5) := Nat.pow_pos (by omega)
  have hlow : 10 ^ 5 ≤ n / 10 ^ (Nat.log 10 n - 5) := by
    rw [Nat.le_div_iff_mul_le hpos, ← Nat.pow_add]
    calc 10 ^ (5 + (Nat.log 10 n - 5)) = 10 ^ Nat.log 10 n := by
          congr 1
          omega
      _ ≤ n := Nat.pow_log_le_self 10 hn
  have hhigh : n / 10 ^ (Nat.log 10 n - 5) < 10 ^ 6 := by
    rw [Nat.div_lt_iff_lt_mul hpos, ← Nat.pow_add]
    calc n < 10 ^ (Nat.log 10 n + 1) := Nat.lt_pow_succ_log_self (by omega) n
      _ = 10 ^ (6 + (Nat.log 10 n - 5)) := by
          congr 1
          omega
  rcases divRound_eq n (10 ^ (Nat.log 10 n - 5)) with h | h
  · omega
  · omega

/-- **The six digits of an integer**: six of them, without a leading zero, and they stand
for the integer exactly if there were no others but zeros. -/
theorem sixDigits_spec {n den : ℕ} (hn : n ≠ 0) (hden : 0 < den) :
    ∃ (x : ℕ) (d : ℕ), sixDigits (n * den) den = ((x : ℤ), d) ∧ 10 ^ 5 ≤ d ∧ d < 10 ^ 6 ∧
      ((d : ℚ) * 10 ^ ((x : ℤ) - 5) = n ↔ 10 ^ (Nat.log 10 n - 5) ∣ n) := by
  rcases Nat.lt_or_ge 5 (Nat.log 10 n) with hlog | hlog
  · obtain ⟨hlow, hhigh⟩ := divRound_bounds hn hlog
    have hpos : 0 < 10 ^ (Nat.log 10 n - 5) := Nat.pow_pos (by omega)
    have hexact := divRound_mul_eq_iff (n := n) hpos
    have hpow : (10 : ℚ) ^ ((Nat.log 10 n : ℤ) - 5) = ((10 ^ (Nat.log 10 n - 5) : ℕ) : ℚ) := by
      have hcast : (Nat.log 10 n : ℤ) - 5 = ((Nat.log 10 n - 5 : ℕ) : ℤ) := by omega
      rw [hcast, zpow_natCast]
      push_cast
      rfl
    rw [sixDigits_of_gt hn hden hlog, ← hexact]
    by_cases hcarry : divRound n (10 ^ (Nat.log 10 n - 5)) = 10 ^ 6
    · refine ⟨Nat.log 10 n + 1, 10 ^ 5, ?_, le_rfl, by omega, ?_⟩
      · rw [if_pos hcarry]
        push_cast
        rfl
      · have hnext : (10 : ℚ) ^ (((Nat.log 10 n + 1 : ℕ) : ℤ) - 5) =
            10 ^ ((Nat.log 10 n : ℤ) - 5) * 10 := by
          rw [← zpow_add_one₀ (by norm_num)]
          congr 1
          push_cast
          ring
        rw [hnext, hpow, hcarry]
        have hsame : ((10 ^ 5 : ℕ) : ℚ) * (((10 ^ (Nat.log 10 n - 5) : ℕ) : ℚ) * 10) =
            ((10 ^ 6 * 10 ^ (Nat.log 10 n - 5) : ℕ) : ℚ) := by
          push_cast
          ring
        rw [hsame, Nat.cast_inj]
    · refine ⟨Nat.log 10 n, divRound n (10 ^ (Nat.log 10 n - 5)), if_neg hcarry, hlow, by omega,
        ?_⟩
      rw [hpow, ← Nat.cast_mul, Nat.cast_inj]
  · obtain ⟨hlow, hhigh⟩ := shifted_bounds hn hlog
    refine ⟨Nat.log 10 n, n * 10 ^ (5 - Nat.log 10 n), sixDigits_of_le hn hden hlog, hlow, hhigh,
      iff_of_true ?_ ?_⟩
    · have hcancel : (10 : ℚ) ^ (5 - Nat.log 10 n) * 10 ^ ((Nat.log 10 n : ℤ) - 5) = 1 := by
        have hcast : (Nat.log 10 n : ℤ) - 5 = -((5 - Nat.log 10 n : ℕ) : ℤ) := by omega
        rw [hcast, zpow_neg, zpow_natCast, mul_inv_cancel₀ (by positivity)]
      push_cast
      rw [mul_assoc, hcancel, mul_one]
    · rw [Nat.sub_eq_zero_of_le hlog, pow_zero]
      exact one_dvd n

/-! ### The text -/

theorem allDigits_padDigits (width n : ℕ) : AllDigits (padDigits width n) :=
  (allDigits_replicate_zero _).append (allDigits_ofNat n)

theorem padDigits_ne_nil (width n : ℕ) : padDigits width n ≠ [] := by
  intro hnil
  exact (isDigits_ofNat n).1 (List.append_eq_nil_iff.mp hnil).2

/-- Padding does not change the value. -/
theorem value_padDigits (width n : ℕ) : value (padDigits width n) = n := by
  rw [padDigits, value_append, value_replicate_zero, zero_mul, zero_add, value_ofNat]

theorem length_padDigits {width n : ℕ} (hwidth : 0 < width) (h : n < 10 ^ width) :
    (padDigits width n).length = width := by
  have hlog : Nat.log 10 n + 1 ≤ width := by
    rcases Nat.eq_zero_or_pos n with rfl | hn
    · rw [Nat.log_zero_right]
      exact hwidth
    · exact Nat.log_lt_of_lt_pow hn.ne' h
  rw [padDigits, List.length_append, List.length_replicate, length_ofNat]
  omega

/-- Only zeros are dropped. -/
theorem stripZeros_append (t : List UInt8) :
    ∃ k, t = stripZeros t ++ List.replicate k 0x30 := by
  have hzeros : ∀ b ∈ t.rtakeWhile (· == 0x30), b = 0x30 := by
    intro b hb
    have heq : (b == 0x30) = true := List.mem_rtakeWhile_imp (p := (· == 0x30)) hb
    exact beq_iff_eq.mp heq
  refine ⟨(t.rtakeWhile (· == 0x30)).length, ?_⟩
  rw [← List.eq_replicate_iff.mpr ⟨rfl, hzeros⟩]
  exact List.rdropWhile_append_rtakeWhile.symm

/-- **A fraction part** is the point and digits of the value there was, or nothing and the
value was zero. -/
theorem fractionPart_cases {t : List UInt8} (ht : AllDigits t) :
    fractionPart t = [] ∧ fractionValue t = 0 ∨
      ∃ s, fractionPart t = 0x2E :: s ∧ s ≠ [] ∧ AllDigits s ∧
        fractionValue s = fractionValue t := by
  obtain ⟨k, hk⟩ := stripZeros_append t
  have hvalue : fractionValue (stripZeros t) = fractionValue t := by
    conv_rhs => rw [hk, fractionValue_append_zeros]
  by_cases hnil : stripZeros t = []
  · refine Or.inl ⟨if_pos hnil, ?_⟩
    rw [← hvalue, hnil, fractionValue_nil]
  · refine Or.inr ⟨stripZeros t, if_neg hnil, hnil, ?_, hvalue⟩
    exact (AllDigits.of_append (hk ▸ ht)).1

theorem readFixed_fractionPart {s t : List UInt8} (hne : s ≠ []) (hs : AllDigits s)
    (ht : AllDigits t) : readFixed (s ++ fractionPart t) = some (value s + fractionValue t) := by
  rcases fractionPart_cases ht with ⟨hnil, hzero⟩ | ⟨r, heq, hr, hr', hvalue⟩
  · rw [hnil, hzero, List.append_nil, readFixed_of_allDigits hne hs, add_zero]
  · rw [heq, readFixed_fraction hne hr hs hr', hvalue]

theorem noExponent_fractionPart {t : List UInt8} (ht : AllDigits t) :
    NoExponent (fractionPart t) := by
  rcases fractionPart_cases ht with ⟨hnil, -⟩ | ⟨r, heq, -, hr, -⟩
  · rw [hnil]
    exact fun b hb => absurd hb List.not_mem_nil
  · rw [heq]
    exact List.forall_mem_cons.mpr ⟨by decide, hr.noExponent⟩

/-- Digits that are split at the point are those of the whole, moved down. -/
theorem readFixed_split {s t : List UInt8} (hne : s ≠ []) (h : AllDigits (s ++ t)) :
    readFixed (s ++ fractionPart t) = some ((value (s ++ t) : ℚ) / 10 ^ t.length) := by
  obtain ⟨hs, ht⟩ := AllDigits.of_append h
  rw [readFixed_fractionPart hne hs ht, value_add_fractionValue]

/-- The digits in front of the point. -/
theorem take_padDigits (width n k : ℕ) : (padDigits width n).take (k + 1) ≠ [] ∧
    AllDigits ((padDigits width n).take (k + 1)) := by
  constructor
  · intro hnil
    rcases List.take_eq_nil_iff.mp hnil with h | h
    · omega
    · exact padDigits_ne_nil width n h
  · exact fun b hb => allDigits_padDigits width n b (List.mem_of_mem_take hb)

/-- The digits behind it. -/
theorem drop_padDigits (width n k : ℕ) : AllDigits ((padDigits width n).drop k) :=
  fun b hb => allDigits_padDigits width n b (List.mem_of_mem_drop hb)

/-- Six digits with a point among them. -/
theorem readFixed_padDigits {d : ℕ} (hd : d < 10 ^ 6) (k : ℕ) :
    readFixed ((padDigits 6 d).take (k + 1) ++ fractionPart ((padDigits 6 d).drop (k + 1))) =
      some ((d : ℚ) * 10 ^ (-((5 - k : ℕ) : ℤ))) := by
  have hwhole := List.take_append_drop (k + 1) (padDigits 6 d)
  have hdigits : AllDigits ((padDigits 6 d).take (k + 1) ++ (padDigits 6 d).drop (k + 1)) := by
    rw [hwhole]
    exact allDigits_padDigits 6 d
  have hk : 6 - (k + 1) = 5 - k := by omega
  rw [readFixed_split (take_padDigits 6 d k).1 hdigits, hwhole, value_padDigits, List.length_drop,
    length_padDigits (by omega) hd, hk, zpow_neg, zpow_natCast, div_eq_mul_inv]

theorem noExponent_padDigits (d k : ℕ) : NoExponent
    ((padDigits 6 d).take (k + 1) ++ fractionPart ((padDigits 6 d).drop (k + 1))) :=
  (take_padDigits 6 d k).2.noExponent.append (noExponent_fractionPart (drop_padDigits 6 d _))

/-- Six digits behind the point, and behind `k` zeros. -/
theorem readFixed_zeros {d : ℕ} (hd : d < 10 ^ 6) (k : ℕ) :
    readFixed (ascii "0" ++ fractionPart (List.replicate k 0x30 ++ padDigits 6 d)) =
      some ((d : ℚ) * 10 ^ (-((k + 6 : ℕ) : ℤ))) := by
  have hdigits : AllDigits (ascii "0" ++ (List.replicate k 0x30 ++ padDigits 6 d)) :=
    (allDigits_replicate_zero 1).append
      ((allDigits_replicate_zero k).append (allDigits_padDigits 6 d))
  have hlead : value (ascii "0") = 0 := rfl
  have hvalue : value (ascii "0" ++ (List.replicate k 0x30 ++ padDigits 6 d)) = d := by
    rw [value_append, value_append, value_padDigits, value_replicate_zero, hlead, zero_mul,
      zero_mul, zero_add, zero_add]
  rw [readFixed_split (by decide) hdigits, hvalue, List.length_append, List.length_replicate,
    length_padDigits (by omega) hd, zpow_neg, zpow_natCast, div_eq_mul_inv]

/-- **An exponent**, behind its mark: a sign and digits, which are read as the integer. -/
theorem exponent_parts (x : ℤ) : ∃ s, (s = 0x2B ∨ s = 0x2D) ∧
    ascii (if 0 ≤ x then "e+" else "e-") ++ padDigits 2 x.natAbs =
      0x65 :: s :: padDigits 2 x.natAbs ∧
    readExponent (s :: padDigits 2 x.natAbs) = some x := by
  have hne := padDigits_ne_nil 2 x.natAbs
  have hdigits := allDigits_padDigits 2 x.natAbs
  by_cases hx : 0 ≤ x
  · refine ⟨0x2B, Or.inl rfl, by rw [if_pos hx]; rfl, ?_⟩
    rw [readExponent_plus hne hdigits, value_padDigits, Int.natAbs_of_nonneg hx]
  · have hneg : -(x.natAbs : ℤ) = x := by omega
    refine ⟨0x2D, Or.inr rfl, by rw [if_neg hx]; rfl, ?_⟩
    rw [readExponent_minus hne hdigits, value_padDigits, hneg]

/-- **The text of six digits** stands for them at their exponent, in whichever notation. -/
theorem readUnsigned_sixDigitsText (x : ℤ) {d : ℕ} (hd : d < 10 ^ 6) :
    readUnsigned (sixDigitsText x d) = some ((d : ℚ) * 10 ^ (x - 5)) := by
  by_cases hplain : 0 ≤ x ∧ x < 6
  · simp only [sixDigitsText, if_pos hplain]
    rw [readUnsigned_of_noExponent (noExponent_padDigits d _), readFixed_padDigits hd]
    congr 3
    omega
  by_cases hsmall : -4 ≤ x ∧ x < 0
  · simp only [sixDigitsText, if_neg hplain, if_pos hsmall]
    have hfrac := (allDigits_replicate_zero ((-x).toNat - 1)).append (allDigits_padDigits 6 d)
    have hzero : AllDigits (ascii "0") := allDigits_replicate_zero 1
    rw [readUnsigned_of_noExponent (hzero.noExponent.append (noExponent_fractionPart hfrac)),
      readFixed_zeros hd]
    congr 3
    omega
  · simp only [sixDigitsText, if_neg hplain, if_neg hsmall]
    obtain ⟨s, hs, htext, hread⟩ := exponent_parts x
    have hmark : NoExponent [s] := by
      rintro b hb
      obtain rfl := List.mem_singleton.mp hb
      rcases hs with rfl | rfl <;> rfl
    have hexp : NoExponent (s :: padDigits 2 x.natAbs) :=
      hmark.append (allDigits_padDigits 2 x.natAbs).noExponent
    rw [List.append_assoc _ (ascii _), htext, readUnsigned_exponent (noExponent_padDigits d 0) hexp
      (readFixed_padDigits hd 0) hread, mul_assoc, ← zpow_add₀ (by norm_num)]
    congr 3
    omega

/-- **The parts of the text**: digits, a fraction part, and an exponent or none. -/
theorem sixDigitsText_parts (x : ℤ) (d : ℕ) :
    ∃ int frac exp, sixDigitsText x d = int ++ fractionPart frac ++ exp ∧
      (int = [0x30] ∨ int ≠ [] ∧ AllDigits int ∧ int.head? = (padDigits 6 d).head?) ∧
      AllDigits frac ∧
      (exp = [] ∨ ∃ s ds, (s = 0x2B ∨ s = 0x2D) ∧ Json.Digits ds ∧ exp = 0x65 :: s :: ds) := by
  have hhead : ∀ k, ((padDigits 6 d).take (k + 1)).head? = (padDigits 6 d).head? := by
    intro k
    rw [List.head?_take, if_neg (by omega)]
  have hint : ∀ k, (padDigits 6 d).take (k + 1) = [0x30] ∨ (padDigits 6 d).take (k + 1) ≠ [] ∧
      AllDigits ((padDigits 6 d).take (k + 1)) ∧
      ((padDigits 6 d).take (k + 1)).head? = (padDigits 6 d).head? :=
    fun k => Or.inr ⟨(take_padDigits 6 d k).1, (take_padDigits 6 d k).2, hhead k⟩
  by_cases hplain : 0 ≤ x ∧ x < 6
  · simp only [sixDigitsText, if_pos hplain]
    exact ⟨_, _, [], (List.append_nil _).symm, hint _, drop_padDigits 6 d _, Or.inl rfl⟩
  by_cases hsmall : -4 ≤ x ∧ x < 0
  · simp only [sixDigitsText, if_neg hplain, if_pos hsmall]
    exact ⟨_, _, [], (List.append_nil _).symm, Or.inl rfl,
      (allDigits_replicate_zero _).append (allDigits_padDigits 6 d), Or.inl rfl⟩
  · simp only [sixDigitsText, if_neg hplain, if_neg hsmall]
    obtain ⟨s, hs, htext, -⟩ := exponent_parts x
    refine ⟨_, _, _, List.append_assoc _ _ _, hint 0, drop_padDigits 6 d 1, Or.inr ?_⟩
    exact ⟨s, _, hs, ⟨padDigits_ne_nil 2 _, allDigits_padDigits 2 _⟩, htext⟩

/-- Six digits need no padding, and the first of them is not `0`. -/
theorem head?_padDigits {d : ℕ} (hd : 10 ^ 5 ≤ d) : (padDigits 6 d).head? ≠ some 0x30 := by
  have hlog : 5 ≤ Nat.log 10 d := Nat.le_log_of_pow_le (by omega) hd
  have hlen : 6 - (ofNat d).length = 0 := by
    rw [length_ofNat]
    omega
  rw [padDigits, hlen, List.replicate_zero, List.nil_append]
  exact head?_ofNat (by omega)

/-- **The text is a number of JSON**, with a sign or without. -/
theorem number_sixDigitsText {sign : List UInt8} (hsign : sign = [] ∨ sign = [0x2D]) (x : ℤ)
    {d : ℕ} (hd : 10 ^ 5 ≤ d) : Json.Number (sign ++ sixDigitsText x d) := by
  obtain ⟨int, frac, exp, htext, hint, hfrac, hexp⟩ := sixDigitsText_parts x d
  refine ⟨sign, int, fractionPart frac, exp, ?_, hsign, ?_, ?_, ?_⟩
  · rw [htext]
    simp
  · rcases hint with hzero | ⟨hne, hdigits, hhead⟩
    · exact Or.inl hzero
    · exact Or.inr ⟨⟨hne, hdigits⟩, hhead ▸ head?_padDigits hd⟩
  · rcases fractionPart_cases hfrac with ⟨hnil, -⟩ | ⟨s, heq, hne, hs, -⟩
    · exact Or.inl hnil
    · exact Or.inr ⟨s, ⟨hne, hs⟩, heq⟩
  · rcases hexp with hnil | ⟨s, ds, hs, hds, rfl⟩
    · exact Or.inl hnil
    · refine Or.inr ⟨0x65, [s], ds, Or.inl rfl, Or.inr ?_, hds, rfl⟩
      rcases hs with rfl | rfl
      · exact Or.inl rfl
      · exact Or.inr rfl

/-- The text begins with a digit. -/
theorem sixDigitsText_cons (x : ℤ) (d : ℕ) :
    ∃ b t, sixDigitsText x d = b :: t ∧ 0x30 ≤ b := by
  obtain ⟨int, frac, exp, htext, hint, -, -⟩ := sixDigitsText_parts x d
  rcases hint with rfl | ⟨hne, hdigits, -⟩
  · exact ⟨0x30, _, htext, by decide⟩
  · obtain ⟨b, t, rfl⟩ := List.exists_cons_of_ne_nil hne
    exact ⟨b, _, htext, (hdigits b List.mem_cons_self).1⟩

/-! ### Doubles that are integers -/

theorem doubleFields_bounds (d : UInt64) :
    (doubleFields d).1 < 2 ∧ (doubleFields d).2.2 < 2 ^ 52 := by
  have hlt := d.toNat_lt
  simp only [doubleFields]
  omega

/-- The sign of a product aside, it is the absolute value. -/
theorem mul_eq_natAbs {s : ℕ} {a b : ℚ} {z : ℤ} (ha : 0 ≤ a) (hb : 0 ≤ b)
    (h : (-1) ^ s * a * b = z) : a * b = (z.natAbs : ℚ) := by
  have habs : |(-1 : ℚ) ^ s * a * b| = a * b := by
    rw [abs_mul, abs_mul, abs_pow, abs_neg, abs_one, one_pow, one_mul, abs_of_nonneg ha,
      abs_of_nonneg hb]
  rw [← habs, h, Nat.cast_natAbs, Int.cast_abs]

/-- A subnormal number is below one, so it is no integer but zero. -/
theorem subnormal_int {s f : ℕ} {z : ℤ} (hf : f < 2 ^ 52)
    (h : (-1 : ℚ) ^ s * f * 2 ^ (-1074 : ℤ) = z) : z = 0 ∧ f = 0 := by
  have hprod := mul_eq_natAbs (by positivity) (by positivity) h
  have hlt : (f : ℚ) * 2 ^ (-1074 : ℤ) < 1 := by
    calc (f : ℚ) * 2 ^ (-1074 : ℤ) < 2 ^ 52 * 2 ^ (-1074 : ℤ) := by
          have hcast : (f : ℚ) < 2 ^ 52 := by exact_mod_cast hf
          gcongr
      _ = 2 ^ (-1022 : ℤ) := by
          rw [← zpow_natCast, ← zpow_add₀ (by norm_num)]
          norm_num
      _ < 1 := zpow_lt_one_of_neg₀ (by norm_num) (by norm_num)
  rw [hprod] at hlt
  have hnat : z.natAbs = 0 := Nat.lt_one_iff.mp (by exact_mod_cast hlt)
  have hzero : (f : ℚ) = 0 := by
    rw [hnat, Nat.cast_zero] at hprod
    exact (mul_eq_zero_iff_right (by positivity)).mp hprod
  exact ⟨Int.natAbs_eq_zero.mp hnat, by exact_mod_cast hzero⟩

/-- Below `2 ^ 53` the significand of a normal number is not moved up. -/
theorem exponent_le {e f n : ℕ} (hn : (n : ℚ) < 2 ^ 53)
    (h : (2 ^ 52 + f : ℚ) * 2 ^ ((e : ℤ) - 1075) = n) : e ≤ 1075 := by
  by_contra hbig
  have htwo : (2 : ℚ) ^ (1 : ℤ) ≤ 2 ^ ((e : ℤ) - 1075) :=
    zpow_le_zpow_right₀ (by norm_num) (by omega)
  have hdouble : (2 : ℚ) ^ 53 = (2 : ℚ) ^ 52 * (2 : ℚ) ^ (1 : ℤ) := by norm_num
  have hle : (2 : ℚ) ^ 53 ≤ (2 ^ 52 + f) * 2 ^ ((e : ℤ) - 1075) := by
    rw [hdouble]
    gcongr
    exact le_add_of_nonneg_right (Nat.cast_nonneg f)
  exact absurd hn (not_lt.mpr (h ▸ hle))

/-- The significand is the integer, moved up to 53 bits. -/
theorem significand_eq {e f n : ℕ} (he : e ≤ 1075)
    (h : (2 ^ 52 + f : ℚ) * 2 ^ ((e : ℤ) - 1075) = n) : 2 ^ 52 + f = n * 2 ^ (1075 - e) := by
  have hback : (2 : ℚ) ^ ((e : ℤ) - 1075) * 2 ^ (1075 - e) = 1 := by
    have hcast : (e : ℤ) - 1075 = -((1075 - e : ℕ) : ℤ) := by omega
    rw [hcast, zpow_neg, zpow_natCast, inv_mul_cancel₀ (by positivity)]
  have hrat : (2 ^ 52 + f : ℚ) = n * 2 ^ (1075 - e) := by
    rw [← h, mul_assoc, hback, mul_one]
  exact_mod_cast hrat

/-- **The fields of an integer below `2 ^ 53`**: those of a zero, or a significand that is the
integer, moved up by the exponent. -/
theorem doubleFields_of_int {d : UInt64} {z : ℤ} (hd : doubleValue d = some (z : ℚ))
    (hz : |z| < 2 ^ 53) :
    ∃ s e f, doubleFields d = (s, e, f) ∧ s < 2 ∧
      (z = 0 ∧ e = 0 ∧ f = 0 ∨
        z ≠ 0 ∧ 0 < e ∧ e ≤ 1075 ∧ 2 ^ 52 + f = z.natAbs * 2 ^ (1075 - e) ∧
          (z : ℚ) = (-1) ^ s * z.natAbs) := by
  obtain ⟨hs, hf⟩ := doubleFields_bounds d
  rcases hfields : doubleFields d with ⟨s, e, f⟩
  rw [hfields] at hs hf
  refine ⟨s, e, f, rfl, hs, ?_⟩
  rw [doubleValue, hfields] at hd
  simp only at hd hf
  split_ifs at hd with hinf hsub
  · obtain ⟨hzero, hf0⟩ := subnormal_int hf (Option.some.inj hd)
    exact Or.inl ⟨hzero, hsub, hf0⟩
  · have hvalue := Option.some.inj hd
    have hprod := mul_eq_natAbs (by positivity) (by positivity) hvalue
    have hsmall : (z.natAbs : ℚ) < 2 ^ 53 := by
      have hcast : ((z.natAbs : ℕ) : ℤ) < 2 ^ 53 := by
        rw [Int.natCast_natAbs]
        exact hz
      exact_mod_cast hcast
    have he := exponent_le hsmall hprod
    have hsig := significand_eq he hprod
    refine Or.inr ⟨?_, Nat.pos_of_ne_zero hsub, he, hsig, ?_⟩
    · rintro rfl
      rw [Int.natAbs_zero, Nat.zero_mul] at hsig
      omega
    · rw [mul_assoc, hprod] at hvalue
      exact hvalue.symm

/-! ### `%g` of an integer -/

/-- The sign of a text, and of what it stands for. -/
theorem readRat_sign {s : ℕ} (hs : s < 2) {b : UInt8} (t : List UInt8) (hb : 0x30 ≤ b) :
    readRat ((if s = 1 then ascii "-" else []) ++ b :: t) =
      (readUnsigned (b :: t)).map fun q => (-1) ^ s * q := by
  obtain rfl | rfl : s = 0 ∨ s = 1 := by omega
  · rw [if_neg (by omega), List.nil_append, readRat_of_digit t hb]
    simp
  · rw [if_pos rfl]
    simp [ascii, readRat]

/-- **What `%g` prints for an integer** below `2 ^ 53` is a number of JSON, and it is exactly
the integer if and only if six digits hold it. -/
theorem ieeeFmtG_int {d : UInt64} {z : ℤ} (hd : doubleValue d = some (z : ℚ))
    (hz : |z| < 2 ^ 53) :
    Json.Number (ieeeFmtG d) ∧ (readRat (ieeeFmtG d) = some (z : ℚ) ↔ SixDigits z) := by
  obtain ⟨s, e, f, hfields, hs, h⟩ := doubleFields_of_int hd hz
  have hsign : (if s = 1 then ascii "-" else []) = [] ∨
      (if s = 1 then ascii "-" else []) = [0x2D] := by
    split
    · exact Or.inr rfl
    · exact Or.inl rfl
  rcases h with ⟨rfl, rfl, rfl⟩ | ⟨hz0, hpos, hle, hsig, hzs⟩
  · have htext : ieeeFmtG d = (if s = 1 then ascii "-" else []) ++ [0x30] := by
      simp [ieeeFmtG, hfields, ascii]
    rw [htext]
    refine ⟨⟨_, [0x30], [], [], by simp, hsign, Or.inl rfl, Or.inl rfl, Or.inl rfl⟩, ?_⟩
    have hzero : readUnsigned [0x30] = some (0 : ℚ) := by
      have hdigits : AllDigits [0x30] := allDigits_replicate_zero 1
      rw [readUnsigned_of_noExponent hdigits.noExponent,
        readFixed_of_allDigits (List.cons_ne_nil _ _) hdigits]
      rfl
    rw [readRat_sign hs [] (by decide), hzero, Option.map_some, mul_zero]
    exact iff_of_true rfl sixDigits_zero
  · have hden : 0 < 2 ^ (1075 - e) := Nat.pow_pos (by omega)
    obtain ⟨x, ds, hsix, hlow, hhigh, hexact⟩ := sixDigits_spec (Int.natAbs_ne_zero.mpr hz0) hden
    have htext : ieeeFmtG d = (if s = 1 then ascii "-" else []) ++ sixDigitsText x ds := by
      have hscale : (e : ℕ) - 1075 = 0 := by omega
      have hinf : e ≠ 2047 := by omega
      have hnz : e ≠ 0 := by omega
      simp only [ieeeFmtG, hfields, hinf, hnz, if_false, false_and, hscale, pow_zero, mul_one, hsig,
        hsix]
    rw [htext]
    refine ⟨number_sixDigitsText hsign x hlow, ?_⟩
    obtain ⟨b, t, hcons, hb⟩ := sixDigitsText_cons x ds
    rw [hcons, readRat_sign hs t hb, ← hcons, readUnsigned_sixDigitsText x hhigh, Option.map_some,
      sixDigits_iff z, ← hexact, hzs, Option.some_inj,
      mul_right_inj' (pow_ne_zero s (neg_ne_zero.mpr one_ne_zero))]

end WbLwm2m

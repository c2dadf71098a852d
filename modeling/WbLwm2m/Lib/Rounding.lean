import Mathlib.Algebra.Order.Field.Power
import Mathlib.Algebra.Order.Ring.Abs
import Mathlib.Data.Int.Log
import Mathlib.Tactic.Linarith
import Mathlib.Tactic.NormNum
import Mathlib.Tactic.Ring

/-!
# Rounding to significant digits

A number has `p` significant digits to the base `b` when it is an integer of absolute value
below `b ^ p`, moved by a power of the base (`Rounding.Significant`). The exponent is not
bounded, so that these numbers are as dense at every magnitude as the digits allow.

Printing a number rounds it to one of them. What can be said of the result is that it is
*nearest*, `Rounding.Nearest`: no other number with as many digits is closer. The notion is
one for any set of numbers, and a tie does not matter to it. Rounding is done on the scale
of the last digit, `b ^ (Int.log b x + 1 - p)`: an integer that is within one half of the
scaled number gives a nearest one (`Rounding.nearest_significant`), although numbers of a
smaller magnitude have digits behind that scale.

A binary format bounds the exponent from below, and writes the numbers it has with as many
digits as that allows (`Rounding.Normalized`). Then there is one way to write each of them,
`Rounding.Normalized.unique`.
-/

namespace Rounding

variable {K : Type*} [Field K]

/-- **`p` digits to the base `b`** hold the number. -/
def Significant (b p : ℕ) (y : K) : Prop := ∃ m k : ℤ, y = m * (b : K) ^ k ∧ |m| < b ^ p

theorem significant_zero {b p : ℕ} (hb : 0 < b) : Significant b p (0 : K) :=
  ⟨0, 0, by simp, by simpa using pow_pos (by exact_mod_cast hb : (0 : ℤ) < b) p⟩

theorem Significant.neg {b p : ℕ} {y : K} (h : Significant b p y) : Significant b p (-y) := by
  obtain ⟨m, k, rfl, hm⟩ := h
  exact ⟨-m, k, by push_cast; ring, by rwa [abs_neg]⟩

variable [LinearOrder K]

/-- **`y` is nearest to `x`** among the numbers of a set. -/
structure Nearest (S : K → Prop) (x y : K) : Prop where
  mem : S y
  le : ∀ z, S z → |y - x| ≤ |z - x|

/-- Rounding and the change of sign commute. -/
theorem Nearest.neg {S : K → Prop} (hS : ∀ z, S z → S (-z)) {x y : K} (h : Nearest S x y) :
    Nearest S (-x) (-y) := by
  refine ⟨hS y h.mem, fun z hz => ?_⟩
  have hle := h.le (-z) (hS z hz)
  rw [← abs_neg (-z - x)] at hle
  calc |-y - -x| = |y - x| := by rw [← abs_neg]; congr 1; ring
    _ ≤ |-(-z - x)| := hle
    _ = |z - -x| := by congr 1; ring

variable [IsStrictOrderedRing K]

variable {b p : ℕ}

/-- A carry out of the first digit leaves a number of one digit. -/
theorem significant_of_le (hb : 1 < b) (hp : 0 < p) {d : ℤ} (hd : |d| ≤ b ^ p) (k : ℤ) :
    Significant b p ((d : K) * (b : K) ^ k) := by
  have hb0 : (b : K) ≠ 0 := by positivity
  rcases hd.lt_or_eq with hlt | heq
  · exact ⟨d, k, rfl, hlt⟩
  · refine ⟨d.sign, k + p, ?_, ?_⟩
    · have hdp : d = d.sign * (b : ℤ) ^ p := by rw [← heq, Int.sign_mul_abs]
      rw [zpow_add₀ hb0, zpow_natCast, mul_left_comm, mul_comm]
      congr 1
      conv_lhs => rw [hdp]
      push_cast
      ring
    · calc |d.sign| ≤ 1 := by
            rcases lt_trichotomy d 0 with h | rfl | h
            · simp [Int.sign_eq_neg_one_of_neg h]
            · simp
            · simp [Int.sign_eq_one_of_pos h]
        _ < (b : ℤ) ^ p := one_lt_pow₀ (by exact_mod_cast hb) hp.ne'

/-- **Numbers of some magnitude are multiples of the last digit's place.** -/
theorem Significant.exists_mul {y : K} (h : Significant b p y) (hb : 1 < b) {l : ℤ}
    (hl : (b : K) ^ l ≤ |y|) : ∃ t : ℤ, y = t * (b : K) ^ (l + 1 - p) := by
  obtain ⟨m, k, rfl, hm⟩ := h
  have hb1 : (1 : K) < b := by exact_mod_cast hb
  have hpos : (0 : K) < b := by positivity
  have hb0 : (b : K) ≠ 0 := hpos.ne'
  have hlt : (b : K) ^ l < (b : K) ^ (p + k) := by
    have hm' : |(m : K)| < (b : K) ^ p := by exact_mod_cast hm
    calc (b : K) ^ l ≤ |(m : K) * (b : K) ^ k| := hl
      _ = |(m : K)| * (b : K) ^ k := by rw [abs_mul, abs_of_pos (zpow_pos hpos k)]
      _ < (b : K) ^ p * (b : K) ^ k := mul_lt_mul_of_pos_right hm' (by positivity)
      _ = (b : K) ^ (p + k) := by rw [zpow_add₀ hb0, zpow_natCast]
  have hk : l < p + k := (zpow_lt_zpow_iff_right₀ hb1).mp hlt
  obtain ⟨j, hj⟩ := Int.eq_ofNat_of_zero_le (by omega : 0 ≤ k - (l + 1 - p))
  refine ⟨m * (b : ℤ) ^ j, ?_⟩
  have hsplit : k = j + (l + 1 - p) := by omega
  conv_lhs => rw [hsplit, zpow_add₀ hb0, zpow_natCast]
  push_cast
  ring

/-- An integer within one half is a nearest one. -/
theorem abs_sub_le_of_half {d : ℤ} {x : K} (h : |d - x| ≤ 1 / 2) (t : ℤ) :
    |d - x| ≤ |t - x| := by
  rcases eq_or_ne t d with rfl | hne
  · exact le_rfl
  · have hone : (1 : K) ≤ |(t : K) - d| := by
      have hint : 1 ≤ |t - d| := Int.one_le_abs (sub_ne_zero.mpr hne)
      exact_mod_cast hint
    have htri := abs_sub_le (t : K) x d
    rw [abs_sub_comm x d] at htri
    linarith

/-- The error in a number is the error on a scale. -/
theorem abs_mul_sub_eq {x c : K} (hc : 0 < c) (t : K) : |t * c - x| = |t - x / c| * c := by
  have hsub : t * c - x = (t - x / c) * c := by
    rw [sub_mul, div_mul_cancel₀ _ hc.ne']
  rw [hsub, abs_mul, abs_of_pos hc]

variable [FloorSemiring K]

/-- The place of the last of `p` digits of a number. -/
def lastPlace (b p : ℕ) (x : K) : ℤ := Int.log b x + 1 - p

/-- **Rounding on the scale of the last place** gives a nearest number, and it is off by
half a unit of that place at most. -/
theorem nearest_significant (hb : 1 < b) (hp : 0 < p) {x : K} (hx : 0 < x) {d : ℤ}
    (hd : |d - x / (b : K) ^ lastPlace b p x| ≤ 1 / 2) :
    Nearest (Significant b p) x (d * (b : K) ^ lastPlace b p x) ∧
      |d * (b : K) ^ lastPlace b p x - x| ≤ (b : K) ^ lastPlace b p x / 2 := by
  have hb0 : (b : K) ≠ 0 := by positivity
  have hc : (0 : K) < (b : K) ^ lastPlace b p x := by positivity
  have hlow : (b : K) ^ Int.log b x ≤ x := Int.zpow_log_le_self hb hx
  -- the smallest number of this magnitude is a multiple of the last place as well
  have hfirst : (b : K) ^ Int.log b x =
      ((b ^ (p - 1) : ℕ) : ℤ) * (b : K) ^ lastPlace b p x := by
    have hsplit : Int.log b x = ((p - 1 : ℕ) : ℤ) + lastPlace b p x := by
      rw [lastPlace]
      omega
    conv_lhs => rw [hsplit, zpow_add₀ hb0, zpow_natCast]
    push_cast
    rfl
  have hlattice : ∀ t : ℤ, |d * (b : K) ^ lastPlace b p x - x| ≤
      |t * (b : K) ^ lastPlace b p x - x| := by
    intro t
    rw [abs_mul_sub_eq hc, abs_mul_sub_eq hc]
    exact mul_le_mul_of_nonneg_right (abs_sub_le_of_half hd t) hc.le
  refine ⟨⟨significant_of_le hb hp ?_ _, fun z hz => ?_⟩, ?_⟩
  · -- the scaled number is below `b ^ p`, so that its rounding does not exceed it
    have hscaled : x / (b : K) ^ lastPlace b p x < (b : K) ^ p := by
      rw [div_lt_iff₀ hc, ← zpow_natCast, ← zpow_add₀ hb0]
      have hexp : (p : ℤ) + lastPlace b p x = Int.log b x + 1 := by
        rw [lastPlace]
        omega
      rw [hexp]
      exact Int.lt_zpow_succ_log_self hb x
    have hpos : 0 < x / (b : K) ^ lastPlace b p x := div_pos hx hc
    obtain ⟨hlo, hhi⟩ := abs_le.mp hd
    have hup : (d : K) < ((b ^ p + 1 : ℤ) : K) := by
      push_cast
      linarith
    have hdown : ((-1 : ℤ) : K) < d := by
      push_cast
      linarith
    have hup' : d < (b : ℤ) ^ p + 1 := Int.cast_lt.mp hup
    have hdown' : -1 < d := Int.cast_lt.mp hdown
    rw [abs_of_nonneg (by omega)]
    omega
  · rcases le_or_gt ((b : K) ^ Int.log b x) |z| with hle | hlt
    · obtain ⟨t, rfl⟩ := hz.exists_mul hb hle
      exact hlattice t
    · calc |d * (b : K) ^ lastPlace b p x - x| ≤ |(b : K) ^ Int.log b x - x| := by
            rw [hfirst]
            exact hlattice _
        _ = x - (b : K) ^ Int.log b x := by
            rw [abs_sub_comm, abs_of_nonneg (sub_nonneg.mpr hlow)]
        _ ≤ x - z := sub_le_sub_left ((le_abs_self z).trans hlt.le) x
        _ ≤ |z - x| := by
            rw [abs_sub_comm]
            exact le_abs_self _
  · rw [abs_mul_sub_eq hc]
    calc |d - x / (b : K) ^ lastPlace b p x| * (b : K) ^ lastPlace b p x
        ≤ 1 / 2 * (b : K) ^ lastPlace b p x := mul_le_mul_of_nonneg_right hd hc.le
      _ = (b : K) ^ lastPlace b p x / 2 := by ring

/-! ### Normalized significands -/

/-- **A significand of `p` digits, and an exponent**: either the first digit is not zero, or the
exponent is the least there is. -/
structure Normalized (b p m k : ℕ) : Prop where
  lt : m < b ^ p
  le_or : b ^ (p - 1) ≤ m ∨ k = 0

/-- With a larger exponent there are more digits. -/
theorem Normalized.exponent_le {m k m' k' : ℕ} (hb : 1 < b) (hp : 0 < p)
    (h : Normalized b p m k) (h' : Normalized b p m' k') (heq : m * b ^ k = m' * b ^ k') :
    k' ≤ k := by
  by_contra hlt
  obtain ⟨j, rfl⟩ := Nat.exists_eq_add_of_lt (not_le.mp hlt)
  have hm' : b ^ (p - 1) ≤ m' := h'.le_or.resolve_right (by omega)
  have hm : m = m' * b ^ (j + 1) := by
    have hpos : 0 < b ^ k := Nat.pow_pos (by omega)
    refine Nat.eq_of_mul_eq_mul_right hpos ?_
    rw [heq, Nat.mul_assoc, ← Nat.pow_add]
    congr 2
    omega
  have hge : b ^ p ≤ m := by
    calc b ^ p = b ^ (p - 1) * b := by
          rw [← Nat.pow_succ]
          congr 1
          omega
      _ ≤ m' * b ^ (j + 1) :=
          Nat.mul_le_mul hm' (Nat.le_self_pow (by omega) b)
      _ = m := hm.symm
  exact absurd h.lt (not_lt.mpr hge)

/-- **A number is normalized in one way.** -/
theorem Normalized.unique {m k m' k' : ℕ} (hb : 1 < b) (hp : 0 < p) (h : Normalized b p m k)
    (h' : Normalized b p m' k') (heq : m * b ^ k = m' * b ^ k') : m = m' ∧ k = k' := by
  obtain rfl : k = k' :=
    le_antisymm (h'.exponent_le hb hp h heq.symm) (h.exponent_le hb hp h' heq)
  exact ⟨Nat.eq_of_mul_eq_mul_right (Nat.pow_pos (by omega)) heq, rfl⟩

end Rounding

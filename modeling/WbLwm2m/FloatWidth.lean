import WbLwm2m.FloatAccuracy
import WbLwm2m.TlvCanonical

/-!
# How wide a floating-point record is

The TLV encoder spends four bytes on a `double` that survives the way to a `float` and back,
and eight on every other one. This module says which survive: exactly those whose number is the
number of a `float` (`WbLwm2m.ieeeWiden_ieeeNarrow_iff`). So the field is as short as any field
a decoder reads as the same number, `WbLwm2m.tlv_float_shortest`. The two infinities are the
exception, which the encoder excludes from the short form itself.

Widening is exact and narrowing undoes it; both are computed on the fields of the bit patterns,
and a number other than zero determines its fields, since significands are normalized
(`Rounding.Normalized.unique`).
-/

namespace WbLwm2m

open Memory Rounding

/-! ### Fields -/

/-- The fields of a `float`: sign bit, biased exponent and fraction. -/
def floatFields (u : UInt32) : ℕ × ℕ × ℕ :=
  (u.toNat / 2 ^ 31, u.toNat / 2 ^ 23 % 2 ^ 8, u.toNat % 2 ^ 23)

/-- The number a `float` stands for, if it is finite. -/
def floatValue (u : UInt32) : Option ℚ :=
  let (s, e, f) := floatFields u
  if e = 255 then none
  else if e = 0 then some ((-1) ^ s * f * 2 ^ (-149 : ℤ))
  else some ((-1) ^ s * (2 ^ 23 + f) * 2 ^ ((e : ℤ) - 150))

theorem doubleFields_ofNat {s e f : ℕ} (hs : s < 2) (he : e < 2 ^ 11) (hf : f < 2 ^ 52) :
    doubleFields (UInt64.ofNat (s * 2 ^ 63 + e * 2 ^ 52 + f)) = (s, e, f) := by
  have htoNat : (UInt64.ofNat (s * 2 ^ 63 + e * 2 ^ 52 + f)).toNat =
      s * 2 ^ 63 + e * 2 ^ 52 + f := UInt64.toNat_ofNat_of_lt' (by
    show _ < 2 ^ 64
    omega)
  rw [doubleFields, htoNat]
  refine Prod.ext ?_ (Prod.ext ?_ ?_)
  · show (s * 2 ^ 63 + e * 2 ^ 52 + f) / 2 ^ 63 = s
    omega
  · show (s * 2 ^ 63 + e * 2 ^ 52 + f) / 2 ^ 52 % 2 ^ 11 = e
    omega
  · show (s * 2 ^ 63 + e * 2 ^ 52 + f) % 2 ^ 52 = f
    omega

/-- A `double` is its fields. -/
theorem ofNat_doubleFields {d : UInt64} {s e f : ℕ} (h : doubleFields d = (s, e, f)) :
    d = UInt64.ofNat (s * 2 ^ 63 + e * 2 ^ 52 + f) ∧ s < 2 ∧ e < 2 ^ 11 ∧ f < 2 ^ 52 := by
  have hlt := d.toNat_lt
  obtain ⟨rfl, hef⟩ := Prod.mk.inj h
  obtain ⟨rfl, rfl⟩ := Prod.mk.inj hef
  refine ⟨?_, by omega, by omega, by omega⟩
  have hsplit : d.toNat / 2 ^ 63 * 2 ^ 63 + d.toNat / 2 ^ 52 % 2 ^ 11 * 2 ^ 52 +
      d.toNat % 2 ^ 52 = d.toNat := by omega
  rw [hsplit, UInt64.ofNat_toNat]

/-- A `float` is its fields. -/
theorem ofNat_floatFields {u : UInt32} {s e f : ℕ} (h : floatFields u = (s, e, f)) :
    u = UInt32.ofNat (s * 2 ^ 31 + e * 2 ^ 23 + f) ∧ s < 2 ∧ e < 2 ^ 8 ∧ f < 2 ^ 23 := by
  have hlt := u.toNat_lt
  obtain ⟨rfl, hef⟩ := Prod.mk.inj h
  obtain ⟨rfl, rfl⟩ := Prod.mk.inj hef
  refine ⟨?_, by omega, by omega, by omega⟩
  have hsplit : u.toNat / 2 ^ 31 * 2 ^ 31 + u.toNat / 2 ^ 23 % 2 ^ 8 * 2 ^ 23 +
      u.toNat % 2 ^ 23 = u.toNat := by omega
  rw [hsplit, UInt32.ofNat_toNat]

/-! ### Widening -/

/-- **The fields of a widened number.** A subnormal `float` becomes a normal `double`: its first
digit is no longer written. -/
theorem doubleFields_ieeeWiden {u : UInt32} {s e f : ℕ} (h : floatFields u = (s, e, f)) :
    (e = 255 → f = 0 → doubleFields (ieeeWiden u) = (s, 2047, 0)) ∧
    (e = 255 → f ≠ 0 → ∃ g, g ≠ 0 ∧ doubleFields (ieeeWiden u) = (s, 2047, g)) ∧
    (e = 0 → f = 0 → doubleFields (ieeeWiden u) = (s, 0, 0)) ∧
    (e = 0 → f ≠ 0 → doubleFields (ieeeWiden u) =
      (s, Nat.log 2 f + 874, (f - 2 ^ Nat.log 2 f) * 2 ^ (52 - Nat.log 2 f))) ∧
    (e ≠ 0 → e ≠ 255 → doubleFields (ieeeWiden u) = (s, e + 896, f * 2 ^ 29)) := by
  obtain ⟨-, hs, he, hf⟩ := ofNat_floatFields h
  obtain ⟨hs', hef⟩ := Prod.mk.inj h
  obtain ⟨he', hf'⟩ := Prod.mk.inj hef
  simp only [ieeeWiden, hs', he', hf']
  refine ⟨?_, ?_, ?_, ?_, ?_⟩
  · rintro rfl rfl
    rw [if_pos rfl, if_pos rfl]
    exact doubleFields_ofNat (e := 2047) (f := 0) hs (by omega) (by omega)
  · rintro rfl hf0
    rw [if_pos rfl, if_neg hf0]
    exact ⟨_, by omega, doubleFields_ofNat (e := 2047) hs (by omega) (by omega)⟩
  · rintro rfl rfl
    rw [if_neg (by omega), if_pos rfl, if_pos rfl]
    have hzero := doubleFields_ofNat (e := 0) (f := 0) hs (by omega) (by omega)
    rwa [Nat.zero_mul, Nat.add_zero] at hzero
  · rintro rfl hf0
    rw [if_neg (by omega), if_pos rfl, if_neg hf0]
    have hlow := Nat.pow_log_le_self 2 hf0
    have hhigh := Nat.lt_pow_succ_log_self (by omega : 1 < 2) f
    have hlog : Nat.log 2 f < 23 := Nat.log_lt_of_lt_pow hf0 hf
    refine doubleFields_ofNat hs (by omega) ?_
    calc (f - 2 ^ Nat.log 2 f) * 2 ^ (52 - Nat.log 2 f)
        < 2 ^ Nat.log 2 f * 2 ^ (52 - Nat.log 2 f) := by
          refine Nat.mul_lt_mul_of_pos_right ?_ (Nat.two_pow_pos _)
          rw [Nat.pow_succ] at hhigh
          omega
      _ = 2 ^ 52 := by
          rw [← Nat.pow_add]
          congr 1
          omega
  · intro he0 he255
    rw [if_neg he255, if_neg he0]
    exact doubleFields_ofNat hs (by omega) (by omega)

/-- The significand of a widened subnormal number is the number, moved up to 53 bits. -/
theorem two_pow_add_sub_mul {f k : ℕ} (hlow : 2 ^ k ≤ f) (hk : k ≤ 52) :
    2 ^ 52 + (f - 2 ^ k) * 2 ^ (52 - k) = f * 2 ^ (52 - k) := by
  have hone : 2 ^ 52 = 2 ^ k * 2 ^ (52 - k) := by
    rw [← Nat.pow_add]
    congr 1
    omega
  rw [hone, ← Nat.add_mul]
  congr 1
  omega

/-- **Widening is exact.** -/
theorem doubleValue_ieeeWiden (u : UInt32) : doubleValue (ieeeWiden u) = floatValue u := by
  rcases h : floatFields u with ⟨s, e, f⟩
  obtain ⟨-, -, he, hf⟩ := ofNat_floatFields h
  obtain ⟨hinf, hnan, hzero, hsub, hnormal⟩ := doubleFields_ieeeWiden h
  rw [floatValue, h, doubleValue]
  simp only
  by_cases he255 : e = 255
  · rw [if_pos he255]
    by_cases hf0 : f = 0
    · rw [hinf he255 hf0]
      rfl
    · obtain ⟨g, -, hg⟩ := hnan he255 hf0
      rw [hg]
      rfl
  rw [if_neg he255]
  by_cases he0 : e = 0
  · rw [if_pos he0]
    by_cases hf0 : f = 0
    · rw [hzero he0 hf0, hf0]
      simp
    · have hlow := Nat.pow_log_le_self 2 hf0
      have hlog : Nat.log 2 f < 23 := Nat.log_lt_of_lt_pow hf0 hf
      rw [hsub he0 hf0]
      simp only
      rw [if_neg (by omega), if_neg (by omega)]
      have hsig : (2 ^ 52 + ((f - 2 ^ Nat.log 2 f) * 2 ^ (52 - Nat.log 2 f) : ℕ) : ℚ) =
          f * 2 ^ (52 - Nat.log 2 f) := by
        have hnat := two_pow_add_sub_mul hlow (by omega)
        exact_mod_cast hnat
      have hexp : (-149 : ℤ) = ((52 - Nat.log 2 f : ℕ) : ℤ) +
          (((Nat.log 2 f + 874 : ℕ) : ℤ) - 1075) := by omega
      rw [hsig, hexp, zpow_add₀ (by norm_num), zpow_natCast]
      ring_nf
  · rw [if_neg he0, hnormal he0 he255]
    simp only
    rw [if_neg (by omega), if_neg (by omega)]
    have hexp : (e : ℤ) - 150 = ((29 : ℕ) : ℤ) + (((e + 896 : ℕ) : ℤ) - 1075) := by
      push_cast
      ring
    rw [hexp, zpow_add₀ (by norm_num), zpow_natCast]
    push_cast
    ring_nf

/-! ### Narrowing what has been widened -/

theorem shiftRound_mul (n k : ℕ) : shiftRound (n * 2 ^ k) k = n := by
  have hpos : 0 < 2 ^ k := Nat.two_pow_pos k
  simp only [shiftRound, Nat.mul_div_cancel n hpos, Nat.mul_mod_left]
  rw [if_neg (by omega)]

/-- **Narrowing undoes widening**, except for a NaN. -/
theorem ieeeNarrow_ieeeWiden {u : UInt32} {s e f : ℕ} (h : floatFields u = (s, e, f))
    (hnan : e = 255 → f = 0) : ieeeNarrow (ieeeWiden u) = u := by
  obtain ⟨hu, hs, he, hf⟩ := ofNat_floatFields h
  obtain ⟨hinf, -, hzero, hsub, hnormal⟩ := doubleFields_ieeeWiden h
  rw [ieeeNarrow]
  by_cases he255 : e = 255
  · obtain rfl := hnan he255
    rw [hinf he255 rfl, hu, he255]
    rfl
  by_cases he0 : e = 0
  · by_cases hf0 : f = 0
    · rw [hzero he0 hf0, hu, he0, hf0]
      simp
    · have hlow := Nat.pow_log_le_self 2 hf0
      have hlog : Nat.log 2 f < 23 := Nat.log_lt_of_lt_pow hf0 hf
      have hshift : 926 - (Nat.log 2 f + 874) = 52 - Nat.log 2 f := by omega
      rw [hsub he0 hf0]
      simp only
      rw [if_neg (by omega), if_neg (by omega), if_pos (by omega), hshift,
        two_pow_add_sub_mul hlow (by omega), shiftRound_mul, hu, he0]
      simp
  · have hsig : 2 ^ 52 + f * 2 ^ 29 = (2 ^ 23 + f) * 2 ^ 29 := by
      rw [Nat.add_mul, ← Nat.pow_add]
    rw [hnormal he0 he255]
    simp only
    rw [if_neg (by omega), if_neg (by omega), if_neg (by omega), if_pos (by omega), hsig,
      shiftRound_mul, hu]
    have hsum : s * 2 ^ 31 + (e + 896 - 897) * 2 ^ 23 + (2 ^ 23 + f) =
        s * 2 ^ 31 + e * 2 ^ 23 + f := by omega
    rw [hsum]

/-! ### The fields of a number -/

/-- The significand of the fields, and its exponent on the scale of the least positive
`double`. -/
def significand (e f : ℕ) : ℕ × ℕ := if e = 0 then (f, 0) else (2 ^ 52 + f, e - 1)

theorem doubleValue_eq {d : UInt64} {s e f : ℕ} (h : doubleFields d = (s, e, f))
    (he : e ≠ 2047) : doubleValue d = some ((-1) ^ s *
      ((((significand e f).1 * 2 ^ (significand e f).2 : ℕ) : ℚ) * 2 ^ (-1074 : ℤ))) := by
  rw [doubleValue, h]
  simp only
  rw [if_neg he]
  by_cases he0 : e = 0
  · rw [if_pos he0, significand, if_pos he0, pow_zero, mul_one, mul_assoc]
  · have hexp : (e : ℤ) - 1075 = ((e - 1 : ℕ) : ℤ) + -1074 := by omega
    have hlead : ((2 ^ 52 : ℕ) : ℚ) = 2 ^ 52 := by norm_num
    have hpow : ((2 ^ (e - 1) : ℕ) : ℚ) = 2 ^ (e - 1) := Nat.cast_pow 2 (e - 1)
    rw [if_neg he0, significand, if_neg he0, hexp, zpow_add₀ (by norm_num), zpow_natCast,
      Nat.cast_mul, Nat.cast_add, hlead, hpow, mul_assoc, mul_assoc]

theorem normalized_significand {e f : ℕ} (hf : f < 2 ^ 52) :
    Normalized 2 53 (significand e f).1 (significand e f).2 := by
  rw [significand]
  split
  · exact ⟨by show f < 2 ^ 53; omega, Or.inr rfl⟩
  · exact ⟨by show 2 ^ 52 + f < 2 ^ 53; omega, Or.inl (Nat.le_add_right _ _)⟩

/-- Different fields have different significands, or different exponents. -/
theorem significand_inj {e f e' f' : ℕ} (hf : f < 2 ^ 52) (hf' : f' < 2 ^ 52)
    (h : (significand e f).1 = (significand e' f').1)
    (h' : (significand e f).2 = (significand e' f').2) : e = e' ∧ f = f' := by
  by_cases he : e = 0
  · by_cases he' : e' = 0
    · simp only [significand, if_pos he, if_pos he'] at h
      exact ⟨he.trans he'.symm, h⟩
    · simp only [significand, if_pos he, if_neg he'] at h
      omega
  · by_cases he' : e' = 0
    · simp only [significand, if_neg he, if_pos he'] at h
      omega
    · simp only [significand, if_neg he, if_neg he'] at h h'
      omega

theorem exponent_ne_of_finite {d : UInt64} {s e f : ℕ} {v : ℚ} (h : doubleFields d = (s, e, f))
    (hd : doubleValue d = some v) : e ≠ 2047 := by
  rintro rfl
  rw [doubleValue, h] at hd
  cases hd

/-- **A number other than zero has one `double`.** -/
theorem eq_of_doubleValue_eq {d d' : UInt64} {v : ℚ} (hd : doubleValue d = some v)
    (hd' : doubleValue d' = some v) (hv : v ≠ 0) : d = d' := by
  rcases h : doubleFields d with ⟨s, e, f⟩
  rcases h' : doubleFields d' with ⟨s', e', f'⟩
  obtain ⟨heq, hs, he, hf⟩ := ofNat_doubleFields h
  obtain ⟨heq', hs', he', hf'⟩ := ofNat_doubleFields h'
  rw [doubleValue_eq h (exponent_ne_of_finite h hd)] at hd
  rw [doubleValue_eq h' (exponent_ne_of_finite h' hd')] at hd'
  obtain rfl := Option.some.inj hd
  have hsame := Option.some.inj hd'
  -- the absolute values agree, so the significands do
  have habs : ∀ s (x : ℚ), |(-1 : ℚ) ^ s * x| = |x| := by
    intro s x
    rw [abs_mul, abs_pow, abs_neg, abs_one, one_pow, one_mul]
  have hscale : (0 : ℚ) < 2 ^ (-1074 : ℤ) := by positivity
  have hmag := congrArg abs hsame
  rw [habs, habs, abs_of_nonneg (by positivity), abs_of_nonneg (by positivity)] at hmag
  have hnat := Nat.cast_injective (mul_right_cancel₀ hscale.ne' hmag)
  obtain ⟨hm, hk⟩ := (normalized_significand hf').unique (by omega) (by omega)
    (normalized_significand hf) hnat
  obtain ⟨rfl, rfl⟩ := significand_inj hf' hf hm hk
  -- and then so do the signs
  have hsign := mul_right_cancel₀ (right_ne_zero_of_mul hv) hsame
  obtain rfl : s' = s := by
    obtain rfl | rfl : s = 0 ∨ s = 1 := by omega
    · obtain rfl | rfl : s' = 0 ∨ s' = 1 := by omega
      · rfl
      · norm_num at hsign
    · obtain rfl | rfl : s' = 0 ∨ s' = 1 := by omega
      · norm_num at hsign
      · rfl
  rw [heq, heq']

/-! ### The numbers that survive -/

theorem doubleIsNan_iff {d : UInt64} {s e f : ℕ} (h : doubleFields d = (s, e, f)) :
    doubleIsNan d = true ↔ e = 2047 ∧ f ≠ 0 := by
  obtain ⟨rfl, hef⟩ := Prod.mk.inj h
  obtain ⟨rfl, rfl⟩ := Prod.mk.inj hef
  have hmask : (d &&& 0x7FFFFFFFFFFFFFFF).toNat = d.toNat % 2 ^ 63 := by
    rw [UInt64.toNat_and, ← Nat.and_two_pow_sub_one_eq_mod]
    rfl
  have hinf : (0x7FF0000000000000 : UInt64).toNat = 2047 * 2 ^ 52 := rfl
  rw [doubleIsNan, decide_eq_true_iff, UInt64.lt_iff_toNat_lt, hmask, hinf]
  have hlt := d.toNat_lt
  omega

theorem isinf_iff {u : UInt32} {s e f : ℕ} (h : floatFields u = (s, e, f)) :
    isinf u = true ↔ e = 255 ∧ f = 0 := by
  obtain ⟨rfl, hef⟩ := Prod.mk.inj h
  obtain ⟨rfl, rfl⟩ := Prod.mk.inj hef
  have hmask : (u &&& 0x7FFFFFFF).toNat = u.toNat % 2 ^ 31 := by
    rw [UInt32.toNat_and, ← Nat.and_two_pow_sub_one_eq_mod]
    rfl
  have hinf : (0x7F800000 : UInt32).toNat = 255 * 2 ^ 23 := rfl
  rw [isinf, beq_iff_eq, ← UInt32.toNat_inj, hmask, hinf]
  have hlt := u.toNat_lt
  omega

/-- **The number of a `float`**: the `double` stands for it as well. -/
def SinglePrecision (d : UInt64) : Prop :=
  ∃ u v, floatValue u = some v ∧ doubleValue d = some v

theorem floatValue_eq_none {u : UInt32} {s e f : ℕ} (h : floatFields u = (s, e, f)) :
    floatValue u = none ↔ e = 255 := by
  rw [floatValue, h]
  simp only
  by_cases he : e = 255
  · rw [if_pos he]
    exact iff_of_true rfl he
  · rw [if_neg he]
    refine iff_of_false ?_ he
    split
    · exact Option.some_ne_none _
    · exact Option.some_ne_none _

/-- The two zeros. -/
theorem doubleFields_of_zero {d : UInt64} (hd : doubleValue d = some 0) :
    d = 0 ∨ d = 0x8000000000000000 := by
  rcases h : doubleFields d with ⟨s, e, f⟩
  obtain ⟨heq, hs, -, hf⟩ := ofNat_doubleFields h
  rw [doubleValue_eq h (exponent_ne_of_finite h hd)] at hd
  have hzero := Option.some.inj hd
  have hscale : (2 : ℚ) ^ (-1074 : ℤ) ≠ 0 := by positivity
  have hone : (-1 : ℚ) ^ s ≠ 0 := pow_ne_zero s (by norm_num)
  have hnat := Nat.cast_eq_zero.mp
    ((mul_eq_zero_iff_right hscale).mp ((mul_eq_zero_iff_left hone).mp hzero))
  have hm : (significand e f).1 = 0 :=
    (Nat.mul_eq_zero.mp hnat).resolve_right (Nat.two_pow_pos _).ne'
  obtain ⟨rfl, rfl⟩ : e = 0 ∧ f = 0 := by
    rw [significand] at hm
    split at hm
    · next he => exact ⟨he, hm⟩
    · have hpos : 0 < 2 ^ 52 + f := by omega
      exact absurd hm hpos.ne'
  obtain rfl | rfl : s = 0 ∨ s = 1 := by omega
  · exact Or.inl heq
  · exact Or.inr heq

/-- **Which numbers survive** the way to a `float` and back: those of a `float`. -/
theorem ieeeWiden_ieeeNarrow_iff (d : UInt64) :
    (doubleEq (ieee754.widen (ieee754.narrow d)) d && !isinf (ieee754.narrow d)) = true ↔
      SinglePrecision d := by
  show (doubleEq (ieeeWiden (ieeeNarrow d)) d && !isinf (ieeeNarrow d)) = true ↔
    SinglePrecision d
  constructor
  · intro h
    obtain ⟨heq, hinf⟩ := (Bool.and_eq_true _ _).mp h
    have hwiden := ieeeWiden_ieeeNarrow d heq
    have hnan : doubleIsNan d = false := by
      rw [doubleEq, Bool.and_eq_true, Bool.and_eq_true, Bool.not_eq_true', Bool.not_eq_true'] at heq
      exact heq.1.2
    rcases hfields : floatFields (ieeeNarrow d) with ⟨s, e, f⟩
    have hfin : e ≠ 255 := by
      rintro rfl
      by_cases hf : f = 0
      · rw [(isinf_iff hfields).mpr ⟨rfl, hf⟩] at hinf
        cases hinf
      · obtain ⟨g, hg, hd⟩ := (doubleFields_ieeeWiden hfields).2.1 rfl hf
        rw [hwiden] at hd
        rw [(doubleIsNan_iff hd).mpr ⟨rfl, hg⟩] at hnan
        cases hnan
    obtain ⟨v, hv⟩ := Option.ne_none_iff_exists'.mp
      (mt (floatValue_eq_none hfields).mp hfin)
    exact ⟨ieeeNarrow d, v, hv, by rw [← hwiden, doubleValue_ieeeWiden, hv]⟩
  · rintro ⟨u, v, hu, hd⟩
    by_cases hv : v = 0
    · subst hv
      obtain rfl | rfl := doubleFields_of_zero hd <;> rfl
    · -- the `double` is the widened `float`, and narrowing gives the latter back
      have hwiden : ieeeWiden u = d :=
        eq_of_doubleValue_eq ((doubleValue_ieeeWiden u).trans hu) hd hv
      rcases hfields : floatFields u with ⟨s, e, f⟩
      have hfin : e ≠ 255 := by
        intro he
        rw [(floatValue_eq_none hfields).mpr he] at hu
        cases hu
      have hnarrow := ieeeNarrow_ieeeWiden hfields fun he => absurd he hfin
      rw [hwiden] at hnarrow
      rcases hdfields : doubleFields d with ⟨s', e', f'⟩
      have hnan : doubleIsNan d = false := by
        rw [Bool.eq_false_iff, Ne, doubleIsNan_iff hdfields]
        exact fun h => exponent_ne_of_finite hdfields hd h.1
      have hinf : isinf u = false := by
        rw [Bool.eq_false_iff, Ne, isinf_iff hfields]
        exact fun h => hfin h.1
      rw [hnarrow, hwiden, hinf, doubleEq, hnan]
      simp

/-! ### The field -/

/-- **The width of the field**: four bytes for the numbers of a `float`, eight for all others. -/
theorem length_tlvValueBytes_float {d : UInt64} {bs : List UInt8}
    (h : tlvValueBytes ieee754 (.float d) = some bs) :
    SinglePrecision d ∧ bs.length = 4 ∨ ¬SinglePrecision d ∧ bs.length = 8 := by
  have hiff := ieeeWiden_ieeeNarrow_iff d
  rw [tlvValueBytes] at h
  by_cases hsingle : SinglePrecision d
  · refine Or.inl ⟨hsingle, ?_⟩
    rw [if_pos (hiff.mpr hsingle)] at h
    rw [← Option.some.inj h]
    rfl
  · refine Or.inr ⟨hsingle, ?_⟩
    rw [if_neg (mt hiff.mp hsingle)] at h
    rw [← Option.some.inj h, length_writeUintBe]

/-- A `double` always has a field. -/
theorem exists_tlvValueBytes_float (d : UInt64) :
    ∃ bs, tlvValueBytes ieee754 (.float d) = some bs := by
  rw [tlvValueBytes]
  split
  · exact ⟨_, rfl⟩
  · exact ⟨_, rfl⟩

/-- **What a field decodes to**: the widened `float` of four bytes, or any `double` of eight. -/
theorem tlvDecodeValue_float {m : Mem} {a len : ℕ} {d : UInt64}
    (h : tlvDecodeValue ieee754 .float m a len = .ok (.float d)) :
    (len = 4 ∧ ∃ u, d = ieeeWiden u) ∨ len = 8 := by
  rw [tlvDecodeValue] at h
  split_ifs at h with h4 h8
  · exact Or.inl ⟨h4, _, (Value.float.inj (Except.ok.inj h)).symm⟩
  · exact Or.inr h8

/-- Four bytes hold whatever `float` there is. -/
theorem exists_tlvDecodeValue_float (u : UInt32) :
    tlvDecodeValue ieee754 .float (store (fun _ => 0) 0 (BigEndian.ofNat u.toNat 4)) 0 4 =
      .ok (.float (ieeeWiden u)) := by
  have hload : load (store (fun _ => 0) 0 (BigEndian.ofNat u.toNat 4)) 0 4 =
      BigEndian.ofNat u.toNat 4 := by
    have hstored := load_store (fun _ => 0) 0 (BigEndian.ofNat u.toNat 4)
    rwa [BigEndian.length_ofNat] at hstored
  rw [tlvDecodeValue, if_pos rfl, hload, toUInt32_readUintBe_floatBytes]
  rfl

/-- **The encoder picks the shortest field of a number**, and says it exactly: the field of a
`double` is read back as that `double`, and it has four bytes if and only if some field of
four bytes is read as the same number. Otherwise, and for an infinity and a NaN, it has
eight. -/
theorem tlv_float_shortest (d : UInt64) :
    ∃ bs, tlvValueBytes ieee754 (.float d) = some bs ∧
      (∀ m a, load m a bs.length = bs →
        tlvDecodeValue ieee754 .float m a bs.length = .ok (.float d)) ∧
      (bs.length = 4 ∨ bs.length = 8) ∧
      (bs.length = 4 ↔ ∃ v, doubleValue d = some v ∧ ∃ m a d',
        tlvDecodeValue ieee754 .float m a 4 = .ok (.float d') ∧ doubleValue d' = some v) := by
  obtain ⟨bs, hbs⟩ := exists_tlvValueBytes_float d
  have hlen := length_tlvValueBytes_float hbs
  refine ⟨bs, hbs, fun m a hm => tlvDecodeValue_valueBytes hbs hm,
    hlen.imp And.right And.right, ?_⟩
  constructor
  · intro h4
    obtain ⟨⟨u, v, hu, hv⟩, -⟩ := hlen.resolve_right (by omega)
    exact ⟨v, hv, _, _, _, exists_tlvDecodeValue_float u, (doubleValue_ieeeWiden u).trans hu⟩
  · rintro ⟨v, hv, m, a, d', hdec, hd'⟩
    obtain ⟨-, u, rfl⟩ := (tlvDecodeValue_float hdec).resolve_right (by decide)
    have hsingle : SinglePrecision d := ⟨u, v, (doubleValue_ieeeWiden u).symm.trans hd', hv⟩
    exact (hlen.resolve_right fun h => h.1 hsingle).2

/-! ### Encoding again -/

/-- A value that has been decoded is encoded into no more bytes, **unless an infinity or a NaN
has been decoded from four**. -/
theorem length_tlvValueBytes_decoded {m : Mem} {a len : ℕ} {d : UInt64} {bs : List UInt8}
    (hdec : tlvDecodeValue ieee754 .float m a len = .ok (.float d))
    (hbs : tlvValueBytes ieee754 (.float d) = some bs) :
    (len = 8 ∨ doubleValue d ≠ none) ∧ bs.length ≤ len ∨
      len = 4 ∧ doubleValue d = none ∧ bs.length = 8 := by
  have hlen := length_tlvValueBytes_float hbs
  obtain ⟨rfl, u, rfl⟩ | rfl := tlvDecodeValue_float hdec
  · rcases hd : floatValue u with _ | v
    · have hnone := (doubleValue_ieeeWiden u).trans hd
      refine Or.inr ⟨rfl, hnone, (hlen.resolve_left fun h => ?_).2⟩
      obtain ⟨⟨_, v, -, hv⟩, -⟩ := h
      cases hnone.symm.trans hv
    · have hv := (doubleValue_ieeeWiden u).trans hd
      refine Or.inl ⟨Or.inr (by rw [hv]; exact Option.some_ne_none v), ?_⟩
      exact (hlen.resolve_right fun h => h.1 ⟨u, v, hd, hv⟩).2.le
  · exact Or.inl ⟨Or.inl rfl, by omega⟩

/-- A record of four bytes, however wide its header, has no room for eight. -/
theorem size_lt_tlvRecordSize {m : Mem} {buf : ℕ} (h : (tlvHeaderAt m buf).valueLen = 4)
    (id : UInt16) : (tlvHeaderAt m buf).size < tlvRecordSize id 8 := by
  have hoff : (tlvHeaderAt m buf).valueOffset = 1 + idLenOf (m buf) + lenTypeOf (m buf) := rfl
  have hid := idLenOf_cases (m buf)
  have hlen := lenTypeOf_lt (m buf)
  have hfield : tlvLenFieldSize 8 = 1 := rfl
  rw [TlvHeader.size, h, hoff, tlvRecordSize, hfield]
  split <;> omega

/-- **Encoding a number again normalises it.** What the decoders accept whole, with a number, is
encoded into the same room if and only if it is not an infinity or a NaN in four bytes. If it
is, the encoder fails there. Otherwise what it writes is decoded to the same `double`, and if
this is finite, no record with this identifier and this number is shorter. -/
theorem tlv_float_reencode {m : Mem} {buf n : ℕ} {out h : TlvHeader} {d : UInt64}
    (hdec : tlvDecodeHeader m buf n out = (h, some n))
    (hval : tlvDecodeValue ieee754 .float m (buf + h.valueOffset) h.valueLen = .ok (.float d))
    (m₁ : Mem) (dst : ℕ) :
    ((∃ m₂ k, tlvEncodeResource ieee754 h.id (.float d) m₁ dst n = (m₂, some k)) ↔
      h.valueLen = 8 ∨ doubleValue d ≠ none) ∧
    ∀ m₂ k, tlvEncodeResource ieee754 h.id (.float d) m₁ dst n = (m₂, some k) → k ≤ n ∧
      (∀ m₃ src out₃, load m₃ src k = load m₂ dst k →
        ∃ h₃, tlvDecodeHeader m₃ src k out₃ = (h₃, some k) ∧ h₃.id = h.id ∧
          tlvDecodeValue ieee754 .float m₃ (src + h₃.valueOffset) h₃.valueLen =
            .ok (.float d)) ∧
      ∀ v, doubleValue d = some v → ∀ m' src n' out' h' d',
        tlvDecodeHeader m' src n' out' = (h', some n') → h'.id = h.id →
        tlvDecodeValue ieee754 .float m' (src + h'.valueOffset) h'.valueLen = .ok (.float d') →
        doubleValue d' = some v → k ≤ n' := by
  obtain ⟨bs, hbs⟩ := exists_tlvValueBytes_float d
  have hlong := length_tlvValueBytes_le hbs
  obtain ⟨r, hr, hrec⟩ : ∃ r, TlvRecord.ofValue ieee754 h.id (.float d) = some r ∧
      r.bytes.length = tlvRecordSize h.id bs.length :=
    ⟨⟨.resource, h.id, bs, by omega⟩, TlvRecord.ofValue_eq_some.mpr ⟨rfl, rfl, hbs⟩,
      TlvRecord.length_bytes_eq _⟩
  have henc := @tlvEncodeResource_eq ieee754 h.id (.float d) m₁ dst n
  rw [hr] at henc
  simp only at henc
  obtain ⟨rfl, hn, -⟩ := tlvDecodeHeader_eq_some.mp hdec
  -- the record fits exactly if the field has not grown
  have hfit : r.bytes.length ≤ n ↔ (tlvHeaderAt m buf).valueLen = 8 ∨ doubleValue d ≠ none := by
    rw [hrec, hn]
    rcases length_tlvValueBytes_decoded hval hbs with ⟨hgood, hle⟩ | ⟨h4, hnone, h8⟩
    · exact iff_of_true ((tlvRecordSize_mono _ hle).trans (tlvRecordSize_le_size m buf)) hgood
    · refine iff_of_false (not_le.mpr ?_) ?_
      · rw [h8]
        exact size_lt_tlvRecordSize h4 _
      · rintro (hlen | hfin)
        · omega
        · exact hfin hnone
  constructor
  · rw [← hfit, henc]
    constructor
    · rintro ⟨m₂, k, heq⟩
      by_contra hlt
      rw [if_pos (not_le.mp hlt)] at heq
      cases (Prod.mk.inj heq).2
    · intro hle
      exact ⟨_, _, if_neg (not_lt.mpr hle)⟩
  · intro m₂ k heq
    rw [henc] at heq
    by_cases hlt : n < r.bytes.length
    · rw [if_pos hlt] at heq
      cases (Prod.mk.inj heq).2
    rw [if_neg hlt] at heq
    obtain ⟨rfl, hk⟩ := Prod.mk.inj heq
    obtain rfl := Option.some.inj hk
    refine ⟨not_lt.mp hlt, fun m₃ src out₃ hm => ?_, ?_⟩
    · rw [load_store] at hm
      obtain ⟨h₃, hdec₃, -, hid₃, hval₃⟩ := tlvDecode_ofValue hr out₃ hm le_rfl
      exact ⟨h₃, hdec₃, hid₃, hval₃⟩
    · rintro v hv m' src n' out' h' d' hdec' hid' hval' hd'
      obtain ⟨rfl, rfl, -⟩ := tlvDecodeHeader_eq_some.mp hdec'
      have hle : bs.length ≤ (tlvHeaderAt m' src).valueLen := by
        rcases tlvDecodeValue_float hval' with ⟨h4, u, rfl⟩ | h8
        · have hsingle : SinglePrecision d :=
            ⟨u, v, (doubleValue_ieeeWiden u).symm.trans hd', hv⟩
          rcases length_tlvValueBytes_float hbs with ⟨-, hlen⟩ | ⟨hno, -⟩
          · omega
          · exact absurd hsingle hno
        · rcases length_tlvValueBytes_float hbs with ⟨-, hlen⟩ | ⟨-, hlen⟩ <;> omega
      calc r.bytes.length = tlvRecordSize (tlvHeaderAt m' src).id bs.length := by rw [hrec, hid']
        _ ≤ tlvRecordSize (tlvHeaderAt m' src).id (tlvHeaderAt m' src).valueLen :=
            tlvRecordSize_mono _ hle
        _ ≤ (tlvHeaderAt m' src).size := tlvRecordSize_le_size m' src

/-- 23.5 in eight bytes, behind a wide header: of these twelve bytes six are left. -/
theorem tlv_float_reencode_wide : ∃ m₂ k,
    tlvEncodeResource ieee754 5 (.float 0x4037800000000000) (fun _ => 0) 0 12 = (m₂, some k) ∧
      k ≤ 6 := by
  have hdec : tlvDecodeHeader (store (fun _ => 0) 0
      [0xE8, 0, 5, 8, 0x40, 0x37, 0x80, 0, 0, 0, 0, 0]) 0 12 ⟨.resource, 0, 0, 0⟩ =
      (⟨.resource, 5, 4, 8⟩, some 12) := rfl
  have hval : tlvDecodeValue ieee754 .float (store (fun _ => 0) 0
      [0xE8, 0, 5, 8, 0x40, 0x37, 0x80, 0, 0, 0, 0, 0]) 4 8 =
      .ok (.float 0x4037800000000000) := rfl
  have hvalue : doubleValue 0x4037800000000000 = some (47 / 2) := by decide +kernel
  have hre := tlv_float_reencode hdec hval (fun _ => 0) 0
  obtain ⟨m₂, k, henc⟩ := hre.1.mpr (Or.inl rfl)
  exact ⟨m₂, k, henc, (hre.2 m₂ k henc).2.2 _ hvalue
    (store (fun _ => 0) 0 [0xC4, 5, 0x41, 0xBC, 0, 0]) 0 6 ⟨.resource, 0, 0, 0⟩
    ⟨.resource, 5, 2, 4⟩ 0x4037800000000000 rfl rfl rfl hvalue⟩

end WbLwm2m

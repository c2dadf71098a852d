import Mathlib.Data.Nat.Digits.Lemmas

/-!
# Decimal numbers, as text

The text of a number in decimal, as the bytes of its ASCII digits
(`Decimal.ofNat`), with a sign in front of a negative one (`Decimal.ofInt`). It is
what `printf` prints under `%u` and `%d`, for any width of the integer.

Such a text is read back exactly, without a bound (`Decimal.read_ofNat`,
`Decimal.readInt_ofInt`).
-/

namespace Decimal

/-- The decimal text of a natural number. -/
def ofNat (n : ℕ) : List UInt8 :=
  if n = 0 then [0x30] else (Nat.digits 10 n).reverse.map fun d => 0x30 + UInt8.ofNat d

/-- The decimal text of an integer. -/
def ofInt (z : ℤ) : List UInt8 := if z < 0 then 0x2D :: ofNat z.natAbs else ofNat z.natAbs

/-- The number of digits. -/
theorem length_ofNat (n : ℕ) : (ofNat n).length = Nat.log 10 n + 1 := by
  rw [ofNat]
  split
  · next hn =>
    rw [hn, Nat.log_zero_right]
    rfl
  · next hn => rw [List.length_map, List.length_reverse, Nat.length_digits 10 n (by omega) hn]

/-- **Only digits**: every byte of a decimal text lies between `0` and `9`. -/
theorem mem_ofNat {n : ℕ} {b : UInt8} (h : b ∈ ofNat n) : 0x30 ≤ b ∧ b ≤ 0x39 := by
  unfold ofNat at h
  split at h
  · obtain rfl := List.mem_singleton.mp h
    decide
  · obtain ⟨d, hd, rfl⟩ := List.mem_map.mp h
    have hlt : d < 10 := Nat.digits_lt_base (by omega) (List.mem_reverse.mp hd)
    obtain ⟨i, rfl⟩ : ∃ i : Fin 10, d = i := ⟨⟨d, hlt⟩, rfl⟩
    clear hd hlt h
    revert i
    decide

/-- Another byte than a digit is not in a decimal text. -/
theorem not_mem_ofNat {b : UInt8} (hb : b < 0x30 ∨ 0x39 < b) (n : ℕ) : b ∉ ofNat n := by
  intro hmem
  obtain ⟨hlo, hhi⟩ := mem_ofNat hmem
  rcases hb with hb | hb
  · exact absurd hlo (UInt8.not_le.mpr hb)
  · exact absurd hhi (UInt8.not_le.mpr hb)

/-- A number but zero starts with another digit than `0`. -/
theorem head?_ofNat {n : ℕ} (hn : n ≠ 0) : (ofNat n).head? ≠ some 0x30 := by
  have hne : Nat.digits 10 n ≠ [] := Nat.digits_ne_nil_iff_ne_zero.mpr hn
  have hpos : 0 < (Nat.digits 10 n).getLast hne :=
    Nat.pos_of_ne_zero (Nat.getLast_digit_ne_zero 10 hn)
  have hlt : (Nat.digits 10 n).getLast hne < 10 :=
    Nat.digits_lt_base (by omega) (List.getLast_mem hne)
  rw [ofNat, if_neg hn, List.head?_map, List.head?_reverse, List.getLast?_eq_some_getLast hne,
    Option.map_some, ne_eq, Option.some.injEq]
  generalize (Nat.digits 10 n).getLast hne = d at hpos hlt
  interval_cases d <;> decide

/-! ### Reading -/

/-- The digits, and at least one. -/
def IsDigits (t : List UInt8) : Prop := t ≠ [] ∧ ∀ b ∈ t, 0x30 ≤ b ∧ b ≤ 0x39

instance : DecidablePred IsDigits := fun t =>
  have : Decidable (∀ b ∈ t, 0x30 ≤ b ∧ b ≤ 0x39) := List.decidableBAll _ t
  inferInstanceAs (Decidable (t ≠ [] ∧ ∀ b ∈ t, 0x30 ≤ b ∧ b ≤ 0x39))

/-- The number some digits stand for. -/
def value (t : List UInt8) : ℕ := t.foldl (fun n b => b.toNat - 0x30 + 10 * n) 0

/-- Read a natural number. -/
def read (t : List UInt8) : Option ℕ := if IsDigits t then some (value t) else none

/-- Read an integer. -/
def readInt : List UInt8 → Option ℤ
  | 0x2D :: t => (read t).map fun n : ℕ => -(n : ℤ)
  | t => (read t).map fun n : ℕ => (n : ℤ)

theorem isDigits_ofNat (n : ℕ) : IsDigits (ofNat n) := by
  refine ⟨fun hnil => ?_, fun b hb => mem_ofNat hb⟩
  have hlen := length_ofNat n
  rw [hnil, List.length_nil] at hlen
  omega

theorem value_ofNat (n : ℕ) : value (ofNat n) = n := by
  rw [value, ofNat]
  split
  · next hn => rw [hn]; rfl
  · rw [List.foldl_map, List.foldl_reverse]
    have hdigit : ∀ d ∈ Nat.digits 10 n, (0x30 + UInt8.ofNat d).toNat - 0x30 = d := by
      intro d hd
      have hlt : d < 10 := Nat.digits_lt_base (by omega) hd
      rw [UInt8.toNat_add, UInt8.toNat_ofNat', show (0x30 : UInt8).toNat = 48 from rfl]
      omega
    calc (Nat.digits 10 n).foldr (fun d m => (0x30 + UInt8.ofNat d).toNat - 0x30 + 10 * m) 0
        = (Nat.digits 10 n).foldr (fun d m => d + 10 * m) 0 :=
          List.foldr_ext _ _ _ fun d hd m => by rw [hdigit d hd]
      _ = Nat.ofDigits 10 (Nat.digits 10 n) := (Nat.ofDigits_eq_foldr 10 _).symm
      _ = n := Nat.ofDigits_digits 10 n

/-- **A number is read back** from its text. -/
theorem read_ofNat (n : ℕ) : read (ofNat n) = some n := by
  rw [read, if_pos (isDigits_ofNat n), value_ofNat]

theorem readInt_of_isDigits {t : List UInt8} (h : IsDigits t) :
    readInt t = (read t).map fun n : ℕ => (n : ℤ) := by
  obtain ⟨b, t, rfl⟩ := List.exists_cons_of_ne_nil h.1
  have hb := (h.2 b List.mem_cons_self).1
  rw [readInt]
  rintro t' heq
  obtain ⟨rfl, -⟩ := List.cons.inj heq
  exact absurd hb (by decide)

/-- **An integer is read back** from its text. -/
theorem readInt_ofInt (z : ℤ) : readInt (ofInt z) = some z := by
  rw [ofInt]
  split
  · rw [readInt, read_ofNat, Option.map_some]
    congr 1
    omega
  · rw [readInt_of_isDigits (isDigits_ofNat _), read_ofNat, Option.map_some]
    congr 1
    omega

end Decimal

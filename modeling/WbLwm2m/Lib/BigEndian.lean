import Mathlib.Data.Int.ModEq
import Mathlib.Data.Nat.Basic
import Mathlib.Tactic.Ring
import Mathlib.Tactic.Linarith
import Mathlib.Tactic.Positivity

/-!
# Numbers as big-endian bytes

A byte list read as a number, most significant byte first, in the two readings a
binary format needs: the unsigned one (`BigEndian.toNat`) and the two's complement
one (`BigEndian.toInt`), where the first byte carries the sign. In the other
direction `BigEndian.ofNat n k` is the last `k` bytes of `n`.

Writing and reading back is reduction modulo `256 ^ k` (`BigEndian.toNat_ofNat`).
The signed reading is the only number in its range that agrees with the unsigned
one modulo `256 ^ k` (`BigEndian.toInt_eq_of_modEq`), so a number that fits comes
back as it was (`BigEndian.toInt_ofNat`).
-/

namespace BigEndian

/-- The unsigned reading of a byte list. -/
def toNat : List UInt8 → ℕ
  | [] => 0
  | b :: bs => b.toNat * 256 ^ bs.length + toNat bs

/-- The two's complement reading of a byte list: the first byte is signed. -/
def toInt : List UInt8 → ℤ
  | [] => 0
  | b :: bs => b.toInt8.toInt * 256 ^ bs.length + toNat bs

/-- The last `k` bytes of `n`. -/
def ofNat (n : ℕ) : ℕ → List UInt8
  | 0 => []
  | k + 1 => ofNat (n / 256) k ++ [UInt8.ofNat n]

@[simp] theorem toNat_nil : toNat [] = 0 := rfl

@[simp] theorem toNat_singleton (b : UInt8) : toNat [b] = b.toNat := by
  simp [toNat]

@[simp] theorem length_ofNat (n k : ℕ) : (ofNat n k).length = k := by
  induction k generalizing n with
  | zero => rfl
  | succ k ih => rw [ofNat, List.length_append, ih, List.length_singleton]

theorem toNat_append (bs cs : List UInt8) :
    toNat (bs ++ cs) = toNat bs * 256 ^ cs.length + toNat cs := by
  induction bs with
  | nil => simp
  | cons b bs ih =>
    rw [List.cons_append, toNat, ih, toNat, List.length_append, pow_add]
    ring

/-- A byte list of length `n` reads below `256 ^ n`. -/
theorem toNat_lt (bs : List UInt8) : toNat bs < 256 ^ bs.length := by
  induction bs with
  | nil => simp
  | cons b bs ih =>
    have hb : b.toNat + 1 ≤ 256 := b.toNat_lt
    calc toNat (b :: bs) < b.toNat * 256 ^ bs.length + 256 ^ bs.length := by
          rw [toNat]
          omega
      _ = (b.toNat + 1) * 256 ^ bs.length := by ring
      _ ≤ 256 * 256 ^ bs.length := Nat.mul_le_mul_right _ hb
      _ = 256 ^ (b :: bs).length := by rw [List.length_cons, pow_succ, mul_comm]

/-- **Writing and reading back** keeps the last `k` bytes. -/
theorem toNat_ofNat (n k : ℕ) : toNat (ofNat n k) = n % 256 ^ k := by
  induction k generalizing n with
  | zero => rw [ofNat, toNat_nil, pow_zero, Nat.mod_one]
  | succ k ih =>
    rw [ofNat, toNat_append, ih, List.length_singleton, pow_one, toNat_singleton, pow_succ,
      mul_comm (256 ^ k), Nat.mod_mul, UInt8.toNat_ofNat']
    ring

/-! ### The signed reading -/

/-- The sign of a byte: its two readings differ by `256` from `128` on. -/
theorem toInt_toInt8 (b : UInt8) :
    b.toInt8.toInt = if b.toNat < 128 then (b.toNat : ℤ) else b.toNat - 256 := by
  change b.toBitVec.toInt = _
  rw [BitVec.toInt_eq_toNat_cond, UInt8.toNat_toBitVec]
  refine if_congr ?_ rfl rfl
  omega

/-- The two readings agree modulo `256 ^ n`. -/
theorem toInt_modEq (bs : List UInt8) : toInt bs ≡ toNat bs [ZMOD 256 ^ bs.length] := by
  cases bs with
  | nil => rfl
  | cons b bs =>
    rw [toInt, toInt_toInt8]
    split
    · rw [toNat]
      push_cast
      rfl
    · refine Int.modEq_iff_dvd.mpr ⟨1, ?_⟩
      rw [toNat, List.length_cons, pow_succ]
      push_cast
      ring

/-- The signed reading of a nonempty list lies in its two's complement range. -/
theorem toInt_bounds {bs : List UInt8} (h : bs ≠ []) :
    -256 ^ bs.length ≤ 2 * toInt bs ∧ 2 * toInt bs < 256 ^ bs.length := by
  obtain ⟨b, cs, rfl⟩ := List.exists_cons_of_ne_nil h
  have hb := b.toNat_lt
  have hcs : (toNat cs : ℤ) < 256 ^ cs.length := by exact_mod_cast toNat_lt cs
  have hsgn : -128 ≤ b.toInt8.toInt ∧ b.toInt8.toInt ≤ 127 := by
    rw [toInt_toInt8]
    split <;> omega
  rw [toInt, List.length_cons, pow_succ]
  constructor
  · nlinarith [hsgn.1]
  · nlinarith [hsgn.2]

/-- **The signed reading is determined** by the residue and the range. -/
theorem toInt_eq_of_modEq {bs : List UInt8} (h : bs ≠ []) {v : ℤ}
    (hv : v ≡ toNat bs [ZMOD 256 ^ bs.length]) (hlo : -256 ^ bs.length ≤ 2 * v)
    (hhi : 2 * v < 256 ^ bs.length) : toInt bs = v := by
  obtain ⟨hlo', hhi'⟩ := toInt_bounds h
  obtain ⟨k, hk⟩ := ((toInt_modEq bs).trans hv.symm).dvd
  have hpos : (0 : ℤ) < 256 ^ bs.length := by positivity
  have hk0 : k = 0 := by
    have h1 : -1 < k := by nlinarith
    have h2 : k < 1 := by nlinarith
    omega
  rw [hk0, mul_zero] at hk
  omega

/-- A number that fits in `k` bytes of two's complement is read back. -/
theorem toInt_ofNat {n k : ℕ} (hk : 0 < k) {v : ℤ} (hv : v ≡ n [ZMOD 256 ^ k])
    (hlo : -256 ^ k ≤ 2 * v) (hhi : 2 * v < 256 ^ k) : toInt (ofNat n k) = v := by
  have hne : ofNat n k ≠ [] := by
    intro hc
    have := congrArg List.length hc
    rw [length_ofNat, List.length_nil] at this
    omega
  refine toInt_eq_of_modEq hne ?_ ?_ ?_
  · rw [length_ofNat, toNat_ofNat]
    push_cast
    exact hv.trans (Int.mod_modEq _ _).symm
  · rwa [length_ofNat]
  · rwa [length_ofNat]

end BigEndian

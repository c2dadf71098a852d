import Mathlib.Data.List.Basic

/-!
# Hexadecimal texts

Two digits for every byte, the high half first. Writing uses the small letters
(`Hex.encode`), reading takes the capital ones too (`Hex.decode`): what is read is what is
written, up to capitals (`Hex.decode_eq_some_iff`).
-/

namespace Hex

/-! ### Digits -/

/-- The character of a digit. -/
def char (d : ℕ) : UInt8 := UInt8.ofNat (if d < 10 then 0x30 + d else 0x57 + d)

/-- The digit a character stands for. -/
def value (c : UInt8) : Option ℕ :=
  if 0x30 ≤ c ∧ c ≤ 0x39 then some (c.toNat - 0x30)
  else if 0x61 ≤ c ∧ c ≤ 0x66 then some (c.toNat - 0x57)
  else if 0x41 ≤ c ∧ c ≤ 0x46 then some (c.toNat - 0x37)
  else none

/-- A digit in small letters; any other character as it is. -/
def lower (c : UInt8) : UInt8 := if 0x41 ≤ c ∧ c ≤ 0x46 then c + 0x20 else c

theorem value_char {d : ℕ} (h : d < 16) : value (char d) = some d := by
  have key : ∀ d : Fin 16, value (char d) = some d.val := by decide
  exact key ⟨d, h⟩

theorem lt_of_value {c : UInt8} {d : ℕ} (h : value c = some d) : d < 16 := by
  have key : ∀ c : Fin 256, ∀ d ∈ value (UInt8.ofNat c), d < 16 := by
    decide +kernel
  have hlt := key ⟨c.toNat, c.toNat_lt⟩
  rw [UInt8.ofNat_toNat] at hlt
  exact hlt d h

/-- The digit does not depend on the capitals. -/
theorem value_eq_some_iff {c : UInt8} {d : ℕ} (hd : d < 16) :
    value c = some d ↔ lower c = char d := by
  have key : ∀ c : Fin 256, ∀ d : Fin 16,
      value (UInt8.ofNat c) = some d.val ↔ lower (UInt8.ofNat c) = char d := by decide +kernel
  have h := key ⟨c.toNat, c.toNat_lt⟩ ⟨d, hd⟩
  rwa [UInt8.ofNat_toNat] at h

/-! ### Texts -/

/-- **Write** bytes, in small letters. -/
def encode : List UInt8 → List UInt8
  | [] => []
  | b :: bs => char (b.toNat / 16) :: char (b.toNat % 16) :: encode bs

/-- **Read** bytes. -/
def decode : List UInt8 → Option (List UInt8)
  | [] => some []
  | [_] => none
  | hi :: lo :: t => match value hi, value lo with
    | some x, some y => (decode t).map (UInt8.ofNat (16 * x + y) :: ·)
    | _, _ => none

@[simp] theorem length_encode (bs : List UInt8) : (encode bs).length = 2 * bs.length := by
  induction bs with
  | nil => rfl
  | cons b bs ih =>
    rw [encode, List.length_cons, List.length_cons, ih, List.length_cons]
    omega

/-- The halves of a byte. -/
theorem ofNat_halves_eq_iff {x y : ℕ} (hx : x < 16) (hy : y < 16) (b : UInt8) :
    UInt8.ofNat (16 * x + y) = b ↔ b.toNat / 16 = x ∧ b.toNat % 16 = y := by
  have hlt := b.toNat_lt
  constructor
  · rintro rfl
    rw [UInt8.toNat_ofNat']
    omega
  · rintro ⟨rfl, rfl⟩
    rw [Nat.div_add_mod, UInt8.ofNat_toNat]

/-- A byte is written as two characters exactly if they are read as its halves. -/
theorem lower_eq_char_iff {hi lo : UInt8} (b : UInt8) (t bs : List UInt8) :
    (hi :: lo :: t).map lower = encode (b :: bs) ↔
      value hi = some (b.toNat / 16) ∧ value lo = some (b.toNat % 16) ∧
        t.map lower = encode bs := by
  have hlt := b.toNat_lt
  rw [encode, List.map_cons, List.map_cons, List.cons.injEq, List.cons.injEq,
    value_eq_some_iff (by omega), value_eq_some_iff (by omega)]

/-- **What is read is what is written**, up to capitals. -/
theorem decode_eq_some_iff (t bs : List UInt8) : decode t = some bs ↔ t.map lower = encode bs := by
  induction t using decode.induct generalizing bs with
  | case1 =>
    rcases bs with _ | ⟨b, bs⟩
    · exact iff_of_true rfl rfl
    · exact iff_of_false nofun nofun
  | case2 c =>
    -- nothing of one character is written
    refine iff_of_false nofun fun h => ?_
    have hlen := congrArg List.length h
    rw [length_encode, List.length_map, List.length_singleton] at hlen
    omega
  | case3 hi lo t x y hlo hhi ih =>
    rw [decode, hhi, hlo, Option.map_eq_some_iff]
    rcases bs with _ | ⟨b, bs⟩
    · exact iff_of_false (fun ⟨_, _, h⟩ => List.cons_ne_nil _ _ h) nofun
    · rw [lower_eq_char_iff, hhi, hlo, Option.some_inj, Option.some_inj, ← ih, eq_comm (a := x),
        eq_comm (a := y), ← and_assoc, ← ofNat_halves_eq_iff (lt_of_value hhi) (lt_of_value hlo)]
      constructor
      · rintro ⟨bs', hbs', heq⟩
        obtain ⟨hb, rfl⟩ := List.cons.inj heq
        exact ⟨hb, hbs'⟩
      · rintro ⟨rfl, hbs⟩
        exact ⟨bs, hbs, rfl⟩
  | case4 hi lo t hnone =>
    have hdecode : decode (hi :: lo :: t) = none := by
      rw [decode]
      split
      · next x y hhi hlo => exact (hnone x y hhi hlo).elim
      · rfl
    rw [hdecode]
    rcases bs with _ | ⟨b, bs⟩
    · exact iff_of_false nofun (List.cons_ne_nil _ _)
    · rw [lower_eq_char_iff]
      exact iff_of_false nofun fun ⟨hhi, hlo, _⟩ => hnone _ _ hhi hlo

/-- A text has two digits for every byte that is read. -/
theorem length_of_decode {t bs : List UInt8} (h : decode t = some bs) :
    t.length = 2 * bs.length := by
  rw [← length_encode, ← (decode_eq_some_iff t bs).mp h, List.length_map]

end Hex

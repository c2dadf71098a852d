import WbLwm2m.Lib.Base64
import WbLwm2m.Senml
import Mathlib.GroupTheory.GroupAction.Ring

/-!
# The Base64 of opaque values

`WbLwm2m.base64Encode` is `base64_encode` as a whole: the characters of the source and a
terminator, stored when the destination holds them. Here is the loop behind it
(`WbLwm2m.base64EncodeSteps`), with its two indices, its stores one character at a time
and its arithmetic in a `size_t` of `w` bits. Below `2 ^ 29` bytes nothing wraps, the
loop ends, and the two agree (`WbLwm2m.base64EncodeSteps_eq`).

What the shifts and masks of either one write is the Base64 of `Base64.encode`
(`WbLwm2m.base64Chars_eq_encode`), so the text stands for the bytes it was made of.
-/

namespace WbLwm2m

open Memory

/-! ### The characters -/

/-- The table of the source is the standard alphabet. -/
theorem b64Table_eq_alphabet : b64Table = Base64.alphabet := by decide

/-- The six low bits are a remainder. -/
theorem b64Char_eq_char (n : UInt32) : b64Char n = Base64.char (n.toNat % 64) := by
  have hmask : (n &&& 0x3F).toNat = n.toNat % 64 := by
    rw [UInt32.toNat_and]
    exact Nat.and_two_pow_sub_one_eq_mod n.toNat 6
  have hd : n.toNat % 64 < 64 := Nat.mod_lt _ (by omega)
  rw [b64Char, hmask, b64Table_eq_alphabet, Base64.alphabet, List.getElem?_map,
    List.getElem?_range hd, Option.map_some, Option.getD_some]

/-- The three bytes of a group, put together by shifts. -/
theorem toNat_group (a b c : UInt8) :
    (a.toUInt32 <<< 16 ||| b.toUInt32 <<< 8 ||| c.toUInt32).toNat =
      a.toNat * 65536 + b.toNat * 256 + c.toNat := by
  have ha := a.toNat_lt
  have hb := b.toNat_lt
  have hc := c.toNat_lt
  have ha' : (a.toUInt32 <<< 16).toNat = 2 ^ 16 * a.toNat := by
    simp [Nat.shiftLeft_eq]
    omega
  have hb' : (b.toUInt32 <<< 8).toNat = 2 ^ 8 * b.toNat := by
    simp [Nat.shiftLeft_eq]
    omega
  have hlow : 2 ^ 8 * b.toNat < 2 ^ 16 := by omega
  rw [UInt32.toNat_or, UInt32.toNat_or, ha', hb', UInt8.toNat_toUInt32, Nat.or_assoc,
    ← Nat.two_pow_add_eq_or_of_lt (by omega : c.toNat < 2 ^ 8),
    ← Nat.two_pow_add_eq_or_of_lt (by omega : 2 ^ 8 * b.toNat + c.toNat < 2 ^ 16)]
  omega

/-- **The four characters of a group** are those of its digits. -/
theorem b64Char_group (a b c : UInt8) {n : UInt32}
    (hn : n.toNat = a.toNat * 65536 + b.toNat * 256 + c.toNat) :
    b64Char (n >>> 18) = Base64.char (a.toNat / 4) ∧
      b64Char (n >>> 12) = Base64.char (a.toNat % 4 * 16 + b.toNat / 16) ∧
      b64Char (n >>> 6) = Base64.char (b.toNat % 16 * 4 + c.toNat / 64) ∧
      b64Char n = Base64.char (c.toNat % 64) := by
  have ha := a.toNat_lt
  have hb := b.toNat_lt
  have hc := c.toNat_lt
  have hshift : ∀ (k : UInt32) (j : ℕ), k.toNat % 32 = j →
      b64Char (n >>> k) = Base64.char (n.toNat / 2 ^ j % 64) := by
    rintro k _ rfl
    rw [b64Char_eq_char, UInt32.toNat_shiftRight, Nat.shiftRight_eq_div_pow]
  refine ⟨?_, ?_, ?_, ?_⟩
  · rw [hshift 18 18 rfl, hn]
    refine congrArg _ ?_
    omega
  · rw [hshift 12 12 rfl, hn]
    refine congrArg _ ?_
    omega
  · rw [hshift 6 6 rfl, hn]
    refine congrArg _ ?_
    omega
  · rw [b64Char_eq_char, hn]
    refine congrArg _ ?_
    omega

/-- **The characters written are Base64**: the shifts and masks of `base64_encode` are
the quotients and remainders of the encoding. -/
theorem base64Chars_eq_encode (src : List UInt8) : base64Chars src = Base64.encode src := by
  induction src using base64Chars.induct with
  | case1 => rfl
  | case2 a =>
    -- the bytes a short group lacks are zeros
    obtain ⟨h₁, h₂, -, -⟩ := b64Char_group a 0 0 (toNat_group a 0 0)
    simp_all [base64Chars, Base64.encode, Base64.digits, Base64.pad]
  | case3 a b =>
    obtain ⟨h₁, h₂, h₃, -⟩ := b64Char_group a b 0 (toNat_group a b 0)
    simp_all [base64Chars, Base64.encode, Base64.digits, Base64.pad]
  | case4 a b c rest ih =>
    obtain ⟨h₁, h₂, h₃, h₄⟩ := b64Char_group a b c (toNat_group a b c)
    simp only [base64Chars, Base64.encode, Base64.digits, h₁, h₂, h₃, h₄, ih, List.map_cons,
      List.map_nil, List.cons_append, List.nil_append]

/-- The number of characters. -/
theorem length_base64Chars (src : List UInt8) :
    (base64Chars src).length = 4 * ((src.length + 2) / 3) := by
  rw [base64Chars_eq_encode, Base64.length_encode, Nat.ceilDiv_eq_add_pred_div]
  rfl

/-- **The buffer of both writers** holds the text of 255 bytes: that of 256 has 344
characters, and the terminator does not fit. -/
theorem b64Text_eq (data : List UInt8) :
    b64Text data = if data.length < 256 then some (Base64.encode data) else none := by
  rw [b64Text, base64Encode]
  by_cases h : data.length < 256
  · rw [if_neg (by omega), if_pos h, ← base64Chars_eq_encode]
    exact congrArg some (load_store_append _ _ _ _)
  · rw [if_pos (by omega), if_neg h]

/-- The characters of a group, and those of the bytes behind it. -/
theorem base64Chars_take_append_drop {src : List UInt8} (h : src ≠ []) :
    base64Chars src = base64Chars (src.take 3) ++ base64Chars (src.drop 3) := by
  rcases src with - | ⟨a, - | ⟨b, - | ⟨c, rest⟩⟩⟩
  · exact absurd rfl h
  · rfl
  · rfl
  · rfl

/-! ### The loop -/

/-- `src[i]`, as a `uint32_t`. -/
def base64Byte (src : List UInt8) (i : ℕ) : UInt32 := ((src[i]?).getD 0).toUInt32

/-- `dst[di++] = c`, with the memory and the index `di` as a state. -/
def base64Put (w dst : ℕ) (c : UInt8) (s : Mem × ℕ) : Mem × ℕ :=
  (store s.1 (dst + s.2) [c], (s.2 + 1) % 2 ^ w)

/-- A round of the loop of `base64_encode`, at the source index `i`. -/
def base64Round (w : ℕ) (src : List UInt8) (dst i : ℕ) (s : Mem × ℕ) : Mem × ℕ :=
  let i₁ := (i + 1) % 2 ^ w
  let i₂ := (i + 2) % 2 ^ w
  let n := base64Byte src i <<< 16
  let n := if i₁ < src.length then n ||| base64Byte src i₁ <<< 8 else n
  let n := if i₂ < src.length then n ||| base64Byte src i₂ else n
  let s := base64Put w dst (b64Char (n >>> 18)) s
  let s := base64Put w dst (b64Char (n >>> 12)) s
  let s := base64Put w dst (if i₁ < src.length then b64Char (n >>> 6) else 0x3D) s
  base64Put w dst (if i₂ < src.length then b64Char n else 0x3D) s

/-- The loop of `base64_encode`, for at most `fuel` tests of its condition. -/
def base64Loop (w : ℕ) (src : List UInt8) (dst : ℕ) : ℕ → ℕ → Mem × ℕ → Option (Mem × ℕ)
  | 0, _, _ => none
  | fuel + 1, i, s =>
    if i < src.length then base64Loop w src dst fuel ((i + 3) % 2 ^ w) (base64Round w src dst i s)
    else some s

/-- `base64_encode`, statement by statement, with a `size_t` of `w` bits. The result is
`none` only when the fuel runs out. -/
def base64EncodeSteps (w fuel : ℕ) (src : List UInt8) (m : Mem) (dst dstSize : ℕ) :
    Option (Mem × Int32) :=
  let needed := (4 * ((src.length + 2) % 2 ^ w / 3) + 1) % 2 ^ w
  if dstSize < needed then some (m, -1)
  else (base64Loop w src dst fuel 0 (m, 0)).map fun (m, di) =>
    (store m (dst + di) [0], Int32.ofNat di)

/-- A character put behind those written so far. -/
theorem base64Put_store {w dst : ℕ} {acc : List UInt8} (m : Mem) (c : UInt8)
    (h : acc.length + 1 < 2 ^ w) :
    base64Put w dst c (store m dst acc, acc.length) =
      (store m dst (acc ++ [c]), (acc ++ [c]).length) := by
  rw [base64Put, store_store, Nat.mod_eq_of_lt h, List.length_append, List.length_singleton]

/-- **A round** puts the four characters of the next group behind those written so far. -/
theorem base64Round_store {w dst i : ℕ} {src acc : List UInt8} (m : Mem) (hi : i < src.length)
    (hw : src.length + 2 < 2 ^ w) (hacc : acc.length + 4 < 2 ^ w) :
    base64Round w src dst i (store m dst acc, acc.length) =
      (store m dst (acc ++ base64Chars ((src.drop i).take 3)),
        (acc ++ base64Chars ((src.drop i).take 3)).length) := by
  have hi₁ : (i + 1) % 2 ^ w = i + 1 := Nat.mod_eq_of_lt (by omega)
  have hi₂ : (i + 2) % 2 ^ w = i + 2 := Nat.mod_eq_of_lt (by omega)
  have hbyte : ∀ k, base64Byte src (i + k) = (((src.drop i)[k]?).getD 0).toUInt32 := fun k => by
    rw [base64Byte, List.getElem?_drop]
  have hbyte₀ := hbyte 0
  rw [Nat.add_zero] at hbyte₀
  have hlen : ∀ k, i + k < src.length ↔ k < (src.drop i).length := fun k => by
    rw [List.length_drop]
    omega
  have hput : ∀ c₁ c₂ c₃ c₄ : UInt8, base64Put w dst c₄ (base64Put w dst c₃ (base64Put w dst c₂
      (base64Put w dst c₁ (store m dst acc, acc.length)))) =
        (store m dst (acc ++ [c₁, c₂, c₃, c₄]), (acc ++ [c₁, c₂, c₃, c₄]).length) := by
    intro c₁ c₂ c₃ c₄
    rw [base64Put_store m c₁ (by omega), base64Put_store m c₂ (by simp; omega),
      base64Put_store m c₃ (by simp; omega), base64Put_store m c₄ (by simp; omega)]
    simp only [List.append_assoc, List.cons_append, List.nil_append]
  simp only [base64Round, hi₁, hi₂, hput, hlen, hbyte, hbyte₀]
  rcases hgroup : src.drop i with - | ⟨a, - | ⟨b, - | ⟨c, rest⟩⟩⟩
  · exact absurd hgroup (by simp; omega)
  · simp [base64Chars]
  · simp [base64Chars]
  · simp [base64Chars]

/-- **The loop** puts the characters of what is left of the source behind those written
so far. The induction is on the fuel, and the invariant is the state itself: what has
been stored is what the index has counted. -/
theorem base64Loop_store {w dst : ℕ} {src : List UInt8} (m : Mem) (hw : src.length + 2 < 2 ^ w)
    {fuel i : ℕ} {acc : List UInt8} (hfuel : src.length - i < fuel)
    (hacc : (acc ++ base64Chars (src.drop i)).length < 2 ^ w) :
    base64Loop w src dst fuel i (store m dst acc, acc.length) =
      some (store m dst (acc ++ base64Chars (src.drop i)),
        (acc ++ base64Chars (src.drop i)).length) := by
  induction fuel generalizing i acc with
  | zero => exact absurd hfuel (Nat.not_lt_zero _)
  | succ fuel ih =>
    rw [base64Loop]
    rcases Nat.lt_or_ge i src.length with hi | hi
    · have hne : src.drop i ≠ [] := by
        rw [Ne, List.drop_eq_nil_iff]
        omega
      have hsplit := base64Chars_take_append_drop hne
      rw [List.drop_drop] at hsplit
      rw [hsplit, ← List.append_assoc] at hacc ⊢
      have hgroup : (base64Chars ((src.drop i).take 3)).length = 4 := by
        rw [length_base64Chars, List.length_take, List.length_drop]
        omega
      have hnext : (i + 3) % 2 ^ w = i + 3 := Nat.mod_eq_of_lt (by omega)
      rw [List.length_append, List.length_append, hgroup] at hacc
      rw [if_pos hi, base64Round_store m hi hw (by omega), hnext]
      refine ih (by omega) ?_
      rw [List.length_append, List.length_append, hgroup]
      exact hacc
    · rw [if_neg (by omega), List.drop_eq_nil_of_le hi, base64Chars, List.append_nil]

/-- **The statements are the function**: below `2 ^ 29` bytes no index and no size wraps,
the loop ends, and the code does what `WbLwm2m.base64Encode` says. -/
theorem base64EncodeSteps_eq {w fuel : ℕ} {src : List UInt8} (hw : 32 ≤ w)
    (hsrc : src.length < 2 ^ 29) (hfuel : src.length < fuel) (m : Mem) (dst dstSize : ℕ) :
    base64EncodeSteps w fuel src m dst dstSize = some (match base64Encode src m dst dstSize with
      | (m, none) => (m, -1)
      | (m, some n) => (m, Int32.ofNat n)) := by
  have hpow : 2 ^ 32 ≤ 2 ^ w := Nat.pow_le_pow_right (by omega) hw
  have hlen := length_base64Chars src
  have hround : (src.length + 2) % 2 ^ w = src.length + 2 := Nat.mod_eq_of_lt (by omega)
  have hneeded : (4 * ((src.length + 2) / 3) + 1) % 2 ^ w = 4 * ((src.length + 2) / 3) + 1 :=
    Nat.mod_eq_of_lt (by omega)
  simp only [base64EncodeSteps, base64Encode, hround, hneeded]
  split
  · rfl
  · have hloop : base64Loop w src dst fuel 0 (store m dst [], [].length) =
        some (store m dst ([] ++ base64Chars (src.drop 0)),
          ([] ++ base64Chars (src.drop 0)).length) :=
      base64Loop_store m (by omega) (by omega) (by rw [List.nil_append, List.drop_zero]; omega)
    rw [store_nil, List.nil_append, List.drop_zero, List.length_nil] at hloop
    rw [hloop, Option.map_some, store_store]

/-- **`base64_encode` is Base64.** Below `2 ^ 29` bytes it ends; it returns `-1`, with
nothing written, exactly when the destination is shorter than four characters for every
three bytes and a terminator; otherwise it returns the number of characters and writes
these and the terminator, nothing else: characters of the standard alphabet, padded as
the length asks for, that decode to the source. -/
theorem base64EncodeSteps_result {w fuel : ℕ} {src : List UInt8} (hw : 32 ≤ w)
    (hsrc : src.length < 2 ^ 29) (hfuel : src.length < fuel) (m : Mem) (dst dstSize : ℕ) :
    ∃ m' r, base64EncodeSteps w fuel src m dst dstSize = some (m', r) ∧
      (r = -1 ↔ dstSize < 4 * (src.length ⌈/⌉ 3) + 1) ∧ (r = -1 → m' = m) ∧
      (r ≠ -1 → r.toInt = (4 * (src.length ⌈/⌉ 3) : ℕ) ∧
        ∃ text, m' = store m dst (text ++ [0]) ∧ text.length = 4 * (src.length ⌈/⌉ 3) ∧
          (∃ chars, text = chars ++ List.replicate ((3 - src.length % 3) % 3) Base64.pad ∧
            ∀ c ∈ chars, c ∈ Base64.alphabet) ∧
          Base64.decode text = some src) := by
  have hceil : src.length ⌈/⌉ 3 = (src.length + 2) / 3 := Nat.ceilDiv_eq_add_pred_div _ _
  rw [base64EncodeSteps_eq hw hsrc hfuel, hceil]
  by_cases hroom : dstSize < 4 * ((src.length + 2) / 3) + 1
  · rw [base64Encode, if_pos hroom]
    exact ⟨m, -1, rfl, iff_of_true rfl hroom, fun _ => rfl, fun h => absurd rfl h⟩
  · rw [base64Encode, if_neg hroom]
    have hlen := length_base64Chars src
    have hret : (Int32.ofNat (base64Chars src).length).toInt = (base64Chars src).length :=
      Int32.toInt_ofNat_of_lt (by omega)
    have hne : Int32.ofNat (base64Chars src).length ≠ -1 := by
      intro h
      rw [h, hlen] at hret
      have hneg : (-1 : Int32).toInt = -1 := rfl
      omega
    refine ⟨_, _, rfl, iff_of_false hne hroom, fun h => absurd h hne, fun _ => ⟨?_, ?_⟩⟩
    · rw [hret, hlen]
    · refine ⟨base64Chars src, rfl, hlen, ?_, ?_⟩
      · rw [base64Chars_eq_encode]
        refine ⟨_, Base64.encode_eq_append src, fun c hc => ?_⟩
        obtain ⟨d, hd, rfl⟩ := List.mem_map.mp hc
        exact Base64.char_mem_alphabet (Base64.lt_of_mem_digits src d hd)
      · rw [base64Chars_eq_encode, Base64.decode_encode]

/-- Five bytes in a destination of nine: one padding character, and the terminator at
the end. -/
theorem base64EncodeSteps_result_five :
    ∃ m' r, base64EncodeSteps 32 6 [0x66, 0x6F, 0x6F, 0x62, 0x61] (fun _ => 0xFF) 100 9 =
        some (m', r) ∧
      (r = -1 ↔ 9 < 4 * (5 ⌈/⌉ 3) + 1) ∧ (r = -1 → m' = fun _ => 0xFF) ∧
      (r ≠ -1 → r.toInt = (4 * (5 ⌈/⌉ 3) : ℕ) ∧
        ∃ text, m' = store (fun _ => 0xFF) 100 (text ++ [0]) ∧ text.length = 4 * (5 ⌈/⌉ 3) ∧
          (∃ chars, text = chars ++ List.replicate ((3 - 5 % 3) % 3) Base64.pad ∧
            ∀ c ∈ chars, c ∈ Base64.alphabet) ∧
          Base64.decode text = some [0x66, 0x6F, 0x6F, 0x62, 0x61]) :=
  base64EncodeSteps_result (by omega) (by decide) (by decide) _ 100 9

end WbLwm2m

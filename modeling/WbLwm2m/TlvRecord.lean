import WbLwm2m.Tlv
import Mathlib.Tactic.IntervalCases

/-!
# Records

The byte format by itself, away from memories and buffers: a record is a kind of
identifier, an identifier and a value (`WbLwm2m.TlvRecord`), and it has one encoding,
`WbLwm2m.TlvRecord.bytes`. The two facts the development uses are that the encoder
writes nothing else (`WbLwm2m.tlvEncodeResource_eq`) and that the header decoder takes
exactly these bytes off the front of whatever it is given
(`WbLwm2m.tlvDecodeHeader_record`): records are self-delimiting.

The bit-level facts come first. The length bits never reach bit 5, so the four fields
of a type byte do not disturb each other (`WbLwm2m.typeByte_fields`).
-/

namespace WbLwm2m

open Memory

/-! ### Bytes and bits -/

/-- Shifting a byte in from the right, in `k` bits. -/
theorem shiftLeft_or_byte {x y k : ℕ} (hy : y < 256) (hk : 8 ≤ k) :
    x <<< 8 % 2 ^ k ||| y = (x * 256 + y) % 2 ^ k := by
  obtain ⟨j, rfl⟩ := Nat.exists_eq_add_of_le hk
  have hx : x <<< 8 % 2 ^ (8 + j) = 2 ^ 8 * (x % 2 ^ j) := by
    rw [Nat.shiftLeft_eq, mul_comm, pow_add, Nat.mul_mod_mul_left]
  have hlt : 2 ^ 8 * (x % 2 ^ j) + y < 2 ^ 8 * 2 ^ j := by
    have := Nat.mod_lt x (Nat.two_pow_pos j)
    calc 2 ^ 8 * (x % 2 ^ j) + y < 2 ^ 8 * (x % 2 ^ j + 1) := by omega
      _ ≤ 2 ^ 8 * 2 ^ j := Nat.mul_le_mul_left _ this
  calc x <<< 8 % 2 ^ (8 + j) ||| y = 2 ^ 8 * (x % 2 ^ j) + y := by
        rw [hx, Nat.two_pow_add_eq_or_of_lt hy]
    _ = (2 ^ 8 * (x % 2 ^ j) + y) % (2 ^ 8 * 2 ^ j) := (Nat.mod_eq_of_lt hlt).symm
    _ = (x * 256 + y) % 2 ^ (8 + j) := by
        rw [← Nat.mul_mod_mul_left, Nat.mod_add_mod, pow_add, mul_comm x, show 2 ^ 8 = 256 from rfl]

/-- The two bytes of a 16-bit number, put together again. -/
theorem uint16_be (v : UInt16) :
    (v >>> 8).toUInt8.toUInt16 <<< 8 ||| (v &&& 0xFF).toUInt8.toUInt16 = v := by
  have hv := v.toNat_lt
  have h8 : (8 : UInt16).toNat % 16 = 8 := rfl
  have hff : (0xFF : UInt16).toNat = 2 ^ 8 - 1 := rfl
  apply UInt16.toNat_inj.mp
  rw [UInt16.toNat_or, UInt16.toNat_shiftLeft, UInt8.toNat_toUInt16, UInt8.toNat_toUInt16,
    UInt16.toNat_toUInt8, UInt16.toNat_toUInt8, UInt16.toNat_shiftRight, UInt16.toNat_and, h8, hff,
    Nat.and_two_pow_sub_one_eq_mod, shiftLeft_or_byte (by omega) (by omega),
    Nat.shiftRight_eq_div_pow]
  omega

/-- A 16-bit number of one byte. -/
theorem uint16_byte {v : UInt16} (h : ¬ 0xFF < v) : v.toUInt8.toUInt16 = v := by
  have hv : v.toNat ≤ 255 := by
    simpa using UInt16.le_iff_toNat_le.mp (UInt16.not_lt.mp h)
  apply UInt16.toNat_inj.mp
  rw [UInt8.toNat_toUInt16, UInt16.toNat_toUInt8]
  omega

/-- **The fields of a type byte**, read back from it: kind, width of the identifier,
length bits. -/
theorem typeByte_fields (t : TlvType) {bits : UInt8} (h : bits.toNat < 32) (flag : UInt8)
    (hf : flag = 0 ∨ flag = 0x20) :
    TlvType.ofByte (t.byte ||| flag ||| bits) = t ∧
      (t.byte ||| flag ||| bits) &&& (0x20 : UInt8) = flag ∧
      ((t.byte ||| flag ||| bits) >>> 3) &&& (0x03 : UInt8) = bits >>> 3 ∧
      (t.byte ||| flag ||| bits) &&& (0x07 : UInt8) = bits &&& (0x07 : UInt8) := by
  obtain ⟨i, rfl⟩ : ∃ i : Fin 32, bits = UInt8.ofNat i := ⟨⟨bits.toNat, h⟩, by simp⟩
  clear h
  rcases hf with rfl | rfl <;> cases t <;> revert i <;> decide +kernel

/-! ### The length field -/

/-- What the length bits say: the width of the length field and, when there is none,
the length. -/
theorem lengthField_spec {n : ℕ} {bits : UInt8} {k : ℕ} (h : lengthField n = some (bits, k)) :
    bits.toNat < 32 ∧ (bits >>> 3).toNat = k ∧ (k = 0 → (bits &&& 0x07).toNat = n) ∧
      (k ≠ 0 → n < 256 ^ k) := by
  unfold lengthField at h
  split_ifs at h with h1 h2 h3 h4 <;> simp only [Option.some.injEq, Prod.mk.injEq] at h <;>
    obtain ⟨rfl, rfl⟩ := h
  · interval_cases n <;> decide
  · exact ⟨by decide, by decide, fun h0 => absurd h0 (by decide), fun _ => by omega⟩
  · exact ⟨by decide, by decide, fun h0 => absurd h0 (by decide), fun _ => by omega⟩
  · exact ⟨by decide, by decide, fun h0 => absurd h0 (by decide), fun _ => by omega⟩

/-- Every length below `2 ^ 24` has a length field. -/
theorem exists_lengthField {n : ℕ} (h : n < 2 ^ 24) : ∃ bits k, lengthField n = some (bits, k) := by
  unfold lengthField
  split_ifs with h1 h2 h3 h4
  · exact ⟨_, _, rfl⟩
  · exact ⟨_, _, rfl⟩
  · exact ⟨_, _, rfl⟩
  · exact ⟨_, _, rfl⟩
  · omega

theorem length_idField (id : UInt16) : (idField id).length = if 0xFF < id then 2 else 1 := by
  unfold idField
  split <;> rfl

/-! ### Records -/

/-- **A record**: the kind of its identifier, the identifier and the value. The format
holds lengths of up to three bytes. -/
structure TlvRecord where
  type : TlvType
  id : UInt16
  value : List UInt8
  value_lt : value.length < 2 ^ 24

/-- The header of a record: type byte, identifier field, length field. -/
def TlvRecord.header (r : TlvRecord) : List UInt8 :=
  match lengthField r.value.length with
  | none => []
  | some (bits, k) =>
    (r.type.byte ||| (if 0xFF < r.id then 0x20 else 0) ||| bits) ::
      (idField r.id ++ BigEndian.ofNat r.value.length k)

/-- The encoding of a record. -/
def TlvRecord.bytes (r : TlvRecord) : List UInt8 := r.header ++ r.value

theorem TlvRecord.length_bytes (r : TlvRecord) :
    r.bytes.length = r.header.length + r.value.length :=
  List.length_append

theorem TlvRecord.length_header {r : TlvRecord} {bits : UInt8} {k : ℕ}
    (hk : lengthField r.value.length = some (bits, k)) :
    r.header.length = 1 + (if 0xFF < r.id then 2 else 1) + k := by
  rw [TlvRecord.header, hk]
  simp only [List.length_cons, List.length_append, length_idField, BigEndian.length_ofNat]
  omega

/-- A record takes at least its type byte and an identifier. -/
theorem TlvRecord.two_le_length_header (r : TlvRecord) : 2 ≤ r.header.length := by
  obtain ⟨bits, k, hk⟩ := exists_lengthField r.value_lt
  rw [TlvRecord.length_header hk]
  split <;> omega

/-- `write_tlv_header` writes the header of the record, or nothing when the record does
not fit. -/
theorem writeTlvHeader_eq (r : TlvRecord) (m : Mem) (buf bufSize : ℕ) :
    writeTlvHeader m buf bufSize r.type r.id r.value.length =
      if bufSize < r.bytes.length then (m, none)
      else (store m buf r.header, some r.header.length) := by
  obtain ⟨bits, k, hk⟩ := exists_lengthField r.value_lt
  have hlen := TlvRecord.length_header hk
  have hhdr : (if 0xFF < r.id then r.type.byte ||| 0x20 else r.type.byte) ||| bits =
      r.type.byte ||| (if 0xFF < r.id then 0x20 else 0) ||| bits := by
    split
    · rfl
    · rw [UInt8.or_zero]
  rw [TlvRecord.length_bytes, hlen, writeTlvHeader]
  simp only [hk, hhdr]
  refine if_congr Iff.rfl rfl ?_
  rw [← hlen, TlvRecord.header, hk]

/-- **The header decoder takes a record off the front**: whatever follows it in the
buffer, and whatever the output parameters held. -/
theorem tlvDecodeHeader_record {r : TlvRecord} {m : Mem} {buf bufLen : ℕ} (out : TlvHeader)
    (hm : load m buf r.bytes.length = r.bytes) (hle : r.bytes.length ≤ bufLen) :
    tlvDecodeHeader m buf bufLen out =
      ({ tlvType := r.type, id := r.id, valueOffset := r.header.length,
         valueLen := r.value.length }, some r.bytes.length) := by
  obtain ⟨bits, k, hk⟩ := exists_lengthField r.value_lt
  obtain ⟨hbits, hk3, hshort, hlong⟩ := lengthField_spec hk
  obtain ⟨hty, hid16, hcls, hlow⟩ := typeByte_fields r.type hbits
    (if 0xFF < r.id then 0x20 else 0) (by split <;> simp)
  have hhdr : load m buf r.header.length = r.header := (load_eq_append.mp hm).1
  have hlen := TlvRecord.length_header hk
  have h2 := r.two_le_length_header
  have hsum := r.length_bytes
  -- the type byte, the identifier field and the length field, as found in the memory
  have hparts := hhdr
  rw [TlvRecord.header, hk] at hparts
  obtain ⟨hb0, hrest⟩ := load_eq_cons.mp hparts
  obtain ⟨hidf, hlenf⟩ := load_eq_append.mp hrest
  rw [length_idField, BigEndian.length_ofNat] at hlenf
  have hidLen : (if (if 0xFF < r.id then (0x20 : UInt8) else 0) ≠ 0 then 2 else 1) =
      if 0xFF < r.id then 2 else 1 := by
    split <;> rfl
  have hid : (if (if 0xFF < r.id then 2 else 1) = 2 then
      (m (buf + 1)).toUInt16 <<< 8 ||| (m (buf + 2)).toUInt16 else (m (buf + 1)).toUInt16) =
      r.id := by
    by_cases h16 : 0xFF < r.id
    · rw [idField, if_pos h16] at hidf
      obtain ⟨h1, hidf⟩ := load_eq_cons.mp hidf
      obtain ⟨h2, -⟩ := load_eq_cons.mp hidf
      rw [if_pos (by rw [if_pos h16]), h1, h2, uint16_be]
    · rw [idField, if_neg h16] at hidf
      obtain ⟨h1, -⟩ := load_eq_cons.mp hidf
      rw [if_neg (by rw [if_neg h16]; omega), h1, uint16_byte h16]
  have hvlen : (if k = 0 then (bits &&& 0x07).toNat
      else BigEndian.toNat (load m (buf + (1 + if 0xFF < r.id then 2 else 1)) k)) =
      r.value.length := by
    by_cases hk0 : k = 0
    · rw [if_pos hk0, hshort hk0]
    · rw [if_neg hk0, ← Nat.add_assoc, hlenf, BigEndian.toNat_ofNat,
        Nat.mod_eq_of_lt (hlong hk0)]
  rw [tlvDecodeHeader, if_neg (by omega)]
  simp only [hb0, hty, hid16, hcls, hlow, hk3, hidLen, hid, hvlen]
  rw [if_neg (by omega), if_neg (by omega), if_neg (by omega), hlen, hsum, hlen]

/-- **Where a record's value is**: at the announced offset. -/
theorem TlvRecord.load_value {r : TlvRecord} {m : Mem} {a : ℕ}
    (hm : load m a r.bytes.length = r.bytes) :
    load m (a + r.header.length) r.value.length = r.value :=
  (load_eq_append.mp hm).2

end WbLwm2m

import WbLwm2m.TlvRecord

/-!
# The record round trip

What `wb_lwm2m_tlv_encode_resource` writes, `wb_lwm2m_tlv_decode_header` and
`wb_lwm2m_tlv_decode_value` read back: identifier, type and value, whatever follows
the record in the buffer.

The value bytes are settled type by type in `WbLwm2m.tlvDecodeValue_valueBytes`. The
integers go through `BigEndian`: the two loops of the C code compute its readings
modulo `2 ^ 64`, and the width the encoder picks is one the number fits in.
-/

namespace WbLwm2m

open Memory

/-! ### Integers -/

theorem writeUintBe_eq (v : UInt64) (n : ℕ) : writeUintBe v n = BigEndian.ofNat v.toNat n := by
  induction n generalizing v with
  | zero => rfl
  | succ n ih =>
    have h8 : (v >>> 8).toNat = v.toNat / 256 := by
      rw [UInt64.toNat_shiftRight, Nat.shiftRight_eq_div_pow]
      rfl
    have hff : (v &&& 0xFF).toUInt8 = UInt8.ofNat v.toNat := by
      apply UInt8.toNat_inj.mp
      rw [UInt64.toNat_toUInt8, UInt64.toNat_and, UInt8.toNat_ofNat',
        show (0xFF : UInt64).toNat = 2 ^ 8 - 1 from rfl, Nat.and_two_pow_sub_one_eq_mod,
        Nat.mod_mod]
    rw [writeUintBe, BigEndian.ofNat, ih, h8, hff]

@[simp] theorem length_writeUintBe (v : UInt64) (n : ℕ) : (writeUintBe v n).length = n := by
  rw [writeUintBe_eq, BigEndian.length_ofNat]

/-- The loop of the unsigned reader, from any value on. -/
theorem toNat_foldl_byte (v : UInt64) (bs : List UInt8) :
    (bs.foldl (fun (v : UInt64) b => v <<< 8 ||| b.toUInt64) v).toNat =
      (v.toNat * 256 ^ bs.length + BigEndian.toNat bs) % 2 ^ 64 := by
  induction bs generalizing v with
  | nil =>
    rw [List.foldl_nil, List.length_nil, pow_zero, mul_one, BigEndian.toNat_nil, Nat.add_zero,
      Nat.mod_eq_of_lt v.toNat_lt]
  | cons b bs ih =>
    have hstep : (v <<< 8 ||| b.toUInt64).toNat = (v.toNat * 256 + b.toNat) % 2 ^ 64 := by
      rw [UInt64.toNat_or, UInt64.toNat_shiftLeft]
      exact shiftLeft_or_byte b.toNat_lt (by omega)
    rw [List.foldl_cons, ih, hstep, Nat.add_mod, Nat.mod_mul_mod, ← Nat.add_mod, BigEndian.toNat,
      List.length_cons, pow_succ]
    congr 1
    ring

theorem toNat_readUintBe (bs : List UInt8) :
    (readUintBe bs).toNat = BigEndian.toNat bs % 2 ^ 64 := by
  rw [readUintBe, toNat_foldl_byte, UInt64.toNat_zero, Nat.zero_mul, Nat.zero_add]

/-- An unsigned integer comes back from the bytes it fits in. -/
theorem readUintBe_writeUintBe {v : UInt64} {n : ℕ} (h : v.toNat < 256 ^ n) :
    readUintBe (writeUintBe v n) = v := by
  apply UInt64.toNat_inj.mp
  rw [toNat_readUintBe, writeUintBe_eq, BigEndian.toNat_ofNat, Nat.mod_eq_of_lt h,
    Nat.mod_eq_of_lt v.toNat_lt]

theorem toNat_lt_uintByteCount (v : UInt64) : v.toNat < 256 ^ uintByteCount v := by
  have hv := v.toNat_lt
  unfold uintByteCount
  split_ifs with h1 h2 h3
  · have := UInt64.le_iff_toNat_le.mp h1
    simp only [UInt64.reduceToNat] at this
    omega
  · have := UInt64.le_iff_toNat_le.mp h2
    simp only [UInt64.reduceToNat] at this
    omega
  · have := UInt64.le_iff_toNat_le.mp h3
    simp only [UInt64.reduceToNat] at this
    omega
  · omega

/-- The loop of the signed reader is the loop of the unsigned one on the bit patterns. -/
theorem toUInt64_foldl_byte (v : Int64) (bs : List UInt8) :
    (bs.foldl (fun (v : Int64) b => v <<< 8 ||| b.toUInt64.toInt64) v).toUInt64 =
      bs.foldl (fun (v : UInt64) b => v <<< 8 ||| b.toUInt64) v.toUInt64 := by
  induction bs generalizing v with
  | nil => rfl
  | cons b bs ih => exact ih _

/-- A signed integer and its bit pattern agree modulo `2 ^ 64`. -/
theorem toInt_modEq_toUInt64 (v : Int64) : v.toInt ≡ v.toUInt64.toNat [ZMOD 2 ^ 64] := by
  change v.toBitVec.toInt ≡ v.toBitVec.toNat [ZMOD 2 ^ 64]
  rw [BitVec.toInt_eq_toNat_bmod]
  exact Int.bmod_emod

/-- **The signed reader** computes the two's complement reading of up to eight bytes. -/
theorem toInt_readIntBe {bs : List UInt8} (h : bs ≠ []) (h8 : bs.length ≤ 8) :
    (readIntBe bs).toInt = BigEndian.toInt bs := by
  obtain ⟨hlo, hhi⟩ := BigEndian.toInt_bounds h
  have hpow : (256 : ℤ) ^ bs.length ≤ 2 ^ 64 := by
    calc (256 : ℤ) ^ bs.length ≤ 256 ^ 8 := pow_le_pow_right₀ (by omega) h8
      _ = 2 ^ 64 := by norm_num
  have hmod : (readIntBe bs).toInt ≡ BigEndian.toInt bs [ZMOD 2 ^ 64] := by
    obtain ⟨b, cs, rfl⟩ := List.exists_cons_of_ne_nil h
    calc (readIntBe (b :: cs)).toInt
        ≡ ((readIntBe (b :: cs)).toUInt64.toNat : ℤ) [ZMOD 2 ^ 64] := toInt_modEq_toUInt64 _
      _ ≡ (b.toInt8.toInt64.toUInt64.toNat * 256 ^ cs.length + BigEndian.toNat cs : ℕ)
          [ZMOD 2 ^ 64] := by
        rw [readIntBe, toUInt64_foldl_byte, toNat_foldl_byte]
        push_cast
        exact Int.mod_modEq _ _
      _ ≡ BigEndian.toInt (b :: cs) [ZMOD 2 ^ 64] := by
        rw [BigEndian.toInt, ← Int8.toInt_toInt64]
        push_cast
        exact ((toInt_modEq_toUInt64 _).symm.mul_right _).add_right _
  have hrlo := (readIntBe bs).le_toInt
  have hrhi := (readIntBe bs).toInt_lt
  obtain ⟨k, hk⟩ := hmod.dvd
  omega

/-- The width the encoder picks for a signed integer is one of the four of the format,
and the integer fits in it. -/
theorem intByteCount_spec (v : Int64) :
    0 < intByteCount v ∧ intByteCount v ≤ 8 ∧
      -256 ^ intByteCount v ≤ 2 * v.toInt ∧ 2 * v.toInt < 256 ^ intByteCount v := by
  have hlo := v.le_toInt
  have hhi := v.toInt_lt
  unfold intByteCount
  split_ifs with h1 h2 h3
  · exact ⟨by omega, by omega, by omega, by omega⟩
  · exact ⟨by omega, by omega, by omega, by omega⟩
  · exact ⟨by omega, by omega, by omega, by omega⟩
  · exact ⟨by omega, by omega, by omega, by omega⟩

/-- A signed integer comes back from the bytes the encoder writes. -/
theorem readIntBe_writeIntBe (v : Int64) : readIntBe (writeIntBe v (intByteCount v)) = v := by
  obtain ⟨h0, h8, hlo, hhi⟩ := intByteCount_spec v
  have hdvd : (256 : ℤ) ^ intByteCount v ∣ 2 ^ 64 := by
    rw [show (2 : ℤ) ^ 64 = 256 ^ 8 by norm_num]
    exact pow_dvd_pow 256 h8
  have hne : writeIntBe v (intByteCount v) ≠ [] := by
    intro hc
    have := congrArg List.length hc
    rw [writeIntBe, length_writeUintBe, List.length_nil] at this
    omega
  apply Int64.toInt_inj.mp
  rw [toInt_readIntBe hne (by rw [writeIntBe, length_writeUintBe]; exact h8), writeIntBe,
    writeUintBe_eq]
  exact BigEndian.toInt_ofNat h0 ((toInt_modEq_toUInt64 v).of_dvd hdvd) hlo hhi

/-! ### Values -/

variable {fp : FloatOps}

/-- The four bytes of a `float`. -/
theorem floatBytes_eq (f : UInt32) :
    [(f >>> 24).toUInt8, (f >>> 16).toUInt8, (f >>> 8).toUInt8, f.toUInt8] =
      BigEndian.ofNat f.toNat 4 := by
  have hbyte : ∀ k : UInt32, (f >>> k).toUInt8 = UInt8.ofNat (f.toNat / 2 ^ (k.toNat % 32)) := by
    intro k
    apply UInt8.toNat_inj.mp
    rw [UInt32.toNat_toUInt8, UInt32.toNat_shiftRight, Nat.shiftRight_eq_div_pow,
      UInt8.toNat_ofNat']
  rw [hbyte, hbyte, hbyte]
  simp only [BigEndian.ofNat, List.nil_append, List.cons_append, Nat.div_div_eq_div_mul]
  rfl

theorem toUInt32_readUintBe_floatBytes (f : UInt32) :
    (readUintBe (BigEndian.ofNat f.toNat 4)).toUInt32 = f := by
  have hf := f.toNat_lt
  apply UInt32.toNat_inj.mp
  rw [UInt64.toNat_toUInt32, toNat_readUintBe, BigEndian.toNat_ofNat]
  omega

/-- The temporary buffer of the encoder holds 256 bytes, and no more are written to it. -/
theorem length_tlvValueBytes_le {v : Value} {bs : List UInt8} (h : tlvValueBytes fp v = some bs) :
    bs.length ≤ 256 := by
  have hi : ∀ v : Int64, intByteCount v ≤ 8 := fun v => (intByteCount_spec v).2.1
  have hu : ∀ v : UInt64, uintByteCount v ≤ 8 := by
    intro v
    unfold uintByteCount
    split_ifs <;> omega
  cases v with
  | none => exact absurd h (by simp [tlvValueBytes])
  | string s | opaqueData s | corelnk s =>
    simp only [tlvValueBytes] at h
    split_ifs at h with hs
    rw [← Option.some.inj h]
    omega
  | integer v | time v =>
    rw [← Option.some.inj h, writeIntBe, length_writeUintBe]
    exact (hi v).trans (by omega)
  | uinteger v =>
    rw [← Option.some.inj h, length_writeUintBe]
    exact (hu v).trans (by omega)
  | float d =>
    simp only [tlvValueBytes] at h
    split_ifs at h with hd
    · rw [← Option.some.inj h]
      simp
    · rw [← Option.some.inj h, length_writeUintBe]
      omega
  | boolean b | objlink o i =>
    rw [← Option.some.inj h]
    simp

/-- **The value decoder inverts the value bytes**, type by type. -/
theorem tlvDecodeValue_valueBytes {v : Value} {bs : List UInt8} (h : tlvValueBytes fp v = some bs)
    {m : Mem} {a : ℕ} (hm : load m a bs.length = bs) :
    tlvDecodeValue fp v.type m a bs.length = .ok v := by
  have hint : ∀ v : Int64, intByteCount v = 1 ∨ intByteCount v = 2 ∨ intByteCount v = 4 ∨
      intByteCount v = 8 := by
    intro v
    unfold intByteCount
    split_ifs <;> simp
  have huint : ∀ v : UInt64, uintByteCount v = 1 ∨ uintByteCount v = 2 ∨ uintByteCount v = 4 ∨
      uintByteCount v = 8 := by
    intro v
    unfold uintByteCount
    split_ifs <;> simp
  cases v with
  | none => exact absurd h (by simp [tlvValueBytes])
  | string s | opaqueData s | corelnk s =>
    simp only [tlvValueBytes] at h
    split_ifs at h with hs
    obtain rfl := Option.some.inj h
    simp only [Value.type, tlvDecodeValue, hm]
  | integer v | time v =>
    obtain rfl := Option.some.inj h
    have hlen : (writeIntBe v (intByteCount v)).length = intByteCount v := length_writeUintBe _ _
    have hwidth := hint v
    rw [hlen] at hm
    simp only [Value.type, tlvDecodeValue, hlen, hm, readIntBe_writeIntBe]
    rw [if_neg (by omega)]
  | uinteger v =>
    obtain rfl := Option.some.inj h
    have hwidth := huint v
    rw [length_writeUintBe] at hm
    simp only [Value.type, tlvDecodeValue, length_writeUintBe, hm,
      readUintBe_writeUintBe (toNat_lt_uintByteCount v)]
    rw [if_neg (by omega)]
  -- a number that has been narrowed comes back by the law of the conversions
  | float d =>
    simp only [tlvValueBytes, floatBytes_eq] at h
    split_ifs at h with hd
    · obtain rfl := Option.some.inj h
      rw [BigEndian.length_ofNat] at hm
      have hw := fp.widen_narrow d (Bool.and_eq_true _ _ ▸ hd).1
      simp only [Value.type, tlvDecodeValue, BigEndian.length_ofNat, hm,
        toUInt32_readUintBe_floatBytes, hw, if_pos]
    · obtain rfl := Option.some.inj h
      rw [length_writeUintBe] at hm
      have hlt := d.toNat_lt
      simp only [Value.type, tlvDecodeValue, length_writeUintBe, hm, if_pos,
        readUintBe_writeUintBe (n := 8) (by omega)]
      rw [if_neg (by omega)]
  | boolean b =>
    obtain rfl := Option.some.inj h
    obtain ⟨hb, -⟩ := load_eq_cons.mp hm
    simp only [Value.type, tlvDecodeValue, List.length_singleton, hb]
    cases b <;> rfl
  | objlink o i =>
    obtain rfl := Option.some.inj h
    obtain ⟨h0, hm⟩ := load_eq_cons.mp hm
    obtain ⟨h1, hm⟩ := load_eq_cons.mp hm
    obtain ⟨h2, hm⟩ := load_eq_cons.mp hm
    obtain ⟨h3, -⟩ := load_eq_cons.mp hm
    simp only [Value.type, tlvDecodeValue, List.length_cons, List.length_nil, h0, h1, h2, h3,
      uint16_be]
    rfl

/-! ### The record of a value -/

/-- **The record `wb_lwm2m_tlv_encode_resource` writes**, when the value has one. -/
def TlvRecord.ofValue (fp : FloatOps) (resId : UInt16) (v : Value) : Option TlvRecord :=
  match h : tlvValueBytes fp v with
  | none => none
  | some bs => some ⟨.resource, resId, bs, by have := length_tlvValueBytes_le h; omega⟩

theorem TlvRecord.ofValue_eq_none {resId : UInt16} {v : Value} :
    TlvRecord.ofValue fp resId v = none ↔ tlvValueBytes fp v = none := by
  rw [TlvRecord.ofValue]
  split <;> simp_all

theorem TlvRecord.ofValue_eq_some {resId : UInt16} {v : Value} {r : TlvRecord} :
    TlvRecord.ofValue fp resId v = some r ↔
      r.type = .resource ∧ r.id = resId ∧ tlvValueBytes fp v = some r.value := by
  rw [TlvRecord.ofValue]
  split
  · simp_all
  · next bs hbs =>
    constructor
    · intro h
      obtain rfl := Option.some.inj h
      exact ⟨rfl, rfl, hbs⟩
    · rintro ⟨ht, hid, hv⟩
      obtain rfl := Option.some.inj (hbs.symm.trans hv)
      cases r
      cases ht
      cases hid
      rfl

/-- **The encoder writes the record or nothing**: it fails exactly when the value has no
record or the record does not fit. -/
theorem tlvEncodeResource_eq (resId : UInt16) (v : Value) (m : Mem) (buf bufSize : ℕ) :
    tlvEncodeResource fp resId v m buf bufSize =
      match TlvRecord.ofValue fp resId v with
      | none => (m, none)
      | some r =>
        if bufSize < r.bytes.length then (m, none)
        else (store m buf r.bytes, some r.bytes.length) := by
  rw [tlvEncodeResource]
  cases hr : TlvRecord.ofValue fp resId v with
  | none =>
    rw [TlvRecord.ofValue_eq_none.mp hr]
    exact ite_self _
  | some r =>
    obtain ⟨ht, hid, hv⟩ := TlvRecord.ofValue_eq_some.mp hr
    have hhdr := writeTlvHeader_eq r m buf bufSize
    have h2 := r.two_le_length_header
    have hlen := r.length_bytes
    rw [ht, hid] at hhdr
    simp only [hv, hhdr]
    by_cases hfit : bufSize < r.bytes.length
    · simp only [if_pos hfit, ite_self]
    · simp only [if_neg hfit]
      rw [if_neg (by omega), if_neg (by omega), store_store, hlen]
      rfl

/-- **The round trip of a record**, at any place it is found, followed by anything. -/
theorem tlvDecode_ofValue {resId : UInt16} {v : Value} {r : TlvRecord}
    (hr : TlvRecord.ofValue fp resId v = some r) {m : Mem} {a bufLen : ℕ} (out : TlvHeader)
    (hm : load m a r.bytes.length = r.bytes) (hle : r.bytes.length ≤ bufLen) :
    ∃ h, tlvDecodeHeader m a bufLen out = (h, some r.bytes.length) ∧ h.tlvType = .resource ∧
      h.id = resId ∧ tlvDecodeValue fp v.type m (a + h.valueOffset) h.valueLen = .ok v := by
  obtain ⟨ht, hid, hv⟩ := TlvRecord.ofValue_eq_some.mp hr
  exact ⟨_, tlvDecodeHeader_record out hm hle, ht, hid,
    tlvDecodeValue_valueBytes hv (TlvRecord.load_value hm)⟩

/-- **The TLV round trip.** Whatever the encoder has written, at most `bufSize` bytes,
is read back by the two decoders: moved anywhere, followed by any bytes `s`, the record
is taken off the front with its identifier, and its value slice decodes to the value. -/
theorem tlv_round_trip (fp : FloatOps) (resId : UInt16) (v : Value) (m m' : Mem)
    (buf bufSize n : ℕ) (henc : tlvEncodeResource fp resId v m buf bufSize = (m', some n)) :
    n ≤ bufSize ∧
      ∀ (m₂ : Mem) (a : ℕ) (s : List UInt8) (out : TlvHeader),
        load m₂ a (n + s.length) = load m' buf n ++ s →
        ∃ h, tlvDecodeHeader m₂ a (n + s.length) out = (h, some n) ∧ h.tlvType = .resource ∧
          h.id = resId ∧ tlvDecodeValue fp v.type m₂ (a + h.valueOffset) h.valueLen = .ok v := by
  rw [tlvEncodeResource_eq] at henc
  cases hr : TlvRecord.ofValue fp resId v with
  | none =>
    rw [hr] at henc
    exact absurd (congrArg Prod.snd henc) (by simp)
  | some r =>
    simp only [hr] at henc
    split_ifs at henc with hfit
    · exact absurd (congrArg Prod.snd henc) (by simp)
    · obtain ⟨rfl, hn⟩ := Prod.mk.inj henc
      obtain rfl := Option.some.inj hn
      refine ⟨by omega, fun m₂ a s out hm => ?_⟩
      rw [load_store, load_add] at hm
      have hm' := (List.append_inj hm (length_load _ _ _)).1
      exact tlvDecode_ofValue hr out hm' (by omega)

/-- A string of nine bytes, behind a one-byte length field. -/
theorem tlv_round_trip_string :
    9 + 3 ≤ 32 ∧ ∀ (m₂ : Mem) (a : ℕ) (s : List UInt8) (out : TlvHeader),
      load m₂ a (12 + s.length) =
        [0xC8, 0x0A, 9, 108, 119, 109, 50, 109, 32, 107, 101, 121] ++ s →
      ∃ h, tlvDecodeHeader m₂ a (12 + s.length) out = (h, some 12) ∧ h.tlvType = .resource ∧
        h.id = 10 ∧
        tlvDecodeValue ieee754 .string m₂ (a + h.valueOffset) h.valueLen =
          .ok (.string (ascii "lwm2m key")) :=
  tlv_round_trip ieee754 10 (.string (ascii "lwm2m key")) (fun _ => 0) _ 0 32 12 rfl

end WbLwm2m

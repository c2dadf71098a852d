import WbLwm2m.TlvPrefix

/-!
# The size of a record, and the shortest encoding

The header decoder takes more than the encoder writes: an identifier below 256 in two bytes,
a length field that is wider than it has to be, an integer behind more sign bytes than it
needs, any byte but zero for `true`. Of all these encodings of a resource the encoder picks
the shortest one (`WbLwm2m.tlv_reencode`). A record takes
`WbLwm2m.tlvRecordSize` bytes, which grows with the length of the value, and every header that
is accepted has fields that are at least as wide
(`WbLwm2m.tlvRecordSize_le_size`).

Its temporary buffer is what keeps the encoder from writing every record of the format: a
value of more than 256 bytes is refused (`WbLwm2m.tlv_encode_octets_iff`).
-/

namespace WbLwm2m

open Memory

/-! ### The size of a record -/

/-- The width of the length field a length needs. -/
def tlvLenFieldSize (len : ℕ) : ℕ :=
  if len ≤ 7 then 0 else if len ≤ 0xFF then 1 else if len ≤ 0xFFFF then 2 else 3

/-- **The size of a record**: its type byte, an identifier field of one or two bytes, the
length field and the value. -/
def tlvRecordSize (id : UInt16) (len : ℕ) : ℕ :=
  1 + (if 0xFF < id then 2 else 1) + tlvLenFieldSize len + len

theorem lengthField_width {len k : ℕ} {bits : UInt8} (h : lengthField len = some (bits, k)) :
    k = tlvLenFieldSize len := by
  unfold lengthField at h
  unfold tlvLenFieldSize
  split_ifs at h ⊢ <;> simp only [Option.some.injEq, Prod.mk.injEq] at h <;> exact h.2.symm

theorem TlvRecord.length_bytes_eq (r : TlvRecord) :
    r.bytes.length = tlvRecordSize r.id r.value.length := by
  obtain ⟨bits, k, hk⟩ := exists_lengthField r.value_lt
  rw [TlvRecord.length_bytes, TlvRecord.length_header hk, lengthField_width hk, tlvRecordSize]

/-- A longer value does not make a shorter record. -/
theorem tlvRecordSize_mono (id : UInt16) : Monotone (tlvRecordSize id) := by
  intro len len' hle
  have hfield : tlvLenFieldSize len ≤ tlvLenFieldSize len' := by
    unfold tlvLenFieldSize
    split_ifs <;> omega
  unfold tlvRecordSize
  omega

/-! ### Documented lengths -/

/-- The bytes of a string, a link list or an opaque value. -/
def Value.octets : Value → Option (List UInt8)
  | .string s | .corelnk s | .opaqueData s => some s
  | _ => Option.none

variable {fp : FloatOps}

theorem tlvValueBytes_octets {v : Value} {s : List UInt8} (hs : v.octets = some s) :
    tlvValueBytes fp v = if 256 < s.length then none else some s := by
  rcases v with _ | s' | _ | _ | _ | _ | s' | _ | _ | s'
  case string | opaqueData | corelnk =>
    obtain rfl := Option.some.inj hs
    rfl
  all_goals cases hs

/-- **Which lengths the encoder accepts.** A string, a link list or an opaque value is encoded
into every buffer its record fits in, and into no smaller one, if and only if it has at most
256 bytes. The documented range ends at 65535. -/
theorem tlv_encode_octets_iff (fp : FloatOps) (resId : UInt16) {v : Value} {s : List UInt8}
    (hs : v.octets = some s) :
    (∀ m buf bufSize, (tlvEncodeResource fp resId v m buf bufSize).2 =
      if tlvRecordSize resId s.length ≤ bufSize then some (tlvRecordSize resId s.length)
      else none) ↔ s.length ≤ 256 := by
  have hbytes := @tlvValueBytes_octets fp v s hs
  constructor
  · intro hall
    by_contra hlong
    have hnone : TlvRecord.ofValue fp resId v = none := by
      rw [TlvRecord.ofValue_eq_none, hbytes, if_pos (not_le.mp hlong)]
    have hsome := hall (fun _ => 0) 0 (tlvRecordSize resId s.length)
    rw [if_pos le_rfl, tlvEncodeResource_eq, hnone] at hsome
    cases hsome
  · rintro hshort m buf bufSize
    rw [if_neg (not_lt.mpr hshort)] at hbytes
    have hrec : TlvRecord.ofValue fp resId v = some ⟨.resource, resId, s, by omega⟩ :=
      TlvRecord.ofValue_eq_some.mpr ⟨rfl, rfl, hbytes⟩
    have hlen := TlvRecord.length_bytes_eq ⟨.resource, resId, s, by omega⟩
    rw [tlvEncodeResource_eq, hrec]
    simp only [hlen]
    by_cases hfit : tlvRecordSize resId s.length ≤ bufSize
    · rw [if_pos hfit, if_neg (not_lt.mpr hfit)]
    · rw [if_neg hfit, if_pos (not_le.mp hfit)]

/-- Eight bytes under a 16-bit identifier take twelve. -/
theorem tlv_encode_octets_iff_eight :
    (tlvEncodeResource ieee754 300 (.opaqueData (ascii "firmware")) (fun _ => 0) 0 12).2 =
      some 12 :=
  (tlv_encode_octets_iff ieee754 300 (v := .opaqueData (ascii "firmware")) rfl).mpr
    (by decide) (fun _ => 0) 0 12

/-- A string of 257 bytes is refused, in a buffer its record of 261 bytes fits in. -/
theorem tlv_encode_octets_long :
    tlvRecordSize 0 (List.replicate 257 (0x41 : UInt8)).length = 261 ∧
      (tlvEncodeResource ieee754 0 (.string (List.replicate 257 0x41)) (fun _ => 0) 0 261).2 =
        none := by
  have hlen : (List.replicate 257 (0x41 : UInt8)).length = 257 := List.length_replicate
  have hbytes : ∀ s : List UInt8, 256 < s.length → tlvValueBytes ieee754 (.string s) = none :=
    fun s hs => if_pos hs
  refine ⟨by rw [hlen]; rfl, ?_⟩
  rw [tlvEncodeResource, hbytes _ (by rw [hlen]; decide), if_neg (by decide)]

/-! ### Every accepted header is wide enough -/

theorem lenTypeOf_lt (b : UInt8) : lenTypeOf b < 4 := by
  rw [lenTypeOf, UInt8.toNat_and]
  exact lt_of_le_of_lt Nat.and_le_right (by decide)

/-- The length field holds the length. -/
theorem valueLen_le (m : Mem) (buf : ℕ) :
    (lenTypeOf (m buf) = 0 → (tlvHeaderAt m buf).valueLen ≤ 7) ∧
      (lenTypeOf (m buf) ≠ 0 → (tlvHeaderAt m buf).valueLen < 256 ^ lenTypeOf (m buf)) := by
  rw [tlvHeaderAt]
  dsimp only
  constructor
  · intro h0
    rw [if_pos h0, UInt8.toNat_and]
    exact Nat.and_le_right
  · intro hne
    rw [if_neg hne]
    have hlt := BigEndian.toNat_lt (load m (buf + (1 + idLenOf (m buf))) (lenTypeOf (m buf)))
    rwa [length_load] at hlt

theorem tlvLenFieldSize_le (m : Mem) (buf : ℕ) :
    tlvLenFieldSize (tlvHeaderAt m buf).valueLen ≤ lenTypeOf (m buf) := by
  obtain ⟨hshort, hlong⟩ := valueLen_le m buf
  have hlt := lenTypeOf_lt (m buf)
  generalize lenTypeOf (m buf) = k at hshort hlong hlt ⊢
  rw [tlvLenFieldSize]
  obtain rfl | rfl | rfl | rfl : k = 0 ∨ k = 1 ∨ k = 2 ∨ k = 3 := by omega
  · rw [if_pos (hshort rfl)]
  all_goals
    have hbound := hlong (by decide)
    split_ifs <;> omega

/-- The length of a value has a length field. -/
theorem valueLen_lt (m : Mem) (buf : ℕ) : (tlvHeaderAt m buf).valueLen < 2 ^ 24 := by
  obtain ⟨hshort, hlong⟩ := valueLen_le m buf
  rcases Nat.eq_zero_or_pos (lenTypeOf (m buf)) with h0 | hpos
  · exact (hshort h0).trans_lt (by decide)
  · calc (tlvHeaderAt m buf).valueLen < 256 ^ lenTypeOf (m buf) := hlong hpos.ne'
      _ ≤ 256 ^ 3 := Nat.pow_le_pow_right (by decide) (Nat.le_of_lt_succ (lenTypeOf_lt _))

/-- An identifier above 255 has been read from two bytes. -/
theorem idLenOf_of_lt {m : Mem} {buf : ℕ} (h : 0xFF < (tlvHeaderAt m buf).id) :
    idLenOf (m buf) = 2 := by
  by_contra hne
  rw [tlvHeaderAt] at h
  dsimp only at h
  rw [if_neg hne, UInt16.lt_iff_toNat_lt, UInt8.toNat_toUInt16] at h
  have hbyte := (m (buf + 1)).toNat_lt
  rw [show (0xFF : UInt16).toNat = 255 from rfl] at h
  omega

/-- **No accepted record is smaller** than the one the encoder would write for its identifier
and the length of its value. -/
theorem tlvRecordSize_le_size (m : Mem) (buf : ℕ) :
    tlvRecordSize (tlvHeaderAt m buf).id (tlvHeaderAt m buf).valueLen ≤
      (tlvHeaderAt m buf).size := by
  have hlen := tlvLenFieldSize_le m buf
  have hid : (if 0xFF < (tlvHeaderAt m buf).id then 2 else 1) ≤ idLenOf (m buf) := by
    split
    · next h => exact (idLenOf_of_lt h).ge
    · have := idLenOf_cases (m buf)
      omega
  have hoff : (tlvHeaderAt m buf).valueOffset = 1 + idLenOf (m buf) + lenTypeOf (m buf) := rfl
  rw [tlvRecordSize, TlvHeader.size, hoff]
  omega

/-! ### Values -/

/-- **The encoder picks the least width** that holds a signed integer. -/
theorem intByteCount_le {v : Int64} {n : ℕ} (hn : n = 1 ∨ n = 2 ∨ n = 4 ∨ n = 8)
    (hlo : -256 ^ n ≤ 2 * v.toInt) (hhi : 2 * v.toInt < 256 ^ n) : intByteCount v ≤ n := by
  unfold intByteCount
  obtain rfl | rfl | rfl | rfl := hn <;> split_ifs <;> omega

/-- **The encoder picks the least width** that holds an unsigned integer. -/
theorem uintByteCount_le {v : UInt64} {n : ℕ} (hn : n = 1 ∨ n = 2 ∨ n = 4 ∨ n = 8)
    (h : v.toNat < 256 ^ n) : uintByteCount v ≤ n := by
  have hiff : ∀ b : UInt64, v ≤ b ↔ v.toNat ≤ b.toNat := fun b => UInt64.le_iff_toNat_le
  unfold uintByteCount
  simp only [hiff, UInt64.reduceToNat]
  obtain rfl | rfl | rfl | rfl := hn <;> split_ifs <;> omega

theorem writeIntBe_readIntBe_length_le {bs : List UInt8}
    (hn : bs.length = 1 ∨ bs.length = 2 ∨ bs.length = 4 ∨ bs.length = 8) :
    (writeIntBe (readIntBe bs) (intByteCount (readIntBe bs))).length ≤ bs.length := by
  have hne : bs ≠ [] := by
    rintro rfl
    simp at hn
  obtain ⟨hlo, hhi⟩ := BigEndian.toInt_bounds hne
  rw [← toInt_readIntBe hne (by omega)] at hlo hhi
  rw [writeIntBe, length_writeUintBe]
  exact intByteCount_le hn hlo hhi

theorem writeUintBe_readUintBe_length_le {bs : List UInt8}
    (hn : bs.length = 1 ∨ bs.length = 2 ∨ bs.length = 4 ∨ bs.length = 8) :
    (writeUintBe (readUintBe bs) (uintByteCount (readUintBe bs))).length ≤ bs.length := by
  rw [length_writeUintBe]
  refine uintByteCount_le hn ?_
  rw [toNat_readUintBe]
  exact (Nat.mod_le _ _).trans_lt (BigEndian.toNat_lt bs)

/-- The value decoder answers a value of the type it was asked for. -/
theorem type_of_decodeValue {T : ResType} {m : Mem} {a len : ℕ} {v : Value}
    (hval : tlvDecodeValue fp T m a len = .ok v) : v.type = T := by
  unfold tlvDecodeValue at hval
  split at hval
  all_goals
    try split_ifs at hval
  all_goals
    cases hval
    try rfl

/-- **A decoded value is encoded into no more bytes** than it was decoded from. -/
theorem exists_valueBytes_le {T : ResType} {m : Mem} {a len : ℕ} {v : Value}
    (hfloat : T ≠ .float) (hval : tlvDecodeValue fp T m a len = .ok v)
    (hoct : ∀ s, v.octets = some s → s.length ≤ 256) :
    ∃ bs, tlvValueBytes fp v = some bs ∧ bs.length ≤ len := by
  have hload := length_load m a len
  cases T with
  | none => cases hval
  | float => exact absurd rfl hfloat
  | string | corelnk | opaqueData =>
    obtain rfl := Except.ok.inj hval
    exact ⟨_, if_neg (not_lt.mpr (hoct _ rfl)), hload.le⟩
  | integer | time =>
    rw [tlvDecodeValue] at hval
    split_ifs at hval with hwidth
    obtain rfl := Except.ok.inj hval
    have hle := writeIntBe_readIntBe_length_le (show (load m a len).length = 1 ∨ _ by omega)
    exact ⟨_, rfl, hle.trans hload.le⟩
  | uinteger =>
    rw [tlvDecodeValue] at hval
    split_ifs at hval with hwidth
    obtain rfl := Except.ok.inj hval
    have hle := writeUintBe_readUintBe_length_le (show (load m a len).length = 1 ∨ _ by omega)
    exact ⟨_, rfl, hle.trans hload.le⟩
  | boolean =>
    rw [tlvDecodeValue] at hval
    split_ifs at hval with hlen
    obtain rfl := Except.ok.inj hval
    exact ⟨_, rfl, (not_not.mp hlen).ge⟩
  | objlink =>
    rw [tlvDecodeValue] at hval
    split_ifs at hval with hlen
    obtain rfl := Except.ok.inj hval
    exact ⟨_, rfl, (not_not.mp hlen).ge⟩

/-- **The record of what has been decoded** is no longer than what it was decoded from. -/
theorem exists_record_le {m : Mem} {buf n : ℕ} {out h : TlvHeader} {T : ResType} {v : Value}
    (hdec : tlvDecodeHeader m buf n out = (h, some n)) (hfloat : T ≠ .float)
    (hval : tlvDecodeValue fp T m (buf + h.valueOffset) h.valueLen = .ok v)
    (hoct : ∀ s, v.octets = some s → s.length ≤ 256) :
    ∃ r, TlvRecord.ofValue fp h.id v = some r ∧ r.bytes.length ≤ n := by
  obtain ⟨rfl, hn, -⟩ := tlvDecodeHeader_eq_some.mp hdec
  obtain ⟨bs, hbs, hle⟩ := exists_valueBytes_le hfloat hval hoct
  have hlt : bs.length < 2 ^ 24 := hle.trans_lt (valueLen_lt m buf)
  refine ⟨⟨.resource, (tlvHeaderAt m buf).id, bs, hlt⟩,
    TlvRecord.ofValue_eq_some.mpr ⟨rfl, rfl, hbs⟩, ?_⟩
  rw [TlvRecord.length_bytes_eq]
  calc tlvRecordSize (tlvHeaderAt m buf).id bs.length
      ≤ tlvRecordSize (tlvHeaderAt m buf).id (tlvHeaderAt m buf).valueLen :=
        tlvRecordSize_mono _ hle
    _ ≤ (tlvHeaderAt m buf).size := tlvRecordSize_le_size m buf
    _ = n := hn.symm

/-! ### Encoding again -/

/-- **Encoding again normalises.** What the decoders accept whole, with a value that is not a
`float`, is encoded into the same room, in `k` bytes. These decode to the same
identifier and value, encoding them once more gives them back, and nothing shorter decodes to
that identifier and value. -/
theorem tlv_reencode (fp : FloatOps) {m : Mem} {buf n : ℕ} {out h : TlvHeader} {T : ResType}
    {v : Value} (hdec : tlvDecodeHeader m buf n out = (h, some n)) (hfloat : T ≠ .float)
    (hval : tlvDecodeValue fp T m (buf + h.valueOffset) h.valueLen = .ok v)
    (hoct : ∀ s, v.octets = some s → s.length ≤ 256) (m₁ : Mem) (dst : ℕ) :
    ∃ m₂ k, tlvEncodeResource fp h.id v m₁ dst n = (m₂, some k) ∧ k ≤ n ∧
      (∀ m₃ src out₃, load m₃ src k = load m₂ dst k →
        ∃ h₃, tlvDecodeHeader m₃ src k out₃ = (h₃, some k) ∧ h₃.tlvType = .resource ∧
          h₃.id = h.id ∧ tlvDecodeValue fp T m₃ (src + h₃.valueOffset) h₃.valueLen = .ok v ∧
          ∀ m₄ dst₄, ∃ m₅, tlvEncodeResource fp h₃.id v m₄ dst₄ k = (m₅, some k) ∧
            load m₅ dst₄ k = load m₂ dst k) ∧
      ∀ m' src n' out' h', tlvDecodeHeader m' src n' out' = (h', some n') → h'.id = h.id →
        tlvDecodeValue fp T m' (src + h'.valueOffset) h'.valueLen = .ok v → k ≤ n' := by
  obtain ⟨r, hr, hle⟩ := exists_record_le hdec hfloat hval hoct
  -- into a buffer that is large enough, the encoder writes the record
  have henc : ∀ m₀ a size, r.bytes.length ≤ size → tlvEncodeResource fp h.id v m₀ a size =
      (store m₀ a r.bytes, some r.bytes.length) := by
    intro m₀ a size hsize
    rw [tlvEncodeResource_eq, hr]
    exact if_neg (not_lt.mpr hsize)
  refine ⟨_, _, henc m₁ dst n hle, hle, fun m₃ src out₃ hm => ?_, ?_⟩
  · rw [load_store] at hm
    obtain ⟨h₃, hdec₃, hty₃, hid₃, hval₃⟩ := tlvDecode_ofValue hr out₃ hm le_rfl
    rw [type_of_decodeValue hval] at hval₃
    refine ⟨h₃, hdec₃, hty₃, hid₃, hval₃, fun m₄ dst₄ => ?_⟩
    rw [hid₃]
    exact ⟨_, henc m₄ dst₄ _ le_rfl, by rw [load_store, load_store]⟩
  · rintro m' src n' out' h' hdec' hid' hval'
    obtain ⟨r', hr', hle'⟩ := exists_record_le hdec' hfloat hval' hoct
    rw [hid', hr] at hr'
    obtain rfl := Option.some.inj hr'
    exact hle'

/-- The integer `7` under the identifier `5`, each in two bytes and behind a length field: of
these six bytes the encoder makes three. -/
theorem tlv_reencode_wide :
    ∃ m₂ k, tlvEncodeResource ieee754 5 (.integer 7) (fun _ => 0) 0 6 = (m₂, some k) ∧ k ≤ 3 := by
  have hdec : tlvDecodeHeader (store (fun _ => 0) 0 [0xE8, 0, 5, 2, 0, 7]) 0 6
      ⟨.resource, 0, 0, 0⟩ = (⟨.resource, 5, 4, 2⟩, some 6) := rfl
  have hval : tlvDecodeValue ieee754 .integer (store (fun _ => 0) 0 [0xE8, 0, 5, 2, 0, 7]) 4 2 =
      .ok (.integer 7) := rfl
  obtain ⟨m₂, k, henc, -, -, hmin⟩ :=
    tlv_reencode ieee754 hdec (by decide) hval (by simp [Value.octets]) (fun _ => 0) 0
  exact ⟨m₂, k, henc, hmin (store (fun _ => 0) 0 [0xC1, 5, 7]) 0 3 ⟨.resource, 0, 0, 0⟩
    ⟨.resource, 5, 2, 1⟩ rfl rfl rfl⟩

end WbLwm2m

import WbLwm2m.Lib.PrefixCode
import WbLwm2m.TlvInstance

/-!
# Records as a prefix code

`wb_lwm2m_tlv_decode_header` on any bytes, not only on those of the encoder. What a header
says, `WbLwm2m.tlvHeaderAt`, depends on the bytes in front of the value alone
(`WbLwm2m.tlvHeaderAt_congr`), and the decoder accepts exactly when the record it announces
is all there (`WbLwm2m.tlvDecodeHeader_eq_some`). So the decoder is a self-delimiting reader
(`WbLwm2m.tlvNext_selfDelimiting`), and what it accepts whole is a prefix code.

That it never looks behind the end of its buffer is not visible in a total memory.
`WbLwm2m.tlvReadHeader` is the decoder on the bytes of the buffer alone, where a read
behind the last one has no result; it always has one (`WbLwm2m.tlvReadHeader_load`).
-/

namespace WbLwm2m

open Memory PrefixCode InformationTheory

/-! ### What a header says -/

/-- The width of the identifier field. -/
def idLenOf (typeByte : UInt8) : ℕ := if typeByte &&& 0x20 ≠ 0 then 2 else 1

/-- The width of the length field. -/
def lenTypeOf (typeByte : UInt8) : ℕ := (typeByte >>> 3 &&& 0x03).toNat

/-- **The header at an address**, whether or not the record is all there. -/
def tlvHeaderAt (m : Mem) (buf : ℕ) : TlvHeader where
  tlvType := TlvType.ofByte (m buf)
  id := if idLenOf (m buf) = 2 then (m (buf + 1)).toUInt16 <<< 8 ||| (m (buf + 2)).toUInt16
    else (m (buf + 1)).toUInt16
  valueOffset := 1 + idLenOf (m buf) + lenTypeOf (m buf)
  valueLen := if lenTypeOf (m buf) = 0 then (m buf &&& 0x07).toNat
    else BigEndian.toNat (load m (buf + (1 + idLenOf (m buf))) (lenTypeOf (m buf)))

/-- The size of the record a header announces. -/
def TlvHeader.size (h : TlvHeader) : ℕ := h.valueOffset + h.valueLen

theorem idLenOf_cases (b : UInt8) : idLenOf b = 1 ∨ idLenOf b = 2 := by
  unfold idLenOf
  split
  · exact Or.inr rfl
  · exact Or.inl rfl

theorem two_le_size (m : Mem) (buf : ℕ) : 2 ≤ (tlvHeaderAt m buf).size := by
  have hid := idLenOf_cases (m buf)
  rw [TlvHeader.size, tlvHeaderAt]
  dsimp only
  omega

/-- **The decoder accepts exactly the records that are all there**, and then it has written
what the header says. -/
theorem tlvDecodeHeader_of_le {m : Mem} {buf bufLen : ℕ} (out : TlvHeader)
    (hle : (tlvHeaderAt m buf).size ≤ bufLen) :
    tlvDecodeHeader m buf bufLen out = (tlvHeaderAt m buf, some (tlvHeaderAt m buf).size) := by
  have hid := idLenOf_cases (m buf)
  have h2 := two_le_size m buf
  have hsize : 1 + idLenOf (m buf) + lenTypeOf (m buf) + (tlvHeaderAt m buf).valueLen ≤ bufLen :=
    hle
  rw [tlvDecodeHeader, if_neg (by omega)]
  change (if bufLen < 1 + idLenOf (m buf) then _ else
    if lenTypeOf (m buf) ≠ 0 ∧ bufLen < 1 + idLenOf (m buf) + lenTypeOf (m buf) then _ else
    if bufLen < 1 + idLenOf (m buf) + lenTypeOf (m buf) + (tlvHeaderAt m buf).valueLen then _
    else (tlvHeaderAt m buf, some (tlvHeaderAt m buf).size)) = _
  rw [if_neg (by omega), if_neg (by omega), if_neg (by omega)]

theorem tlvDecodeHeader_of_lt {m : Mem} {buf bufLen : ℕ} (out : TlvHeader)
    (hlt : bufLen < (tlvHeaderAt m buf).size) : (tlvDecodeHeader m buf bufLen out).2 = none := by
  have hsize : bufLen <
      1 + idLenOf (m buf) + lenTypeOf (m buf) + (tlvHeaderAt m buf).valueLen := hlt
  rw [tlvDecodeHeader]
  split
  · rfl
  · change (if bufLen < 1 + idLenOf (m buf) then (_, none) else
      if lenTypeOf (m buf) ≠ 0 ∧ bufLen < 1 + idLenOf (m buf) + lenTypeOf (m buf) then (_, none)
      else if bufLen < 1 + idLenOf (m buf) + lenTypeOf (m buf) + (tlvHeaderAt m buf).valueLen
        then (_, none) else (_, some _)).2 = none
    rw [if_pos hsize]
    split
    · rfl
    · split <;> rfl

theorem tlvDecodeHeader_eq_some {m : Mem} {buf bufLen n : ℕ} {out h : TlvHeader} :
    tlvDecodeHeader m buf bufLen out = (h, some n) ↔
      h = tlvHeaderAt m buf ∧ n = (tlvHeaderAt m buf).size ∧ n ≤ bufLen := by
  by_cases hle : (tlvHeaderAt m buf).size ≤ bufLen
  · rw [tlvDecodeHeader_of_le out hle, Prod.mk.injEq, Option.some.injEq]
    constructor
    · rintro ⟨rfl, rfl⟩
      exact ⟨rfl, rfl, hle⟩
    · rintro ⟨rfl, rfl, -⟩
      exact ⟨rfl, rfl⟩
  · refine iff_of_false (fun heq => ?_) fun ⟨_, hn, hn'⟩ => hle (hn ▸ hn')
    have hnone := tlvDecodeHeader_of_lt out (not_le.mp hle)
    rw [heq] at hnone
    exact absurd hnone (Option.some_ne_none n)

theorem tlvDecodeHeader_eq_none {m : Mem} {buf bufLen : ℕ} {out : TlvHeader} :
    (tlvDecodeHeader m buf bufLen out).2 = none ↔ bufLen < (tlvHeaderAt m buf).size := by
  refine ⟨fun hnone => ?_, tlvDecodeHeader_of_lt out⟩
  by_contra hle
  rw [tlvDecodeHeader_of_le out (not_lt.mp hle)] at hnone
  exact absurd hnone (Option.some_ne_none _)

/-- **A header depends on its own bytes alone.** -/
theorem tlvHeaderAt_congr {m m' : Mem} {buf buf' : ℕ}
    (hm : load m' buf' (tlvHeaderAt m buf).valueOffset =
      load m buf (tlvHeaderAt m buf).valueOffset) : tlvHeaderAt m' buf' = tlvHeaderAt m buf := by
  have hbyte : ∀ i < 1 + idLenOf (m buf) + lenTypeOf (m buf), m' (buf' + i) = m (buf + i) :=
    load_eq_load.mp hm
  have hid := idLenOf_cases (m buf)
  have h0 : m' buf' = m buf := hbyte 0 (by omega)
  have h1 : m' (buf' + 1) = m (buf + 1) := hbyte 1 (by omega)
  have h2 : idLenOf (m buf) = 2 → m' (buf' + 2) = m (buf + 2) := fun h => hbyte 2 (by omega)
  have hlen : load m' (buf' + (1 + idLenOf (m buf))) (lenTypeOf (m buf)) =
      load m (buf + (1 + idLenOf (m buf))) (lenTypeOf (m buf)) := by
    refine load_eq_load.mpr fun i hi => ?_
    rw [Nat.add_assoc buf', Nat.add_assoc buf]
    exact hbyte (1 + idLenOf (m buf) + i) (by omega)
  have hidf : (if idLenOf (m buf) = 2 then (m (buf + 1)).toUInt16 <<< 8 |||
      (m' (buf' + 2)).toUInt16 else (m (buf + 1)).toUInt16) = (tlvHeaderAt m buf).id :=
    ite_congr rfl (fun h => by rw [h2 h]) fun _ => rfl
  rw [tlvHeaderAt, h0, h1, hlen, hidf]
  rfl

/-- **Replacing or cutting what follows a record** changes nothing. -/
theorem tlvDecodeHeader_congr {m m' : Mem} {buf buf' bufLen bufLen' n : ℕ} {out h : TlvHeader}
    (hdec : tlvDecodeHeader m buf bufLen out = (h, some n)) (out' : TlvHeader)
    (hm : load m' buf' n = load m buf n) (hle : n ≤ bufLen') :
    tlvDecodeHeader m' buf' bufLen' out' = (h, some n) := by
  obtain ⟨rfl, rfl, -⟩ := tlvDecodeHeader_eq_some.mp hdec
  rw [TlvHeader.size, load_add, load_add] at hm
  have hhdr := tlvHeaderAt_congr (List.append_inj hm (by rw [length_load, length_load])).1
  rw [tlvDecodeHeader_eq_some, hhdr]
  exact ⟨rfl, rfl, hle⟩

/-- The verdict depends on the bytes of the buffer alone. -/
theorem tlvDecodeHeader_snd_congr {m m' : Mem} {buf buf' bufLen : ℕ} (out out' : TlvHeader)
    (hm : load m' buf' bufLen = load m buf bufLen) :
    (tlvDecodeHeader m' buf' bufLen out').2 = (tlvDecodeHeader m buf bufLen out).2 := by
  -- one direction; the other one is the same with the two memories exchanged
  have hsome : ∀ {m m' : Mem} {buf buf' n : ℕ} (out out' : TlvHeader),
      load m' buf' bufLen = load m buf bufLen → (tlvDecodeHeader m buf bufLen out).2 = some n →
      (tlvDecodeHeader m' buf' bufLen out').2 = some n := by
    intro m m' buf buf' n out out' hm hn
    have hdec : tlvDecodeHeader m buf bufLen out = (_, some n) := Prod.ext rfl hn
    have hle : n ≤ bufLen := (tlvDecodeHeader_eq_some.mp hdec).2.2
    have hcut : load m' buf' n = load m buf n := load_eq_load.mpr fun i hi =>
      load_eq_load.mp hm i (hi.trans_le hle)
    rw [tlvDecodeHeader_congr hdec out' hcut hle]
  cases hn : (tlvDecodeHeader m buf bufLen out).2 with
  | some n => exact hsome out out' hm hn
  | none =>
    by_contra hne
    obtain ⟨n, hn'⟩ := Option.ne_none_iff_exists'.mp hne
    rw [hsome out' out hm.symm hn'] at hn
    exact absurd hn (Option.some_ne_none n)

/-! ### The reader of a byte list -/

/-- The decoder as a reader of byte lists: how many bytes the first record takes. -/
def tlvNext (t : List UInt8) : Option ℕ :=
  (tlvDecodeHeader (store (fun _ => 0) 0 t) 0 t.length ⟨.resource, 0, 0, 0⟩).2

/-- It does not matter where the bytes are found, nor what the output parameters held. -/
theorem tlvNext_load (m : Mem) (buf bufLen : ℕ) (out : TlvHeader) :
    tlvNext (load m buf bufLen) = (tlvDecodeHeader m buf bufLen out).2 := by
  have hload := load_store (fun _ => 0) 0 (load m buf bufLen)
  rw [length_load] at hload
  rw [tlvNext, length_load]
  exact tlvDecodeHeader_snd_congr out _ hload

theorem tlvNext_eq {t : List UInt8} {m : Mem} {buf : ℕ} (hm : load m buf t.length = t)
    (out : TlvHeader) : tlvNext t = (tlvDecodeHeader m buf t.length out).2 := by
  rw [← tlvNext_load m buf t.length out, hm]

/-- **The header decoder is a self-delimiting reader.** -/
theorem tlvNext_selfDelimiting : SelfDelimiting tlvNext where
  pos := by
    rintro t n hn
    obtain ⟨-, rfl, -⟩ := tlvDecodeHeader_eq_some.mp (Prod.ext rfl hn)
    exact (two_le_size _ _).trans_lt' Nat.zero_lt_two
  le := by
    rintro t n hn
    exact (tlvDecodeHeader_eq_some.mp (Prod.ext rfl hn)).2.2
  append := by
    rintro t n hn s
    have hdec : tlvDecodeHeader (store (fun _ => 0) 0 t) 0 t.length ⟨.resource, 0, 0, 0⟩ =
      (_, some n) := Prod.ext rfl hn
    have hle : n ≤ t.length := (tlvDecodeHeader_eq_some.mp hdec).2.2
    have htake : (t.take n).length = n := List.length_take_of_le hle
    -- the first `n` bytes of both texts are those of the record
    have ht := load_store_append (fun _ => 0) 0 (t.take n) (t.drop n)
    have ht' := load_store_append (fun _ => 0) 0 (t.take n) s
    rw [List.take_append_drop, htake] at ht
    rw [htake] at ht'
    rw [tlvNext, tlvDecodeHeader_congr hdec _ (ht'.trans ht.symm)]
    rw [List.length_append, htake]
    exact Nat.le_add_right n _

/-! ### Reads stay inside the buffer -/

/-- The `k` bytes from `pos` on, when they are all there. -/
def readBytes (bs : List UInt8) (pos : ℕ) : ℕ → Option (List UInt8)
  | 0 => some []
  | k + 1 => do return (← bs[pos]?) :: (← readBytes bs (pos + 1) k)

/-- The identifier behind the type byte, when its bytes are there. -/
def readId (bs : List UInt8) (idLen : ℕ) : Option UInt16 :=
  if idLen = 2 then do return (← bs[1]?).toUInt16 <<< 8 ||| (← bs[2]?).toUInt16
  else bs[1]?.map UInt8.toUInt16

/-- The length of the value, when the bytes of its field are there. -/
def readLen (bs : List UInt8) (typeByte : UInt8) : Option ℕ :=
  if lenTypeOf typeByte = 0 then some (typeByte &&& 0x07).toNat
  else (readBytes bs (1 + idLenOf typeByte) (lenTypeOf typeByte)).map BigEndian.toNat

/-- **The header decoder with checked reads**: `wb_lwm2m_tlv_decode_header` on the bytes of a
buffer and nothing else. A read behind the last one is a fault, and then there is no
result. -/
def tlvReadHeader (bs : List UInt8) (out : TlvHeader) : Option (TlvHeader × Option ℕ) :=
  if bs.length < 2 then some (out, none)
  else do
    let typeByte ← bs[0]?
    let out := { out with tlvType := TlvType.ofByte typeByte }
    let idLen := idLenOf typeByte
    let lenType := lenTypeOf typeByte
    if bs.length < 1 + idLen then some (out, none)
    else do
      let id ← readId bs idLen
      let out := { out with id := id }
      let pos := 1 + idLen
      if lenType ≠ 0 ∧ bs.length < pos + lenType then some (out, none)
      else do
        let vlen ← readLen bs typeByte
        let pos := pos + lenType
        let out := { out with valueOffset := pos, valueLen := vlen }
        if bs.length < pos + vlen then some (out, none) else some (out, some (pos + vlen))

theorem readBytes_load (m : Mem) (a : ℕ) {n pos k : ℕ} (h : pos + k ≤ n) :
    readBytes (load m a n) pos k = some (load m (a + pos) k) := by
  induction k generalizing pos with
  | zero => rfl
  | succ k ih =>
    rw [readBytes, getElem?_load m a (by omega), ih (by omega), load_succ]
    rfl

theorem readId_load (m : Mem) (a : ℕ) {n : ℕ} (h : 1 + idLenOf (m a) ≤ n) :
    readId (load m a n) (idLenOf (m a)) = some (tlvHeaderAt m a).id := by
  have hid := idLenOf_cases (m a)
  rw [readId, tlvHeaderAt]
  dsimp only
  split
  · rw [getElem?_load m a (by omega), getElem?_load m a (by omega)]
    rfl
  · rw [getElem?_load m a (by omega)]
    rfl

theorem readLen_load (m : Mem) (a : ℕ) {n : ℕ}
    (h : lenTypeOf (m a) = 0 ∨ 1 + idLenOf (m a) + lenTypeOf (m a) ≤ n) :
    readLen (load m a n) (m a) = some (tlvHeaderAt m a).valueLen := by
  rw [readLen, tlvHeaderAt]
  dsimp only
  split
  · rfl
  · rw [readBytes_load m a (by omega), Option.map_some]

/-- **Every read is inside the buffer**: the decoder with checked reads always has a result,
which is that of the decoder. -/
theorem tlvReadHeader_load (m : Mem) (buf bufLen : ℕ) (out : TlvHeader) :
    tlvReadHeader (load m buf bufLen) out = some (tlvDecodeHeader m buf bufLen out) := by
  rw [tlvReadHeader, tlvDecodeHeader, length_load]
  by_cases h2 : bufLen < 2
  · rw [if_pos h2, if_pos h2]
  rw [if_neg h2, if_neg h2, getElem?_load m buf (by omega), Nat.add_zero]
  simp only [Option.bind_eq_bind, Option.bind_some]
  change (if bufLen < 1 + idLenOf (m buf) then _ else _) =
    some (if bufLen < 1 + idLenOf (m buf) then _ else
      if lenTypeOf (m buf) ≠ 0 ∧ bufLen < 1 + idLenOf (m buf) + lenTypeOf (m buf) then _ else
      if bufLen < 1 + idLenOf (m buf) + lenTypeOf (m buf) + (tlvHeaderAt m buf).valueLen then _
      else _)
  by_cases hid : bufLen < 1 + idLenOf (m buf)
  · rw [if_pos hid, if_pos hid]
  rw [if_neg hid, if_neg hid, readId_load m buf (not_lt.mp hid), Option.bind_some]
  by_cases hlen : lenTypeOf (m buf) ≠ 0 ∧ bufLen < 1 + idLenOf (m buf) + lenTypeOf (m buf)
  · rw [if_pos hlen, if_pos hlen]
    rfl
  rw [if_neg hlen, if_neg hlen, readLen_load m buf (by omega), Option.bind_some]
  split <;> rfl

/-! ### Walking a payload -/

theorem tlvDecodeHeader_eq_of_lt {m : Mem} {buf bufLen : ℕ} (out : TlvHeader)
    (hlt : bufLen < (tlvHeaderAt m buf).size) :
    ∃ h, tlvDecodeHeader m buf bufLen out = (h, none) :=
  ⟨_, Prod.ext rfl (tlvDecodeHeader_of_lt out hlt)⟩

/-- A walk does not depend on what the output parameters held before. -/
theorem tlvWalk_out (m : Mem) (buf n fuel off : ℕ) (out out' : TlvHeader) :
    tlvWalk m buf n fuel off out = tlvWalk m buf n fuel off out' := by
  rcases fuel with _ | fuel
  · rfl
  · rw [tlvWalk, tlvWalk]
    rcases Nat.lt_or_ge (n - off) (tlvHeaderAt m (buf + off)).size with hlt | hle
    · obtain ⟨h, hdec⟩ := tlvDecodeHeader_eq_of_lt out hlt
      obtain ⟨h', hdec'⟩ := tlvDecodeHeader_eq_of_lt out' hlt
      rw [hdec, hdec']
    · rw [tlvDecodeHeader_of_le out hle, tlvDecodeHeader_of_le out' hle]

/-- **The walk ends**: with as much fuel as there are bytes left, or more, it finds the same
records, and stops at the same offset, where the decoder fails. -/
theorem tlvWalk_ends (m : Mem) (buf : ℕ) {n off : ℕ} (hoff : off ≤ n) (out : TlvHeader) :
    ∃ hs stop, (∀ fuel, n - off ≤ fuel → tlvWalk m buf n fuel off out = (hs, stop)) ∧
      stop ≤ n ∧ ∀ out', (tlvDecodeHeader m (buf + stop) (n - stop) out').2 = none := by
  -- every record takes two bytes or more from what is left
  induction hleft : n - off using Nat.strong_induction_on generalizing off out with
  | _ left ih =>
    by_cases hsize : n - off < (tlvHeaderAt m (buf + off)).size
    · refine ⟨[], off, fun fuel _ => ?_, hoff, fun out' => tlvDecodeHeader_of_lt out' hsize⟩
      rcases fuel with _ | fuel
      · rfl
      · obtain ⟨h, hdec⟩ := tlvDecodeHeader_eq_of_lt out hsize
        rw [tlvWalk, hdec]
    · have h2 := two_le_size m (buf + off)
      have hdec := tlvDecodeHeader_of_le out (not_lt.mp hsize)
      obtain ⟨hs, stop, hwalk, hstop, hend⟩ :=
        ih (n - (off + (tlvHeaderAt m (buf + off)).size)) (by omega)
          (show off + (tlvHeaderAt m (buf + off)).size ≤ n by omega)
          (tlvHeaderAt m (buf + off)) rfl
      refine ⟨(off, tlvHeaderAt m (buf + off)) :: hs, stop, fun fuel hfuel => ?_, hstop, hend⟩
      obtain ⟨fuel, rfl⟩ : ∃ f, fuel = f + 1 := ⟨fuel - 1, by omega⟩
      rw [tlvWalk, hdec]
      simp only [hwalk fuel (by omega)]

/-! ### The prefix code -/

/-- **A truncated record** is completed by the bytes that are missing. -/
theorem exists_extension {m : Mem} {buf bufLen : ℕ} {out : TlvHeader}
    (hnone : (tlvDecodeHeader m buf bufLen out).2 = none) :
    ∃ s : List UInt8, ∀ m' buf' out', load m' buf' (bufLen + s.length) = load m buf bufLen ++ s →
      (tlvDecodeHeader m' buf' (bufLen + s.length) out').2 = some (bufLen + s.length) := by
  have hlt := tlvDecodeHeader_eq_none.mp hnone
  have hlen : bufLen + (load m (buf + bufLen) ((tlvHeaderAt m buf).size - bufLen)).length =
      (tlvHeaderAt m buf).size := by
    rw [length_load]
    omega
  refine ⟨load m (buf + bufLen) ((tlvHeaderAt m buf).size - bufLen), fun m' buf' out' hm => ?_⟩
  rw [hlen] at hm ⊢
  rw [← load_add, Nat.add_sub_cancel' hlt.le] at hm
  rw [tlvDecodeHeader_congr (tlvDecodeHeader_of_le out le_rfl) out' hm le_rfl]

/-- **TLV records form a prefix code.** What the decoder accepts takes between two bytes and
all there are, its value ends where the record does, whatever follows makes no difference,
and nothing shorter is accepted. It reads no byte behind the buffer, and what it does not
accept is the beginning of something it does. So a walk over a payload ends, and a payload
falls apart into records in at most one way. -/
theorem tlv_prefix_code (m : Mem) (buf bufLen : ℕ) (out : TlvHeader) :
    (∀ h n, tlvDecodeHeader m buf bufLen out = (h, some n) →
      2 ≤ n ∧ n ≤ bufLen ∧ h.valueOffset + h.valueLen = n ∧
      (∀ m' buf' bufLen' out', n ≤ bufLen' → load m' buf' n = load m buf n →
        tlvDecodeHeader m' buf' bufLen' out' = (h, some n)) ∧
      ∀ m' buf' k out', k < n → load m' buf' k = load m buf k →
        (tlvDecodeHeader m' buf' k out').2 = none) ∧
    tlvReadHeader (load m buf bufLen) out = some (tlvDecodeHeader m buf bufLen out) ∧
    ((tlvDecodeHeader m buf bufLen out).2 = none →
      ∃ s : List UInt8, ∀ m' buf' out',
        load m' buf' (bufLen + s.length) = load m buf bufLen ++ s →
        (tlvDecodeHeader m' buf' (bufLen + s.length) out').2 = some (bufLen + s.length)) ∧
    (∃ hs stop, (∀ fuel, bufLen ≤ fuel → tlvWalk m buf bufLen fuel 0 out = (hs, stop)) ∧
      stop ≤ bufLen ∧ ∀ out', (tlvDecodeHeader m (buf + stop) (bufLen - stop) out').2 = none) ∧
    UniquelyDecodable {w : List UInt8 | ∀ m buf out, load m buf w.length = w →
      (tlvDecodeHeader m buf w.length out).2 = some w.length} := by
  refine ⟨fun h n hdec => ?_, tlvReadHeader_load m buf bufLen out, exists_extension,
    tlvWalk_ends m buf (Nat.zero_le bufLen) out, ?_⟩
  · obtain ⟨rfl, hn, hle⟩ := tlvDecodeHeader_eq_some.mp hdec
    refine ⟨hn ▸ two_le_size m buf, hle, hn.symm,
      fun m' buf' bufLen' out' hle' hm => tlvDecodeHeader_congr hdec out' hm hle', ?_⟩
    rintro m' buf' k out' hk hm
    have hnext : tlvNext (load m buf bufLen) = some n := by
      rw [tlvNext_load m buf bufLen out, hdec]
    have hcut := tlvNext_selfDelimiting.take_of_lt hnext hk
    have htake : (load m buf bufLen).take k = load m buf k := by
      obtain ⟨j, rfl⟩ := Nat.exists_eq_add_of_le (hk.le.trans hle)
      rw [load_add, List.take_left' (length_load m buf k)]
    rw [← tlvNext_load m' buf' k out', hm, ← htake, hcut]
  · have hwords : {w : List UInt8 | ∀ m buf out, load m buf w.length = w →
        (tlvDecodeHeader m buf w.length out).2 = some w.length} = words tlvNext := by
      ext w
      rw [Set.mem_ofPred_eq, mem_words]
      constructor
      · intro hw
        rw [tlvNext_eq (load_store (fun _ => 0) 0 w) ⟨.resource, 0, 0, 0⟩]
        exact hw _ 0 _ (load_store _ _ _)
      · rintro hw m buf out hm
        rw [← tlvNext_eq hm out, hw]
    rw [hwords]
    exact tlvNext_selfDelimiting.uniquelyDecodable

end WbLwm2m

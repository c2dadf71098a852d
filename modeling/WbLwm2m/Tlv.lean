import WbLwm2m.Lib.BigEndian
import WbLwm2m.Lib.Memory
import WbLwm2m.Object

/-!
# The TLV encoder and decoder

`wb_lwm2m_tlv.c`, function by function. A record is a type byte, an identifier of
one or two bytes, a length field of up to three bytes and the value:

| bits of the type byte | meaning |
|---|---|
| 7-6 | the kind of identifier (`WbLwm2m.TlvType`) |
| 5 | a 16-bit identifier |
| 4-3 | the number of bytes of the length field |
| 2-0 | the length itself, when there is no length field |

The encoder writes through a memory and an address, as the C code does; the bytes of
a record as such, and what the decoder makes of them, are in `WbLwm2m.TlvRecord`.
-/

namespace WbLwm2m

open Memory

/-- `wb_lwm2m_tlv_type_t` -/
inductive TlvType where
  | objectInstance
  | resourceInstance
  | multiResource
  | resource
deriving DecidableEq, Repr

/-- The value of the enumerator. -/
def TlvType.byte : TlvType → UInt8
  | .objectInstance => 0x00
  | .resourceInstance => 0x40
  | .multiResource => 0x80
  | .resource => 0xC0

/-- The kind of identifier in bits 7-6 of a type byte. -/
def TlvType.ofByte (b : UInt8) : TlvType :=
  if b &&& 0xC0 = 0x00 then .objectInstance
  else if b &&& 0xC0 = 0x40 then .resourceInstance
  else if b &&& 0xC0 = 0x80 then .multiResource
  else .resource

/-! ### Integers -/

/-- The least of 1, 2, 4 and 8 bytes that hold a signed integer. -/
def intByteCount (v : Int64) : ℕ :=
  if -2 ^ 7 ≤ v.toInt ∧ v.toInt ≤ 2 ^ 7 - 1 then 1
  else if -2 ^ 15 ≤ v.toInt ∧ v.toInt ≤ 2 ^ 15 - 1 then 2
  else if -2 ^ 31 ≤ v.toInt ∧ v.toInt ≤ 2 ^ 31 - 1 then 4
  else 8

/-- The least of 1, 2, 4 and 8 bytes that hold an unsigned integer. -/
def uintByteCount (v : UInt64) : ℕ :=
  if v ≤ 0xFF then 1 else if v ≤ 0xFFFF then 2 else if v ≤ 0xFFFFFFFF then 4 else 8

/-- The low `n` bytes of `v`, the last one first. -/
def writeUintBe (v : UInt64) : ℕ → List UInt8
  | 0 => []
  | n + 1 => writeUintBe (v >>> 8) n ++ [(v &&& 0xFF).toUInt8]

/-- The same on the bit pattern of a signed integer. -/
def writeIntBe (v : Int64) (n : ℕ) : List UInt8 := writeUintBe v.toUInt64 n

/-- Read an unsigned integer, most significant byte first. -/
def readUintBe (bs : List UInt8) : UInt64 := bs.foldl (fun v b => v <<< 8 ||| b.toUInt64) 0

/-- Read a signed integer: the first byte is sign-extended. -/
def readIntBe : List UInt8 → Int64
  | [] => 0
  | b :: bs => bs.foldl (fun v b => v <<< 8 ||| b.toUInt64.toInt64) b.toInt8.toInt64

/-! ### Encoding -/

/-- The length bits of the type byte and the number of bytes of the length field;
a length of four bytes or more has neither. -/
def lengthField (valueLen : ℕ) : Option (UInt8 × ℕ) :=
  if valueLen ≤ 7 then some (UInt8.ofNat valueLen &&& 0x07, 0)
  else if valueLen ≤ 0xFF then some (0x08, 1)
  else if valueLen ≤ 0xFFFF then some (0x10, 2)
  else if valueLen ≤ 0xFFFFFF then some (0x18, 3)
  else none

/-- The identifier field. -/
def idField (id : UInt16) : List UInt8 :=
  if 0xFF < id then [(id >>> 8).toUInt8, (id &&& 0xFF).toUInt8] else [id.toUInt8]

/-- `write_tlv_header`: everything is checked before the first byte is written. -/
def writeTlvHeader (m : Mem) (buf bufSize : ℕ) (tlvType : TlvType) (id : UInt16) (valueLen : ℕ) :
    Mem × Option ℕ :=
  let typeByte := if 0xFF < id then tlvType.byte ||| 0x20 else tlvType.byte
  match lengthField valueLen with
  | none => (m, none)
  | some (bits, lenFieldSize) =>
    let hdrSize := 1 + (if 0xFF < id then 2 else 1) + lenFieldSize
    if bufSize < hdrSize + valueLen then (m, none)
    else
      let hdr := (typeByte ||| bits) :: (idField id ++ BigEndian.ofNat valueLen lenFieldSize)
      (store m buf hdr, some hdr.length)

/-- The value bytes `wb_lwm2m_tlv_encode_resource` gathers in its temporary buffer
of 256 bytes. -/
def tlvValueBytes (fp : FloatOps) : Value → Option (List UInt8)
  | .string s | .corelnk s => if 256 < s.length then none else some s
  | .integer v | .time v => some (writeIntBe v (intByteCount v))
  | .uinteger v => some (writeUintBe v (uintByteCount v))
  | .float d =>
    -- four bytes when nothing is lost
    let f32 := fp.narrow d
    if doubleEq (fp.widen f32) d && !isinf f32 then
      some [(f32 >>> 24).toUInt8, (f32 >>> 16).toUInt8, (f32 >>> 8).toUInt8, f32.toUInt8]
    else some (writeUintBe d 8)
  | .boolean b => some [if b then 1 else 0]
  | .opaqueData data => if 256 < data.length then none else some data
  | .objlink o i =>
    some [(o >>> 8).toUInt8, (o &&& 0xFF).toUInt8, (i >>> 8).toUInt8, (i &&& 0xFF).toUInt8]
  | .none => none

/-- `wb_lwm2m_tlv_encode_resource`: the number of bytes written, or `none` for `-1`. -/
def tlvEncodeResource (fp : FloatOps) (resId : UInt16) (value : Value) (m : Mem)
    (buf bufSize : ℕ) : Mem × Option ℕ :=
  if bufSize = 0 then (m, none)
  else match tlvValueBytes fp value with
    | none => (m, none)
    | some valBuf => match writeTlvHeader m buf bufSize .resource resId valBuf.length with
      | (m, none) => (m, none)
      | (m, some hdrLen) =>
        if bufSize < hdrLen + valBuf.length then (m, none)
        else (store m (buf + hdrLen) valBuf, some (hdrLen + valBuf.length))

variable {σ κ : Type}

/-- The loop of `wb_lwm2m_tlv_encode_instance`, from the current offset on. -/
def tlvEncodeLoop (fp : FloatOps) (obj : ObjectDef σ κ) (instId : UInt16) (buf bufSize : ℕ) :
    List (ResourceDef σ κ) → Mem → ℕ → σ → (Mem × Option ℕ) × σ
  | [], m, offset, s => ((m, some offset), s)
  | res :: rest, m, offset, s => match res.read obj instId s with
    | (none, s) => tlvEncodeLoop fp obj instId buf bufSize rest m offset s
    | (some (resId, value), s) =>
      match tlvEncodeResource fp resId value m (buf + offset) (bufSize - offset) with
      | (m, none) => ((m, none), s)
      | (m, some written) =>
        tlvEncodeLoop fp obj instId buf bufSize rest m (offset + written) s

/-- `wb_lwm2m_tlv_encode_instance` -/
def tlvEncodeInstance (fp : FloatOps) (obj : ObjectDef σ κ) (instId : UInt16) (m : Mem)
    (buf bufSize : ℕ) (s : σ) : (Mem × Option ℕ) × σ :=
  if bufSize = 0 then ((m, none), s)
  else tlvEncodeLoop fp obj instId buf bufSize obj.resources m 0 s

/-! ### Decoding -/

/-- The four output parameters of `wb_lwm2m_tlv_decode_header`. -/
structure TlvHeader where
  tlvType : TlvType
  id : UInt16
  valueOffset : ℕ
  valueLen : ℕ
deriving DecidableEq, Repr

/-- `wb_lwm2m_tlv_decode_header`: the output parameters, some of which are written
before a truncated record is noticed, and the number of bytes consumed. -/
def tlvDecodeHeader (m : Mem) (buf bufLen : ℕ) (out : TlvHeader) : TlvHeader × Option ℕ :=
  if bufLen < 2 then (out, none)
  else
    let typeByte := m buf
    -- the output parameters are written as soon as they are known
    let out := { out with tlvType := TlvType.ofByte typeByte }
    let idLen := if typeByte &&& 0x20 ≠ 0 then 2 else 1
    let lenType := (typeByte >>> 3 &&& 0x03).toNat
    let shortLen := (typeByte &&& 0x07).toNat
    if bufLen < 1 + idLen then (out, none)
    else
      let out := { out with
        id := if idLen = 2 then (m (buf + 1)).toUInt16 <<< 8 ||| (m (buf + 2)).toUInt16
          else (m (buf + 1)).toUInt16 }
      let pos := 1 + idLen
      if lenType ≠ 0 ∧ bufLen < pos + lenType then (out, none)
      else
        let vlen := if lenType = 0 then shortLen
          else BigEndian.toNat (load m (buf + pos) lenType)
        let pos := pos + lenType
        let out := { out with valueOffset := pos, valueLen := vlen }
        if bufLen < pos + vlen then (out, none) else (out, some (pos + vlen))

/-- `wb_lwm2m_tlv_decode_value` on the `dataLen` bytes at `data`. A decoded string or
opaque value points into the buffer; it is given by the bytes found there. -/
def tlvDecodeValue (fp : FloatOps) (type : ResType) (m : Mem) (data dataLen : ℕ) :
    Except EspErr Value :=
  match type with
  | .string => .ok (.string (load m data dataLen))
  | .corelnk => .ok (.corelnk (load m data dataLen))
  | .integer =>
    if dataLen ≠ 1 ∧ dataLen ≠ 2 ∧ dataLen ≠ 4 ∧ dataLen ≠ 8 then .error .invalidSize
    else .ok (.integer (readIntBe (load m data dataLen)))
  | .time =>
    if dataLen ≠ 1 ∧ dataLen ≠ 2 ∧ dataLen ≠ 4 ∧ dataLen ≠ 8 then .error .invalidSize
    else .ok (.time (readIntBe (load m data dataLen)))
  | .uinteger =>
    if dataLen ≠ 1 ∧ dataLen ≠ 2 ∧ dataLen ≠ 4 ∧ dataLen ≠ 8 then .error .invalidSize
    else .ok (.uinteger (readUintBe (load m data dataLen)))
  | .float =>
    if dataLen = 4 then .ok (.float (fp.widen (readUintBe (load m data 4)).toUInt32))
    else if dataLen = 8 then .ok (.float (readUintBe (load m data 8)))
    else .error .invalidSize
  | .boolean =>
    if dataLen ≠ 1 then .error .invalidSize else .ok (.boolean (m data ≠ 0))
  | .opaqueData => .ok (.opaqueData (load m data dataLen))
  | .objlink =>
    if dataLen ≠ 4 then .error .invalidSize
    else .ok (.objlink ((m data).toUInt16 <<< 8 ||| (m (data + 1)).toUInt16)
      ((m (data + 2)).toUInt16 <<< 8 ||| (m (data + 3)).toUInt16))
  | .none => .error .notSupported

end WbLwm2m

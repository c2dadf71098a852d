import WbLwm2m.Lib.Memory
import WbLwm2m.Object

/-!
# The SenML-JSON encoders

The SenML half of `wb_lwm2m_encode.c`, function by function: the base64 of opaque
values, the encoder of one resource, and the encoder of an instance with its own
writer for the value field.

The two writers are separate code in the source, each with one format per type, and
they are separate definitions here: `WbLwm2m.senmlText` is the text the first prints in
one go, `WbLwm2m.senmlValueText` the part the second prints after a record header. What
they have in common is proved in `WbLwm2m.SenmlRecord`.

`snprintf` is `Memory.snprintf`: it prints into the buffer, cut to its size. Its other
failure, a text longer than `INT_MAX`, cannot be told from a text that does not fit,
since no buffer is that large.
-/

namespace WbLwm2m

open Memory

/-! ### Base64 -/

/-- `b64_table` -/
def b64Table : List UInt8 :=
  ascii "ABCDEFGHIJKLMNOPQRSTUVWXYZabcdefghijklmnopqrstuvwxyz0123456789+/"

/-- The character of the six low bits of `n`. -/
def b64Char (n : UInt32) : UInt8 := (b64Table[(n &&& 0x3F).toNat]?).getD 0

/-- The characters the loop of `base64_encode` writes: four for every three bytes, with
`=` for what the last group lacks. -/
def base64Chars : List UInt8 → List UInt8
  | [] => []
  | [a] =>
    let n := a.toUInt32 <<< 16
    [b64Char (n >>> 18), b64Char (n >>> 12), 0x3D, 0x3D]
  | [a, b] =>
    let n := a.toUInt32 <<< 16 ||| b.toUInt32 <<< 8
    [b64Char (n >>> 18), b64Char (n >>> 12), b64Char (n >>> 6), 0x3D]
  | a :: b :: c :: rest =>
    let n := a.toUInt32 <<< 16 ||| b.toUInt32 <<< 8 ||| c.toUInt32
    b64Char (n >>> 18) :: b64Char (n >>> 12) :: b64Char (n >>> 6) :: b64Char n ::
      base64Chars rest

/-- `base64_encode`: the characters and a terminator, if the destination holds them. -/
def base64Encode (src : List UInt8) (m : Mem) (dst dstSize : ℕ) : Mem × Option ℕ :=
  let needed := 4 * ((src.length + 2) / 3) + 1
  if dstSize < needed then (m, none)
  else (store m dst (base64Chars src ++ [0]), some (base64Chars src).length)

/-- The text of an opaque value, through the local `char b64[344]` of both writers. -/
def b64Text (data : List UInt8) : Option (List UInt8) :=
  match base64Encode data (fun _ => 0) 0 344 with
  | (_, none) => none
  | (b64, some n) => some (load b64 0 n)

/-! ### One resource -/

/-- `%PRIu16` -/
def fmtU16 (v : UInt16) : List UInt8 := Decimal.ofNat v.toNat

/-- `%.*s` with the length of the string as precision: a NUL inside it ends the text. -/
def fmtStr (str : List UInt8) : List UInt8 := str.takeWhile (· ≠ 0)

/-- What every format of `wb_lwm2m_encode_senml_json` starts with. -/
def senmlHead (objId instId resId : UInt16) : List UInt8 :=
  ascii "[\x7b\"bn\":\"/" ++ fmtU16 objId ++ ascii "/" ++ fmtU16 instId ++
    ascii "/\",\"n\":\"" ++ fmtU16 resId ++ ascii "\","

/-- The text `wb_lwm2m_encode_senml_json` prints for a value. -/
def senmlText (fp : FloatOps) (objId instId resId : UInt16) : Value → Option (List UInt8)
  | .string s | .corelnk s =>
    some (senmlHead objId instId resId ++ ascii "\"vs\":\"" ++ fmtStr s ++ ascii "\"\x7d]")
  | .integer v =>
    some (senmlHead objId instId resId ++ ascii "\"v\":" ++ Decimal.ofInt v.toInt ++ ascii "\x7d]")
  | .uinteger v =>
    some (senmlHead objId instId resId ++ ascii "\"v\":" ++ Decimal.ofNat v.toNat ++ ascii "\x7d]")
  | .time v =>
    some (senmlHead objId instId resId ++ ascii "\"v\":" ++ Decimal.ofInt v.toInt ++ ascii "\x7d]")
  | .float d =>
    some (senmlHead objId instId resId ++ ascii "\"v\":" ++ fp.fmtG d ++ ascii "\x7d]")
  | .boolean b =>
    some (senmlHead objId instId resId ++ ascii "\"vb\":" ++
      ascii (if b then "true" else "false") ++ ascii "\x7d]")
  | .opaqueData data => (b64Text data).map fun b64 =>
    senmlHead objId instId resId ++ ascii "\"vd\":\"" ++ b64 ++ ascii "\"\x7d]"
  | .objlink o i =>
    some (senmlHead objId instId resId ++ ascii "\"vlo\":\"" ++ fmtU16 o ++ ascii ":" ++
      fmtU16 i ++ ascii "\"\x7d]")
  | .none => none

/-- `wb_lwm2m_encode_senml_json`: the number of bytes written, or `none` for `-1`. -/
def encodeSenmlJson (fp : FloatOps) (objId instId resId : UInt16) (value : Value) (m : Mem)
    (buf bufSize : ℕ) : Mem × Option ℕ :=
  if bufSize = 0 then (m, none)
  else match senmlText fp objId instId resId value with
    | none => (m, none)
    | some text =>
      let (m, written) := snprintf m buf bufSize text
      if bufSize ≤ written then (m, none) else (m, some written)

/-! ### An instance -/

/-- The text `senml_write_value` prints for a value. -/
def senmlValueText (fp : FloatOps) : Value → Option (List UInt8)
  | .string s | .corelnk s => some (ascii ",\"vs\":\"" ++ fmtStr s ++ ascii "\"\x7d")
  | .integer v => some (ascii ",\"v\":" ++ Decimal.ofInt v.toInt ++ ascii "\x7d")
  | .uinteger v => some (ascii ",\"v\":" ++ Decimal.ofNat v.toNat ++ ascii "\x7d")
  | .time v => some (ascii ",\"v\":" ++ Decimal.ofInt v.toInt ++ ascii "\x7d")
  | .float d => some (ascii ",\"v\":" ++ fp.fmtG d ++ ascii "\x7d")
  | .boolean b => some (ascii ",\"vb\":" ++ ascii (if b then "true" else "false") ++ ascii "\x7d")
  | .opaqueData data => (b64Text data).map fun b64 => ascii ",\"vd\":\"" ++ b64 ++ ascii "\"\x7d"
  | .objlink o i =>
    some (ascii ",\"vlo\":\"" ++ fmtU16 o ++ ascii ":" ++ fmtU16 i ++ ascii "\"\x7d")
  | .none => none

/-- `senml_write_value` -/
def senmlWriteValue (fp : FloatOps) (value : Value) (m : Mem) (buf bufSize offset : ℕ) :
    Mem × Option ℕ :=
  match senmlValueText fp value with
  | none => (m, none)
  | some text =>
    let (m, w) := snprintf m (buf + offset) (bufSize - offset) text
    if bufSize - offset ≤ w then (m, none) else (m, some w)

/-- The record header: the first record carries the base name. -/
def senmlRecordHead (offset : ℕ) (objId instId resId : UInt16) : List UInt8 :=
  if offset = 1 then
    ascii "\x7b\"bn\":\"/" ++ fmtU16 objId ++ ascii "/" ++ fmtU16 instId ++
      ascii "/\",\"n\":\"" ++ fmtU16 resId ++ ascii "\""
  else ascii "\x7b\"n\":\"" ++ fmtU16 resId ++ ascii "\""

/-- A record of the instance text, header and value field, at the current offset; the
new offset is returned. -/
def senmlWriteRecord (fp : FloatOps) (objId instId resId : UInt16) (value : Value) (m : Mem)
    (buf bufSize offset : ℕ) : Mem × Option ℕ :=
  let (m, w) := snprintf m (buf + offset) (bufSize - offset)
    (senmlRecordHead offset objId instId resId)
  if bufSize - offset ≤ w then (m, none)
  else
    let offset := offset + w
    match senmlWriteValue fp value m buf bufSize offset with
    | (m, none) => (m, none)
    | (m, some w) => (m, some (offset + w))

variable {σ κ : Type}

/-- The loop of `wb_lwm2m_encode_senml_json_instance`, from the current offset on. -/
def senmlEncodeLoop (fp : FloatOps) (obj : ObjectDef σ κ) (instId : UInt16) (buf bufSize : ℕ) :
    List (ResourceDef σ κ) → Mem → ℕ → Bool → σ → (Mem × Option ℕ) × σ
  | [], m, offset, _, s => ((m, some offset), s)
  | res :: rest, m, offset, firstRecord, s => match res.read obj instId s with
    | (none, s) => senmlEncodeLoop fp obj instId buf bufSize rest m offset firstRecord s
    | (some (resId, value), s) =>
      -- the comma is assigned, not printed, and has a check of its own
      if !firstRecord && bufSize ≤ offset then ((m, none), s)
      else
        let (m, offset) := if firstRecord then (m, offset)
          else (store m (buf + offset) (ascii ","), offset + 1)
        match senmlWriteRecord fp obj.id instId resId value m buf bufSize offset with
        | (m, none) => ((m, none), s)
        | (m, some offset) => senmlEncodeLoop fp obj instId buf bufSize rest m offset false s

/-- `wb_lwm2m_encode_senml_json_instance` -/
def encodeSenmlJsonInstance (fp : FloatOps) (obj : ObjectDef σ κ) (instId : UInt16) (m : Mem)
    (buf bufSize : ℕ) (s : σ) : (Mem × Option ℕ) × σ :=
  if bufSize = 0 then ((m, none), s)
  else if bufSize < 2 then ((m, none), s)
  else
    match senmlEncodeLoop fp obj instId buf bufSize obj.resources (store m buf (ascii "[")) 1
      true s with
    | ((m, none), s) => ((m, none), s)
    | ((m, some offset), s) =>
      if bufSize ≤ offset + 1 then ((m, none), s)
      else ((store m (buf + offset) (ascii "]" ++ [0]), some (offset + 1)), s)

end WbLwm2m

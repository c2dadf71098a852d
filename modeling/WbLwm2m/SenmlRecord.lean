import WbLwm2m.Senml

/-!
# SenML records

A SenML pack away from its text: a list of records, each with a base name of its own
or none, a name, and the text of its value member (`WbLwm2m.SenmlRecord`). Resolving a
pack gives every record the last base name seen (`WbLwm2m.senmlResolve`), and
`WbLwm2m.senmlPack` is the text of a pack.

Both writers of the source are printers of such records. They share the value member
(`WbLwm2m.senmlMember`) without sharing code: `WbLwm2m.senmlText_eq` and
`WbLwm2m.senmlValueText_eq` compare their formats type by type.
-/

namespace WbLwm2m

open Memory

/-- **A SenML record**: base name, name, and the text of the value member. -/
structure SenmlRecord where
  baseName : Option (List UInt8)
  name : List UInt8
  member : List UInt8

/-- The text of the `bn` member, with the comma that follows it. -/
def bnMember (bn : List UInt8) : List UInt8 := ascii "\"bn\":\"" ++ bn ++ ascii "\","

/-- The text of a record. -/
def SenmlRecord.render (r : SenmlRecord) : List UInt8 :=
  ascii "\x7b" ++ (r.baseName.map bnMember).getD [] ++ ascii "\"n\":\"" ++ r.name ++
    ascii "\"," ++ r.member ++ ascii "\x7d"

/-- The records that follow the first one, each behind a comma. -/
def senmlTail (rs : List SenmlRecord) : List UInt8 := rs.flatMap fun r => ascii "," ++ r.render

/-- The text of a pack: a JSON array of its records. -/
def senmlPack : List SenmlRecord → List UInt8
  | [] => ascii "[]"
  | r :: rs => ascii "[" ++ r.render ++ senmlTail rs ++ ascii "]"

/-- What a writer that has opened the array still has to print, before the closing
bracket: whether it has already printed a record decides about the first comma. -/
def senmlBody : Bool → List SenmlRecord → List UInt8
  | true, [] => []
  | true, r :: rs => r.render ++ senmlTail rs
  | false, rs => senmlTail rs

theorem senmlPack_eq (rs : List SenmlRecord) :
    senmlPack rs = ascii "[" ++ senmlBody true rs ++ ascii "]" := by
  cases rs with
  | nil => rfl
  | cons r rs => rw [senmlPack, senmlBody, List.append_assoc (ascii "[")]

/-- A pack of one record. -/
theorem senmlPack_singleton (r : SenmlRecord) :
    senmlPack [r] = 0x5B :: (r.render ++ [0x5D]) := by
  simp [senmlPack, senmlTail, ascii]

/-- **The resolved records of a pack**: full name and value member, where a base name
holds until the next one. -/
def senmlResolve (base : List UInt8) : List SenmlRecord → List (List UInt8 × List UInt8)
  | [] => []
  | r :: rs =>
    let base := r.baseName.getD base
    (base ++ r.name, r.member) :: senmlResolve base rs

/-- The base name of an instance. -/
def senmlBaseName (objId instId : UInt16) : List UInt8 :=
  ascii "/" ++ fmtU16 objId ++ ascii "/" ++ fmtU16 instId ++ ascii "/"

/-- **The value member**, by the type of the value. -/
def senmlMember (fp : FloatOps) : Value → Option (List UInt8)
  | .string s | .corelnk s => some (ascii "\"vs\":\"" ++ fmtStr s ++ ascii "\"")
  | .integer v | .time v => some (ascii "\"v\":" ++ Decimal.ofInt v.toInt)
  | .uinteger v => some (ascii "\"v\":" ++ Decimal.ofNat v.toNat)
  | .float d => some (ascii "\"v\":" ++ fp.fmtG d)
  | .boolean b => some (ascii "\"vb\":" ++ ascii (if b then "true" else "false"))
  | .opaqueData data => (b64Text data).map fun b64 => ascii "\"vd\":\"" ++ b64 ++ ascii "\""
  | .objlink o i => some (ascii "\"vlo\":\"" ++ fmtU16 o ++ ascii ":" ++ fmtU16 i ++ ascii "\"")
  | .none => none

variable {fp : FloatOps} {objId instId resId : UInt16}

/-- **The single-resource writer prints a pack of one record.** -/
theorem senmlText_eq (v : Value) :
    senmlText fp objId instId resId v = (senmlMember fp v).map fun mem =>
      senmlPack [⟨some (senmlBaseName objId instId), fmtU16 resId, mem⟩] := by
  cases v with
  | opaqueData data =>
    cases h : b64Text data with
    | none => simp [senmlText, senmlMember, h]
    | some b64 =>
      simp [senmlText, senmlMember, senmlHead, senmlPack, senmlTail, SenmlRecord.render, bnMember,
        senmlBaseName, ascii, h]
  | _ =>
    simp [senmlText, senmlMember, senmlHead, senmlPack, senmlTail, SenmlRecord.render, bnMember,
      senmlBaseName, ascii]

/-- The value writer of the instance encoder prints the value member, between the comma
that separates it from the name and the brace that closes the record. -/
theorem senmlValueText_eq (v : Value) :
    senmlValueText fp v = (senmlMember fp v).map fun mem => ascii "," ++ mem ++ ascii "\x7d" := by
  cases v with
  | opaqueData data =>
    cases h : b64Text data with
    | none => simp [senmlValueText, senmlMember, h]
    | some b64 => simp [senmlValueText, senmlMember, ascii, h]
  | _ => simp [senmlValueText, senmlMember, ascii]

/-- **The instance encoder's header and value field make a record**, with the base name
in the first one only. -/
theorem senmlRecordHead_append (offset : ℕ) (mem : List UInt8) :
    senmlRecordHead offset objId instId resId ++ (ascii "," ++ mem ++ ascii "\x7d") =
      (SenmlRecord.mk (if offset = 1 then some (senmlBaseName objId instId) else none)
        (fmtU16 resId) mem).render := by
  by_cases h : offset = 1
  · simp [senmlRecordHead, SenmlRecord.render, bnMember, senmlBaseName, ascii, h]
  · simp [senmlRecordHead, SenmlRecord.render, ascii, h]

/-! ### The single-resource encoder -/

/-- A text that fits is written whole, with its terminator. -/
theorem encodeSenmlJson_of_lt {v : Value} {T : List UInt8}
    (hT : senmlText fp objId instId resId v = some T) (m : Mem) (buf : ℕ) {bufSize : ℕ}
    (hfit : T.length < bufSize) :
    encodeSenmlJson fp objId instId resId v m buf bufSize =
      (store m buf (T ++ [0]), some T.length) := by
  have hprint : snprintf m buf bufSize T = (store m buf (T ++ [0]), T.length) :=
    Prod.ext (snprintf_fst_of_lt m hfit) (snprintf_snd _ _ _ _)
  rw [encodeSenmlJson, if_neg (by omega), hT]
  simp only [hprint]
  rw [if_neg (by omega)]

/-- What the encoder has written when it succeeds. -/
theorem encodeSenmlJson_some {v : Value} {m m' : Mem} {buf bufSize n : ℕ}
    (h : encodeSenmlJson fp objId instId resId v m buf bufSize = (m', some n)) :
    ∃ T, senmlText fp objId instId resId v = some T ∧ n = T.length ∧ n < bufSize ∧
      m' = store m buf (T ++ [0]) := by
  cases hT : senmlText fp objId instId resId v with
  | none =>
    rw [encodeSenmlJson, hT] at h
    by_cases h0 : bufSize = 0
    · rw [if_pos h0] at h
      exact absurd (Prod.mk.inj h).2 (by simp)
    · rw [if_neg h0] at h
      exact absurd (Prod.mk.inj h).2 (by simp)
  | some T =>
    by_cases hfit : T.length < bufSize
    · rw [encodeSenmlJson_of_lt hT m buf hfit] at h
      obtain ⟨rfl, hn⟩ := Prod.mk.inj h
      obtain rfl := Option.some.inj hn
      exact ⟨T, rfl, rfl, hfit, rfl⟩
    · rw [encodeSenmlJson, hT] at h
      simp only [snprintf_snd] at h
      rw [if_pos (not_lt.mp hfit)] at h
      by_cases h0 : bufSize = 0
      · rw [if_pos h0] at h
        exact absurd (Prod.mk.inj h).2 (by simp)
      · rw [if_neg h0] at h
        exact absurd (Prod.mk.inj h).2 (by simp)

end WbLwm2m

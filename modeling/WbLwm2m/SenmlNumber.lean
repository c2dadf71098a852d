import WbLwm2m.Lib.JsonUnique
import WbLwm2m.LinkRoundTrip
import WbLwm2m.SenmlString

/-!
# Numbers, truth values and links in SenML-JSON

The counterpart of `WbLwm2m.SenmlString` for the values without strings: what the
single-resource encoder prints for them is always the JSON it is meant to be, and it reads back
as what it was.

The reader, `WbLwm2m.readPack`, starts from the JSON value a text denotes, of which there is
only one (`Json.Text.unique`). It looks the members of the record up by their names, and takes
the text of a number for the integer it is, without a bound.
-/

namespace WbLwm2m

open Memory Json

/-! ### The reader -/

/-- What a value is, exactly: of a number, the integer. -/
inductive Exact where
  | int (z : ℤ)
  | bool (b : Bool)
  | link (objId instId : ℕ)
deriving DecidableEq

/-- What a number, a truth value or a link is, exactly. -/
def Value.exact : Value → Option Exact
  | .integer v | .time v => some (.int v.toInt)
  | .uinteger v => some (.int v.toNat)
  | .boolean b => some (.bool b)
  | .objlink objId instId => some (.link objId.toNat instId.toNat)
  | _ => Option.none

/-- What a pack of one record says. -/
structure SenmlReading where
  objId : ℕ
  instId : ℕ
  resId : ℕ
  value : Exact

/-- The string member of a record. -/
def strMember (name : List UInt8) (ms : List (List UInt8 × Json.Value)) : Option (List UInt8) :=
  match ms.lookup name with
  | some (.str s) => some s
  | _ => none

/-- Read `/o/i/`. -/
def readBaseName (base : List UInt8) : Option (ℕ × ℕ) :=
  match base.splitOn 0x2F with
  | [[], objId, instId, []] => do return (← Decimal.read objId, ← Decimal.read instId)
  | _ => none

/-- Read `o:i`. -/
def readObjlink (link : List UInt8) : Option Exact :=
  match link.splitOn 0x3A with
  | [objId, instId] => do return .link (← Decimal.read objId) (← Decimal.read instId)
  | _ => none

/-- Read the value member of a record, by the type of the value. -/
def readValueMember (ms : List (List UInt8 × Json.Value)) : ResType → Option Exact
  | .integer | .uinteger | .time => match ms.lookup (ascii "v") with
    | some (.num text) => (Decimal.readInt text).map .int
    | _ => none
  | .boolean => match ms.lookup (ascii "vb") with
    | some (.bool b) => some (.bool b)
    | _ => none
  | .objlink => (strMember (ascii "vlo") ms).bind readObjlink
  | _ => none

/-- **Read a pack of one record.** -/
def readPack (type : ResType) : Json.Value → Option SenmlReading
  | .arr [.obj ms] => do
    let (objId, instId) ← readBaseName (← strMember (ascii "bn") ms)
    let resId ← Decimal.read (← strMember (ascii "n") ms)
    return ⟨objId, instId, resId, ← readValueMember ms type⟩
  | _ => none

/-! ### Types and exact values -/

/-- **A value of a known type** is known from what it is exactly. -/
theorem eq_of_exact {v w : Value} {e : Exact} (htype : v.type = w.type) (hv : v.exact = some e)
    (hw : w.exact = some e) : v = w := by
  have heq := hv.trans hw.symm
  cases v with
  | integer v => cases w with
    | integer w => rw [Int64.toInt_inj.mp (Exact.int.inj (Option.some.inj heq))]
    | _ => cases htype
  | uinteger v => cases w with
    | uinteger w =>
      rw [UInt64.toNat_inj.mp (Int.ofNat_inj.mp (Exact.int.inj (Option.some.inj heq)))]
    | _ => cases htype
  | boolean v => cases w with
    | boolean w => rw [Exact.bool.inj (Option.some.inj heq)]
    | _ => cases htype
  | time v => cases w with
    | time w => rw [Int64.toInt_inj.mp (Exact.int.inj (Option.some.inj heq))]
    | _ => cases htype
  | objlink o i => cases w with
    | objlink o' i' =>
      obtain ⟨ho, hi⟩ := Exact.link.inj (Option.some.inj heq)
      rw [UInt16.toNat_inj.mp ho, UInt16.toNat_inj.mp hi]
    | _ => cases htype
  | _ => cases hv

/-- The type tells whether there is an exact value. -/
theorem exists_exact {v w : Value} {e : Exact} (htype : v.type = w.type)
    (hv : v.exact = some e) : ∃ e', w.exact = some e' := by
  cases w with
  | integer | uinteger | time | boolean | objlink => exact ⟨_, rfl⟩
  | _ => cases v with
    | integer | uinteger | time | boolean | objlink => cases htype
    | _ => cases hv

/-! ### The text of a record -/

/-- The digits of a number have no leading zero. -/
theorem integer_ofNat (n : ℕ) : Decimal.ofNat n = [0x30] ∨
    Digits (Decimal.ofNat n) ∧ (Decimal.ofNat n).head? ≠ some 0x30 := by
  by_cases hn : n = 0
  · rw [hn]
    exact Or.inl rfl
  · exact Or.inr ⟨Decimal.isDigits_ofNat n, Decimal.head?_ofNat hn⟩

/-- The text of an integer is a number of the grammar. -/
theorem number_ofInt (z : ℤ) : Number (Decimal.ofInt z) := by
  rw [Decimal.ofInt]
  split
  · exact ⟨[0x2D], Decimal.ofNat z.natAbs, [], [], by simp, Or.inr rfl, integer_ofNat _,
      Or.inl rfl, Or.inl rfl⟩
  · exact ⟨[], Decimal.ofNat z.natAbs, [], [], by simp, Or.inl rfl, integer_ofNat _,
      Or.inl rfl, Or.inl rfl⟩

theorem ofInt_natCast (n : ℕ) : Decimal.ofInt n = Decimal.ofNat n := by
  rw [Decimal.ofInt, if_neg (by omega), Int.natAbs_natCast]

/-- The value member a record should have. -/
def exactMember : Exact → List UInt8 × Json.Value
  | .int z => (ascii "v", .num (Decimal.ofInt z))
  | .bool b => (ascii "vb", .bool b)
  | .link objId instId =>
    (ascii "vlo", .str (Decimal.ofNat objId ++ 0x3A :: Decimal.ofNat instId))

/-- The text of its value. -/
def exactText : Exact → List UInt8
  | .int z => Decimal.ofInt z
  | .bool b => ascii (if b then "true" else "false")
  | .link objId instId => 0x22 :: (Decimal.ofNat objId ++ 0x3A :: Decimal.ofNat instId ++ [0x22])

/-- **The value member** the encoder prints. -/
theorem senmlMember_of_exact {fp : FloatOps} {v : Value} {e : Exact} (h : v.exact = some e) :
    senmlMember fp v = some (0x22 :: ((exactMember e).1 ++ 0x22 :: 0x3A :: exactText e)) := by
  cases v with
  | integer v | time v | boolean v =>
    obtain rfl := Option.some.inj h
    rfl
  | uinteger v =>
    obtain rfl := Option.some.inj h
    rw [exactText, ofInt_natCast]
    rfl
  | objlink o i =>
    obtain rfl := Option.some.inj h
    simp [senmlMember, exactMember, exactText, fmtU16, ascii]
  | _ => cases h

theorem plain_link (o i : ℕ) : Plain (Decimal.ofNat o ++ 0x3A :: Decimal.ofNat i) :=
  plain_append (plain_ofNat o) (List.forall_mem_cons.mpr ⟨by decide, plain_ofNat i⟩)

/-- The text of the value denotes it. -/
theorem readsValue_exactText (e : Exact) (z : List UInt8) :
    ReadsValue (exactText e ++ z) (exactMember e).2 z := by
  rcases e with k | b | ⟨o, i⟩
  · exact ReadsValue.num (number_ofInt k) z
  · cases b
    · exact ReadsValue.false z
    · exact ReadsValue.true z
  · have htext : exactText (.link o i) ++ z =
        0x22 :: ((Decimal.ofNat o ++ 0x3A :: Decimal.ofNat i) ++ 0x22 :: z) := by
      simp [exactText]
    rw [htext]
    exact ReadsValue.str (readsString_plain (plain_link o i) z)

theorem plain_exactMember (e : Exact) : Plain (exactMember e).1 := by
  have hplain : Plain (ascii "v") ∧ Plain (ascii "vb") ∧ Plain (ascii "vlo") := by decide
  rcases e with k | b | ⟨o, i⟩
  · exact hplain.1
  · exact hplain.2.1
  · exact hplain.2.2

/-- The record the encoder prints. -/
def exactRecord (objId instId resId : UInt16) (e : Exact) : SenmlRecord :=
  ⟨some (senmlBaseName objId instId), fmtU16 resId,
    0x22 :: ((exactMember e).1 ++ 0x22 :: 0x3A :: exactText e)⟩

/-- The members of the record. -/
def exactMembers (objId instId resId : UInt16) (e : Exact) : List (List UInt8 × Json.Value) :=
  [(ascii "bn", .str (senmlBaseName objId instId)), (ascii "n", .str (fmtU16 resId)),
    exactMember e]

/-- **The pack denotes its record.** -/
theorem text_exactRecord (objId instId resId : UInt16) (e : Exact) :
    Json.Text (senmlPack [exactRecord objId instId resId e])
      (.arr [.obj (exactMembers objId instId resId e)]) := by
  have hbn : ∀ b ∈ some (senmlBaseName objId instId), Plain b := by
    rintro _ ⟨⟩
    exact plain_senmlBaseName objId instId
  exact text_senmlPack (readsValue_render hbn resId (plain_exactMember e)
    (readsValue_exactText e (0x7D :: [0x5D])))

/-- The text of the value is ASCII. -/
theorem validUtf8_exactText (e : Exact) : ValidUtf8 (exactText e) := by
  have hlit : ∀ {l : List UInt8}, Ascii l → ValidUtf8 l := Ascii.validUtf8
  rcases e with k | b | ⟨o, i⟩
  · show ValidUtf8 (Decimal.ofInt k)
    rw [Decimal.ofInt]
    split
    · exact (hlit (l := [0x2D]) (by decide)).append (validUtf8_ofNat _)
    · exact validUtf8_ofNat _
  · cases b <;> exact hlit (by decide)
  · have hlink := (validUtf8_ofNat o).append
      ((hlit (l := [0x3A]) (by decide)).append (validUtf8_ofNat i))
    exact (hlit (l := [0x22]) (by decide)).append (hlink.append (hlit (by decide)))

/-- The value member is UTF-8. -/
theorem validUtf8_exactMember (e : Exact) :
    ValidUtf8 (0x22 :: ((exactMember e).1 ++ 0x22 :: 0x3A :: exactText e)) := by
  have hlit : ∀ {l : List UInt8}, Ascii l → ValidUtf8 l := Ascii.validUtf8
  have hkey : ValidUtf8 (0x22 :: (exactMember e).1 ++ [0x22, 0x3A]) := by
    rcases e with k | b | ⟨o, i⟩ <;> exact hlit (l := 0x22 :: ascii _ ++ [0x22, 0x3A]) (by decide)
  simpa using hkey.append (validUtf8_exactText e)

/-- **The pack is UTF-8.** -/
theorem validUtf8_exactRecord (objId instId resId : UInt16) (e : Exact) :
    ValidUtf8 (senmlPack [exactRecord objId instId resId e]) := by
  refine validUtf8_senmlPack (List.forall_mem_singleton.mpr (validUtf8_render ?_
    (validUtf8_ofNat _) (validUtf8_exactMember e)))
  rintro _ ⟨⟩
  exact validUtf8_senmlBaseName objId instId

/-! ### Reading it back -/

theorem readBaseName_senmlBaseName (objId instId : UInt16) :
    readBaseName (senmlBaseName objId instId) = some (objId.toNat, instId.toNat) := by
  have hnum := not_mem_fmtU16 (b := 0x2F) (Or.inl (by decide))
  have hbase : senmlBaseName objId instId =
      [] ++ 0x2F :: (fmtU16 objId ++ 0x2F :: (fmtU16 instId ++ 0x2F :: [])) := by
    simp [senmlBaseName, ascii]
  rw [readBaseName, hbase, List.splitOn_append_cons_self_of_not_mem List.not_mem_nil,
    List.splitOn_append_cons_self_of_not_mem (hnum _),
    List.splitOn_append_cons_self_of_not_mem (hnum _), List.splitOn_nil]
  simp [fmtU16, Decimal.read_ofNat]

theorem readObjlink_ofNat (o i : ℕ) :
    readObjlink (Decimal.ofNat o ++ 0x3A :: Decimal.ofNat i) = some (.link o i) := by
  have hnum := Decimal.not_mem_ofNat (b := 0x3A) (Or.inr (by decide))
  rw [readObjlink, List.splitOn_append_cons_self_of_not_mem (hnum o),
    List.splitOn_eq_singleton (hnum i)]
  simp [Decimal.read_ofNat]

/-- The value member is read back. -/
theorem readValueMember_exactMembers (objId instId resId : UInt16) {v : Value} {e : Exact}
    (h : v.exact = some e) :
    readValueMember (exactMembers objId instId resId e) v.type = some e := by
  have hint : ∀ z, (exactMembers objId instId resId (.int z)).lookup (ascii "v") =
      some (.num (Decimal.ofInt z)) := fun _ => rfl
  cases v with
  | integer v | uinteger v | time v =>
    obtain rfl := Option.some.inj h
    rw [Value.type, readValueMember, hint]
    show (Decimal.readInt (Decimal.ofInt _)).map Exact.int = _
    rw [Decimal.readInt_ofInt, Option.map_some]
  | boolean b =>
    obtain rfl := Option.some.inj h
    rfl
  | objlink o i =>
    obtain rfl := Option.some.inj h
    exact readObjlink_ofNat o.toNat i.toNat
  | _ => cases h

/-- **The record is read back.** -/
theorem readPack_exactMembers (objId instId resId : UInt16) {v : Value} {e : Exact}
    (h : v.exact = some e) :
    readPack v.type (.arr [.obj (exactMembers objId instId resId e)]) =
      some ⟨objId.toNat, instId.toNat, resId.toNat, e⟩ := by
  have hbase : strMember (ascii "bn") (exactMembers objId instId resId e) =
      some (senmlBaseName objId instId) := rfl
  have hname : strMember (ascii "n") (exactMembers objId instId resId e) =
      some (fmtU16 resId) := rfl
  rw [readPack, hbase, hname]
  simp only [Option.bind_eq_bind, Option.bind_some, readBaseName_senmlBaseName, fmtU16,
    Decimal.read_ofNat, readValueMember_exactMembers _ _ _ h]
  rfl

/-! ### The round trip -/

/-- What the encoder has written, when it succeeds. -/
theorem load_encodeSenmlJson {fp : FloatOps} {objId instId resId : UInt16} {v : Value} {e : Exact}
    {m m' : Mem} {buf bufSize n : ℕ} (hv : v.exact = some e)
    (henc : encodeSenmlJson fp objId instId resId v m buf bufSize = (m', some n)) :
    load m' buf n = senmlPack [exactRecord objId instId resId e] := by
  obtain ⟨text, htext, rfl, -, rfl⟩ := encodeSenmlJson_some henc
  rw [senmlText_eq, senmlMember_of_exact hv] at htext
  obtain rfl := Option.some.inj htext
  rw [load_store_append]
  rfl

/-- **The SenML round trip** of numbers, truth values and links. What the encoder prints is
UTF-8 and JSON, of one record, and whatever JSON value it is read as, this has the identifiers
and the value; of one type no other input prints the same. -/
theorem senml_number_round_trip {fp : FloatOps} {objId instId resId : UInt16} {v : Value}
    {e : Exact} {m m' : Mem} {buf bufSize n : ℕ} (hv : v.exact = some e)
    (henc : encodeSenmlJson fp objId instId resId v m buf bufSize = (m', some n)) :
    ValidUtf8 (load m' buf n) ∧
      (∃ ms, Json.Text (load m' buf n) (.arr [.obj ms])) ∧
      (∀ j, Json.Text (load m' buf n) j →
        readPack v.type j = some ⟨objId.toNat, instId.toNat, resId.toNat, e⟩) ∧
      ∀ (fp₂ : FloatOps) (objId₂ instId₂ resId₂ : UInt16) (v₂ : Value) (m₂ m₂' : Mem)
        (buf₂ bufSize₂ n₂ : ℕ), v₂.type = v.type →
        encodeSenmlJson fp₂ objId₂ instId₂ resId₂ v₂ m₂ buf₂ bufSize₂ = (m₂', some n₂) →
        load m₂' buf₂ n₂ = load m' buf n →
        objId₂ = objId ∧ instId₂ = instId ∧ resId₂ = resId ∧ v₂ = v := by
  have hread : ∀ j, Json.Text (load m' buf n) j →
      readPack v.type j = some ⟨objId.toNat, instId.toNat, resId.toNat, e⟩ := by
    intro j hj
    rw [load_encodeSenmlJson hv henc] at hj
    rw [hj.unique (text_exactRecord objId instId resId e), readPack_exactMembers _ _ _ hv]
  refine ⟨?_, ?_, hread, ?_⟩
  · rw [load_encodeSenmlJson hv henc]
    exact validUtf8_exactRecord objId instId resId e
  · rw [load_encodeSenmlJson hv henc]
    exact ⟨_, text_exactRecord objId instId resId e⟩
  · rintro fp₂ objId₂ instId₂ resId₂ v₂ m₂ m₂' buf₂ bufSize₂ n₂ htype henc₂ hsame
    obtain ⟨e₂, hv₂⟩ := exists_exact htype.symm hv
    have hread₂ := hread (.arr [.obj (exactMembers objId₂ instId₂ resId₂ e₂)]) (by
      rw [← hsame, load_encodeSenmlJson hv₂ henc₂]
      exact text_exactRecord objId₂ instId₂ resId₂ e₂)
    rw [← htype, readPack_exactMembers _ _ _ hv₂] at hread₂
    obtain ⟨hobj, hinst, hres, rfl⟩ := SenmlReading.mk.inj (Option.some.inj hread₂)
    exact ⟨UInt16.toNat_inj.mp hobj, UInt16.toNat_inj.mp hinst, UInt16.toNat_inj.mp hres,
      eq_of_exact htype hv₂ hv⟩

/-- The least integer there is reads back. -/
theorem senml_number_round_trip_least : ∃ m',
    encodeSenmlJson ieee754 3 0 13 (.integer Int64.minValue) (fun _ => 0) 0 64 = (m', some 50) ∧
      ∀ j, Json.Text (load m' 0 50) j →
        readPack .integer j = some ⟨3, 0, 13, .int (-9223372036854775808)⟩ := by
  have henc : encodeSenmlJson ieee754 3 0 13 (.integer Int64.minValue) (fun _ => 0) 0 64 =
      (_, some 50) := rfl
  exact ⟨_, henc, (senml_number_round_trip rfl henc).2.2.1⟩

end WbLwm2m

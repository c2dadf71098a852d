import WbLwm2m.FloatAccuracy
import WbLwm2m.Lib.JsonArray
import WbLwm2m.SenmlFloat
import WbLwm2m.SenmlOpaque

/-!
# Reading a whole instance back

The modules before this one read a pack of one record, of one type at a time. Here the pack the
instance encoder prints is read as a receiver reads it: record by record, with the base name of
the first record in front of the names of all of them, and with the value member each record
happens to have (`WbLwm2m.readSenml`). What comes out is the list of the readings, in their
order and under their paths (`WbLwm2m.Denotes`).

One kind of value breaks the pack. An infinity and a NaN are printed as words, and then the
text is no JSON at all, whatever the other records are; all other numbers are read as what `%g`
makes of them. The strings are those that need no escape and are UTF-8.
-/

namespace WbLwm2m

open Memory Json Rounding

/-! ### The reader -/

/-- What a record says of its resource. -/
inductive Meaning where
  | text (s : List UInt8)
  | number (q : ℚ)
  | truth (b : Bool)
  | data (bs : List UInt8)
  | link (objId instId : ℕ)

/-- The truth value the `vb` member of a record stands for. -/
def readTruth (ms : List (List UInt8 × Json.Value)) : Option Bool :=
  match ms.lookup (ascii "vb") with
  | some (.bool b) => some b
  | _ => none

/-- The link the `vlo` member of a record stands for. -/
def readObjlinkMember (ms : List (List UInt8 × Json.Value)) : Option Meaning :=
  match (strMember (ascii "vlo") ms).bind readObjlink with
  | some (.link objId instId) => some (.link objId instId)
  | _ => none

/-- Read the value member of a record, whichever it has. -/
def readMeaning (ms : List (List UInt8 × Json.Value)) : Option Meaning :=
  (readFloat ms).map .number <|> (strMember (ascii "vs") ms).map .text <|>
    (readTruth ms).map .truth <|> (readOpaque ms).map .data <|>
    readObjlinkMember ms

/-- **Read the records of a pack**: full name and meaning of each. A base name holds until the
next one. -/
def readRecords (base : List UInt8) : List Json.Value → Option (List (List UInt8 × Meaning))
  | [] => some []
  | .obj ms :: rest => do
    let base := (strMember (ascii "bn") ms).getD base
    let name ← strMember (ascii "n") ms
    let meaning ← readMeaning ms
    return (base ++ name, meaning) :: (← readRecords base rest)
  | _ :: _ => none

/-- **Read a pack.** -/
def readSenml : Json.Value → Option (List (List UInt8 × Meaning))
  | .arr items => readRecords [] items
  | _ => none

/-- **What a value is read as.** A `double` becomes a nearest number with six significant
digits; everything else is kept. -/
inductive Denotes : Value → Meaning → Prop where
  | string (s : List UInt8) : Denotes (.string s) (.text s)
  | corelnk (s : List UInt8) : Denotes (.corelnk s) (.text s)
  | integer (v : Int64) : Denotes (.integer v) (.number v.toInt)
  | time (v : Int64) : Denotes (.time v) (.number v.toInt)
  | uinteger (v : UInt64) : Denotes (.uinteger v) (.number v.toNat)
  | float {d : UInt64} {v q : ℚ} (hd : doubleValue d = some v)
      (hq : Nearest SixSignificant v q) : Denotes (.float d) (.number q)
  | boolean (b : Bool) : Denotes (.boolean b) (.truth b)
  | opaqueData (data : List UInt8) : Denotes (.opaqueData data) (.data data)
  | objlink (objId instId : UInt16) :
      Denotes (.objlink objId instId) (.link objId.toNat instId.toNat)

/-- The value is no infinity and no NaN. -/
def Value.Finite : Value → Prop
  | .float d => ∃ v, doubleValue d = some v
  | _ => True

/-- The value is no string that would have to be escaped. -/
def Value.PlainText (v : Value) : Prop := ∀ s ∈ v.stringBytes, Plain s

/-- The value is no string that is not UTF-8. -/
def Value.Utf8Text (v : Value) : Prop := ∀ s ∈ v.stringBytes, ValidUtf8 s

/-! ### The words of `%g` -/

/-- What `%g` prints is ASCII. -/
theorem ascii_fmtG (d : UInt64) : Ascii (ieeeFmtG d) := by
  rcases hd : doubleValue d with _ | v
  · obtain ⟨s, -, w, hw, htext⟩ := ieeeFmtG_not_finite hd
    have hword : Ascii w := by
      rcases hw with rfl | rfl <;> decide
    rw [htext]
    split
    · exact Ascii.append (by decide) hword
    · exact hword
  · exact (ieeeFmtG_finite hd).1.ascii

/-- **No value begins with the text of an infinity or a NaN.** -/
theorem not_readsValue_fmtG {d : UInt64} (hd : doubleValue d = none) (z : List UInt8)
    (v : Json.Value) (r : List UInt8) : ¬ReadsValue (ieeeFmtG d ++ z) v r := by
  obtain ⟨s, hs, w, hw, htext⟩ := ieeeFmtG_not_finite hd
  intro hread
  rw [htext] at hread
  obtain rfl | rfl : s = 0 ∨ s = 1 := by omega
  · obtain ⟨b, t, heq, hkind⟩ := hread.head
    rcases hw with rfl | rfl
    · obtain ⟨rfl, -⟩ := List.cons.inj heq
      cases hkind
    · -- only `null` begins like `nan`
      obtain ⟨rfl, -⟩ := List.cons.inj heq
      rcases v with _ | _ | _ | _ | _ | _
      case null => exact absurd hread.of_null (by simp [ascii])
      all_goals cases hkind
  · obtain ⟨b, t, heq, hkind⟩ := hread.head
    obtain ⟨rfl, -⟩ := List.cons.inj heq
    rcases v with _ | _ | num | _ | _ | _
    case num =>
      obtain ⟨hnum, heq⟩ := hread.of_num
      obtain ⟨sign, int, frac, exp, rfl, hsign, hint, -, -⟩ := hnum
      -- behind the sign there is a letter, where the number has a digit
      have hletter : ∀ b t, w ++ z = b :: t → 0x39 < b := by
        intro b t hcons
        rcases hw with rfl | rfl
        · obtain ⟨rfl, -⟩ := List.cons.inj hcons
          decide
        · obtain ⟨rfl, -⟩ := List.cons.inj hcons
          decide
      have hdigit : ∃ b int', int = b :: int' ∧ b ≤ 0x39 := by
        rcases hint with rfl | ⟨⟨hne, hdig⟩, -⟩
        · exact ⟨_, _, rfl, by decide⟩
        · obtain ⟨b, int', rfl⟩ := List.exists_cons_of_ne_nil hne
          exact ⟨b, int', rfl, (hdig b List.mem_cons_self).2⟩
      obtain ⟨b, int', rfl, hb⟩ := hdigit
      rcases hsign with rfl | rfl
      · obtain ⟨rfl, -⟩ := List.cons.inj heq
        rcases hint with hzero | ⟨⟨-, hdig⟩, -⟩
        · exact absurd (List.cons.inj hzero).1 (by decide)
        · exact absurd (hdig _ List.mem_cons_self).1 (by decide)
      · obtain ⟨-, hrest⟩ := List.cons.inj heq
        exact absurd (hletter b _ (by simpa using hrest)) (UInt8.not_lt.mpr hb)
    all_goals cases hkind

/-- The text of an infinity or a NaN does not begin with white space. -/
theorem solid_fmtG {d : UInt64} (hd : doubleValue d = none) (z : List UInt8) :
    Solid (ieeeFmtG d ++ z) := by
  obtain ⟨s, hs, w, hw, htext⟩ := ieeeFmtG_not_finite hd
  rw [htext]
  obtain rfl | rfl : s = 0 ∨ s = 1 := by omega
  · rcases hw with rfl | rfl
    · exact solid_cons (by decide) _
    · exact solid_cons (by decide) _
  · exact solid_cons (by decide) _

/-! ### One record -/

/-- The text of an integer is read as the integer. -/
theorem readRat_ofInt (z : ℤ) : Decimal.readRat (Decimal.ofInt z) = some (z : ℚ) := by
  have hunsigned : ∀ n, Decimal.readUnsigned (Decimal.ofNat n) = some ((n : ℕ) : ℚ) := by
    intro n
    have hdigits := Decimal.allDigits_ofNat n
    rw [Decimal.readUnsigned_of_noExponent hdigits.noExponent,
      Decimal.readFixed_of_allDigits (Decimal.isDigits_ofNat n).1 hdigits, Decimal.value_ofNat]
  rw [Decimal.ofInt]
  split
  · next hneg =>
    rw [Decimal.readRat, hunsigned, Option.map_some]
    have habs : (z.natAbs : ℤ) = -z := by omega
    rw [← Int.cast_natCast, habs, Int.cast_neg, neg_neg]
  · next hpos =>
    obtain ⟨b, t, hcons⟩ := List.exists_cons_of_ne_nil (Decimal.isDigits_ofNat z.natAbs).1
    have hb := (Decimal.isDigits_ofNat z.natAbs).2 b (hcons ▸ List.mem_cons_self)
    rw [hcons, Decimal.readRat_of_digit t hb.1, ← hcons, hunsigned]
    have habs : (z.natAbs : ℤ) = z := by omega
    rw [← Int.cast_natCast, habs]

/-- **The text of a value member is read** as the member, behind a name and in front of the
brace of its record. -/
def ReadsMember (mem : List UInt8) (kv : List UInt8 × Json.Value) : Prop :=
  ∃ t, mem = 0x22 :: (kv.1 ++ 0x22 :: 0x3A :: t) ∧ Plain kv.1 ∧
    ∀ z, ReadsValue (t ++ 0x7D :: z) kv.2 (0x7D :: z)

/-- **What a record with a value member says**, with a base name or without. -/
structure RecordMeans (kv : List UInt8 × Json.Value) (meaning : Meaning) : Prop where
  ne_bn : kv.1 ≠ ascii "bn"
  readMeaning_eq : ∀ bn resId, readMeaning (recordMembers bn resId kv) = some meaning

/-- A record without a base name has none to find. -/
theorem strMember_recordMembers_none {kv : List UInt8 × Json.Value} (h : kv.1 ≠ ascii "bn")
    (resId : UInt16) : strMember (ascii "bn") (recordMembers none resId kv) = none := by
  have hlookup : (recordMembers none resId kv).lookup (ascii "bn") = none := by
    have hname : (ascii "bn" == ascii "n") = false := by decide
    simp [recordMembers, List.lookup_cons, hname, h.symm]
  rw [strMember, hlookup]

theorem recordMeans_number {t : List UInt8} {q : ℚ} (h : Decimal.readRat t = some q) :
    RecordMeans (ascii "v", .num t) (.number q) := by
  refine ⟨by simp [ascii], fun bn resId => ?_⟩
  have hfloat : readFloat (recordMembers bn resId (ascii "v", .num t)) = some q := by
    rcases bn with _ | b
    · exact h
    · exact h
  rw [readMeaning, hfloat]
  rfl

/-- **A value that is finite and plain** is written as a member that says what it is. -/
theorem exists_readsMember {v : Value} (hplain : v.PlainText) (hfin : v.Finite)
    {mem : List UInt8} (hmem : senmlMember ieee754 v = some mem) :
    ∃ kv meaning, ReadsMember mem kv ∧ RecordMeans kv meaning ∧ Denotes v meaning := by
  have hnames : Plain (ascii "vs") ∧ Plain (ascii "v") ∧ Plain (ascii "vd") := by decide
  have hstring : ∀ s, Plain s → senmlMember ieee754 v = some (ascii "\"vs\":\"" ++ fmtStr s ++
      ascii "\"") → ReadsMember mem (ascii "vs", .str s) := by
    intro s hs heq
    refine ⟨0x22 :: (s ++ [0x22]), ?_, hnames.1, fun z => ?_⟩
    · rw [← Option.some.inj (heq.symm.trans hmem), fmtStr_of_plain hs]
      simp [ascii]
    · simpa using ReadsValue.str (readsString_plain hs (0x7D :: z))
  have htext : ∀ s, RecordMeans (ascii "vs", .str s) (.text s) :=
    fun s => ⟨by simp [ascii], fun bn _ => by rcases bn with _ | _ <;> rfl⟩
  have hexact : ∀ e, v.exact = some e → ReadsMember mem (exactMember e) := by
    intro e he
    refine ⟨exactText e, ?_, plain_exactMember e, fun z => readsValue_exactText e _⟩
    exact Option.some.inj (hmem.symm.trans (senmlMember_of_exact he))
  cases v with
  | none => cases hmem
  | string s =>
    exact ⟨_, .text s, hstring s (hplain s rfl) rfl, htext s, .string s⟩
  | corelnk s =>
    exact ⟨_, .text s, hstring s (hplain s rfl) rfl, htext s, .corelnk s⟩
  | integer v => exact ⟨_, _, hexact _ rfl, recordMeans_number (readRat_ofInt _), .integer v⟩
  | time v => exact ⟨_, _, hexact _ rfl, recordMeans_number (readRat_ofInt _), .time v⟩
  | uinteger v =>
    have hread := readRat_ofInt v.toNat
    rw [Int.cast_natCast] at hread
    exact ⟨_, _, hexact _ rfl, recordMeans_number hread, .uinteger v⟩
  | float d =>
    obtain ⟨v, hv⟩ := hfin
    obtain ⟨hnum, q, hq, hnear, -⟩ := ieeeFmtG_finite hv
    refine ⟨(ascii "v", .num (ieeeFmtG d)), .number q, ⟨ieeeFmtG d, ?_, hnames.2.1,
      fun z => ReadsValue.num hnum _⟩, recordMeans_number hq, .float hv hnear⟩
    exact (Option.some.inj hmem).symm
  | boolean b =>
    exact ⟨_, .truth b, hexact _ rfl, ⟨by simp [exactMember, ascii], fun bn _ => by
      rcases bn with _ | _ <;> rfl⟩, .boolean b⟩
  | opaqueData data =>
    rw [senmlMember_opaqueData] at hmem
    split_ifs at hmem with hlen
    obtain rfl := Option.some.inj hmem
    refine ⟨opaqueMember data, .data data, ⟨0x22 :: (Base64.encode data ++ [0x22]), ?_,
      hnames.2.2, fun z => ?_⟩, ⟨by simp [opaqueMember, ascii], fun bn resId => ?_⟩,
      .opaqueData data⟩
    · simp [ascii, opaqueMember]
    · simpa [opaqueMember] using
        ReadsValue.str (readsString_plain (plain_encode data) (0x7D :: z))
    · have hread := readOpaque_recordMembers bn resId data
      rw [readMeaning, hread]
      rcases bn with _ | _ <;> rfl
  | objlink o i =>
    refine ⟨_, .link o.toNat i.toNat, hexact _ rfl, ⟨by simp [exactMember, ascii],
      fun bn resId => ?_⟩, .objlink o i⟩
    have hlink : (strMember (ascii "vlo") (recordMembers bn resId
        (exactMember (.link o.toNat i.toNat)))).bind readObjlink =
        some (.link o.toNat i.toNat) := by
      rcases bn with _ | _ <;> exact readObjlink_ofNat _ _
    have hmember : readObjlinkMember (recordMembers bn resId
        (exactMember (.link o.toNat i.toNat))) = some (.link o.toNat i.toNat) := by
      rw [readObjlinkMember, hlink]
    rw [readMeaning, hmember]
    rcases bn with _ | _ <;> rfl

/-- A value member is UTF-8 when its string is. -/
theorem validUtf8_senmlMember {v : Value} (hplain : v.PlainText) (hutf8 : v.Utf8Text)
    {mem : List UInt8} (hmem : senmlMember ieee754 v = some mem) : ValidUtf8 mem := by
  have hlit : ∀ {l : List UInt8}, Ascii l → ValidUtf8 l := Ascii.validUtf8
  have hexact : ∀ e, v.exact = some e → ValidUtf8 mem := by
    intro e he
    rw [senmlMember_of_exact he] at hmem
    obtain rfl := Option.some.inj hmem
    exact validUtf8_exactMember e
  have hstring : ∀ s, v.stringBytes = some s → ValidUtf8 mem := by
    intro s hs
    rw [senmlMember_of_stringBytes hs, fmtStr_of_plain (hplain s hs)] at hmem
    obtain rfl := Option.some.inj hmem
    exact ((hlit (by decide)).append (hutf8 s hs)).append (hlit (by decide))
  cases v with
  | none => cases hmem
  | string s | corelnk s => exact hstring s rfl
  | float d =>
    obtain rfl := Option.some.inj hmem
    exact (hlit (by decide)).append (hlit (ascii_fmtG d))
  | opaqueData data =>
    rw [senmlMember_opaqueData] at hmem
    split_ifs at hmem
    obtain rfl := Option.some.inj hmem
    exact ((hlit (by decide)).append (hlit (ascii_encode data))).append (hlit (by decide))
  | _ => exact hexact _ rfl

/-- **A record of an infinity or a NaN** cannot be read. -/
theorem not_readsValue_render {bn : Option (List UInt8)} (hbn : ∀ b ∈ bn, Plain b)
    (resId : UInt16) {d : UInt64} (hd : doubleValue d = none) (z : List UInt8)
    (v : Json.Value) (r : List UInt8) :
    ¬ReadsValue ((SenmlRecord.mk bn (fmtU16 resId)
      (0x22 :: (ascii "v" ++ 0x22 :: 0x3A :: ieeeFmtG d))).render ++ z) v r := by
  have hvalue := not_readsMembers_value (p := ascii "v") (by decide)
    (solid_fmtG hd (0x7D :: z)) (not_readsValue_fmtG hd (0x7D :: z))
  have hname := not_readsMembers_member (p := ascii "n") (by decide) (plain_ofNat resId.toNat)
    hvalue
  have hquote : ∀ t u, ¬ReadsWs (0x22 :: t) (0x7D :: u) := by
    intro t u hws
    exact absurd (List.cons.inj (hws.eq_of_not_space (by decide))).1 (by decide)
  rcases bn with _ | b
  · have hrender : (SenmlRecord.mk none (fmtU16 resId)
        (0x22 :: (ascii "v" ++ 0x22 :: 0x3A :: ieeeFmtG d))).render ++ z =
        0x7B :: member (ascii "n") (fmtU16 resId)
          (0x2C :: 0x22 :: (ascii "v" ++ 0x22 :: 0x3A :: (ieeeFmtG d ++ 0x7D :: z))) := by
      simp [SenmlRecord.render, member, ascii]
    rw [hrender]
    exact not_readsValue_obj (hquote _) hname v r
  · have hrender : (SenmlRecord.mk (some b) (fmtU16 resId)
        (0x22 :: (ascii "v" ++ 0x22 :: 0x3A :: ieeeFmtG d))).render ++ z =
        0x7B :: member (ascii "bn") b (0x2C :: member (ascii "n") (fmtU16 resId)
          (0x2C :: 0x22 :: (ascii "v" ++ 0x22 :: 0x3A :: (ieeeFmtG d ++ 0x7D :: z)))) := by
      simp [SenmlRecord.render, bnMember, member, ascii]
    rw [hrender]
    exact not_readsValue_obj (hquote _)
      (not_readsMembers_member (by decide) (hbn b rfl) hname) v r

/-- A pack is an array that is printed record by record. -/
theorem senmlPack_eq_itemArray (rs : List SenmlRecord) :
    senmlPack rs = itemArray (rs.map SenmlRecord.render) := by
  rcases rs with _ | ⟨r, rs⟩
  · rfl
  · have htail : senmlTail rs = itemTail (rs.map SenmlRecord.render) := by
      rw [senmlTail, itemTail, List.flatMap_map]
      rfl
    simp [senmlPack, itemArray, htail, ascii]

/-- **How exact SenML is, and when it is no JSON.** For every `double` there is one answer for
both writers, whatever else they print: if it is finite, the number in the text is a nearest one
with six significant digits, half a unit of the sixth off at most; if it is not, the text of the
encoder is no JSON, and what the value writer prints goes on to no members of an object,
whatever follows it. -/
theorem senml_float_nearest (d : UInt64) :
    (∀ v, doubleValue d = some v → ∃ q, Nearest SixSignificant v q ∧
      |q - v| ≤ 10 ^ (Int.log 10 |v| - 5) / 2 ∧
      (∀ (objId instId resId : UInt16) (m m' : Mem) (buf bufSize n : ℕ),
        encodeSenmlJson ieee754 objId instId resId (.float d) m buf bufSize = (m', some n) →
        FloatPack (load m' buf n) q) ∧
      ∀ (m m' : Mem) (buf bufSize offset w : ℕ),
        senmlWriteValue ieee754 (.float d) m buf bufSize offset = (m', some w) →
        FloatField (load m' (buf + offset) w) q) ∧
    (doubleValue d = none →
      (∀ (objId instId resId : UInt16) (m m' : Mem) (buf bufSize n : ℕ),
        encodeSenmlJson ieee754 objId instId resId (.float d) m buf bufSize = (m', some n) →
        ¬∃ j, Json.Text (load m' buf n) j) ∧
      ∀ (m m' : Mem) (buf bufSize offset w : ℕ),
        senmlWriteValue ieee754 (.float d) m buf bufSize offset = (m', some w) →
        ∃ t, load m' (buf + offset) w = 0x2C :: t ∧ ∀ z, ¬∃ ms r, ReadsMembers (t ++ z) ms r) := by
  constructor
  · intro v hv
    obtain ⟨hnum, q, hq, hnear, herr⟩ := ieeeFmtG_finite hv
    refine ⟨q, hnear, herr, ?_, ?_⟩
    · intro objId instId resId m m' buf bufSize n henc
      rw [load_encodeSenmlJson_float henc]
      exact (floatPack_iff hnum objId instId resId q).mpr hq
    · intro m m' buf bufSize offset w hwrite
      rw [load_senmlWriteValue_float hwrite]
      exact (floatField_iff hnum q).mpr hq
  · intro hd
    constructor
    · intro objId instId resId m m' buf bufSize n henc
      rw [load_encodeSenmlJson_float henc, senmlPack_eq_itemArray]
      rintro ⟨j, hj⟩
      have hbn : ∀ b ∈ some (senmlBaseName objId instId), Plain b := by
        rintro _ ⟨⟩
        exact plain_senmlBaseName objId instId
      have hitem : Item (numberRecord objId instId resId (ieeeFmtG d)).render none :=
        ⟨0x7B, _, rfl, by decide, by decide, not_readsValue_render hbn resId hd⟩
      obtain ⟨vs, hvs, -⟩ :=
        (text_itemArray_iff (List.Forall₂.cons hitem List.Forall₂.nil) j).mp hj
      obtain ⟨v, -, hv⟩ := List.mem_map.mp (hvs ▸ List.mem_cons_self)
      cases hv
    · intro m m' buf bufSize offset w hwrite
      refine ⟨_, load_senmlWriteValue_float hwrite, ?_⟩
      rintro z ⟨ms, r, hms⟩
      simp only [List.cons_append, List.append_assoc] at hms
      exact not_readsMembers_value (p := ascii "v") (by decide) (solid_fmtG hd _)
        (not_readsValue_fmtG hd _) ms r hms

/-- **What a record is**: an item that is readable exactly if the value is finite, and that
says what the value is. -/
theorem exists_item {v : Value} (hplain : v.PlainText) {mem : List UInt8}
    (hmem : senmlMember ieee754 v = some mem) {bn : Option (List UInt8)}
    (hbn : ∀ b ∈ bn, Plain b) (resId : UInt16) :
    ∃ o, Item (SenmlRecord.mk bn (fmtU16 resId) mem).render o ∧ (o = none ↔ ¬v.Finite) ∧
      ∀ j ∈ o, ∃ kv meaning, j = .obj (recordMembers bn resId kv) ∧ RecordMeans kv meaning ∧
        Denotes v meaning := by
  by_cases hfin : v.Finite
  · obtain ⟨⟨k, v'⟩, meaning, ⟨t, rfl, hk, hread⟩, hmeans, hden⟩ :=
      exists_readsMember hplain hfin hmem
    refine ⟨some (.obj (recordMembers bn resId (k, v'))), fun z _ => ?_, by simp [hfin], ?_⟩
    · exact readsValue_render hbn resId hk (hread z)
    · rintro _ ⟨⟩
      exact ⟨_, meaning, rfl, hmeans, hden⟩
  · cases v with
    | float d =>
      have hd : doubleValue d = none :=
        Option.eq_none_iff_forall_not_mem.mpr fun v hv => hfin ⟨v, hv⟩
      obtain rfl := Option.some.inj hmem
      have hno := not_readsValue_render hbn resId hd
      refine ⟨none, ⟨0x7B, _, rfl, by decide, by decide, ?_⟩, by simp [hfin], ?_⟩
      · exact fun z j r => hno z j r
      · rintro _ ⟨⟩
    | _ => exact absurd trivial hfin

/-! ### The pack -/

/-- **The records of the readings**, one by one: whether they can be read, and what they say
under the base name. -/
theorem exists_items {bn : List UInt8} (hbn : Plain bn) {rds : List (UInt16 × Value)}
    {ps : List (UInt16 × List UInt8)} (hps : List.Forall₂ (HasMember ieee754) rds ps)
    (hplain : ∀ r ∈ rds, r.2.PlainText) (first : Bool) :
    ∃ os, List.Forall₂ Item ((senmlRecords bn first ps).map SenmlRecord.render) os ∧
      (none ∈ os ↔ ∃ r ∈ rds, ¬r.2.Finite) ∧
      ∀ base vs, (first = true ∨ base = bn) → os = vs.map some →
        ∃ entries, readRecords base vs = some entries ∧
          List.Forall₂ (fun r e => e.1 = bn ++ fmtU16 r.1 ∧ Denotes r.2 e.2) rds entries := by
  induction hps generalizing first with
  | nil =>
    refine ⟨[], List.Forall₂.nil, by simp, fun base vs _ hvs => ⟨[], ?_, List.Forall₂.nil⟩⟩
    rw [List.map_eq_nil_iff.mp hvs.symm, readRecords]
  | @cons r p rds ps hp _ ih =>
    obtain ⟨os, hitems, hnone, hread⟩ :=
      ih (fun r' hr' => hplain r' (List.mem_cons_of_mem _ hr')) false
    have hbase : ∀ b ∈ (if first then some bn else none), Plain b := by
      intro b hb
      split at hb
      · obtain rfl := Option.some.inj hb
        exact hbn
      · cases hb
    obtain ⟨o, hitem, hfin, hmeans⟩ :=
      exists_item (hplain r List.mem_cons_self) hp.2 hbase p.1
    refine ⟨o :: os, List.Forall₂.cons hitem hitems, ?_, ?_⟩
    · rw [List.mem_cons, hnone, eq_comm, hfin]
      simp
    · rintro base vs hfirst hvs
      rcases vs with _ | ⟨j, vs⟩
      · cases hvs
      obtain ⟨rfl, rfl⟩ := List.cons.inj hvs
      obtain ⟨kv, meaning, rfl, hm, hden⟩ := hmeans j rfl
      obtain ⟨entries, hrest, hall⟩ := hread bn vs (Or.inr rfl) rfl
      refine ⟨(bn ++ fmtU16 p.1, meaning) :: entries, ?_,
        List.Forall₂.cons ⟨by rw [hp.1], hden⟩ hall⟩
      -- the base name is the one of this record, or the one that holds
      have hbn' : (strMember (ascii "bn") (recordMembers (if first then some bn else none) p.1
          kv)).getD base = bn := by
        rcases first with _ | _
        · obtain rfl : base = bn := hfirst.resolve_left Bool.false_ne_true
          rw [if_neg Bool.false_ne_true, strMember_recordMembers_none hm.ne_bn]
          rfl
        · rfl
      have hname : strMember (ascii "n") (recordMembers (if first then some bn else none) p.1
          kv) = some (fmtU16 p.1) := by
        cases first <;> rfl
      rw [readRecords, hbn', hname, hm.readMeaning_eq]
      simp [hrest]

/-- The records of the readings are UTF-8 when the strings among these are. -/
theorem validUtf8_senmlRecords {bn : List UInt8} (hbn : ValidUtf8 bn)
    {rds : List (UInt16 × Value)} {ps : List (UInt16 × List UInt8)}
    (hps : List.Forall₂ (HasMember ieee754) rds ps) (hplain : ∀ r ∈ rds, r.2.PlainText)
    (hutf8 : ∀ r ∈ rds, r.2.Utf8Text) (first : Bool) :
    ∀ r ∈ senmlRecords bn first ps, ValidUtf8 r.render := by
  induction hps generalizing first with
  | nil => exact List.forall_mem_nil _
  | @cons r p rds ps hp _ ih =>
    obtain ⟨hr, hrds⟩ := List.forall_mem_cons.mp hplain
    obtain ⟨hr', hrds'⟩ := List.forall_mem_cons.mp hutf8
    refine List.forall_mem_cons.mpr ⟨?_, ih hrds hrds' false⟩
    refine validUtf8_render (fun b hb => ?_) (validUtf8_ofNat _) (validUtf8_senmlMember hr hr' hp.2)
    rcases first with _ | _
    · cases hb
    · obtain rfl := Option.some.inj hb
      exact hbn

/-- **A pack reads back.** Without strings that would have to be escaped or are not UTF-8, it
is UTF-8, and JSON exactly if all values are finite; and then it says what they are, under the
base name. -/
theorem pack_reads_back {bn : List UInt8} (hbn : IdBase (some bn)) {rds : List (UInt16 × Value)}
    {ps : List (UInt16 × List UInt8)} (hps : List.Forall₂ (HasMember ieee754) rds ps)
    (hplain : ∀ r ∈ rds, r.2.PlainText) (hutf8 : ∀ r ∈ rds, r.2.Utf8Text) :
    ValidUtf8 (senmlPack (senmlRecords bn true ps)) ∧
    ((∃ j, Json.Text (senmlPack (senmlRecords bn true ps)) j) ↔ ∀ r ∈ rds, r.2.Finite) ∧
      ∀ j, Json.Text (senmlPack (senmlRecords bn true ps)) j →
        ∃ entries, readSenml j = some entries ∧
          List.Forall₂ (fun r e => e.1 = bn ++ fmtU16 r.1 ∧ Denotes r.2 e.2) rds entries := by
  obtain ⟨hbase, hbase'⟩ := hbn bn rfl
  refine ⟨validUtf8_senmlPack (validUtf8_senmlRecords hbase' hps hplain hutf8 true), ?_⟩
  obtain ⟨os, hitems, hnone, hread⟩ := exists_items hbase hps hplain true
  rw [senmlPack_eq_itemArray]
  constructor
  · constructor
    · rintro ⟨j, hj⟩ r hr
      obtain ⟨vs, rfl, -⟩ := (text_itemArray_iff hitems j).mp hj
      by_contra hinf
      obtain ⟨v, -, hv⟩ := List.mem_map.mp (hnone.mpr ⟨r, hr, hinf⟩)
      cases hv
    · intro hfin
      obtain ⟨vs, rfl⟩ := exists_map_some fun hmem => by
        obtain ⟨r, hr, hinf⟩ := hnone.mp hmem
        exact hinf (hfin r hr)
      exact ⟨.arr vs, (text_itemArray_iff hitems _).mpr ⟨vs, rfl, rfl⟩⟩
  · intro j hj
    obtain ⟨vs, rfl, rfl⟩ := (text_itemArray_iff hitems j).mp hj
    exact hread [] vs (Or.inl rfl) rfl

variable {σ κ : Type} {obj : ObjectDef σ κ} {instId : UInt16} {m m' : Mem} {buf bufSize n : ℕ}
  {st st' : σ}

/-- **An instance reads back.** When every string reading is UTF-8 and none would have to be
escaped, the text the instance encoder prints is UTF-8, and it is JSON if and only if all the
floating-point readings are finite; and whatever JSON value it is read as, this has the
readings, in their order, each under the full path of its resource and with its own value: a
floating-point number as a nearest one with six significant digits, everything else as it is. -/
theorem senml_instance_reads_back (hplain : ∀ r ∈ obj.readings instId st, r.2.PlainText)
    (hutf8 : ∀ r ∈ obj.readings instId st, r.2.Utf8Text)
    (henc : encodeSenmlJsonInstance ieee754 obj instId m buf bufSize st = ((m', some n), st')) :
    ValidUtf8 (load m' buf n) ∧
      ((∃ j, Json.Text (load m' buf n) j) ↔ ∀ r ∈ obj.readings instId st, r.2.Finite) ∧
      ∀ j, Json.Text (load m' buf n) j → ∃ entries, readSenml j = some entries ∧
        List.Forall₂ (fun r e => e.1 = senmlBaseName obj.id instId ++ fmtU16 r.1 ∧
          Denotes r.2 e.2) (obj.readings instId st) entries := by
  obtain ⟨ps, hps, rfl, -, rfl⟩ := encodeSenmlJsonInstance_some henc
  rw [load_store_append]
  exact pack_reads_back (idBase_senmlBaseName obj.id instId) hps hplain hutf8

/-- A thermometer: a temperature and its unit. -/
def thermometer (d : UInt64) : ObjectDef Unit Unit where
  id := 3303
  instances := [0]
  resources := [
    ⟨5700, .float, 1, false, some fun _ _ _ _ _ => ((.ok, .float d), ())⟩,
    ⟨5701, .string, 1, false, some fun _ _ _ _ _ => ((.ok, .string (ascii "Cel")), ())⟩]
  userCtx := ()

theorem readings_thermometer (d : UInt64) :
    (thermometer d).readings 0 () = [(5700, .float d), (5701, .string (ascii "Cel"))] := rfl

theorem plainText_thermometer (d : UInt64) :
    ∀ r ∈ (thermometer d).readings 0 (), r.2.PlainText := by
  have hplain : Plain (ascii "Cel") := by decide
  rw [readings_thermometer, List.forall_mem_cons, List.forall_mem_singleton]
  refine ⟨?_, ?_⟩
  · rintro _ ⟨⟩
  · rintro _ ⟨⟩
    exact hplain

theorem utf8Text_thermometer (d : UInt64) :
    ∀ r ∈ (thermometer d).readings 0 (), r.2.Utf8Text := by
  rw [readings_thermometer, List.forall_mem_cons, List.forall_mem_singleton]
  refine ⟨?_, ?_⟩
  · rintro _ ⟨⟩
  · rintro _ ⟨⟩
    exact Ascii.validUtf8 (by decide)

/-- 23.5 degrees are UTF-8 and JSON. -/
theorem senml_instance_reads_back_sample : ∃ m' n,
    encodeSenmlJsonInstance ieee754 (thermometer 0x4037800000000000) 0 (fun _ => 0) 0 128 () =
      ((m', some n), ()) ∧ ValidUtf8 (load m' 0 n) ∧ ∃ j, Json.Text (load m' 0 n) j := by
  have henc : encodeSenmlJsonInstance ieee754 (thermometer 0x4037800000000000) 0 (fun _ => 0) 0
      128 () = ((_, some 63), ()) := rfl
  obtain ⟨hutf8, hjson, -⟩ :=
    senml_instance_reads_back (plainText_thermometer _) (utf8Text_thermometer _) henc
  refine ⟨_, _, henc, hutf8, hjson.mpr ?_⟩
  rw [readings_thermometer, List.forall_mem_cons, List.forall_mem_singleton]
  exact ⟨⟨47 / 2, by decide +kernel⟩, trivial⟩

end WbLwm2m

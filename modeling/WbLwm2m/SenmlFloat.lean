import WbLwm2m.FloatText
import WbLwm2m.SenmlNumber

/-!
# Floating point numbers in SenML-JSON

Both writers print a `double` under `%g`: six significant digits, where the TLV encoder
takes eight bytes as soon as four do not hold the number. So the integers below `2 ^ 53`,
which a `double` holds exactly, come back from a text only if six digits hold them too,
zeros at their end apart (`WbLwm2m.SixDigits`).

A text is read without losing anything in turn: the number of its `v` member is the
rational number it stands for (`WbLwm2m.readFloat`), whatever JSON value the text is read
as. What the value writer prints is the end of a record, and it is read as the members
that are left of it.
-/

namespace WbLwm2m

open Memory Json

/-! ### The reader -/

/-- The number the `v` member of a record stands for, exactly. -/
def readFloat (ms : List (List UInt8 × Json.Value)) : Option ℚ :=
  match ms.lookup (ascii "v") with
  | some (.num text) => Decimal.readRat text
  | _ => none

/-- **The text is a pack of one record with exactly this number**, however it is read. -/
def FloatPack (text : List UInt8) (q : ℚ) : Prop :=
  (∃ j, Json.Text text j) ∧
    ∀ j, Json.Text text j → ∃ ms, j = .arr [.obj ms] ∧ readFloat ms = some q

/-- **The text ends a record with exactly this number**, behind a comma, however it is
read. -/
def FloatField (text : List UInt8) (q : ℚ) : Prop :=
  ∃ t, text = 0x2C :: t ∧ (∃ ms, ReadsMembers t ms []) ∧
    ∀ ms, ReadsMembers t ms [] → readFloat ms = some q

/-- A text has one number. -/
theorem FloatPack.unique {text : List UInt8} {q q' : ℚ} (h : FloatPack text q)
    (h' : FloatPack text q') : q = q' := by
  obtain ⟨⟨j, hj⟩, hread⟩ := h
  obtain ⟨ms, rfl, hms⟩ := hread j hj
  obtain ⟨_, ⟨⟩, hms'⟩ := h'.2 _ hj
  exact Option.some.inj (hms.symm.trans hms')

theorem FloatField.unique {text : List UInt8} {q q' : ℚ} (h : FloatField text q)
    (h' : FloatField text q') : q = q' := by
  obtain ⟨t, rfl, ⟨ms, hms⟩, hread⟩ := h
  obtain ⟨_, ⟨⟩, -, hread'⟩ := h'
  exact Option.some.inj ((hread ms hms).symm.trans (hread' ms hms))

/-! ### What is printed -/

/-- The record of a number. -/
def numberRecord (objId instId resId : UInt16) (num : List UInt8) : SenmlRecord :=
  ⟨some (senmlBaseName objId instId), fmtU16 resId, 0x22 :: (ascii "v" ++ 0x22 :: 0x3A :: num)⟩

/-- The value field of a number. -/
def numberField (num : List UInt8) : List UInt8 :=
  0x2C :: 0x22 :: (ascii "v" ++ 0x22 :: 0x3A :: (num ++ [0x7D]))

/-- **The pack of a number** has the number its text stands for. -/
theorem floatPack_iff {num : List UInt8} (hnum : Number num) (objId instId resId : UInt16)
    (q : ℚ) :
    FloatPack (senmlPack [numberRecord objId instId resId num]) q ↔
      Decimal.readRat num = some q := by
  have hbn : ∀ b ∈ some (senmlBaseName objId instId), Plain b := by
    rintro _ ⟨⟩
    exact plain_senmlBaseName objId instId
  have htext := text_senmlPack (readsValue_render hbn resId (p := ascii "v") (by decide)
    (ReadsValue.num hnum (0x7D :: [0x5D])))
  have hlookup : readFloat (recordMembers (some (senmlBaseName objId instId)) resId
      (ascii "v", .num num)) = Decimal.readRat num := rfl
  constructor
  · rintro ⟨-, hread⟩
    obtain ⟨_, ⟨⟩, hms⟩ := hread _ htext
    exact hlookup.symm.trans hms
  · intro hq
    exact ⟨⟨_, htext⟩, fun j hj => ⟨_, hj.unique htext, hlookup.trans hq⟩⟩

/-- **The value field of a number** has the number its text stands for. -/
theorem floatField_iff {num : List UInt8} (hnum : Number num) (q : ℚ) :
    FloatField (numberField num) q ↔ Decimal.readRat num = some q := by
  have hmembers := readsMembers_last (p := ascii "v") (by decide)
    (ReadsValue.num hnum (0x7D :: []))
  have hlookup : readFloat [(ascii "v", .num num)] = Decimal.readRat num := rfl
  constructor
  · rintro ⟨_, ⟨⟩, -, hread⟩
    exact hlookup.symm.trans (hread _ hmembers)
  · intro hq
    refine ⟨_, rfl, ⟨_, hmembers⟩, fun ms hms => ?_⟩
    rw [(hms.unique hmembers).1]
    exact hlookup.trans hq

variable {fp : FloatOps} {d : UInt64}

theorem senmlMember_float (fp : FloatOps) (d : UInt64) :
    senmlMember fp (.float d) = some (0x22 :: (ascii "v" ++ 0x22 :: 0x3A :: fp.fmtG d)) := rfl

/-- What the single-resource encoder has written, when it succeeds. -/
theorem load_encodeSenmlJson_float {objId instId resId : UInt16} {m m' : Mem}
    {buf bufSize n : ℕ}
    (henc : encodeSenmlJson fp objId instId resId (.float d) m buf bufSize = (m', some n)) :
    load m' buf n = senmlPack [numberRecord objId instId resId (fp.fmtG d)] := by
  obtain ⟨text, htext, rfl, -, rfl⟩ := encodeSenmlJson_some henc
  rw [senmlText_eq, senmlMember_float] at htext
  obtain rfl := Option.some.inj htext
  exact load_store_append _ _ _ _

/-- What the value writer has written, when it succeeds. -/
theorem load_senmlWriteValue_float {m m' : Mem} {buf bufSize offset w : ℕ}
    (hwrite : senmlWriteValue fp (.float d) m buf bufSize offset = (m', some w)) :
    load m' (buf + offset) w = numberField (fp.fmtG d) := by
  have htext : senmlValueText fp (.float d) = some (numberField (fp.fmtG d)) := by
    simp [senmlValueText, numberField, ascii]
  rw [senmlWriteValue, htext] at hwrite
  simp only [snprintf_snd] at hwrite
  by_cases hfit : (numberField (fp.fmtG d)).length < bufSize - offset
  · rw [if_neg (not_le.mpr hfit), snprintf_fst_of_lt m hfit] at hwrite
    obtain ⟨rfl, hw⟩ := Prod.mk.inj hwrite
    obtain rfl := Option.some.inj hw
    exact load_store_append _ _ _ _
  · rw [if_pos (not_lt.mp hfit)] at hwrite
    cases (Prod.mk.inj hwrite).2

/-! ### Integers below `2 ^ 53` -/

theorem floatPack_encodeSenmlJson_iff {z : ℤ} (hd : doubleValue d = some (z : ℚ))
    (hz : |z| < 2 ^ 53) {objId instId resId : UInt16} {m m' : Mem} {buf bufSize n : ℕ}
    (henc : encodeSenmlJson ieee754 objId instId resId (.float d) m buf bufSize = (m', some n)) :
    FloatPack (load m' buf n) z ↔ SixDigits z := by
  obtain ⟨hnum, hexact⟩ := ieeeFmtG_int hd hz
  rw [load_encodeSenmlJson_float henc]
  exact (floatPack_iff hnum objId instId resId z).trans hexact

theorem floatField_senmlWriteValue_iff {z : ℤ} (hd : doubleValue d = some (z : ℚ))
    (hz : |z| < 2 ^ 53) {m m' : Mem} {buf bufSize offset w : ℕ}
    (hwrite : senmlWriteValue ieee754 (.float d) m buf bufSize offset = (m', some w)) :
    FloatField (load m' (buf + offset) w) z ↔ SixDigits z := by
  obtain ⟨hnum, hexact⟩ := ieeeFmtG_int hd hz
  rw [load_senmlWriteValue_float hwrite]
  exact (floatField_iff hnum z).trans hexact

/-- **SenML keeps an integer exactly if six digits hold it.** For every `double` that is an
integer below `2 ^ 53`, whatever either writer prints has that number if and only if the
integer has at most six digits, apart from zeros at its end; among those, different numbers
have different texts. -/
theorem senml_float_exact_iff {d : UInt64} {z : ℤ} (hd : doubleValue d = some (z : ℚ))
    (hz : |z| < 2 ^ 53) :
    (∀ (objId instId resId : UInt16) (m m' : Mem) (buf bufSize n : ℕ),
      encodeSenmlJson ieee754 objId instId resId (.float d) m buf bufSize = (m', some n) →
      (FloatPack (load m' buf n) z ↔ SixDigits z)) ∧
    (∀ (m m' : Mem) (buf bufSize offset w : ℕ),
      senmlWriteValue ieee754 (.float d) m buf bufSize offset = (m', some w) →
      (FloatField (load m' (buf + offset) w) z ↔ SixDigits z)) ∧
    ∀ (d₂ : UInt64) (z₂ : ℤ), doubleValue d₂ = some (z₂ : ℚ) → |z₂| < 2 ^ 53 →
      SixDigits z → SixDigits z₂ → z ≠ z₂ →
      (∀ (objId instId resId objId₂ instId₂ resId₂ : UInt16) (m m' m₂ m₂' : Mem)
        (buf bufSize n buf₂ bufSize₂ n₂ : ℕ),
        encodeSenmlJson ieee754 objId instId resId (.float d) m buf bufSize = (m', some n) →
        encodeSenmlJson ieee754 objId₂ instId₂ resId₂ (.float d₂) m₂ buf₂ bufSize₂ =
          (m₂', some n₂) →
        load m' buf n ≠ load m₂' buf₂ n₂) ∧
      ∀ (m m' m₂ m₂' : Mem) (buf bufSize offset w buf₂ bufSize₂ offset₂ w₂ : ℕ),
        senmlWriteValue ieee754 (.float d) m buf bufSize offset = (m', some w) →
        senmlWriteValue ieee754 (.float d₂) m₂ buf₂ bufSize₂ offset₂ = (m₂', some w₂) →
        load m' (buf + offset) w ≠ load m₂' (buf₂ + offset₂) w₂ := by
  refine ⟨fun _ _ _ _ _ _ _ _ henc => floatPack_encodeSenmlJson_iff hd hz henc,
    fun _ _ _ _ _ _ hwrite => floatField_senmlWriteValue_iff hd hz hwrite, ?_⟩
  intro d₂ z₂ hd₂ hz₂ hsix hsix₂ hne
  constructor
  · intro objId instId resId objId₂ instId₂ resId₂ m m' m₂ m₂' buf bufSize n buf₂ bufSize₂ n₂
      henc henc₂ hsame
    have hpack := (floatPack_encodeSenmlJson_iff hd hz henc).mpr hsix
    have hpack₂ := (floatPack_encodeSenmlJson_iff hd₂ hz₂ henc₂).mpr hsix₂
    exact hne (Int.cast_inj.mp (hpack.unique (hsame ▸ hpack₂)))
  · intro m m' m₂ m₂' buf bufSize offset w buf₂ bufSize₂ offset₂ w₂ hwrite hwrite₂ hsame
    have hfield := (floatField_senmlWriteValue_iff hd hz hwrite).mpr hsix
    have hfield₂ := (floatField_senmlWriteValue_iff hd₂ hz₂ hwrite₂).mpr hsix₂
    exact hne (Int.cast_inj.mp (hfield.unique (hsame ▸ hfield₂)))

/-- One and a half million is printed as `1.5e+06`, and that is what it is. -/
theorem senml_float_exact_iff_sample : ∃ m' n,
    encodeSenmlJson ieee754 3303 0 5700 (.float 0x4136E36000000000) (fun _ => 0) 0 64 =
      (m', some n) ∧ FloatPack (load m' 0 n) (1500000 : ℤ) := by
  have hvalue : doubleValue 0x4136E36000000000 = some ((1500000 : ℤ) : ℚ) := by decide +kernel
  have henc : encodeSenmlJson ieee754 3303 0 5700 (.float 0x4136E36000000000) (fun _ => 0) 0 64 =
      (_, some 42) := rfl
  exact ⟨_, _, henc, ((senml_float_exact_iff hvalue (by decide)).1 _ _ _ _ _ _ _ _ henc).mpr
    ⟨15, 5, by decide, by decide⟩⟩

/-- **Seven digits are too many**: both writers print 1234567 as `1.23457e+06`, and 1234568
as well. -/
theorem senml_float_loses_digits :
    doubleValue 0x4132D68700000000 = some ((1234567 : ℤ) : ℚ) ∧
      doubleValue 0x4132D68800000000 = some ((1234568 : ℤ) : ℚ) ∧
      (∃ m₁ m₂ n,
        encodeSenmlJson ieee754 3303 0 5700 (.float 0x4132D68700000000) (fun _ => 0) 0 64 =
          (m₁, some n) ∧
        encodeSenmlJson ieee754 3303 0 5700 (.float 0x4132D68800000000) (fun _ => 0) 0 64 =
          (m₂, some n) ∧
        ¬FloatPack (load m₁ 0 n) (1234567 : ℤ) ∧ load m₁ 0 n = load m₂ 0 n) ∧
      ∃ m₁ m₂ w,
        senmlWriteValue ieee754 (.float 0x4132D68700000000) (fun _ => 0) 0 64 30 =
          (m₁, some w) ∧
        senmlWriteValue ieee754 (.float 0x4132D68800000000) (fun _ => 0) 0 64 30 =
          (m₂, some w) ∧
        ¬FloatField (load m₁ 30 w) (1234567 : ℤ) ∧ load m₁ 30 w = load m₂ 30 w := by
  have hvalue : doubleValue 0x4132D68700000000 = some ((1234567 : ℤ) : ℚ) := by decide +kernel
  have hvalue₂ : doubleValue 0x4132D68800000000 = some ((1234568 : ℤ) : ℚ) := by decide +kernel
  have hsix : ¬SixDigits 1234567 := by decide +kernel
  have hsame : ieee754.fmtG 0x4132D68700000000 = ieee754.fmtG 0x4132D68800000000 := by
    decide +kernel
  have henc : encodeSenmlJson ieee754 3303 0 5700 (.float 0x4132D68700000000) (fun _ => 0) 0 64 =
      (_, some 46) := rfl
  have henc₂ : encodeSenmlJson ieee754 3303 0 5700 (.float 0x4132D68800000000) (fun _ => 0) 0
      64 = (_, some 46) := rfl
  have hwrite : senmlWriteValue ieee754 (.float 0x4132D68700000000) (fun _ => 0) 0 64 30 =
      (_, some 17) := rfl
  have hwrite₂ : senmlWriteValue ieee754 (.float 0x4132D68800000000) (fun _ => 0) 0 64 30 =
      (_, some 17) := rfl
  refine ⟨hvalue, hvalue₂, ⟨_, _, _, henc, henc₂, ?_, ?_⟩, _, _, _, hwrite, hwrite₂, ?_, ?_⟩
  · rw [floatPack_encodeSenmlJson_iff hvalue (by decide) henc]
    exact hsix
  · rw [load_encodeSenmlJson_float henc, load_encodeSenmlJson_float henc₂, hsame]
  · intro hfield
    exact hsix ((floatField_senmlWriteValue_iff hvalue (by decide) hwrite).mp hfield)
  · exact (load_senmlWriteValue_float hwrite).trans
      ((congrArg numberField hsame).trans (load_senmlWriteValue_float hwrite₂).symm)

end WbLwm2m

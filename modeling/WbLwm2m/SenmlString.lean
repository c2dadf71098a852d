import WbLwm2m.Lib.Json
import WbLwm2m.SenmlInstance
import Mathlib.Data.List.TakeWhile
import Mathlib.Data.List.Perm.Basic

/-!
# Strings in SenML-JSON

Both writers copy the bytes of a string between two quotation marks with `%.*s`: nothing
is escaped, and a NUL ends the copy. So a text is the JSON it is meant to be for some
strings only. This module says for which: those without control characters, quotation
marks and backslashes (`Json.Plain`).

One direction builds the derivation of the text in the grammar of `WbLwm2m.Lib.Json`. The
other takes a derivation apart from the left, where the text is the writer's own up to
the string, and then compares lengths: the string literal has no room for an escape.
-/

namespace WbLwm2m

open Memory Json

/-- The bytes of a value that is a string. -/
def Value.stringBytes : Value → Option (List UInt8)
  | .string s | .corelnk s => some s
  | _ => Option.none

/-- The members a string record should have, in any order: a base name in the first
record of a pack, a name, and a string value that denotes `s`. -/
def StringMembers (base : Bool) (s : List UInt8) (ms : List (List UInt8 × Json.Value)) : Prop :=
  ∃ b i, ms.Perm
    ((if base then [(ascii "bn", b)] else []) ++ [(ascii "n", i), (ascii "vs", .str s)])

/-- **The text is a faithful pack of one string**: a JSON array of one record with exactly
the members `bn`, `n` and `vs`, and `vs` denotes `s`. -/
def FaithfulPack (text s : List UInt8) : Prop :=
  ValidUtf8 text ∧ ∃ ms, StringMembers true s ms ∧ Json.Text text (.arr [.obj ms])

/-- **The text is a faithful string record.** -/
def FaithfulRecord (base : Bool) (text s : List UInt8) : Prop :=
  ValidUtf8 text ∧ ∃ ms, StringMembers base s ms ∧ Json.Text text (.obj ms)

/-! ### The text of a string record -/

/-- The record both writers print for a string. -/
def stringRecord (bn : Option (List UInt8)) (resId : UInt16) (s : List UInt8) : SenmlRecord :=
  ⟨bn, fmtU16 resId, ascii "\"vs\":\"" ++ fmtStr s ++ ascii "\""⟩

theorem senmlMember_of_stringBytes {fp : FloatOps} {v : Value} {s : List UInt8}
    (h : v.stringBytes = some s) :
    senmlMember fp v = some (ascii "\"vs\":\"" ++ fmtStr s ++ ascii "\"") := by
  cases v with
  | string s' =>
    obtain rfl := Option.some.inj h
    rfl
  | corelnk s' =>
    obtain rfl := Option.some.inj h
    rfl
  | _ => cases h

/-- The members behind the base name, and what follows them. -/
def stringTail (resId : UInt16) (s z : List UInt8) : List UInt8 :=
  member (ascii "n") (fmtU16 resId) (0x2C :: member (ascii "vs") (fmtStr s) (0x7D :: z))

theorem stringRecord_render (bn : Option (List UInt8)) (resId : UInt16) (s z : List UInt8) :
    (stringRecord bn resId s).render ++ z = 0x7B :: match bn with
      | none => stringTail resId s z
      | some b => member (ascii "bn") b (0x2C :: stringTail resId s z) := by
  cases bn with
  | none => simp [stringRecord, SenmlRecord.render, stringTail, member, ascii]
  | some b => simp [stringRecord, SenmlRecord.render, bnMember, stringTail, member, ascii]

theorem plain_ofNat (n : ℕ) : Plain (Decimal.ofNat n) := by
  intro b hb
  obtain ⟨hlo, hhi⟩ := Decimal.mem_ofNat hb
  refine ⟨UInt8.le_trans (by decide) hlo, ?_, ?_⟩
  · rintro rfl
    exact absurd hlo (by decide)
  · rintro rfl
    exact absurd hhi (by decide)

theorem plain_append {s t : List UInt8} (hs : Plain s) (ht : Plain t) : Plain (s ++ t) := by
  intro b hb
  rcases List.mem_append.mp hb with hb | hb
  · exact hs b hb
  · exact ht b hb

theorem plain_senmlBaseName (objId instId : UInt16) : Plain (senmlBaseName objId instId) := by
  have hslash : Plain (ascii "/") := by decide
  exact plain_append (plain_append (plain_append (plain_append hslash (plain_ofNat _)) hslash)
    (plain_ofNat _)) hslash

theorem fmtStr_of_plain {s : List UInt8} (hs : Plain s) : fmtStr s = s := by
  refine List.takeWhile_eq_self_iff.mpr fun b hb => decide_eq_true ?_
  rintro rfl
  exact absurd (hs 0 hb).1 (by decide)

theorem length_fmtStr_le (s : List UInt8) : (fmtStr s).length ≤ s.length :=
  (List.takeWhile_sublist _).length_le

/-! ### From plain strings to JSON -/

/-- The members of a record: a base name or none, a name, and a value. -/
def recordMembers (bn : Option (List UInt8)) (resId : UInt16)
    (value : List UInt8 × Json.Value) : List (List UInt8 × Json.Value) :=
  (bn.map fun b => (ascii "bn", Json.Value.str b)).toList ++
    [(ascii "n", .str (fmtU16 resId)), value]

/-- **A record is read as its members**, when its value is. -/
theorem readsValue_render {bn : Option (List UInt8)} (hbn : ∀ b ∈ bn, Plain b) (resId : UInt16)
    {p t z : List UInt8} {v : Json.Value} (hp : Plain p)
    (hv : ReadsValue (t ++ 0x7D :: z) v (0x7D :: z)) :
    ReadsValue
      ((SenmlRecord.mk bn (fmtU16 resId) (0x22 :: (p ++ 0x22 :: 0x3A :: t))).render ++ z)
      (.obj (recordMembers bn resId (p, v))) z := by
  have hname := readsMembers_member_cons (p := ascii "n") (by decide) (plain_ofNat resId.toNat)
    (readsMembers_last hp hv)
  rcases bn with _ | b
  · have hrender : (SenmlRecord.mk none (fmtU16 resId)
        (0x22 :: (p ++ 0x22 :: 0x3A :: t))).render ++ z =
        0x7B :: member (ascii "n") (fmtU16 resId)
          (0x2C :: 0x22 :: (p ++ 0x22 :: 0x3A :: (t ++ 0x7D :: z))) := by
      simp [SenmlRecord.render, member, ascii]
    rw [hrender]
    exact ReadsValue.obj hname
  · have hrender : (SenmlRecord.mk (some b) (fmtU16 resId)
        (0x22 :: (p ++ 0x22 :: 0x3A :: t))).render ++ z =
        0x7B :: member (ascii "bn") b (0x2C :: member (ascii "n") (fmtU16 resId)
          (0x2C :: 0x22 :: (p ++ 0x22 :: 0x3A :: (t ++ 0x7D :: z)))) := by
      simp [SenmlRecord.render, bnMember, member, ascii]
    rw [hrender]
    exact ReadsValue.obj (readsMembers_member_cons (by decide) (hbn b rfl) hname)

/-- A string record as a record with a string value. -/
theorem stringRecord_eq (bn : Option (List UInt8)) (resId : UInt16) (s : List UInt8) :
    stringRecord bn resId s = ⟨bn, fmtU16 resId,
      0x22 :: (ascii "vs" ++ 0x22 :: 0x3A :: (0x22 :: (fmtStr s ++ [0x22])))⟩ := by
  simp [stringRecord, ascii]

/-- A plain string is written faithfully. -/
theorem exists_readsValue_stringRecord {bn : Option (List UInt8)} (hbn : ∀ b ∈ bn, Plain b)
    (resId : UInt16) {s : List UInt8} (hs : Plain s) (z : List UInt8) :
    ∃ ms, StringMembers bn.isSome s ms ∧
      ReadsValue ((stringRecord bn resId s).render ++ z) (.obj ms) z := by
  have hvalue : ReadsValue (0x22 :: (fmtStr s ++ [0x22]) ++ 0x7D :: z) (.str s) (0x7D :: z) := by
    rw [fmtStr_of_plain hs, List.cons_append, List.append_assoc]
    exact ReadsValue.str (readsString_plain hs _)
  rw [stringRecord_eq]
  refine ⟨_, ?_, readsValue_render hbn resId (by decide) hvalue⟩
  rcases bn with _ | b
  · exact ⟨.null, .str (fmtU16 resId), List.Perm.refl _⟩
  · exact ⟨.str b, .str (fmtU16 resId), List.Perm.refl _⟩

/-- A pack denotes an array of what its record denotes. -/
theorem text_senmlPack {r : SenmlRecord} {v : Json.Value}
    (h : ReadsValue (r.render ++ [0x5D]) v [0x5D]) : Json.Text (senmlPack [r]) (.arr [v]) := by
  rw [senmlPack_singleton]
  exact ⟨_, [], ReadsWs.done _, ReadsValue.arr (ReadsItems.last (ReadsWs.done _) h
    (ReadsWs.done _)), ReadsWs.done _⟩

/-! ### From JSON to plain strings -/

/-- The value of the last member is the string, and there is no room for an escape. -/
theorem plain_of_readsMembers_vs {s z t : List UInt8} {m : List UInt8 × Json.Value}
    (h : ReadsMembers (member (ascii "vs") (fmtStr s) (0x7D :: z)) [m] t)
    (hm : m.2 = .str s) (hz : z.length ≤ t.length) : Plain s := by
  obtain ⟨k, v⟩ := m
  obtain ⟨-, s', t', rfl, hs, ⟨-, hws⟩ | ⟨u, -, hnil⟩⟩ := h.of_member (by decide)
  · obtain rfl : s' = s := Json.Value.str.inj hm
    rcases hs.length_lt_or_plain with hlt | ⟨hplain, -⟩
    · have hlen := hws.length_le
      have hfmt := length_fmtStr_le s'
      simp only [List.length_append, List.length_cons] at hlt hlen
      omega
    · exact hplain
  · cases hnil

/-- The name, then the string. -/
theorem plain_of_readsMembers_stringTail {resId : UInt16} {s z t : List UInt8}
    {m₁ m₂ : List UInt8 × Json.Value} (h : ReadsMembers (stringTail resId s z) [m₁, m₂] t)
    (hm : (ascii "vs", Json.Value.str s) ∈ [m₁, m₂]) (hz : z.length ≤ t.length) : Plain s := by
  obtain ⟨rfl, hrest⟩ := h.of_member_plain (by decide) (plain_ofNat _)
  refine plain_of_readsMembers_vs hrest ?_ hz
  rcases List.mem_pair.mp hm with hm | hm
  · exact absurd (Prod.mk.inj hm).1 (by decide)
  · rw [← hm]

/-- **A string that is written faithfully is plain.** -/
theorem plain_of_readsValue_stringRecord {bn : Option (List UInt8)} (hbn : ∀ b ∈ bn, Plain b)
    {resId : UInt16} {s z t : List UInt8} {ms : List (List UInt8 × Json.Value)}
    (hms : StringMembers bn.isSome s ms)
    (h : ReadsValue ((stringRecord bn resId s).render ++ z) (.obj ms) t)
    (hz : z.length ≤ t.length) : Plain s := by
  obtain ⟨b, i, hperm⟩ := hms
  rw [stringRecord_render] at h
  have hmem : (ascii "vs", Json.Value.str s) ∈ ms := hperm.mem_iff.mpr (by simp)
  cases bn with
  | none =>
    obtain ⟨m₁, m₂, rfl⟩ := List.length_eq_two.mp hperm.length_eq
    obtain ⟨t₀, ht, hread⟩ := h.of_obj_cons
    obtain ⟨-, rfl⟩ := List.cons.inj ht
    exact plain_of_readsMembers_stringTail hread hmem hz
  | some base =>
    obtain ⟨m₁, m₂, m₃, rfl⟩ := List.length_eq_three.mp hperm.length_eq
    obtain ⟨t₀, ht, hread⟩ := h.of_obj_cons
    obtain ⟨-, rfl⟩ := List.cons.inj ht
    obtain ⟨rfl, hrest⟩ := hread.of_member_plain (by decide) (hbn base rfl)
    refine plain_of_readsMembers_stringTail hrest ?_ hz
    rcases List.mem_cons.mp hmem with hm | hm
    · exact absurd (Prod.mk.inj hm).1 (by decide)
    · exact hm

/-! ### The two writers -/

theorem validUtf8_ofNat (n : ℕ) : ValidUtf8 (Decimal.ofNat n) :=
  Ascii.validUtf8 fun _ hb => UInt8.lt_of_le_of_lt (Decimal.mem_ofNat hb).2 (by decide)

theorem validUtf8_senmlBaseName (objId instId : UInt16) :
    ValidUtf8 (senmlBaseName objId instId) := by
  have hslash : ValidUtf8 (ascii "/") := Ascii.validUtf8 (by decide)
  exact (((hslash.append (validUtf8_ofNat _)).append hslash).append (validUtf8_ofNat _)).append
    hslash

/-- A record is UTF-8 when its parts are. -/
theorem validUtf8_render {r : SenmlRecord} (hbn : ∀ b ∈ r.baseName, ValidUtf8 b)
    (hname : ValidUtf8 r.name) (hmember : ValidUtf8 r.member) : ValidUtf8 r.render := by
  have hlit : ∀ {l : List UInt8}, Ascii l → ValidUtf8 l := Ascii.validUtf8
  have hbase : ValidUtf8 ((r.baseName.map bnMember).getD []) := by
    rcases h : r.baseName with _ | b
    · exact ⟨[], rfl⟩
    · exact ((hlit (by decide)).append (hbn b h)).append (hlit (by decide))
  exact ((((((hlit (by decide)).append hbase).append (hlit (by decide))).append hname).append
    (hlit (by decide))).append hmember).append (hlit (by decide))

theorem validUtf8_senmlTail {rs : List SenmlRecord} (h : ∀ r ∈ rs, ValidUtf8 r.render) :
    ValidUtf8 (senmlTail rs) := by
  have hcomma : ValidUtf8 (ascii ",") := Ascii.validUtf8 (by decide)
  induction rs with
  | nil => exact ⟨[], rfl⟩
  | cons r rs ih =>
    obtain ⟨hr, hrs⟩ := List.forall_mem_cons.mp h
    exact (hcomma.append hr).append (ih hrs)

/-- A pack is UTF-8 when its records are. -/
theorem validUtf8_senmlPack {rs : List SenmlRecord} (h : ∀ r ∈ rs, ValidUtf8 r.render) :
    ValidUtf8 (senmlPack rs) := by
  have hopen : ValidUtf8 (ascii "[") := Ascii.validUtf8 (by decide)
  have hclose : ValidUtf8 (ascii "]") := Ascii.validUtf8 (by decide)
  rcases rs with _ | ⟨r, rs⟩
  · exact hopen.append hclose
  · obtain ⟨hr, hrs⟩ := List.forall_mem_cons.mp h
    exact ((hopen.append hr).append (validUtf8_senmlTail hrs)).append hclose

/-- A record of a string without a NUL is UTF-8 when the string is. -/
theorem validUtf8_stringRecord {bn : Option (List UInt8)} (hbn : ∀ b ∈ bn, ValidUtf8 b)
    (resId : UInt16) {s : List UInt8} (hs : ValidUtf8 (fmtStr s)) :
    ValidUtf8 (stringRecord bn resId s).render := by
  have hopen : ValidUtf8 (ascii "\"vs\":\"") := Ascii.validUtf8 (by decide)
  have hclose : ValidUtf8 (ascii "\"") := Ascii.validUtf8 (by decide)
  exact validUtf8_render hbn (validUtf8_ofNat _) ((hopen.append hs).append hclose)

/-- A base name of identifiers, or none. -/
def IdBase (bn : Option (List UInt8)) : Prop :=
  ∀ b ∈ bn, Plain b ∧ ValidUtf8 b

theorem idBase_senmlBaseName (objId instId : UInt16) :
    IdBase (some (senmlBaseName objId instId)) := by
  rintro b ⟨⟩
  exact ⟨plain_senmlBaseName _ _, validUtf8_senmlBaseName _ _⟩

theorem idBase_none : IdBase none := fun _ hb => absurd hb (by simp)

/-- **A string record is faithful exactly for plain strings.** -/
theorem faithfulRecord_stringRecord_iff {bn : Option (List UInt8)} (hbn : IdBase bn)
    (resId : UInt16) {s : List UInt8} (hs : ValidUtf8 s) :
    FaithfulRecord bn.isSome (stringRecord bn resId s).render s ↔ Plain s := by
  constructor
  · rintro ⟨-, ms, hms, t₁, t₂, hws, hread, -⟩
    have hrender := stringRecord_render bn resId s []
    rw [List.append_nil] at hrender
    rw [hrender] at hws
    rw [hws.eq_of_not_space (by decide), ← hrender, ← List.append_nil (SenmlRecord.render _)]
      at hread
    exact plain_of_readsValue_stringRecord (fun b hb => (hbn b hb).1) hms hread (Nat.zero_le _)
  · intro hplain
    obtain ⟨ms, hms, hread⟩ :=
      exists_readsValue_stringRecord (fun b hb => (hbn b hb).1) resId hplain []
    rw [List.append_nil] at hread
    refine ⟨validUtf8_stringRecord (fun b hb => (hbn b hb).2) resId ?_, ms, hms, _, _,
      ReadsWs.done _, hread, ReadsWs.done _⟩
    rwa [fmtStr_of_plain hplain]

/-- **A pack of one string is faithful exactly for plain strings.** -/
theorem faithfulPack_stringRecord_iff {base : List UInt8} (hbase : IdBase (some base))
    (resId : UInt16) {s : List UInt8} (hs : ValidUtf8 s) :
    FaithfulPack (senmlPack [stringRecord (some base) resId s]) s ↔ Plain s := by
  constructor
  · rintro ⟨-, ms, hms, t₁, t₂, hws, hread, -⟩
    rw [senmlPack_singleton] at hws
    rw [hws.eq_of_not_space (by decide)] at hread
    obtain ⟨u₀, u₁, u₂, hu₀, hws₁, hobj, hws₂⟩ := hread.of_arr_singleton
    obtain ⟨-, rfl⟩ := List.cons.inj hu₀
    rw [stringRecord_render] at hws₁
    rw [hws₁.eq_of_not_space (by decide), ← stringRecord_render (some base)] at hobj
    refine plain_of_readsValue_stringRecord (fun b hb => (hbase b hb).1) hms hobj ?_
    exact (Nat.succ_le_succ (Nat.zero_le t₂.length)).trans hws₂.length_le
  · intro hplain
    obtain ⟨ms, hms, hread⟩ :=
      exists_readsValue_stringRecord (fun b hb => (hbase b hb).1) resId hplain [0x5D]
    refine ⟨?_, ms, hms, text_senmlPack hread⟩
    exact validUtf8_senmlPack (List.forall_mem_singleton.mpr (validUtf8_stringRecord
      (fun b hb => (hbase b hb).2) resId ((fmtStr_of_plain hplain).symm ▸ hs)))

/-- The text of a string value, in one go. -/
theorem senmlText_of_stringBytes {fp : FloatOps} {objId instId resId : UInt16} {v : Value}
    {s : List UInt8} (hv : v.stringBytes = some s) :
    senmlText fp objId instId resId v =
      some (senmlPack [stringRecord (some (senmlBaseName objId instId)) resId s]) := by
  rw [senmlText_eq, senmlMember_of_stringBytes hv]
  rfl

theorem senmlRecords_getElem? (bn : List UInt8) (first : Bool) (ps : List (UInt16 × List UInt8))
    (i : ℕ) :
    (senmlRecords bn first ps)[i]? = ps[i]?.map fun p =>
      ⟨if first && i == 0 then some bn else none, fmtU16 p.1, p.2⟩ := by
  induction ps generalizing first i with
  | nil => rfl
  | cons p ps ih =>
    cases i with
    | zero => simp [senmlRecords]
    | succ i => simp [senmlRecords, ih]

/-- **The record the instance encoder prints for a reading** holds its value member. -/
theorem exists_member_of_senmlRecords {fp : FloatOps} {rds : List (UInt16 × Value)}
    {ps : List (UInt16 × List UInt8)} (hps : List.Forall₂ (HasMember fp) rds ps)
    (bn : List UInt8) {i : ℕ} {r : UInt16 × Value} {rec : SenmlRecord}
    (hr : rds[i]? = some r) (hrec : (senmlRecords bn true ps)[i]? = some rec) :
    ∃ mem, senmlMember fp r.2 = some mem ∧
      rec = ⟨if i == 0 then some bn else none, fmtU16 r.1, mem⟩ := by
  rw [senmlRecords_getElem?, Bool.true_and] at hrec
  obtain ⟨p, hp, rfl⟩ := Option.map_eq_some_iff.mp hrec
  have hmember : HasMember fp r p := by
    obtain ⟨hi, rfl⟩ := List.getElem?_eq_some_iff.mp hr
    obtain ⟨hi', rfl⟩ := List.getElem?_eq_some_iff.mp hp
    exact hps.get hi hi'
  obtain ⟨hid, hmem⟩ := hmember
  exact ⟨p.2, hmem, by rw [hid]⟩

/-- The record the instance encoder prints for a string reading. -/
theorem senmlRecords_of_stringBytes {fp : FloatOps} {rds : List (UInt16 × Value)}
    {ps : List (UInt16 × List UInt8)} (hps : List.Forall₂ (HasMember fp) rds ps)
    (bn : List UInt8) {i : ℕ} {r : UInt16 × Value} {rec : SenmlRecord} {s : List UInt8}
    (hr : rds[i]? = some r) (hrec : (senmlRecords bn true ps)[i]? = some rec)
    (hs : r.2.stringBytes = some s) :
    rec = stringRecord (if i == 0 then some bn else none) r.1 s := by
  obtain ⟨mem, hmem, rfl⟩ := exists_member_of_senmlRecords hps bn hr hrec
  rw [senmlMember_of_stringBytes hs] at hmem
  rw [← Option.some.inj hmem]
  rfl

/-- **SenML string fidelity, exactly.** For a string that is valid UTF-8, a text the
single-resource encoder returns is a faithful pack, and a record of the instance encoder
is a faithful record, if and only if the string is plain. -/
theorem senml_string_faithful_iff_plain {s : List UInt8} (hs : ValidUtf8 s) :
    (∀ (fp : FloatOps) (objId instId resId : UInt16) (v : Value) (m m' : Mem) (buf bufSize n : ℕ),
      v.stringBytes = some s →
      encodeSenmlJson fp objId instId resId v m buf bufSize = (m', some n) →
      (FaithfulPack (load m' buf n) s ↔ Plain s)) ∧
    (∀ (fp : FloatOps) (σ κ : Type) (obj : ObjectDef σ κ) (instId : UInt16) (m m' : Mem)
      (buf bufSize n : ℕ) (st st' : σ),
      encodeSenmlJsonInstance fp obj instId m buf bufSize st = ((m', some n), st') →
      ∃ ps, List.Forall₂ (HasMember fp) (obj.readings instId st) ps ∧
        load m' buf n = senmlPack (senmlRecords (senmlBaseName obj.id instId) true ps) ∧
        ∀ i r rec, (obj.readings instId st)[i]? = some r →
          (senmlRecords (senmlBaseName obj.id instId) true ps)[i]? = some rec →
          r.2.stringBytes = some s → (FaithfulRecord (i == 0) rec.render s ↔ Plain s)) := by
  refine ⟨fun fp objId instId resId v m m' buf bufSize n hv henc => ?_,
    fun fp σ κ obj instId m m' buf bufSize n st st' henc => ?_⟩
  · obtain ⟨T, hT, rfl, -, rfl⟩ := encodeSenmlJson_some henc
    rw [senmlText_of_stringBytes hv] at hT
    obtain rfl := Option.some.inj hT
    rw [load_store_append]
    exact faithfulPack_stringRecord_iff (idBase_senmlBaseName _ _) resId hs
  · obtain ⟨ps, hps, rfl, -, rfl⟩ := encodeSenmlJsonInstance_some henc
    refine ⟨ps, hps, load_store_append _ _ _ _, fun i r rec hr hrec hv => ?_⟩
    rw [senmlRecords_of_stringBytes hps _ hr hrec hv]
    cases i with
    | zero => exact faithfulRecord_stringRecord_iff (idBase_senmlBaseName _ _) r.1 hs
    | succ i => exact faithfulRecord_stringRecord_iff idBase_none r.1 hs

/-- The manufacturer of the header's example is written faithfully. -/
theorem senml_string_faithful_iff_plain_sample :
    FaithfulPack (load (encodeSenmlJson ieee754 3 0 0 (.string (ascii "WhirlingBits"))
      (fun _ => 0) 0 64).1 0 44) (ascii "WhirlingBits") :=
  ((senml_string_faithful_iff_plain (Ascii.validUtf8 (by decide))).1 ieee754 3 0 0
    (.string (ascii "WhirlingBits")) (fun _ => 0) _ 0 64 44 rfl rfl).mpr (by decide)

/-- **A quotation mark breaks the text**: `a"b` is returned, and is no faithful pack. -/
theorem senml_string_quote_not_faithful :
    ValidUtf8 (ascii "a\"b") ∧ ∃ m' n,
      encodeSenmlJson ieee754 3 0 0 (.string (ascii "a\"b")) (fun _ => 0) 0 64 = (m', some n) ∧
        ¬FaithfulPack (load m' 0 n) (ascii "a\"b") := by
  have hutf8 : ValidUtf8 (ascii "a\"b") := Ascii.validUtf8 (by decide)
  refine ⟨hutf8, _, _, encodeSenmlJson_of_lt (senmlText_of_stringBytes rfl) _ 0 (by decide), ?_⟩
  rw [load_store_append]
  intro h
  exact absurd ((faithfulPack_stringRecord_iff (idBase_senmlBaseName 3 0) 0 hutf8).mp h)
    (by decide)

end WbLwm2m

import WbLwm2m.Base64
import WbLwm2m.SenmlNumber

/-!
# Opaque values in SenML-JSON

Both writers put the Base64 of an opaque value through a local buffer of 344 bytes,
enough for 256 bytes of input according to the comment beside it. Their text has 344
characters and needs a terminator: 255 bytes are the most either encoder can write
(`WbLwm2m.b64Text_eq`), one less than the TLV encoder.

Below that size what they write is read back: the `vd` member of the record stands for
the bytes of the value, whatever JSON value the text is read as.
-/

namespace WbLwm2m

open Memory Json

/-! ### The reader -/

/-- The bytes the `vd` member of a record stands for. -/
def readOpaque (ms : List (List UInt8 × Json.Value)) : Option (List UInt8) :=
  (strMember (ascii "vd") ms).bind Base64.decode

/-- **The text is a pack of one record that carries the bytes**, however it is read. -/
def OpaquePack (text data : List UInt8) : Prop :=
  (∃ j, Json.Text text j) ∧
    ∀ j, Json.Text text j → ∃ ms, j = .arr [.obj ms] ∧ readOpaque ms = some data

/-- **The text is a record that carries the bytes**, however it is read. -/
def OpaqueRecord (text data : List UInt8) : Prop :=
  (∃ j, Json.Text text j) ∧
    ∀ j, Json.Text text j → ∃ ms, j = .obj ms ∧ readOpaque ms = some data

/-! ### The record -/

/-- Base64 needs no escapes. -/
theorem plain_encode (data : List UInt8) : Plain (Base64.encode data) := by
  have halphabet : Plain Base64.alphabet := by decide
  have hpad : Plain [Base64.pad] := by decide
  intro c hc
  rcases Base64.mem_encode hc with h | rfl
  · exact halphabet c h
  · exact hpad _ (List.mem_singleton.mpr rfl)

/-- Base64 is ASCII. -/
theorem ascii_encode (data : List UInt8) : Ascii (Base64.encode data) := by
  have halphabet : Ascii Base64.alphabet := by decide
  have hpad : Ascii [Base64.pad] := by decide
  intro c hc
  rcases Base64.mem_encode hc with h | rfl
  · exact halphabet c h
  · exact hpad _ (List.mem_singleton.mpr rfl)

/-- The record both writers print for an opaque value. -/
def opaqueRecord (bn : Option (List UInt8)) (resId : UInt16) (data : List UInt8) : SenmlRecord :=
  ⟨bn, fmtU16 resId, ascii "\"vd\":\"" ++ Base64.encode data ++ ascii "\""⟩

/-- The value member of the record. -/
def opaqueMember (data : List UInt8) : List UInt8 × Json.Value :=
  (ascii "vd", .str (Base64.encode data))

theorem readOpaque_recordMembers (bn : Option (List UInt8)) (resId : UInt16)
    (data : List UInt8) :
    readOpaque (recordMembers bn resId (opaqueMember data)) = some data := by
  have hvd : strMember (ascii "vd") (recordMembers bn resId (opaqueMember data)) =
      some (Base64.encode data) := by
    rcases bn with _ | b <;> rfl
  rw [readOpaque, hvd, Option.bind_some, Base64.decode_encode]

/-- **The record is read as its members.** -/
theorem readsValue_opaqueRecord {bn : Option (List UInt8)} (hbn : ∀ b ∈ bn, Plain b)
    (resId : UInt16) (data z : List UInt8) :
    ReadsValue ((opaqueRecord bn resId data).render ++ z)
      (.obj (recordMembers bn resId (opaqueMember data))) z := by
  have hvalue : ReadsValue (0x22 :: (Base64.encode data ++ [0x22]) ++ 0x7D :: z)
      (.str (Base64.encode data)) (0x7D :: z) := by
    rw [List.cons_append, List.append_assoc]
    exact ReadsValue.str (readsString_plain (plain_encode data) _)
  have hrecord : opaqueRecord bn resId data = ⟨bn, fmtU16 resId,
      0x22 :: (ascii "vd" ++ 0x22 :: 0x3A :: (0x22 :: (Base64.encode data ++ [0x22])))⟩ := by
    simp [opaqueRecord, ascii]
  rw [hrecord]
  exact readsValue_render hbn resId (by decide) hvalue

/-- A record carries its bytes. -/
theorem opaqueRecord_render {bn : Option (List UInt8)} (hbn : ∀ b ∈ bn, Plain b)
    (resId : UInt16) (data : List UInt8) :
    OpaqueRecord (opaqueRecord bn resId data).render data := by
  have hread := readsValue_opaqueRecord hbn resId data []
  rw [List.append_nil] at hread
  have htext : Json.Text (opaqueRecord bn resId data).render
      (.obj (recordMembers bn resId (opaqueMember data))) :=
    ⟨_, _, ReadsWs.done _, hread, ReadsWs.done _⟩
  refine ⟨⟨_, htext⟩, fun j hj => ⟨_, hj.unique htext, readOpaque_recordMembers bn resId data⟩⟩

/-- A pack of one record carries its bytes. -/
theorem opaquePack_singleton {base : List UInt8} (hbase : Plain base) (resId : UInt16)
    (data : List UInt8) :
    OpaquePack (senmlPack [opaqueRecord (some base) resId data]) data := by
  have hbn : ∀ b ∈ some base, Plain b := by
    rintro _ ⟨⟩
    exact hbase
  have htext := text_senmlPack (readsValue_opaqueRecord hbn resId data [0x5D])
  exact ⟨⟨_, htext⟩, fun j hj =>
    ⟨_, hj.unique htext, readOpaque_recordMembers (some base) resId data⟩⟩

/-- The value member of an opaque value. -/
theorem senmlMember_opaqueData (fp : FloatOps) (data : List UInt8) :
    senmlMember fp (.opaqueData data) = if data.length < 256 then
      some (ascii "\"vd\":\"" ++ Base64.encode data ++ ascii "\"") else none := by
  rw [senmlMember, b64Text_eq]
  split <;> rfl

/-- Every value but `.none` and an opaque value that is too long has a value member. -/
theorem exists_senmlMember {fp : FloatOps} {v : Value} (hnone : v ≠ .none)
    (hdata : ∀ data, v = .opaqueData data → data.length < 256) :
    ∃ mem, senmlMember fp v = some mem := by
  cases v with
  | none => exact absurd rfl hnone
  | opaqueData data => exact ⟨_, by rw [senmlMember_opaqueData, if_pos (hdata data rfl)]⟩
  | _ => exact ⟨_, rfl⟩

theorem exists_forall₂_hasMember {fp : FloatOps} {rds : List (UInt16 × Value)}
    (h : ∀ r ∈ rds, ∃ mem, senmlMember fp r.2 = some mem) :
    ∃ ps, List.Forall₂ (HasMember fp) rds ps := by
  induction rds with
  | nil => exact ⟨[], List.Forall₂.nil⟩
  | cons r rds ih =>
    obtain ⟨mem, hmem⟩ := h r List.mem_cons_self
    obtain ⟨ps, hps⟩ := ih fun r' hr' => h r' (List.mem_cons_of_mem _ hr')
    exact ⟨(r.1, mem) :: ps, List.Forall₂.cons ⟨rfl, hmem⟩ hps⟩

/-! ### The two encoders -/

/-- **What the single-resource encoder owes an opaque value**: it succeeds in every buffer
that is large enough, and the pack it prints carries the bytes. -/
def OpaqueEncodes (fp : FloatOps) (data : List UInt8) (objId instId resId : UInt16) (m : Mem)
    (buf : ℕ) : Prop :=
  ∃ size, ∀ bufSize, size ≤ bufSize → ∃ m' n,
    encodeSenmlJson fp objId instId resId (.opaqueData data) m buf bufSize = (m', some n) ∧
      OpaquePack (load m' buf n) data

variable {σ κ : Type}

/-- **What the instance encoder owes its opaque readings**: it succeeds in every buffer
that is large enough, and in the pack it prints the record of an opaque reading carries
the bytes. -/
def OpaqueInstanceEncodes (fp : FloatOps) (obj : ObjectDef σ κ) (instId : UInt16) (m : Mem)
    (buf : ℕ) (s : σ) : Prop :=
  ∃ size, ∀ bufSize, size ≤ bufSize → ∃ m' n s' ps,
    encodeSenmlJsonInstance fp obj instId m buf bufSize s = ((m', some n), s') ∧
      List.Forall₂ (HasMember fp) (obj.readings instId s) ps ∧
      load m' buf n = senmlPack (senmlRecords (senmlBaseName obj.id instId) true ps) ∧
      ∀ (i : ℕ) (r : UInt16 × Value) (rec : SenmlRecord) (data : List UInt8),
        (obj.readings instId s)[i]? = some r →
        (senmlRecords (senmlBaseName obj.id instId) true ps)[i]? = some rec →
        r.2 = .opaqueData data → OpaqueRecord rec.render data

theorem opaqueEncodes_iff {fp : FloatOps} {data : List UInt8} {objId instId resId : UInt16}
    {m : Mem} {buf : ℕ} :
    OpaqueEncodes fp data objId instId resId m buf ↔ data.length < 256 := by
  have htext : senmlText fp objId instId resId (.opaqueData data) = _ := senmlText_eq _
  rw [senmlMember_opaqueData] at htext
  constructor
  · rintro ⟨size, h⟩
    obtain ⟨m', n, henc, -⟩ := h size le_rfl
    obtain ⟨T, hT, -⟩ := encodeSenmlJson_some henc
    rw [htext] at hT
    by_contra hlong
    rw [if_neg hlong] at hT
    cases hT
  · intro hlt
    rw [if_pos hlt, Option.map_some] at htext
    refine ⟨_, fun bufSize hsize => ⟨_, _, encodeSenmlJson_of_lt htext m buf hsize, ?_⟩⟩
    rw [load_store_append]
    exact opaquePack_singleton (plain_senmlBaseName objId instId) resId data

theorem opaqueInstanceEncodes_iff {fp : FloatOps} {obj : ObjectDef σ κ} {instId : UInt16}
    {m : Mem} {buf : ℕ} {s : σ} (hnone : ∀ r ∈ obj.readings instId s, r.2 ≠ .none) :
    OpaqueInstanceEncodes fp obj instId m buf s ↔
      ∀ r ∈ obj.readings instId s, ∀ data, r.2 = .opaqueData data → data.length < 256 := by
  constructor
  · rintro ⟨size, h⟩ r hr data hdata
    obtain ⟨m', n, s', ps, -, hps, -⟩ := h size le_rfl
    obtain ⟨i, hi, rfl⟩ := List.getElem_of_mem hr
    obtain ⟨-, hmem⟩ := hps.get hi (hps.length_eq ▸ hi)
    by_contra hlong
    rw [List.get_eq_getElem, hdata, senmlMember_opaqueData, if_neg hlong] at hmem
    cases hmem
  · intro hshort
    obtain ⟨ps, hps⟩ : ∃ ps, List.Forall₂ (HasMember fp) (obj.readings instId s) ps :=
      exists_forall₂_hasMember fun r hr => exists_senmlMember (hnone r hr) (hshort r hr)
    refine ⟨(senmlPack (senmlRecords (senmlBaseName obj.id instId) true ps)).length + 1,
      fun bufSize hsize => ?_⟩
    have hsome : (encodeSenmlJsonInstance fp obj instId m buf bufSize s).1.2 ≠ none :=
      encodeSenmlJsonInstance_of_lt hps m hsize
    rcases henc : encodeSenmlJsonInstance fp obj instId m buf bufSize s with ⟨⟨m', _ | n⟩, s'⟩
    · exact absurd (congrArg (fun r => r.1.2) henc) hsome
    obtain ⟨ps', hps', rfl, -, rfl⟩ := encodeSenmlJsonInstance_some henc
    obtain rfl := List.right_unique_forall₂' hasMember_rightUnique hps' hps
    refine ⟨_, _, s', ps', rfl, hps', load_store_append _ _ _ _, ?_⟩
    intro i r rec data hr hrec hdata
    obtain ⟨mem, hmem, rfl⟩ := exists_member_of_senmlRecords hps' _ hr hrec
    rw [hdata, senmlMember_opaqueData,
      if_pos (hshort r (List.mem_of_getElem? hr) data hdata)] at hmem
    obtain rfl := Option.some.inj hmem
    refine opaqueRecord_render ?_ r.1 data
    intro b hb
    split at hb
    · obtain rfl := Option.mem_some.mp hb
      exact plain_senmlBaseName obj.id instId
    · cases hb

/-- **SenML opaque values, exactly.** Of the values of up to 256 bytes, the single-resource
encoder writes and preserves those that do not have exactly 256 bytes, and the instance
encoder writes and preserves the opaque readings of an instance when none of them has. -/
theorem senml_opaque_iff (fp : FloatOps) :
    (∀ (data : List UInt8) (objId instId resId : UInt16) (m : Mem) (buf : ℕ),
      data.length ≤ 256 →
      (OpaqueEncodes fp data objId instId resId m buf ↔ data.length ≠ 256)) ∧
    ∀ (σ κ : Type) (obj : ObjectDef σ κ) (instId : UInt16) (m : Mem) (buf : ℕ) (s : σ),
      (∀ r ∈ obj.readings instId s, r.2 ≠ .none ∧
        ∀ data, r.2 = .opaqueData data → data.length ≤ 256) →
      (OpaqueInstanceEncodes fp obj instId m buf s ↔
        ∀ r ∈ obj.readings instId s, ∀ data, r.2 = .opaqueData data → data.length ≠ 256) := by
  refine ⟨fun data objId instId resId m buf hdata => ?_, fun σ κ obj instId m buf s hrds => ?_⟩
  · rw [opaqueEncodes_iff]
    omega
  · rw [opaqueInstanceEncodes_iff fun r hr => (hrds r hr).1]
    constructor
    · intro h r hr data hdata
      exact (h r hr data hdata).ne
    · intro h r hr data hdata
      exact lt_of_le_of_ne ((hrds r hr).2 data hdata) (h r hr data hdata)

/-- An object with one opaque resource, and the value it holds. -/
def opaqueObject (data : List UInt8) : ObjectDef Unit Unit where
  id := 0
  instances := [0]
  resources := [⟨3, .opaqueData, 1, false, some fun _ _ _ _ _ => ((.ok, .opaqueData data), ())⟩]
  userCtx := ()

theorem readings_opaqueObject (data : List UInt8) :
    (opaqueObject data).readings 0 () = [(3, .opaqueData data)] := rfl

/-- The most that is written: 255 bytes. -/
theorem senml_opaque_iff_most :
    OpaqueEncodes ieee754 (List.replicate 255 0xA5) 0 0 3 (fun _ => 0) 0 ∧
      OpaqueInstanceEncodes ieee754 (opaqueObject (List.replicate 255 0xA5)) 0 (fun _ => 0) 0
        () := by
  refine ⟨((senml_opaque_iff ieee754).1 _ 0 0 3 _ 0 ?_).mpr ?_,
    ((senml_opaque_iff ieee754).2 _ _ _ 0 _ 0 () ?_).mpr ?_⟩
  · rw [List.length_replicate]
    omega
  · rw [List.length_replicate]
    omega
  · rw [readings_opaqueObject, List.forall_mem_singleton]
    refine ⟨nofun, ?_⟩
    rintro _ ⟨⟩
    rw [List.length_replicate]
    omega
  · rw [readings_opaqueObject, List.forall_mem_singleton]
    rintro _ ⟨⟩
    rw [List.length_replicate]
    omega

/-- **256 bytes are one too many**: neither encoder writes them, whatever the buffer. -/
theorem senml_opaque_256_fails :
    (∀ m buf bufSize, (encodeSenmlJson ieee754 0 0 3 (.opaqueData (List.replicate 256 0xA5))
        m buf bufSize).2 = none) ∧
      ¬OpaqueEncodes ieee754 (List.replicate 256 0xA5) 0 0 3 (fun _ => 0) 0 ∧
      ¬OpaqueInstanceEncodes ieee754 (opaqueObject (List.replicate 256 0xA5)) 0 (fun _ => 0) 0
        () := by
  refine ⟨fun m buf bufSize => ?_, ?_, ?_⟩
  · rcases henc : encodeSenmlJson ieee754 0 0 3 (.opaqueData (List.replicate 256 0xA5)) m buf
      bufSize with ⟨m', _ | n⟩
    · rfl
    · obtain ⟨T, hT, -⟩ := encodeSenmlJson_some henc
      rw [senmlText_eq, senmlMember_opaqueData, List.length_replicate, if_neg (by omega)] at hT
      cases hT
  · rw [opaqueEncodes_iff, List.length_replicate]
    omega
  · have hnone : ∀ r ∈ (opaqueObject (List.replicate 256 0xA5)).readings 0 (),
        r.2 ≠ Value.none := by
      rw [readings_opaqueObject, List.forall_mem_singleton]
      nofun
    rw [opaqueInstanceEncodes_iff hnone, readings_opaqueObject, List.forall_mem_singleton]
    intro h
    have hlt := h _ rfl
    rw [List.length_replicate] at hlt
    omega

end WbLwm2m

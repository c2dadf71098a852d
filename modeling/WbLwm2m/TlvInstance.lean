import WbLwm2m.TlvRoundTrip
import Mathlib.Data.List.Forall2

/-!
# The record stream of an instance

`wb_lwm2m_tlv_encode_instance` writes the records of the readable resources one after
the other, in table order. Since a record is self-delimiting
(`WbLwm2m.tlvDecodeHeader_record`), a reader that keeps applying the header decoder finds
exactly these records and stops where the writer stopped (`WbLwm2m.tlvWalk_records`).

The loop of the encoder is settled once, by what it returns
(`WbLwm2m.tlvEncodeLoop_some`) and by when it returns
(`WbLwm2m.tlvEncodeLoop_of_le`): the offset only ever grows by whole records, so it runs
out of room exactly when the records together do not fit, at whichever record that
happens to be noticed.
-/

namespace WbLwm2m

open Memory

/-- **Walking a payload**: apply the header decoder again and again, each time at the
offset the last record ended at, until it fails. The offsets and headers of the records
come with the offset the walk stopped at; `fuel` bounds the number of records. -/
def tlvWalk (m : Mem) (buf n : ℕ) : ℕ → ℕ → TlvHeader → List (ℕ × TlvHeader) × ℕ
  | 0, off, _ => ([], off)
  | fuel + 1, off, out => match tlvDecodeHeader m (buf + off) (n - off) out with
    | (_, none) => ([], off)
    | (h, some consumed) =>
      let (hs, stop) := tlvWalk m buf n fuel (off + consumed) h
      ((off, h) :: hs, stop)

/-- The bytes of a list of records. -/
def recordsBytes (rs : List TlvRecord) : List UInt8 := (rs.map TlvRecord.bytes).flatten

@[simp] theorem recordsBytes_nil : recordsBytes [] = [] := rfl

@[simp] theorem recordsBytes_cons (r : TlvRecord) (rs : List TlvRecord) :
    recordsBytes (r :: rs) = r.bytes ++ recordsBytes rs := rfl

theorem TlvRecord.two_le_length_bytes (r : TlvRecord) : 2 ≤ r.bytes.length := by
  have := r.two_le_length_header
  have := r.length_bytes
  omega

/-- There are no more records than bytes. -/
theorem length_le_recordsBytes (rs : List TlvRecord) : rs.length ≤ (recordsBytes rs).length := by
  induction rs with
  | nil => simp
  | cons r rs ih =>
    have := r.two_le_length_bytes
    rw [recordsBytes_cons, List.length_append, List.length_cons]
    omega

variable {fp : FloatOps}

/-- A walked record carries a reading: a resource record with its identifier, whose value
slice decodes, under the type of the value, to the value. -/
def Carries (fp : FloatOps) (m : Mem) (buf : ℕ) (p : ℕ × TlvHeader) (r : UInt16 × Value) : Prop :=
  p.2.tlvType = .resource ∧ p.2.id = r.1 ∧
    tlvDecodeValue fp r.2.type m (buf + p.1 + p.2.valueOffset) p.2.valueLen = .ok r.2

/-- The record a reading is encoded as. -/
def HasRecord (fp : FloatOps) (r : UInt16 × Value) (rec : TlvRecord) : Prop :=
  TlvRecord.ofValue fp r.1 r.2 = some rec

/-- **The walk over a sequence of records** finds each of them, and stops at the end of
the last one. -/
theorem tlvWalk_records {rds : List (UInt16 × Value)} {rs : List TlvRecord}
    (hrs : List.Forall₂ (HasRecord fp) rds rs) {m : Mem} {buf n off fuel : ℕ} (out : TlvHeader)
    (hm : load m (buf + off) (recordsBytes rs).length = recordsBytes rs)
    (hn : n = off + (recordsBytes rs).length) (hfuel : rs.length ≤ fuel) :
    ∃ hs, tlvWalk m buf n fuel off out = (hs, n) ∧ List.Forall₂ (Carries fp m buf) hs rds := by
  induction hrs generalizing off fuel out with
  | nil =>
    obtain rfl : n = off := by simpa using hn
    refine ⟨[], ?_, List.Forall₂.nil⟩
    cases fuel with
    | zero => rfl
    | succ fuel => rw [tlvWalk, tlvDecodeHeader, if_pos (by omega)]
  -- the decoder takes the first record off the front, and the walk goes on behind it
  | @cons rd r rds rs hr _ ih =>
    obtain ⟨fuel, rfl⟩ : ∃ f, fuel = f + 1 := ⟨fuel - 1, by rw [List.length_cons] at hfuel; omega⟩
    rw [recordsBytes_cons] at hm hn
    rw [List.length_append] at hn
    obtain ⟨hmr, hmrs⟩ := load_eq_append.mp hm
    obtain ⟨h, hdec, hty, hid, hval⟩ :=
      tlvDecode_ofValue hr out hmr (show r.bytes.length ≤ n - off by omega)
    rw [Nat.add_assoc] at hmrs
    rw [List.length_cons] at hfuel
    obtain ⟨hs, hwalk, hcar⟩ := ih h hmrs (by omega) (show rs.length ≤ fuel by omega)
    refine ⟨(off, h) :: hs, ?_, List.Forall₂.cons ⟨hty, hid, hval⟩ hcar⟩
    rw [tlvWalk, hdec]
    simp only [hwalk]

/-! ### The loop of the encoder -/

variable {σ κ : Type} {obj : ObjectDef σ κ} {instId : UInt16} {buf bufSize : ℕ}

/-- What a run of the loop that returns has written: the records of the readable
resources, from the offset it started at. -/
theorem tlvEncodeLoop_some {ress : List (ResourceDef σ κ)} {m m' : Mem} {off n : ℕ} {s s' : σ}
    (h : tlvEncodeLoop fp obj instId buf bufSize ress m off s = ((m', some n), s'))
    (hoff : off ≤ bufSize) :
    ∃ rs, List.Forall₂ (HasRecord fp) (readings obj instId ress s) rs ∧
      n = off + (recordsBytes rs).length ∧ n ≤ bufSize ∧
      m' = store m (buf + off) (recordsBytes rs) := by
  induction ress generalizing m off s with
  | nil =>
    obtain ⟨h1, -⟩ := Prod.mk.inj h
    obtain ⟨rfl, h2⟩ := Prod.mk.inj h1
    obtain rfl := Option.some.inj h2
    exact ⟨[], List.Forall₂.nil, by simp, hoff, by simp⟩
  | cons res rest ih =>
    rw [tlvEncodeLoop] at h
    rcases hread : res.read obj instId s with ⟨_ | ⟨resId, v⟩, s₁⟩
    · rw [hread] at h
      rw [readings_cons_none hread]
      exact ih h hoff
    · rw [hread] at h
      simp only [tlvEncodeResource_eq] at h
      cases hr : TlvRecord.ofValue fp resId v with
      | none => simp [hr] at h
      | some r =>
        simp only [hr] at h
        split_ifs at h with hfit
        · simp at h
        · obtain ⟨rs, hrs, hn, hle, hm⟩ := ih h (by omega)
          refine ⟨r :: rs, ?_, ?_, hle, ?_⟩
          · rw [readings_cons_some hread]
            exact List.Forall₂.cons hr hrs
          · rw [recordsBytes_cons, List.length_append]
            omega
          · rw [hm, ← Nat.add_assoc, store_store, recordsBytes_cons]

/-- The loop returns when every reading has a record and the records fit. -/
theorem tlvEncodeLoop_of_le {ress : List (ResourceDef σ κ)} {off : ℕ} {s : σ}
    {rs : List TlvRecord} (hrs : List.Forall₂ (HasRecord fp) (readings obj instId ress s) rs)
    (hle : off + (recordsBytes rs).length ≤ bufSize) (m : Mem) :
    (tlvEncodeLoop fp obj instId buf bufSize ress m off s).1.2 =
      some (off + (recordsBytes rs).length) := by
  induction ress generalizing m off s rs with
  | nil =>
    cases hrs
    rfl
  | cons res rest ih =>
    rw [tlvEncodeLoop]
    rcases hread : res.read obj instId s with ⟨_ | ⟨resId, v⟩, s₁⟩
    · rw [readings_cons_none hread] at hrs
      exact ih hrs hle m
    · rw [readings_cons_some hread] at hrs
      cases hrs with
      | @cons _ r _ rs' hr hrs' =>
        rw [recordsBytes_cons, List.length_append] at hle ⊢
        simp only [tlvEncodeResource_eq, show TlvRecord.ofValue fp resId v = some r from hr]
        rw [if_neg (by omega), ← Nat.add_assoc]
        exact ih hrs' (by omega) _

/-! ### The stream -/

/-- No buffer is large enough for a reading. -/
def Unencodable (fp : FloatOps) (r : UInt16 × Value) : Prop :=
  ∀ m buf bufSize, (tlvEncodeResource fp r.1 r.2 m buf bufSize).2 = none

/-- A reading takes `k` bytes, in any buffer of at least that size. -/
def RecordSize (fp : FloatOps) (r : UInt16 × Value) (k : ℕ) : Prop :=
  ∀ m buf bufSize, k ≤ bufSize → (tlvEncodeResource fp r.1 r.2 m buf bufSize).2 = some k

theorem unencodable_iff {r : UInt16 × Value} :
    Unencodable fp r ↔ TlvRecord.ofValue fp r.1 r.2 = none := by
  constructor
  · intro h
    cases hr : TlvRecord.ofValue fp r.1 r.2 with
    | none => rfl
    | some rec =>
      have := h (fun _ => 0) 0 rec.bytes.length
      simp [tlvEncodeResource_eq, hr] at this
  · intro h m buf bufSize
    simp only [tlvEncodeResource_eq, h]

theorem recordSize_iff {r : UInt16 × Value} {rec : TlvRecord} (hr : HasRecord fp r rec) {k : ℕ} :
    RecordSize fp r k ↔ rec.bytes.length = k := by
  have hr' : TlvRecord.ofValue fp r.1 r.2 = some rec := hr
  constructor
  · intro h
    have h := h (fun _ => 0) 0 (max k rec.bytes.length) (le_max_left _ _)
    simp only [tlvEncodeResource_eq, hr'] at h
    rw [if_neg (by omega)] at h
    exact Option.some.inj h
  · rintro rfl m buf bufSize hle
    simp only [tlvEncodeResource_eq, hr']
    rw [if_neg (by omega)]

/-- The sizes of the readings are the lengths of their records. -/
theorem recordSize_sum {rds : List (UInt16 × Value)} {rs : List TlvRecord}
    (hrs : List.Forall₂ (HasRecord fp) rds rs) {sizes : List ℕ}
    (hsz : List.Forall₂ (RecordSize fp) rds sizes) : sizes.sum = (recordsBytes rs).length := by
  induction hrs generalizing sizes with
  | nil =>
    cases hsz
    rfl
  | cons hr _ ih =>
    cases hsz with
    | cons hk hks =>
      rw [List.sum_cons, recordsBytes_cons, List.length_append, ih hks, (recordSize_iff hr).mp hk]

theorem exists_recordSize {rds : List (UInt16 × Value)} {rs : List TlvRecord}
    (hrs : List.Forall₂ (HasRecord fp) rds rs) :
    ∃ sizes, List.Forall₂ (RecordSize fp) rds sizes := by
  induction hrs with
  | nil => exact ⟨[], List.Forall₂.nil⟩
  | cons hr _ ih =>
    obtain ⟨sizes, hsz⟩ := ih
    exact ⟨_ :: sizes, List.Forall₂.cons ((recordSize_iff hr).mpr rfl) hsz⟩

/-- Every reading has a record unless one of them is unencodable. -/
theorem exists_records {rds : List (UInt16 × Value)} (h : ¬∃ r ∈ rds, Unencodable fp r) :
    ∃ rs, List.Forall₂ (HasRecord fp) rds rs := by
  induction rds with
  | nil => exact ⟨[], List.Forall₂.nil⟩
  | cons r rds ih =>
    obtain ⟨rs, hrs⟩ := ih fun ⟨r', hr', hu⟩ => h ⟨r', List.mem_cons_of_mem _ hr', hu⟩
    cases hr : TlvRecord.ofValue fp r.1 r.2 with
    | none => exact absurd ⟨r, List.mem_cons_self, unencodable_iff.mpr hr⟩ h
    | some rec => exact ⟨rec :: rs, List.Forall₂.cons hr hrs⟩

/-- No reading with a record is unencodable. -/
theorem not_unencodable {rds : List (UInt16 × Value)} {rs : List TlvRecord}
    (hrs : List.Forall₂ (HasRecord fp) rds rs) : ¬∃ r ∈ rds, Unencodable fp r := by
  rintro ⟨r, hr, hu⟩
  induction hrs with
  | nil => exact absurd hr (by simp)
  | cons hrec _ ih =>
    rcases List.mem_cons.mp hr with rfl | hr
    · rw [HasRecord, unencodable_iff.mp hu] at hrec
      exact absurd hrec (by simp)
    · exact ih hr

/-- **When there is no payload**: a value cannot be encoded at all, or the records together
exceed the buffer. -/
theorem tlvEncodeInstance_eq_none {m : Mem} {s : σ} (hsize : 0 < bufSize) :
    (tlvEncodeInstance fp obj instId m buf bufSize s).1.2 = none ↔
      (∃ r ∈ obj.readings instId s, Unencodable fp r) ∨
        ∃ sizes, List.Forall₂ (RecordSize fp) (obj.readings instId s) sizes ∧
          bufSize < sizes.sum := by
  rw [tlvEncodeInstance, if_neg (by omega), ObjectDef.readings]
  constructor
  · intro h
    by_cases hu : ∃ r ∈ readings obj instId obj.resources s, Unencodable fp r
    · exact Or.inl hu
    · obtain ⟨rs, hrs⟩ := exists_records hu
      obtain ⟨sizes, hsz⟩ := exists_recordSize hrs
      refine Or.inr ⟨sizes, hsz, ?_⟩
      by_contra hle
      rw [recordSize_sum hrs hsz] at hle
      have hsome : (tlvEncodeLoop fp obj instId buf bufSize obj.resources m 0 s).1.2 = some _ :=
        tlvEncodeLoop_of_le hrs (by omega) m
      rw [h] at hsome
      exact absurd hsome (by simp)
  · intro h
    by_contra hne
    obtain ⟨n, hn⟩ := Option.ne_none_iff_exists'.mp hne
    obtain ⟨rs, hrs, hlen, hle, -⟩ :=
      tlvEncodeLoop_some (Prod.ext (Prod.ext rfl hn) rfl) (Nat.zero_le bufSize)
    rcases h with h | ⟨sizes, hsz, hlt⟩
    · exact not_unencodable hrs h
    · rw [recordSize_sum hrs hsz] at hlt
      omega

/-- **What a payload is walked into**: one record for each reading, to the last byte. -/
theorem tlvWalk_encodeInstance {m m' : Mem} {n : ℕ} {s s' : σ}
    (h : tlvEncodeInstance fp obj instId m buf bufSize s = ((m', some n), s')) {fuel : ℕ}
    (hfuel : n ≤ fuel) (out : TlvHeader) :
    ∃ hs, tlvWalk m' buf n fuel 0 out = (hs, n) ∧
      List.Forall₂ (Carries fp m' buf) hs (obj.readings instId s) := by
  rw [tlvEncodeInstance] at h
  split at h
  · cases h
  · obtain ⟨rs, hrs, hn, -, rfl⟩ := tlvEncodeLoop_some h (Nat.zero_le _)
    have hcount := length_le_recordsBytes rs
    exact tlvWalk_records hrs out (load_store _ _ _) hn (by omega)

/-- **The instance stream is complete, ordered and lossless.** When the encoder returns
`n`, walking the `n` bytes stops exactly at `n`, after one record for each readable
resource, in table order, carrying its identifier and its value. The encoder fails
exactly when a value cannot be encoded at all or the records together exceed the
buffer. -/
theorem tlv_instance_stream (fp : FloatOps) (obj : ObjectDef σ κ) (instId : UInt16) (m : Mem)
    (buf bufSize : ℕ) (s : σ) (hsize : 0 < bufSize) :
    (∀ m' n s', tlvEncodeInstance fp obj instId m buf bufSize s = ((m', some n), s') →
      ∀ fuel out, n ≤ fuel → ∃ hs, tlvWalk m' buf n fuel 0 out = (hs, n) ∧
        List.Forall₂ (Carries fp m' buf) hs (obj.readings instId s)) ∧
    ((tlvEncodeInstance fp obj instId m buf bufSize s).1.2 = none ↔
      (∃ r ∈ obj.readings instId s, Unencodable fp r) ∨
        ∃ sizes, List.Forall₂ (RecordSize fp) (obj.readings instId s) sizes ∧
          bufSize < sizes.sum) :=
  ⟨fun _ _ _ h _ out hfuel => tlvWalk_encodeInstance h hfuel out, tlvEncodeInstance_eq_none hsize⟩

/-- The instance of `WbLwm2m.sampleObject` takes nine bytes, in two records. -/
theorem tlv_instance_stream_sample :
    ∃ hs, tlvWalk (tlvEncodeInstance ieee754 sampleObject 0 (fun _ => 0) 0 9 ()).1.1 0 9 9 0
        ⟨.resource, 0, 0, 0⟩ = (hs, 9) ∧
      List.Forall₂ (Carries ieee754
        (tlvEncodeInstance ieee754 sampleObject 0 (fun _ => 0) 0 9 ()).1.1 0) hs
        [(0, .string (ascii "Acme")), (9, .integer 77)] :=
  (tlv_instance_stream ieee754 sampleObject 0 (fun _ => 0) 0 9 () (by decide)).1 _ 9 () rfl 9
    ⟨.resource, 0, 0, 0⟩ le_rfl

end WbLwm2m

import WbLwm2m.TlvPrefix

/-!
# Containers

The format has a record for a resource with several instances: a container, whose value is a
sequence of records, one for each instance. The table of an object says which resources are of
that kind, and `WbLwm2m.Grouped` is what a payload then looks like. The encoder of an
instance writes one record for every resource, always that of a single value, so that its
payload is as it should be only if no resource of the other kind is in it
(`WbLwm2m.tlv_grouped_iff`).
-/

namespace WbLwm2m

open Memory

variable {σ κ : Type} {fp : FloatOps} {obj : ObjectDef σ κ} {instId : UInt16}

/-! ### What is emitted -/

/-- **The resources of an instance that are read**, in table order: definition and value. -/
def emitted (obj : ObjectDef σ κ) (instId : UInt16) : List (ResourceDef σ κ) → σ →
    List (ResourceDef σ κ × Value)
  | [], _ => []
  | res :: rest, s => match res.read obj instId s with
    | (none, s') => emitted obj instId rest s'
    | (some (_, v), s') => (res, v) :: emitted obj instId rest s'

/-- The resources of the whole table that are read. -/
def ObjectDef.emitted (obj : ObjectDef σ κ) (instId : UInt16) (s : σ) :
    List (ResourceDef σ κ × Value) :=
  WbLwm2m.emitted obj instId obj.resources s

theorem ResourceDef.id_of_read {res : ResourceDef σ κ} {s s' : σ} {r : UInt16 × Value}
    (h : res.read obj instId s = (some r, s')) : r.1 = res.id := by
  rw [ResourceDef.read] at h
  split at h
  · cases h
  · split at h
    · cases h
    · split at h
      · obtain ⟨hr, -⟩ := Prod.mk.inj h
        rw [← Option.some.inj hr]
      · cases h

/-- The readings are what is emitted, without the definitions. -/
theorem readings_eq_map (ress : List (ResourceDef σ κ)) (s : σ) :
    readings obj instId ress s = (emitted obj instId ress s).map fun e => (e.1.id, e.2) := by
  induction ress generalizing s with
  | nil => rfl
  | cons res rest ih =>
    rcases hread : res.read obj instId s with ⟨_ | ⟨resId, v⟩, s'⟩
    · rw [readings_cons_none hread, emitted, hread]
      exact ih s'
    · obtain rfl : resId = res.id := ResourceDef.id_of_read hread
      rw [readings_cons_some hread, emitted, hread, List.map_cons, ← ih s']

/-! ### Containers -/

/-- **A sequence of instances**: the decoder splits the bytes, to the last one, into records
of resource instances. -/
def IsInstances (m : Mem) (a len : ℕ) : Prop :=
  ∃ hs, (∀ out, tlvWalk m a len len 0 out = (hs, len)) ∧
    ∀ p ∈ hs, p.2.tlvType = .resourceInstance

/-- The record a resource is to have: a container of instances, or a single value. -/
def RecordOf (m : Mem) (buf : ℕ) (p : ℕ × TlvHeader) (res : ResourceDef σ κ) : Prop :=
  if res.multiple then
    p.2.tlvType = .multiResource ∧ IsInstances m (buf + p.1 + p.2.valueOffset) p.2.valueLen
  else p.2.tlvType = .resource

/-- **A payload in which the resources with several instances are grouped**: the records in it
are, one by one, those that the emitted resources are to have. -/
def Grouped (m : Mem) (buf n : ℕ) (ress : List (ResourceDef σ κ)) : Prop :=
  ∃ hs, (∀ out, tlvWalk m buf n n 0 out = (hs, n)) ∧ List.Forall₂ (RecordOf m buf) hs ress

/-! ### The payload of an instance -/

theorem recordOf_iff {m : Mem} {buf : ℕ} {p : ℕ × TlvHeader} {res : ResourceDef σ κ}
    (hty : p.2.tlvType = .resource) : RecordOf m buf p res ↔ res.multiple = false := by
  rw [RecordOf, hty]
  cases res.multiple <;> simp

/-- Records of single values are as they should be if no resource has several instances. -/
theorem forall₂_recordOf_iff {m : Mem} {buf : ℕ} {hs : List (ℕ × TlvHeader)}
    {es : List (ResourceDef σ κ × Value)}
    (hcar : List.Forall₂ (Carries fp m buf) hs (es.map fun e => (e.1.id, e.2))) :
    List.Forall₂ (RecordOf m buf) hs (es.map Prod.fst) ↔ ∀ e ∈ es, e.1.multiple = false := by
  induction es generalizing hs with
  | nil =>
    rw [List.map_nil, List.forall₂_nil_right_iff] at hcar
    rw [hcar]
    simp
  | cons e es ih =>
    rw [List.map_cons, List.forall₂_cons_right_iff] at hcar
    obtain ⟨p, hs, ⟨hty, -⟩, hcar, rfl⟩ := hcar
    rw [List.map_cons, List.forall₂_cons, recordOf_iff hty, ih hcar, List.forall_mem_cons]

/-- A payload is grouped if nothing in it has to be. -/
theorem grouped_iff {m m' : Mem} {buf bufSize n : ℕ} {s s' : σ}
    (h : tlvEncodeInstance fp obj instId m buf bufSize s = ((m', some n), s')) :
    Grouped m' buf n ((obj.emitted instId s).map Prod.fst) ↔
      ∀ e ∈ obj.emitted instId s, e.1.multiple = false := by
  have hout : ∀ out, tlvWalk m' buf n n 0 out = tlvWalk m' buf n n 0 ⟨.resource, 0, 0, 0⟩ :=
    fun out => tlvWalk_out m' buf n n 0 out _
  obtain ⟨hs, hwalk, hcar⟩ := tlvWalk_encodeInstance h le_rfl ⟨.resource, 0, 0, 0⟩
  rw [ObjectDef.readings, readings_eq_map] at hcar
  rw [ObjectDef.emitted, ← forall₂_recordOf_iff hcar]
  constructor
  · rintro ⟨hs', hwalk', hrec⟩
    obtain ⟨rfl, -⟩ := Prod.mk.inj ((hwalk' _).symm.trans hwalk)
    exact hrec
  · intro hrec
    exact ⟨hs, fun out => (hout out).trans hwalk, hrec⟩

/-- **The payload of an instance is grouped exactly if nothing in it has to be**: no resource
that is read has several instances; or if there is no payload: the buffer is empty, a value
cannot be encoded, or the records do not fit. -/
theorem tlv_grouped_iff (fp : FloatOps) (obj : ObjectDef σ κ) (instId : UInt16) (m : Mem)
    (buf bufSize : ℕ) (s : σ) :
    (∀ m' n s', tlvEncodeInstance fp obj instId m buf bufSize s = ((m', some n), s') →
      Grouped m' buf n ((obj.emitted instId s).map Prod.fst)) ↔
    (∀ e ∈ obj.emitted instId s, e.1.multiple = false) ∨ bufSize = 0 ∨
      (∃ r ∈ obj.readings instId s, Unencodable fp r) ∨
      ∃ sizes, List.Forall₂ (RecordSize fp) (obj.readings instId s) sizes ∧
        bufSize < sizes.sum := by
  rcases Nat.eq_zero_or_pos bufSize with rfl | hsize
  · refine iff_of_true (fun m' n s' h => ?_) (Or.inr (Or.inl rfl))
    rw [tlvEncodeInstance, if_pos rfl] at h
    cases h
  · rw [or_iff_right hsize.ne', ← tlvEncodeInstance_eq_none hsize]
    rcases henc : tlvEncodeInstance fp obj instId m buf bufSize s with ⟨⟨m', _ | n⟩, s'⟩
    · refine iff_of_true (fun m₁ n₁ s₁ h => ?_) (Or.inr rfl)
      cases h
    · rw [← grouped_iff henc, or_iff_left (Option.some_ne_none n)]
      constructor
      · intro h
        exact h m' n s' rfl
      · rintro h m₁ n₁ s₁ ⟨⟩
        exact h

/-- An object with one resource, an error code that may have several instances. -/
def errorCodeObject : ObjectDef Unit Unit where
  id := 3
  instances := [0]
  resources := [⟨11, .integer, 1, true, some fun _ _ _ _ _ => ((.ok, .integer 0), ())⟩]
  userCtx := ()

/-- **A resource with several instances is sent as a single value.** -/
theorem errorCodeObject_not_grouped :
    ∃ m', tlvEncodeInstance ieee754 errorCodeObject 0 (fun _ => 0) 0 16 () = ((m', some 3), ()) ∧
      load m' 0 3 = [0xC1, 11, 0] ∧
      ¬Grouped m' 0 3 ((errorCodeObject.emitted 0 ()).map Prod.fst) := by
  have henc : tlvEncodeInstance ieee754 errorCodeObject 0 (fun _ => 0) 0 16 () =
    ((_, some 3), ()) := rfl
  refine ⟨_, henc, by decide, ?_⟩
  rw [grouped_iff henc]
  decide

end WbLwm2m

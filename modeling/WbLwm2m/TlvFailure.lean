import WbLwm2m.TlvInstance

/-!
# What a failed TLV write leaves behind

A record is written whole or not at all: the size is settled before the type byte is
stored, and no later check can fail (`WbLwm2m.tlvEncodeResource_cases`). The instance
encoder does not take back what it has written when a later reading fails, so that a
failure leaves the records before it in the buffer
(`WbLwm2m.tlvEncodeLoop_none`), and nothing of the failing one.
-/

namespace WbLwm2m

open Memory

variable {fp : FloatOps}

/-- **The complete record of a reading**: what the resource encoder writes of it, wherever
it has room. -/
def WritesRecord (fp : FloatOps) (r : UInt16 × Value) (bs : List UInt8) : Prop :=
  ∀ m buf bufSize, bs.length ≤ bufSize →
    tlvEncodeResource fp r.1 r.2 m buf bufSize = (store m buf bs, some bs.length)

/-- **All or nothing**: the resource encoder fails and leaves the memory alone, or it
writes the complete record, which fits. -/
theorem tlvEncodeResource_cases (fp : FloatOps) (r : UInt16 × Value) (m : Mem)
    (buf bufSize : ℕ) :
    tlvEncodeResource fp r.1 r.2 m buf bufSize = (m, none) ∨
      ∃ bs, WritesRecord fp r bs ∧ bs.length ≤ bufSize ∧
        tlvEncodeResource fp r.1 r.2 m buf bufSize = (store m buf bs, some bs.length) := by
  rcases hr : TlvRecord.ofValue fp r.1 r.2 with _ | rec
  · refine Or.inl ?_
    rw [tlvEncodeResource_eq, hr]
  · have hwrites : WritesRecord fp r rec.bytes := by
      intro m buf bufSize hle
      simp only [tlvEncodeResource_eq, hr]
      rw [if_neg (by omega)]
    rcases Nat.lt_or_ge bufSize rec.bytes.length with hlt | hle
    · refine Or.inl ?_
      simp only [tlvEncodeResource_eq, hr]
      rw [if_pos hlt]
    · exact Or.inr ⟨rec.bytes, hwrites, hle, hwrites m buf bufSize hle⟩

variable {σ κ : Type} {obj : ObjectDef σ κ} {instId : UInt16} {buf bufSize : ℕ}

/-- What a run of the loop that fails has written: the complete records of the readings
before the one that fails, behind what was there. The induction is on the table, with the
offset the records have reached. -/
theorem tlvEncodeLoop_none {ress : List (ResourceDef σ κ)} {m m' : Mem} {off : ℕ} {s s' : σ}
    (h : tlvEncodeLoop fp obj instId buf bufSize ress m off s = ((m', none), s'))
    (hoff : off ≤ bufSize) :
    ∃ before r after bss, readings obj instId ress s = before ++ r :: after ∧
      List.Forall₂ (WritesRecord fp) before bss ∧ off + bss.flatten.length ≤ bufSize ∧
      m' = store m (buf + off) bss.flatten ∧
      (tlvEncodeResource fp r.1 r.2 m' (buf + (off + bss.flatten.length))
        (bufSize - (off + bss.flatten.length))).2 = none := by
  induction ress generalizing m off s with
  | nil => cases h
  | cons res rest ih =>
    rw [tlvEncodeLoop] at h
    rcases hread : res.read obj instId s with ⟨_ | ⟨resId, v⟩, s₁⟩
    · rw [hread] at h
      rw [readings_cons_none hread]
      exact ih h hoff
    · rw [hread] at h
      rw [readings_cons_some hread]
      rcases tlvEncodeResource_cases fp (resId, v) m (buf + off) (bufSize - off) with
        henc | ⟨bs, hbs, hle, henc⟩
      -- this reading fails: nothing of it is written
      · simp only [henc] at h
        obtain ⟨h1, -⟩ := Prod.mk.inj h
        obtain ⟨rfl, -⟩ := Prod.mk.inj h1
        refine ⟨[], (resId, v), _, [], rfl, List.Forall₂.nil, hoff, (store_nil _ _).symm, ?_⟩
        exact congrArg Prod.snd henc
      -- this reading is written, and a later one fails
      · simp only [henc] at h
        obtain ⟨before, r, after, bss, hrds, hbss, hfit, hm, hfail⟩ := ih h (by omega)
        have hlen : off + (bs :: bss).flatten.length = off + bs.length + bss.flatten.length := by
          rw [List.flatten_cons, List.length_append, Nat.add_assoc]
        refine ⟨(resId, v) :: before, r, after, bs :: bss, ?_, List.Forall₂.cons hbs hbss, ?_, ?_,
          ?_⟩
        · rw [hrds, List.cons_append]
        · rw [hlen]
          exact hfit
        · rw [hm, ← Nat.add_assoc, store_store, List.flatten_cons]
        · rw [hlen]
          exact hfail

/-- **A failed TLV write.** A resource encoder that fails leaves the memory alone, and one
that returns `n` writes within the first `n` bytes of the buffer, which has as many. When
the instance encoder fails, the buffer holds the complete records of the readings before
the one that fails, followed by what it held before; nothing is written when it has no
bytes at all. -/
theorem tlv_failed_write (fp : FloatOps) :
    (∀ (resId : UInt16) (v : Value) (m : Mem) (buf bufSize : ℕ),
      ((tlvEncodeResource fp resId v m buf bufSize).2 = none →
        (tlvEncodeResource fp resId v m buf bufSize).1 = m) ∧
      ∀ n, (tlvEncodeResource fp resId v m buf bufSize).2 = some n → n ≤ bufSize ∧
        ∀ i, i < buf ∨ buf + n ≤ i → (tlvEncodeResource fp resId v m buf bufSize).1 i = m i) ∧
    ∀ (σ κ : Type) (obj : ObjectDef σ κ) (instId : UInt16) (m m' : Mem) (buf bufSize : ℕ)
      (s s' : σ), tlvEncodeInstance fp obj instId m buf bufSize s = ((m', none), s') →
      (bufSize = 0 ∧ m' = m) ∨
        ∃ before r after bss, obj.readings instId s = before ++ r :: after ∧
          List.Forall₂ (WritesRecord fp) before bss ∧ bss.flatten.length ≤ bufSize ∧
          m' = store m buf bss.flatten ∧
          (tlvEncodeResource fp r.1 r.2 m' (buf + bss.flatten.length)
            (bufSize - bss.flatten.length)).2 = none := by
  refine ⟨fun resId v m buf bufSize => ?_, fun σ κ obj instId m m' buf bufSize s s' h => ?_⟩
  · rcases tlvEncodeResource_cases fp (resId, v) m buf bufSize with henc | ⟨bs, -, hle, henc⟩
    · rw [henc]
      exact ⟨fun _ => rfl, nofun⟩
    · rw [henc]
      refine ⟨nofun, ?_⟩
      rintro n ⟨⟩
      refine ⟨hle, ?_⟩
      rintro i (hi | hi)
      · exact store_of_lt m bs hi
      · exact store_of_ge m hi
  · rw [tlvEncodeInstance] at h
    split at h
    · next hzero =>
      obtain ⟨h1, -⟩ := Prod.mk.inj h
      exact Or.inl ⟨hzero, (Prod.mk.inj h1).1.symm⟩
    · obtain ⟨before, r, after, bss, hrds, hbss, hfit, hm, hfail⟩ :=
        tlvEncodeLoop_none h (Nat.zero_le bufSize)
      rw [Nat.zero_add] at hfit hfail
      exact Or.inr ⟨before, r, after, bss, hrds, hbss, hfit, hm, hfail⟩

/-- Eight bytes for the nine of `WbLwm2m.sampleObject`: the string is written, the integer
is not. -/
theorem tlv_failed_write_sample :
    ∃ m' before r after bss,
      tlvEncodeInstance ieee754 sampleObject 0 (fun _ => 0xFF) 0 8 () = ((m', none), ()) ∧
      load m' 0 8 = [0xC4, 0, 0x41, 0x63, 0x6D, 0x65, 0xFF, 0xFF] ∧
      sampleObject.readings 0 () = before ++ r :: after ∧
      List.Forall₂ (WritesRecord ieee754) before bss ∧
      m' = store (fun _ => 0xFF) 0 bss.flatten := by
  have henc : tlvEncodeInstance ieee754 sampleObject 0 (fun _ => 0xFF) 0 8 () =
      ((_, none), ()) := rfl
  rcases (tlv_failed_write ieee754).2 Unit Unit sampleObject 0 _ _ 0 8 () () henc with
    ⟨hzero, -⟩ | ⟨before, r, after, bss, hrds, hbss, -, hm, -⟩
  · cases hzero
  · exact ⟨_, before, r, after, bss, henc, rfl, hrds, hbss, hm⟩

end WbLwm2m

import WbLwm2m.Base64
import WbLwm2m.Lib.Writer
import WbLwm2m.LinkFormat
import WbLwm2m.TlvRoundTrip

/-!
# What the encoders touch

All encoders are handed a buffer and its size. None of them looks at the memory: they print and
store, and keep offsets. So whatever a run does – it may succeed, or run out of room in the
middle of a record – its result, the callbacks it calls and the bytes it writes are the same
over every memory, and all of these bytes are inside the buffer (`Memory.Writes`).

The SenML loop is the one that steps out of line. It assigns a comma where all other text is
printed, and it goes on with an offset that may have reached the end of the buffer; the check in
front of the comma and a print into no room are what keeps it inside.
-/

namespace WbLwm2m

open Memory

variable {fp : FloatOps} {σ κ : Type}

/-- The memory apart from all that an encoder with callbacks returns. -/
def flatten {α : Type} (r : (Mem × α) × σ) : Mem × (α × σ) := (r.1.1, (r.1.2, r.2))

/-! ### Base64 and single resources -/

theorem writes_base64Encode (src : List UInt8) (dst dstSize : ℕ) :
    Writes dst dstSize fun m => base64Encode src m dst dstSize := by
  by_cases hsize : dstSize < 4 * ((src.length + 2) / 3) + 1
  · simp only [base64Encode, if_pos hsize]
    exact Writes.pure dst dstSize none
  · simp only [base64Encode, if_neg hsize]
    refine Writes.store le_rfl ?_ _
    rw [List.length_append, length_base64Chars, List.length_singleton]
    omega

theorem writes_tlvEncodeResource (fp : FloatOps) (resId : UInt16) (v : Value)
    (buf bufSize : ℕ) : Writes buf bufSize fun m => tlvEncodeResource fp resId v m buf bufSize := by
  simp only [tlvEncodeResource_eq]
  rcases TlvRecord.ofValue fp resId v with _ | r
  · exact Writes.pure buf bufSize none
  · by_cases hsize : bufSize < r.bytes.length
    · simp only [if_pos hsize]
      exact Writes.pure buf bufSize none
    · simp only [if_neg hsize]
      exact Writes.store le_rfl (by omega) _

/-- A text that is cut when it does not fit, in what is left of a buffer. -/
theorem writes_snprintf_checked {α : Type} (a n k : ℕ) (text : List UInt8) (r : ℕ → α) :
    Writes a n fun m => if n - k ≤ (snprintf m (a + k) (n - k) text).2 then
      ((snprintf m (a + k) (n - k) text).1, none)
    else ((snprintf m (a + k) (n - k) text).1, some (r (snprintf m (a + k) (n - k) text).2)) := by
  have hbind := (Writes.snprintf a n k text).bind
    (g := fun w m => (m, if n - k ≤ w then none else some (r w))) fun w => Writes.pure a n _
  refine hbind.congr fun m => ?_
  split
  · rfl
  · rfl

theorem writes_encodeSenmlJson (fp : FloatOps) (objId instId resId : UInt16) (v : Value)
    (buf bufSize : ℕ) :
    Writes buf bufSize fun m => encodeSenmlJson fp objId instId resId v m buf bufSize := by
  by_cases hzero : bufSize = 0
  · simp only [encodeSenmlJson, if_pos hzero]
    exact Writes.pure buf bufSize none
  rcases htext : senmlText fp objId instId resId v with _ | text
  · simp only [encodeSenmlJson, if_neg hzero, htext]
    exact Writes.pure buf bufSize none
  · simp only [encodeSenmlJson, if_neg hzero, htext]
    exact writes_snprintf_checked buf bufSize 0 text id

/-! ### The loops -/

/-- The induction is on the table; the offset does not matter, since there is no room behind
the end of the buffer. -/
theorem writes_tlvEncodeLoop (obj : ObjectDef σ κ) (instId : UInt16) (buf bufSize : ℕ)
    (ress : List (ResourceDef σ κ)) (off : ℕ) (s : σ) :
    Writes buf bufSize fun m => flatten (tlvEncodeLoop fp obj instId buf bufSize ress m off s) := by
  induction ress generalizing off s with
  | nil => exact Writes.pure buf bufSize (some off, s)
  | cons res rest ih =>
    rcases hread : res.read obj instId s with ⟨_ | ⟨resId, v⟩, s₁⟩
    · simp only [tlvEncodeLoop, hread]
      exact ih off s₁
    · have hres := (writes_tlvEncodeResource fp resId v (buf + off) (bufSize - off)).of_offset
      have hnext := hres.next (none, s₁) fun written => ih (off + written) s₁
      refine hnext.congr fun m => ?_
      rw [tlvEncodeLoop, hread, next]
      simp only
      rcases tlvEncodeResource fp resId v m (buf + off) (bufSize - off) with ⟨m', _ | written⟩
      · rfl
      · rfl

theorem writes_senmlWriteValue (v : Value) (buf bufSize off : ℕ) :
    Writes buf bufSize fun m => senmlWriteValue fp v m buf bufSize off := by
  rcases htext : senmlValueText fp v with _ | text
  · simp only [senmlWriteValue, htext]
    exact Writes.pure buf bufSize none
  · simp only [senmlWriteValue, htext]
    exact writes_snprintf_checked buf bufSize off text id

theorem writes_senmlWriteRecord (objId instId resId : UInt16) (v : Value)
    (buf bufSize off : ℕ) :
    Writes buf bufSize fun m => senmlWriteRecord fp objId instId resId v m buf bufSize off := by
  have hhead := writes_snprintf_checked buf bufSize off (senmlRecordHead off objId instId resId)
    (off + ·)
  have hvalue : ∀ off', Writes buf bufSize fun m =>
      next (senmlWriteValue fp v m buf bufSize off') none fun w m => (m, some (off' + w)) :=
    fun off' => (writes_senmlWriteValue v buf bufSize off').next none fun w =>
      Writes.pure buf bufSize _
  have hnext := hhead.next none hvalue
  refine hnext.congr fun m => ?_
  rw [senmlWriteRecord]
  simp only
  split
  · rfl
  · rw [next]
    simp only [Option.elim_some, next]
    rcases senmlWriteValue fp v _ buf bufSize _ with ⟨m', _ | w⟩
    · rfl
    · rfl

/-- The comma stays inside by its own check, and everything behind it by that of the print. -/
theorem writes_senmlEncodeLoop (obj : ObjectDef σ κ) (instId : UInt16) (buf bufSize : ℕ)
    (ress : List (ResourceDef σ κ)) (off : ℕ) (first : Bool) (s : σ) :
    Writes buf bufSize fun m =>
      flatten (senmlEncodeLoop fp obj instId buf bufSize ress m off first s) := by
  induction ress generalizing off first s with
  | nil => exact Writes.pure buf bufSize (some off, s)
  | cons res rest ih =>
    rcases hread : res.read obj instId s with ⟨_ | ⟨resId, v⟩, s₁⟩
    · simp only [senmlEncodeLoop, hread]
      exact ih off first s₁
    have hrecord : ∀ off', Writes buf bufSize fun m =>
        next (senmlWriteRecord fp obj.id instId resId v m buf bufSize off') (none, s₁)
          fun off'' m =>
            flatten (senmlEncodeLoop fp obj instId buf bufSize rest m off'' false s₁) :=
      fun off' => (writes_senmlWriteRecord obj.id instId resId v buf bufSize off').next (none, s₁)
        fun off'' => ih off'' false s₁
    rcases first with _ | _
    · by_cases hfull : bufSize ≤ off
      · have hfail := Writes.pure buf bufSize ((none : Option ℕ), s₁)
        refine hfail.congr fun m => ?_
        rw [senmlEncodeLoop, hread]
        simp [hfull, flatten]
      · have hcomma : Writes buf bufSize fun m => (store m (buf + off) (ascii ","), off + 1) :=
          (Writes.store le_rfl (by show buf + off + 1 ≤ _; omega) _).of_offset
        have hbind := hcomma.bind hrecord
        refine hbind.congr fun m => ?_
        rw [senmlEncodeLoop, hread]
        simp only [Bool.not_false, Bool.true_and, decide_eq_true_eq, if_neg hfull, next,
          Bool.false_eq_true, if_false]
        rcases senmlWriteRecord fp obj.id instId resId v (store m (buf + off) (ascii ",")) buf
          bufSize (off + 1) with ⟨m', _ | off''⟩
        · rfl
        · rfl
    · refine (hrecord off).congr fun m => ?_
      rw [senmlEncodeLoop, hread]
      simp only [Bool.not_true, Bool.false_and, Bool.false_eq_true, if_false, if_true, next]
      rcases senmlWriteRecord fp obj.id instId resId v m buf bufSize off with ⟨m', _ | off''⟩
      · rfl
      · rfl

theorem writes_linkInstanceLoop (objId : UInt16) (buf bufSize : ℕ) (insts : List UInt16)
    (off : ℕ) (first : Bool) :
    Writes buf bufSize fun m => linkInstanceLoop objId buf bufSize insts m off first := by
  induction insts generalizing off first with
  | nil => exact Writes.pure buf bufSize (some (off, first))
  | cons instId rest ih =>
    have hprint := writes_snprintf_checked buf bufSize off (linkText first objId instId) (off + ·)
    refine (hprint.next none fun off' => ih off' false).congr fun m => ?_
    rw [linkInstanceLoop]
    simp only
    split
    · rfl
    · rfl

theorem writes_linkObjectLoop (objects : List (ObjectDef σ κ)) (buf bufSize off : ℕ)
    (first : Bool) :
    Writes buf bufSize fun m => linkObjectLoop buf bufSize objects m off first := by
  induction objects generalizing off first with
  | nil => exact Writes.pure buf bufSize (some off)
  | cons obj rest ih =>
    have hobj := writes_linkInstanceLoop obj.id buf bufSize obj.instances off first
    refine (hobj.next none fun r => ih r.1 r.2).congr fun m => ?_
    rw [linkObjectLoop, next]
    rcases linkInstanceLoop obj.id buf bufSize obj.instances m off first with ⟨m', _ | ⟨off', f⟩⟩
    · rfl
    · rfl

/-! ### All of them -/

theorem writes_encodeSenmlJsonInstance (obj : ObjectDef σ κ) (instId : UInt16)
    (buf bufSize : ℕ) (s : σ) :
    Writes buf bufSize fun m =>
      flatten (encodeSenmlJsonInstance fp obj instId m buf bufSize s) := by
  by_cases hsize : bufSize < 2
  · refine (Writes.pure buf bufSize ((none : Option ℕ), s)).congr fun m => ?_
    rw [encodeSenmlJsonInstance, if_pos hsize, ite_self]
    rfl
  have hopen : Writes buf bufSize fun m => (store m buf (ascii "["), ()) :=
    Writes.store le_rfl (by show buf + 1 ≤ _; omega) _
  -- the closing bracket and the terminator, if there is room for both
  have hclose : ∀ r : Option ℕ × σ, Writes buf bufSize fun m =>
      match r with
      | (none, s') => (m, ((none : Option ℕ), s'))
      | (some off, s') => if bufSize ≤ off + 1 then (m, (none, s'))
        else (store m (buf + off) (ascii "]" ++ [0]), (some (off + 1), s')) := by
    rintro ⟨_ | off, s'⟩
    · exact Writes.pure buf bufSize _
    · by_cases hfull : bufSize ≤ off + 1
      · simp only [if_pos hfull]
        exact Writes.pure buf bufSize _
      · simp only [if_neg hfull]
        exact (Writes.store le_rfl (by show buf + off + 2 ≤ _; omega) _).of_offset
  have hloop := (hopen.bind fun _ =>
    @writes_senmlEncodeLoop fp σ κ obj instId buf bufSize obj.resources 1 true s).bind hclose
  refine hloop.congr fun m => ?_
  rw [encodeSenmlJsonInstance, if_neg (by omega), if_neg hsize]
  rcases senmlEncodeLoop fp obj instId buf bufSize obj.resources (store m buf (ascii "[")) 1 true s
    with ⟨⟨m', _ | off⟩, s'⟩
  · rfl
  · simp only [flatten]
    split
    · rfl
    · rfl

/-- **No encoder touches anything but its buffer.** Whatever the memory holds, and whether the
run succeeds or not: nothing outside the buffer is written, and the result, the calls of the
callbacks and the bytes that are written do not depend on what the memory held before. -/
theorem encoders_footprint (fp : FloatOps) :
    (∀ (src : List UInt8) (dst dstSize : ℕ),
      Writes dst dstSize fun m => base64Encode src m dst dstSize) ∧
    (∀ (resId : UInt16) (v : Value) (buf bufSize : ℕ),
      Writes buf bufSize fun m => tlvEncodeResource fp resId v m buf bufSize) ∧
    (∀ (σ κ : Type) (obj : ObjectDef σ κ) (instId : UInt16) (buf bufSize : ℕ) (s : σ),
      Writes buf bufSize fun m => flatten (tlvEncodeInstance fp obj instId m buf bufSize s)) ∧
    (∀ (objId instId resId : UInt16) (v : Value) (buf bufSize : ℕ),
      Writes buf bufSize fun m => encodeSenmlJson fp objId instId resId v m buf bufSize) ∧
    (∀ (σ κ : Type) (obj : ObjectDef σ κ) (instId : UInt16) (buf bufSize : ℕ) (s : σ),
      Writes buf bufSize fun m =>
        flatten (encodeSenmlJsonInstance fp obj instId m buf bufSize s)) ∧
    ∀ (σ κ : Type) (objects : List (Option (ObjectDef σ κ))) (buf bufSize : ℕ),
      Writes buf bufSize fun m => encodeLinkArray objects m buf bufSize := by
  refine ⟨writes_base64Encode, writes_tlvEncodeResource fp, ?_, writes_encodeSenmlJson fp,
    fun _ _ => writes_encodeSenmlJsonInstance, ?_⟩
  · intro σ κ obj instId buf bufSize s
    by_cases hzero : bufSize = 0
    · simp only [tlvEncodeInstance, if_pos hzero]
      exact Writes.pure buf bufSize ((none : Option ℕ), s)
    · simp only [tlvEncodeInstance, if_neg hzero]
      exact writes_tlvEncodeLoop obj instId buf bufSize obj.resources 0 s
  · intro σ κ objects buf bufSize
    simp only [encodeLinkArray_eq]
    by_cases hzero : bufSize = 0
    · simp only [encodeLinkFormat, if_pos hzero]
      exact Writes.pure buf bufSize none
    · simp only [encodeLinkFormat, if_neg hzero]
      exact writes_linkObjectLoop _ buf bufSize 0 true

end WbLwm2m

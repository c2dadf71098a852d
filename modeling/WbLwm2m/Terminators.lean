import WbLwm2m.LinkText
import WbLwm2m.SenmlInstance

/-!
# The terminators of the texts

A text encoder that returns `n` should leave a NUL behind the `n` bytes, so that its
callers can print the buffer as a string. Both SenML encoders do: their last write is a
print, or the store of the closing bracket and the NUL. The link-format encoder has the
terminator of its last print, and prints nothing when there are no links: it then returns
`0` and leaves the buffer as it was.
-/

namespace WbLwm2m

open Memory

/-- **A returned text is terminated**, inside the buffer. -/
def Terminates (buf bufSize : ℕ) (r : Mem × Option ℕ) : Prop :=
  ∀ n, r.2 = some n → n < bufSize ∧ r.1 (buf + n) = 0

/-- A failure returns no text. -/
theorem terminates_of_none {buf bufSize : ℕ} {r : Mem × Option ℕ} (h : r.2 = none) :
    Terminates buf bufSize r := by
  intro n hn
  rw [h] at hn
  cases hn

/-- A text stored with its terminator is terminated when it fits. -/
theorem terminates_store {m : Mem} {buf bufSize : ℕ} {text : List UInt8}
    (h : text.length < bufSize) {r : Mem × Option ℕ} (hm : r.1 = store m buf (text ++ [0]))
    (hlen : r.2 = some text.length) : Terminates buf bufSize r := by
  obtain rfl : r = (store m buf (text ++ [0]), some text.length) := Prod.ext hm hlen
  rintro n ⟨⟩
  refine ⟨h, ?_⟩
  show store m buf (text ++ [0]) (buf + text.length) = 0
  have hlt : text.length < (text ++ [0]).length := by
    rw [List.length_append, List.length_singleton]
    exact Nat.lt_succ_self _
  rw [store_add m buf hlt, List.getElem_concat_length rfl]

variable {σ κ : Type}

/-- There are no links when no object has an instance. -/
theorem objectLinks_reduceOption_eq_nil {objects : List (Option (ObjectDef σ κ))} :
    objectLinks objects.reduceOption = [] ↔
      ¬∃ obj, some obj ∈ objects ∧ obj.instances ≠ [] := by
  rw [objectLinks, List.flatMap_eq_nil_iff]
  simp only [List.reduceOption_mem_iff, List.map_eq_nil_iff, not_exists, not_and, not_not]

theorem terminates_encodeLinkArray_iff {objects : List (Option (ObjectDef σ κ))} {m : Mem}
    {buf bufSize : ℕ} :
    Terminates buf bufSize (encodeLinkArray objects m buf bufSize) ↔
      bufSize = 0 ∨ (∃ obj, some obj ∈ objects ∧ obj.instances ≠ []) ∨ m buf = 0 := by
  rw [encodeLinkArray_eq]
  rcases Nat.eq_zero_or_pos bufSize with rfl | hsize
  · refine iff_of_true (terminates_of_none ?_) (Or.inl rfl)
    rw [encodeLinkFormat, if_pos rfl]
  by_cases hlinks : objectLinks objects.reduceOption = []
  -- no links: nothing is written, and the length is zero
  · have hno := objectLinks_reduceOption_eq_nil.mp hlinks
    have hfit : (linksText true (objectLinks objects.reduceOption)).length < bufSize := by
      rw [hlinks]
      exact hsize
    have henc : encodeLinkFormat objects.reduceOption m buf bufSize = (m, some 0) := by
      rw [encodeLinkFormat_of_lt m hfit, hlinks, if_pos rfl]
      exact congrArg (fun m' => (m', some 0)) (store_nil m buf)
    rw [henc]
    constructor
    · intro h
      obtain ⟨-, hnul⟩ := h 0 rfl
      exact Or.inr (Or.inr hnul)
    · rintro (rfl | hobj | hnul)
      · omega
      · exact absurd hobj hno
      · rintro n ⟨⟩
        exact ⟨hsize, hnul⟩
  · have hobj := not_not.mp fun hno => hlinks (objectLinks_reduceOption_eq_nil.mpr hno)
    refine iff_of_true ?_ (Or.inr (Or.inl hobj))
    rcases Nat.lt_or_ge (linksText true (objectLinks objects.reduceOption)).length bufSize with
      hfit | hfit
    · rw [encodeLinkFormat_of_lt m hfit, if_neg hlinks]
      exact terminates_store hfit rfl rfl
    · exact terminates_of_none (encodeLinkFormat_of_ge m hfit)

/-- **Which texts are terminated.** The link-format encoder terminates what it returns
exactly when some object has an instance, or the buffer happens to begin with a NUL; the
two SenML encoders always do. -/
theorem texts_terminated_iff (fp : FloatOps) :
    (∀ (σ κ : Type) (objects : List (Option (ObjectDef σ κ))) (m : Mem) (buf bufSize : ℕ),
      Terminates buf bufSize (encodeLinkArray objects m buf bufSize) ↔
        bufSize = 0 ∨ (∃ obj, some obj ∈ objects ∧ obj.instances ≠ []) ∨ m buf = 0) ∧
    (∀ (objId instId resId : UInt16) (v : Value) (m : Mem) (buf bufSize : ℕ),
      Terminates buf bufSize (encodeSenmlJson fp objId instId resId v m buf bufSize)) ∧
    ∀ (σ κ : Type) (obj : ObjectDef σ κ) (instId : UInt16) (m : Mem) (buf bufSize : ℕ) (s : σ),
      Terminates buf bufSize (encodeSenmlJsonInstance fp obj instId m buf bufSize s).1 := by
  refine ⟨fun _ _ _ _ _ _ => terminates_encodeLinkArray_iff,
    fun objId instId resId v m buf bufSize n hn => ?_,
    fun σ κ obj instId m buf bufSize s n hn => ?_⟩
  · obtain ⟨T, -, rfl, hlt, hm⟩ := encodeSenmlJson_some (Prod.ext rfl hn)
    exact terminates_store hlt hm hn _ hn
  · obtain ⟨ps, -, rfl, hlt, hm⟩ := encodeSenmlJsonInstance_some (Prod.ext (Prod.ext rfl hn) rfl)
    exact terminates_store hlt hm hn _ hn

/-- **Without objects the buffer is left as it was**: the encoder returns `0`, and the
buffer begins with whatever it held. -/
theorem link_format_not_terminated :
    encodeLinkArray ([] : List (Option (ObjectDef Unit Unit))) (fun _ => 0x41) 0 512 =
        (fun _ => 0x41, some 0) ∧
      ¬Terminates 0 512
        (encodeLinkArray ([] : List (Option (ObjectDef Unit Unit))) (fun _ => 0x41) 0 512) := by
  refine ⟨rfl, fun h => ?_⟩
  obtain ⟨-, hnul⟩ := h 0 rfl
  cases hnul

end WbLwm2m

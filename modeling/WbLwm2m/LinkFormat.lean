import Mathlib.Data.List.ReduceOption
import WbLwm2m.Senml

/-!
# The link-format encoder

`wb_lwm2m_encode_link_format` prints one link for every instance of every registered
object, `</1/0>,</3/0>`, into the payload of the registration request.
-/

namespace WbLwm2m

open Memory

variable {σ κ : Type}

/-- One link: all but the first are preceded by a comma. -/
def linkText (first : Bool) (objId instId : UInt16) : List UInt8 :=
  (if first then [] else ascii ",") ++ ascii "</" ++ fmtU16 objId ++ ascii "/" ++ fmtU16 instId ++
    ascii ">"

/-- The inner loop, over the instances of an object. -/
def linkInstanceLoop (objId : UInt16) (buf bufSize : ℕ) :
    List UInt16 → Mem → ℕ → Bool → Mem × Option (ℕ × Bool)
  | [], m, offset, first => (m, some (offset, first))
  | instId :: rest, m, offset, first =>
    let (m, written) := snprintf m (buf + offset) (bufSize - offset) (linkText first objId instId)
    if bufSize - offset ≤ written then (m, none)
    else linkInstanceLoop objId buf bufSize rest m (offset + written) false

/-- The outer loop, over the objects. -/
def linkObjectLoop (buf bufSize : ℕ) :
    List (ObjectDef σ κ) → Mem → ℕ → Bool → Mem × Option ℕ
  | [], m, offset, _ => (m, some offset)
  | obj :: rest, m, offset, first =>
    match linkInstanceLoop obj.id buf bufSize obj.instances m offset first with
    | (m, none) => (m, none)
    | (m, some (offset, first)) => linkObjectLoop buf bufSize rest m offset first

/-- `wb_lwm2m_encode_link_format`: the number of bytes written, or `none` for `-1`. -/
def encodeLinkFormat (objects : List (ObjectDef σ κ)) (m : Mem) (buf bufSize : ℕ) :
    Mem × Option ℕ :=
  if bufSize = 0 then (m, none) else linkObjectLoop buf bufSize objects m 0 true

/-! ### Arrays with `NULL` entries -/

/-- The outer loop over an array of pointers: a `NULL` is skipped. -/
def linkArrayLoop (buf bufSize : ℕ) :
    List (Option (ObjectDef σ κ)) → Mem → ℕ → Bool → Mem × Option ℕ
  | [], m, offset, _ => (m, some offset)
  | none :: rest, m, offset, first => linkArrayLoop buf bufSize rest m offset first
  | some obj :: rest, m, offset, first =>
    match linkInstanceLoop obj.id buf bufSize obj.instances m offset first with
    | (m, none) => (m, none)
    | (m, some (offset, first)) => linkArrayLoop buf bufSize rest m offset first

/-- `wb_lwm2m_encode_link_format` on an array of pointers. That of a client, which is what
`WbLwm2m.encodeLinkFormat` is about, has no `NULL` entries. -/
def encodeLinkArray (objects : List (Option (ObjectDef σ κ))) (m : Mem) (buf bufSize : ℕ) :
    Mem × Option ℕ :=
  if bufSize = 0 then (m, none) else linkArrayLoop buf bufSize objects m 0 true

theorem linkArrayLoop_eq (buf bufSize : ℕ) (objects : List (Option (ObjectDef σ κ))) (m : Mem)
    (offset : ℕ) (first : Bool) :
    linkArrayLoop buf bufSize objects m offset first =
      linkObjectLoop buf bufSize objects.reduceOption m offset first := by
  induction objects generalizing m offset first with
  | nil => rfl
  | cons obj rest ih =>
    cases obj with
    | none => exact ih m offset first
    | some obj =>
      rw [linkArrayLoop, List.reduceOption_cons_of_some, linkObjectLoop]
      rcases linkInstanceLoop obj.id buf bufSize obj.instances m offset first
        with ⟨m', _ | ⟨offset', first'⟩⟩
      · rfl
      · exact ih m' offset' first'

/-- **A `NULL` entry makes no difference.** -/
theorem encodeLinkArray_eq (objects : List (Option (ObjectDef σ κ))) (m : Mem)
    (buf bufSize : ℕ) :
    encodeLinkArray objects m buf bufSize =
      encodeLinkFormat objects.reduceOption m buf bufSize := by
  rw [encodeLinkArray, encodeLinkFormat, linkArrayLoop_eq]

end WbLwm2m

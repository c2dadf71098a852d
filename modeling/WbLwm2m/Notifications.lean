import WbLwm2m.Log
import WbLwm2m.Notify
import WbLwm2m.RegistrationRequest
import WbLwm2m.SenmlPack

/-!
# What a server learns from notifications

`wb_lwm2m_notify` reads a resource, prints a SenML pack of one record into 256 bytes, and posts
it to the path of the resource. Taken together, the notifications of a run are a report: the
readings of the calls that were made while the client was registered, and whose record fitted,
one notification for each and in their order (`WbLwm2m.notifications_read_back`). The path of
the request and the name in the record are the same, and the value that is read from the record
is the one that the callback answered when the call was made.
-/

namespace WbLwm2m

open Json Memory Transition World

variable {σ κ ψ : Type} {w w' : World σ κ ψ} {a : Action σ κ} {fp : FloatOps}

/-! ### Readings -/

/-- A value of a resource of an instance. -/
structure Reading where
  objId : UInt16
  instId : UInt16
  resId : UInt16
  value : Value

/-- The path of the resource. -/
def Reading.path (r : Reading) : Text := senmlBaseName r.objId r.instId ++ fmtU16 r.resId

/-- The text of the record, if it fits the payload of a notification. -/
def Reading.payload (fp : FloatOps) (r : Reading) : Option Text :=
  (senmlText fp r.objId r.instId r.resId r.value).filter fun text => text.length < 256

/-- **The reading of a step**, if it is a notification that reads something. -/
def notifyReading (w : World σ κ ψ) : Action σ κ → Option Reading
  | .notify objId instId resId app _ =>
    if w.client.state ≠ .registered then none
    else match readFrom w.client.objects objId resId with
      | none => none
      | some (obj, cb) => match (cb objId instId resId obj.userCtx app).1 with
        | (.ok, value) => some ⟨objId, instId, resId, value⟩
        | _ => none
  | _ => none

/-- **The readings so far that fitted**, the last one first. -/
def reported (fp : FloatOps) (rs : List Reading) (w : World σ κ ψ) (a : Action σ κ)
    (_ : World σ κ ψ) : List Reading :=
  ((notifyReading w a).filter fun r => (r.payload fp).isSome).toList ++ rs

/-! ### Notifications -/

/-- The notifications that have been posted: path and payload, the last one first. -/
def notifications : List (Entry ψ) → List (Text × Text)
  | [] => []
  | .coapPost _ path (some payload) .json _ :: log => (path, payload) :: notifications log
  | _ :: log => notifications log

@[simp] theorem notifications_cons {e : Entry ψ} (he : e.topic ≠ .request) (log : List (Entry ψ)) :
    notifications (e :: log) = notifications log := by
  cases e <;> first | rfl | exact absurd rfl he

@[simp] theorem notifications_dispatchEvent (w : World σ κ ψ) (type : EventType) :
    notifications (w.dispatchEvent type).log = notifications w.log :=
  apply_dispatchEvent w type fun _ _ => rfl

@[simp] theorem notifications_stopUpdateTimer (w : World σ κ ψ) :
    notifications w.stopUpdateTimer.log = notifications w.log :=
  apply_stopUpdateTimer w (fun _ _ => rfl) fun _ _ => rfl

@[simp] theorem notifications_startUpdateTimer (w : World σ κ ψ) (created : Bool) :
    notifications (w.startUpdateTimer created).log = notifications w.log :=
  apply_startUpdateTimer w created (fun _ _ => rfl) (fun _ _ => rfl) (fun _ _ _ => rfl)
    fun _ _ => rfl

@[simp] theorem notifications_stopEnd (w : World σ κ ψ) :
    notifications w.stopEnd.log = notifications w.log :=
  apply_stopEnd w (fun _ _ => rfl) fun _ _ => rfl

@[simp] theorem notifications_destroyEnd (w : World σ κ ψ) :
    notifications w.destroyEnd.log = notifications w.log :=
  (apply_releaseTimer w.releaseCoap fun _ _ => rfl).trans (apply_releaseCoap w fun _ _ => rfl)

end WbLwm2m

import WbLwm2m.Float

/-!
# The object model

What `wb_lwm2m_object.h` declares: the resource types, the tagged union of the
resource values, and the tables of resource and object definitions with their read
callbacks.

A callback is application code. It is modelled by what it may do: it is handed the
three identifiers and the context pointer of its object, it may look at and change
the application's state (a type `σ` the development never inspects), and it answers
an error code and the value it has left in the caller's zeroed `wb_lwm2m_value_t`.
Two calls may therefore answer differently. The context pointer `void *` ranges over
a type `κ`, equally unconstrained.

Sizes are natural numbers. On the targets `int` and `size_t` have 32 bits and no
object exceeds `PTRDIFF_MAX = INT_MAX` bytes, so that a length, an offset into a
buffer and the conversion of either to `int` are exact.
-/

namespace WbLwm2m

/-- `esp_err_t`, with the codes the component itself returns. -/
inductive EspErr where
  | ok
  | fail
  | noMem
  | invalidArg
  | invalidState
  | invalidSize
  | notFound
  | notSupported
  /-- Any other code, of a callback or of the CoAP client. -/
  | other (code : ℤ)
deriving DecidableEq, Repr

/-- `wb_lwm2m_res_type_t` -/
inductive ResType where
  | none
  | string
  | integer
  | uinteger
  | float
  | boolean
  | opaqueData
  | time
  | objlink
  | corelnk
deriving DecidableEq, Repr

/-- `wb_lwm2m_value_t`: the tag and the member of the union it selects. A string and
an opaque value are the `len` bytes their pointer points at; a `double` is its bit
pattern. -/
inductive Value where
  | none
  | string (str : List UInt8)
  | integer (intVal : Int64)
  | uinteger (uintVal : UInt64)
  | float (floatVal : UInt64)
  | boolean (boolVal : Bool)
  | opaqueData (data : List UInt8)
  | time (timeVal : Int64)
  | objlink (objId instId : UInt16)
  | corelnk (str : List UInt8)
deriving DecidableEq

/-- The tag of a value. -/
def Value.type : Value → ResType
  | .none => .none
  | .string _ => .string
  | .integer _ => .integer
  | .uinteger _ => .uinteger
  | .float _ => .float
  | .boolean _ => .boolean
  | .opaqueData _ => .opaqueData
  | .time _ => .time
  | .objlink _ _ => .objlink
  | .corelnk _ => .corelnk

section Definitions

variable (σ κ : Type)

/-- `wb_lwm2m_read_cb_t`: object, instance and resource identifier, then the context. -/
abbrev ReadCb := UInt16 → UInt16 → UInt16 → κ → σ → (EspErr × Value) × σ

/-- `wb_lwm2m_resource_def_t` -/
structure ResourceDef where
  id : UInt16
  type : ResType
  operations : UInt8
  multiple : Bool
  readCb : Option (ReadCb σ κ)

/-- `wb_lwm2m_object_def_t`: the lists are the filled parts of its two arrays. -/
structure ObjectDef where
  id : UInt16
  instances : List UInt16
  resources : List (ResourceDef σ κ)
  userCtx : κ

end Definitions

variable {σ κ : Type}

/-! ### Reading the resources of an instance -/

/-- **What one resource of the table yields**: the encoders skip a resource without a
value, one without a read callback, and one whose read fails. -/
def ResourceDef.read (res : ResourceDef σ κ) (obj : ObjectDef σ κ) (instId : UInt16) (s : σ) :
    Option (UInt16 × Value) × σ :=
  if res.type = .none then (Option.none, s)
  else match res.readCb with
    | Option.none => (Option.none, s)
    | some cb => match cb obj.id instId res.id obj.userCtx s with
      | ((.ok, v), s') => (some (res.id, v), s')
      | ((_, _), s') => (Option.none, s')

/-- **The readable resources of an instance**, in table order, with the values their
callbacks answer. -/
def readings (obj : ObjectDef σ κ) (instId : UInt16) : List (ResourceDef σ κ) → σ →
    List (UInt16 × Value)
  | [], _ => []
  | res :: rest, s => match res.read obj instId s with
    | (Option.none, s') => readings obj instId rest s'
    | (some r, s') => r :: readings obj instId rest s'

/-- The readable resources of the whole table. -/
def ObjectDef.readings (obj : ObjectDef σ κ) (instId : UInt16) (s : σ) : List (UInt16 × Value) :=
  WbLwm2m.readings obj instId obj.resources s

@[simp] theorem readings_nil (obj : ObjectDef σ κ) (instId : UInt16) (s : σ) :
    readings obj instId [] s = [] := rfl

theorem readings_cons_none {obj : ObjectDef σ κ} {instId : UInt16} {res : ResourceDef σ κ}
    {rest : List (ResourceDef σ κ)} {s s' : σ} (h : res.read obj instId s = (Option.none, s')) :
    readings obj instId (res :: rest) s = readings obj instId rest s' := by
  rw [readings, h]

theorem readings_cons_some {obj : ObjectDef σ κ} {instId : UInt16} {res : ResourceDef σ κ}
    {rest : List (ResourceDef σ κ)} {s s' : σ} {r : UInt16 × Value}
    (h : res.read obj instId s = (some r, s')) :
    readings obj instId (res :: rest) s = r :: readings obj instId rest s' := by
  rw [readings, h]

/-- A small object: a string, a resource without a value, and an integer. -/
def sampleObject : ObjectDef Unit Unit where
  id := 3
  instances := [0]
  resources := [
    ⟨0, .string, 1, false, some fun _ _ _ _ _ => ((.ok, .string (ascii "Acme")), ())⟩,
    ⟨4, .none, 4, false, Option.none⟩,
    ⟨9, .integer, 1, false, some fun _ _ _ _ _ => ((.ok, .integer 77), ())⟩]
  userCtx := ()

end WbLwm2m

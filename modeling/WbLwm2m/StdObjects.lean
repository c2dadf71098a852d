import WbLwm2m.Confidential
import WbLwm2m.Containers
import WbLwm2m.DeviceObject
import WbLwm2m.ServerObject
import WbLwm2m.TlvCanonical

/-!
# The standard objects

The factories of `wb_lwm2m_std_objects.c` (the Device factory has a module of its own), and
what a server gets to read from the objects they make. A factory fills a table of resources
one by one, some of them only if the application has given a callback or a text for them.

The server knows the standard objects: that resource 1 of the Server object is an integer is
not in the payload. What it knows is `WbLwm2m.documentedType`, the types the source documents
for each resource. A table that declares these types, with callbacks that answer values of
them, is read back by such a server as it was written (`WbLwm2m.std_objects_read_back`); and
the Security and Server objects, whose callbacks are built in, are read back as the
configuration they were made from (`WbLwm2m.configuration_read_back`).
-/

namespace WbLwm2m

open Memory

variable {σ κ : Type}

/-! ### Resource operations -/

/-- `WB_LWM2M_OP_WRITE` -/
def opWrite : UInt8 := 2

/-- `WB_LWM2M_OP_EXECUTE` -/
def opExecute : UInt8 := 4

/-- `WB_LWM2M_OP_RW` -/
def opRw : UInt8 := opRead ||| opWrite

/-- The block a factory has allocated, which its callbacks are called with. -/
@[match_pattern] abbrev CtxPtr.block : CtxPtr κ := .device

/-- A callback that answers from the block, and from no other context. -/
def blockCb (answer : UInt16 → EspErr × Value) : ReadCb σ (CtxPtr κ) :=
  fun _ _ resId ctx s => match ctx with
    | .block => (answer resId, s)
    | .user _ => ((.invalidState, .none), s)

/-! ### The Security object -/

/-- `wb_lwm2m_security_mode_t` -/
inductive SecurityMode where
  | psk
  | rawPubKey
  | certificate
  | noSec
  | certEst
deriving DecidableEq, Repr

/-- The value of the enumerator. -/
def SecurityMode.value : SecurityMode → Int64
  | .psk => 0
  | .rawPubKey => 1
  | .certificate => 2
  | .noSec => 3
  | .certEst => 4

/-- `wb_lwm2m_security_info_t`: a key is the bytes its pointer points at, or there is no
pointer, when its length does not matter. -/
structure SecurityInfo where
  serverUri : Option (List UInt8)
  isBootstrap : Bool
  mode : SecurityMode
  pubKeyIdentity : Option (List UInt8)
  serverPubKey : Option (List UInt8)
  secretKey : Option (List UInt8)
  shortServerId : UInt16

/-- The value of a key: an empty one if there is none, or none of its bytes. -/
def keyValue : Option (List UInt8) → Value
  | some data => if 0 < data.length then .opaqueData data else .opaqueData []
  | none => .opaqueData []

/-- `security_read_cb`, of a context that is there. -/
def securityReadCb (info : SecurityInfo) (resId : UInt16) : EspErr × Value :=
  if resId = 0 then (.ok, .string (info.serverUri.getD []))
  else if resId = 1 then (.ok, .boolean info.isBootstrap)
  else if resId = 2 then (.ok, .integer info.mode.value)
  else if resId = 3 then (.ok, keyValue info.pubKeyIdentity)
  else if resId = 4 then (.ok, keyValue info.serverPubKey)
  else if resId = 5 then (.ok, keyValue info.secretKey)
  else if resId = 10 then (.ok, valueInt info.shortServerId.toUInt32)
  else (.notFound, .none)

/-- The resources `wb_lwm2m_create_security_object` adds, in its order. -/
def securityResources (info : SecurityInfo) : List (ResourceDef σ (CtxPtr κ)) :=
  let rcb := some (blockCb (securityReadCb info))
  [⟨0, .string, opRead, false, rcb⟩, ⟨1, .boolean, opRead, false, rcb⟩,
    ⟨2, .integer, opRead, false, rcb⟩, ⟨3, .opaqueData, opRead, false, rcb⟩,
    ⟨4, .opaqueData, opRead, false, rcb⟩, ⟨5, .opaqueData, opRead, false, rcb⟩,
    ⟨10, .integer, opRead, false, rcb⟩]

/-- `wb_lwm2m_create_security_object`, when memory does not run out -/
def createSecurityObject (info : SecurityInfo) (instId : UInt16) : ObjectDef σ (CtxPtr κ) where
  id := 0
  instances := [instId]
  resources := (securityResources info).foldl addResource []
  userCtx := .block

/-! ### The Server object -/

/-- The resources `wb_lwm2m_create_server_object` adds, in its order; of the two execute
callbacks it matters only whether they are there. -/
def serverResources (info : ServerInfo) (regUpdateCb disableCb : Bool) :
    List (ResourceDef σ (CtxPtr κ)) :=
  let rcb := some (blockCb (serverReadCb (some info)))
  [⟨0, .integer, opRead, false, rcb⟩, ⟨1, .integer, opRw, false, rcb⟩,
    ⟨2, .integer, opRw, false, rcb⟩, ⟨3, .integer, opRw, false, rcb⟩] ++
    optional disableCb ⟨4, .none, opExecute, false, none⟩ ++
    [⟨5, .integer, opRw, false, rcb⟩, ⟨6, .boolean, opRw, false, rcb⟩,
      ⟨7, .string, opRw, false, rcb⟩] ++
    optional regUpdateCb ⟨8, .none, opExecute, false, none⟩

/-- `wb_lwm2m_create_server_object`, when memory does not run out. The last argument is not
looked at. -/
def createServerObject (info : ServerInfo) (instId : UInt16) (regUpdateCb disableCb : Bool)
    (_userCtx : κ) : ObjectDef σ (CtxPtr κ) where
  id := 1
  instances := [instId]
  resources := (serverResources info regUpdateCb disableCb).foldl addResource []
  userCtx := .block

/-! ### Objects with the callback of the application -/

/-- The resources `wb_lwm2m_create_conn_mon_object` adds, in its order. -/
def connMonResources (rcb : ReadCb σ (CtxPtr κ)) : List (ResourceDef σ (CtxPtr κ)) :=
  [⟨0, .integer, opRead, false, some rcb⟩, ⟨1, .integer, opRead, true, some rcb⟩,
    ⟨2, .integer, opRead, false, some rcb⟩, ⟨3, .integer, opRead, false, some rcb⟩,
    ⟨4, .string, opRead, true, some rcb⟩, ⟨5, .string, opRead, true, some rcb⟩,
    ⟨6, .integer, opRead, false, some rcb⟩, ⟨7, .string, opRead, true, some rcb⟩,
    ⟨8, .integer, opRead, false, some rcb⟩, ⟨9, .integer, opRead, false, some rcb⟩,
    ⟨10, .integer, opRead, false, some rcb⟩]

/-- `wb_lwm2m_create_conn_mon_object`, when memory does not run out: there is no object
without a callback. -/
def createConnMonObject (readCb : Option (ReadCb σ (CtxPtr κ))) (userCtx : κ) :
    Option (ObjectDef σ (CtxPtr κ)) :=
  readCb.map fun rcb => ⟨4, [0], (connMonResources rcb).foldl addResource [], .user userCtx⟩

/-- The resources `wb_lwm2m_create_firmware_object` adds, in its order. The state and the
result are there without a callback too. -/
def firmwareResources (readCb : Option (ReadCb σ (CtxPtr κ))) : List (ResourceDef σ (CtxPtr κ)) :=
  [⟨0, .opaqueData, opWrite, false, none⟩, ⟨1, .string, opWrite, false, none⟩,
    ⟨2, .none, opExecute, false, none⟩, ⟨3, .integer, opRead, false, readCb⟩,
    ⟨5, .integer, opRead, false, readCb⟩] ++
    optional readCb.isSome ⟨6, .string, opRead, false, readCb⟩ ++
    optional readCb.isSome ⟨7, .string, opRead, false, readCb⟩ ++
    optional readCb.isSome ⟨8, .integer, opRead, true, readCb⟩ ++
    optional readCb.isSome ⟨9, .integer, opRead, false, readCb⟩

/-- `wb_lwm2m_create_firmware_object`, when memory does not run out -/
def createFirmwareObject (readCb : Option (ReadCb σ (CtxPtr κ))) (userCtx : κ) :
    ObjectDef σ (CtxPtr κ) :=
  ⟨5, [0], (firmwareResources readCb).foldl addResource [], .user userCtx⟩

/-- The resources `wb_lwm2m_create_location_object` adds, in its order. -/
def locationResources (rcb : ReadCb σ (CtxPtr κ)) : List (ResourceDef σ (CtxPtr κ)) :=
  [⟨0, .float, opRead, false, some rcb⟩, ⟨1, .float, opRead, false, some rcb⟩,
    ⟨2, .float, opRead, false, some rcb⟩, ⟨3, .float, opRead, false, some rcb⟩,
    ⟨4, .opaqueData, opRead, false, some rcb⟩, ⟨5, .time, opRead, false, some rcb⟩,
    ⟨6, .float, opRead, false, some rcb⟩]

/-- `wb_lwm2m_create_location_object`, when memory does not run out: there is no object
without a callback. -/
def createLocationObject (readCb : Option (ReadCb σ (CtxPtr κ))) (userCtx : κ) :
    Option (ObjectDef σ (CtxPtr κ)) :=
  readCb.map fun rcb => ⟨6, [0], (locationResources rcb).foldl addResource [], .user userCtx⟩

/-- The resources `wb_lwm2m_create_conn_stats_object` adds, in its order. -/
def connStatsResources (readCb : Option (ReadCb σ (CtxPtr κ))) (startCb stopCb : Bool) :
    List (ResourceDef σ (CtxPtr κ)) :=
  optional readCb.isSome ⟨0, .integer, opRead, false, readCb⟩ ++
    optional readCb.isSome ⟨1, .integer, opRead, false, readCb⟩ ++
    optional readCb.isSome ⟨2, .integer, opRead, false, readCb⟩ ++
    optional readCb.isSome ⟨3, .integer, opRead, false, readCb⟩ ++
    optional readCb.isSome ⟨4, .integer, opRead, false, readCb⟩ ++
    optional readCb.isSome ⟨5, .integer, opRead, false, readCb⟩ ++
    optional startCb ⟨6, .none, opExecute, false, none⟩ ++
    optional stopCb ⟨7, .none, opExecute, false, none⟩ ++
    optional readCb.isSome ⟨8, .integer, opRw, false, readCb⟩

/-- `wb_lwm2m_create_conn_stats_object`, when memory does not run out -/
def createConnStatsObject (readCb : Option (ReadCb σ (CtxPtr κ))) (startCb stopCb : Bool)
    (userCtx : κ) : ObjectDef σ (CtxPtr κ) :=
  ⟨7, [0], (connStatsResources readCb startCb stopCb).foldl addResource [], .user userCtx⟩

/-! ### All factories -/

/-- **A call of a factory**, with the arguments it gets. -/
inductive StdObject (σ κ : Type) where
  | security (info : SecurityInfo) (instId : UInt16)
  | server (info : ServerInfo) (instId : UInt16) (regUpdateCb disableCb : Bool) (userCtx : κ)
  | device (info : DeviceInfo σ κ) (userCtx : κ)
  | connMon (readCb : Option (ReadCb σ (CtxPtr κ))) (userCtx : κ)
  | firmware (readCb : Option (ReadCb σ (CtxPtr κ))) (userCtx : κ)
  | location (readCb : Option (ReadCb σ (CtxPtr κ))) (userCtx : κ)
  | connStats (readCb : Option (ReadCb σ (CtxPtr κ))) (startCb stopCb : Bool) (userCtx : κ)

/-- The object it makes, if it makes one. -/
def StdObject.create (env : DeviceEnv σ) : StdObject σ κ → Option (ObjectDef σ (CtxPtr κ))
  | .security info instId => some (createSecurityObject info instId)
  | .server info instId regUpdateCb disableCb userCtx =>
    some (createServerObject info instId regUpdateCb disableCb userCtx)
  | .device info userCtx => some (createDeviceObject env info userCtx)
  | .connMon readCb userCtx => createConnMonObject readCb userCtx
  | .firmware readCb userCtx => some (createFirmwareObject readCb userCtx)
  | .location readCb userCtx => createLocationObject readCb userCtx
  | .connStats readCb startCb stopCb userCtx =>
    some (createConnStatsObject readCb startCb stopCb userCtx)

/-- **The resources that are documented** for the standard objects, with their types, in the
comments of `wb_lwm2m_object.h` and of `wb_lwm2m_std_objects.c`. -/
def documented (objId : UInt16) : List (UInt16 × ResType) :=
  match objId.toNat with
  -- Security
  | 0 => [(0, .string), (1, .boolean), (2, .integer), (3, .opaqueData), (4, .opaqueData),
      (5, .opaqueData), (10, .integer)]
  -- Server
  | 1 => [(0, .integer), (1, .integer), (2, .integer), (3, .integer), (4, .none), (5, .integer),
      (6, .boolean), (7, .string), (8, .none)]
  -- Device
  | 3 => [(0, .string), (1, .string), (2, .string), (3, .string), (4, .none), (5, .none),
      (6, .integer), (7, .integer), (8, .integer), (9, .integer), (10, .integer), (11, .integer),
      (12, .none), (13, .time), (14, .string), (15, .string), (16, .string), (17, .string),
      (18, .string), (19, .string), (20, .integer), (21, .integer)]
  -- Connectivity Monitoring
  | 4 => [(0, .integer), (1, .integer), (2, .integer), (3, .integer), (4, .string), (5, .string),
      (6, .integer), (7, .string), (8, .integer), (9, .integer), (10, .integer)]
  -- Firmware Update
  | 5 => [(0, .opaqueData), (1, .string), (2, .none), (3, .integer), (5, .integer), (6, .string),
      (7, .string), (8, .integer), (9, .integer)]
  -- Location
  | 6 => [(0, .float), (1, .float), (2, .float), (3, .float), (4, .opaqueData), (5, .time),
      (6, .float)]
  -- Connectivity Statistics
  | 7 => [(0, .integer), (1, .integer), (2, .integer), (3, .integer), (4, .integer),
      (5, .integer), (6, .none), (7, .none), (8, .integer)]
  | _ => []

/-- The type that is documented for a resource. -/
def documentedType (objId resId : UInt16) : Option ResType := (documented objId).lookup resId

/-- **The resources of the call**, before they are put into the table. -/
def StdObject.resources (env : DeviceEnv σ) : StdObject σ κ → List (ResourceDef σ (CtxPtr κ))
  | .security info _ => securityResources info
  | .server info _ regUpdateCb disableCb _ => serverResources info regUpdateCb disableCb
  | .device info _ => deviceResources env info
  | .connMon readCb _ => readCb.elim [] connMonResources
  | .firmware readCb _ => firmwareResources readCb
  | .location readCb _ => readCb.elim [] locationResources
  | .connStats readCb startCb stopCb _ => connStatsResources readCb startCb stopCb

/-- The identifier of the object. -/
def StdObject.objId : StdObject σ κ → UInt16
  | .security _ _ => 0
  | .server _ _ _ _ _ => 1
  | .device _ _ => 3
  | .connMon _ _ => 4
  | .firmware _ _ => 5
  | .location _ _ => 6
  | .connStats _ _ _ _ => 7

/-- The context its callbacks are called with. -/
def StdObject.ctx : StdObject σ κ → CtxPtr κ
  | .security _ _ | .server _ _ _ _ _ | .device _ _ => .block
  | .connMon _ userCtx | .firmware _ userCtx | .location _ userCtx | .connStats _ _ _ userCtx =>
    .user userCtx

/-! ### The tables -/

/-- What a table declares: identifiers and types, in order. -/
def declared (ress : List (ResourceDef σ κ)) : List (UInt16 × ResType) :=
  ress.map fun res => (res.id, res.type)

section Declared

variable {ress : List (ResourceDef σ κ)} {l : List (UInt16 × ResType)}

/-- Resources that are always there follow. -/
theorem declared_fixed_sublist (ress' : List (ResourceDef σ κ)) (h : (declared ress).Sublist l) :
    (declared (ress ++ ress')).Sublist (l ++ declared ress') := by
  rw [declared, List.map_append]
  exact h.append (List.Sublist.refl _)

/-- A resource that may be missing follows. -/
theorem declared_optional_sublist (cond : Bool) (res : ResourceDef σ κ)
    (h : (declared ress).Sublist l) :
    (declared (ress ++ optional cond res)).Sublist (l ++ [(res.id, res.type)]) := by
  rw [declared, List.map_append]
  refine h.append ?_
  cases cond with
  | false => exact List.nil_sublist _
  | true => exact List.Sublist.refl _

end Declared

theorem declared_serverResources (info : ServerInfo) (regUpdateCb disableCb : Bool) :
    (declared (serverResources (σ := σ) (κ := κ) info regUpdateCb disableCb)).Sublist
      (documented 1) := by
  rw [serverResources]
  exact declared_optional_sublist _ _ <| declared_fixed_sublist _ <|
    declared_optional_sublist _ _ <| List.Sublist.refl _

theorem declared_deviceResources (env : DeviceEnv σ) (info : DeviceInfo σ κ) :
    (declared (deviceResources env info)).Sublist (documented 3) := by
  rw [deviceResources]
  exact declared_fixed_sublist _ <| declared_optional_sublist _ _ <|
    declared_optional_sublist _ _ <| declared_optional_sublist _ _ <|
    declared_fixed_sublist _ <| declared_optional_sublist _ _ <|
    declared_optional_sublist _ _ <| declared_fixed_sublist _ <|
    declared_optional_sublist _ _ <| declared_fixed_sublist _ <|
    declared_optional_sublist _ _ <| declared_fixed_sublist _ <|
    declared_optional_sublist _ _ <| List.Sublist.refl _

theorem declared_firmwareResources (readCb : Option (ReadCb σ (CtxPtr κ))) :
    (declared (firmwareResources readCb)).Sublist (documented 5) := by
  rw [firmwareResources]
  exact declared_optional_sublist _ _ <| declared_optional_sublist _ _ <|
    declared_optional_sublist _ _ <| declared_optional_sublist _ _ <| List.Sublist.refl _

theorem declared_connStatsResources (readCb : Option (ReadCb σ (CtxPtr κ)))
    (startCb stopCb : Bool) :
    (declared (connStatsResources readCb startCb stopCb)).Sublist (documented 7) := by
  have hnil : (declared ([] : List (ResourceDef σ (CtxPtr κ)))).Sublist [] :=
    List.Sublist.refl _
  exact declared_optional_sublist _ _ <| declared_optional_sublist _ _ <|
    declared_optional_sublist _ _ <| declared_optional_sublist _ _ <|
    declared_optional_sublist _ _ <| declared_optional_sublist _ _ <|
    declared_optional_sublist _ _ <| declared_optional_sublist _ _ <|
    declared_optional_sublist _ _ hnil

/-- **A table declares what is documented**, in the documented order, some of it left out. -/
theorem StdObject.declared_sublist (env : DeviceEnv σ) (f : StdObject σ κ) :
    (declared (f.resources env)).Sublist (documented f.objId) := by
  cases f with
  | security => exact List.Sublist.refl _
  | server info instId regUpdateCb disableCb => exact declared_serverResources _ _ _
  | device info => exact declared_deviceResources env info
  | connMon readCb | location readCb =>
    cases readCb with
    | none => exact List.nil_sublist _
    | some rcb => exact List.Sublist.refl _
  | firmware readCb => exact declared_firmwareResources readCb
  | connStats readCb startCb stopCb => exact declared_connStatsResources readCb startCb stopCb

/-- The documented identifiers are in increasing order, and there is room for all of them. -/
theorem documented_pairwise (objId : UInt16) :
    ((documented objId).map Prod.fst).Pairwise (· < ·) ∧ (documented objId).length ≤ 24 := by
  unfold documented
  split <;> exact ⟨by decide, by decide⟩

theorem documentedType_of_mem {objId : UInt16} :
    ∀ p ∈ documented objId, documentedType objId p.1 = some p.2 := by
  unfold documentedType documented
  split <;> decide

/-- **No resource is lost** in a table of 24. -/
theorem StdObject.foldl_resources (env : DeviceEnv σ) (f : StdObject σ κ) :
    (f.resources env).foldl addResource [] = f.resources env := by
  have hlen : (f.resources env).length ≤ 24 := by
    have hle := (f.declared_sublist env).length_le
    rw [declared, List.length_map] at hle
    exact le_trans hle (documented_pairwise _).2
  have hroom : ([] : List (ResourceDef σ (CtxPtr κ))).length + (f.resources env).length ≤ 24 := by
    rwa [List.length_nil, Nat.zero_add]
  rw [foldl_addResource hroom, List.nil_append]

/-- **What a factory makes**: an object with the table, the identifier and the context of the
call. -/
theorem StdObject.create_eq_some {env : DeviceEnv σ} {f : StdObject σ κ}
    {obj : ObjectDef σ (CtxPtr κ)} (h : f.create env = some obj) :
    obj.resources = f.resources env ∧ obj.id = f.objId ∧ obj.userCtx = f.ctx := by
  rw [← f.foldl_resources env]
  cases f with
  | security | server | device | firmware | connStats =>
    obtain rfl := Option.some.inj (by simpa only [create] using h)
    simp only [createSecurityObject, createServerObject, createDeviceObject, createFirmwareObject,
      createConnStatsObject, resources, objId, ctx, and_self]
  | connMon readCb | location readCb =>
    obtain ⟨rcb, rfl, rfl⟩ := Option.map_eq_some_iff.mp h
    simp only [resources, objId, ctx, Option.elim, and_self]

/-! ### Typed callbacks -/

/-- A callback that answers, of what is documented, values of the documented type. -/
def AnswersTyped (objId : UInt16) (ctx : κ) (cb : ReadCb σ κ) : Prop :=
  ∀ instId resId type s, documentedType objId resId = some type →
    ∀ v s', cb objId instId resId ctx s = ((.ok, v), s') → v.type = type

/-- The read callback the application gives to the factory. -/
def StdObject.readCb : StdObject σ κ → Option (ReadCb σ (CtxPtr κ))
  | .security _ _ | .server _ _ _ _ _ => none
  | .device info _ => info.readCb
  | .connMon readCb _ | .firmware readCb _ | .location readCb _ | .connStats readCb _ _ _ =>
    readCb

/-- **The callback of the application is typed**, if there is one. -/
def StdObject.Typed (f : StdObject σ κ) : Prop := ∀ cb ∈ f.readCb, AnswersTyped f.objId f.ctx cb

/-- What is answered, if it is, is of the documented type. -/
def DocumentedAnswer (objId resId : UInt16) (answer : EspErr × Value) : Prop :=
  answer.1 = .ok → documentedType objId resId = some answer.2.type

theorem answersTyped_of_documented {objId : UInt16} {ctx : κ} {cb : ReadCb σ κ}
    (h : ∀ instId resId s, DocumentedAnswer objId resId (cb objId instId resId ctx s).1) :
    AnswersTyped objId ctx cb := by
  intro instId resId type s htype v s' hcb
  have hdoc := h instId resId s
  rw [hcb] at hdoc
  exact Option.some.inj ((hdoc rfl).symm.trans htype)

theorem type_keyValue (key : Option (List UInt8)) : (keyValue key).type = .opaqueData := by
  rcases key with _ | data
  · rfl
  · rw [keyValue]
    split <;> rfl

theorem documentedAnswer_security (info : SecurityInfo) (resId : UInt16) :
    DocumentedAnswer 0 resId (securityReadCb info resId) := by
  intro h
  unfold securityReadCb at h ⊢
  split_ifs at h ⊢ with h0 h1 h2 h3 h4 h5 h10
  all_goals
    subst resId
    first | rfl | (rw [type_keyValue]; rfl)

theorem documentedAnswer_server (info : ServerInfo) (resId : UInt16) :
    DocumentedAnswer 1 resId (serverReadCb (some info) resId) := by
  intro h
  unfold serverReadCb at h ⊢
  dsimp only at h ⊢
  split_ifs at h ⊢ with h0 h1 h2 h3 h5 h6 h7
  all_goals
    subst resId
    rfl

theorem documentedAnswer_device (env : DeviceEnv σ) (info : DeviceInfo σ κ)
    (objId instId resId : UInt16) (s : σ) :
    DocumentedAnswer 3 resId (deviceDefaultReadCb env info objId instId resId .device s).1 := by
  intro h
  unfold deviceDefaultReadCb at h ⊢
  dsimp only at h ⊢
  split at h
  case h_20 => cases h
  all_goals
    next hres =>
      have hofNat := congrArg UInt16.ofNat hres
      rw [UInt16.ofNat_toNat] at hofNat
      subst hofNat
      rfl

/-- **The dispatcher of the Device object is typed** if the custom callback is. -/
theorem answersTyped_deviceReadDispatch (env : DeviceEnv σ) {info : DeviceInfo σ κ}
    (h : ∀ cb ∈ info.readCb, AnswersTyped 3 CtxPtr.block cb) :
    AnswersTyped 3 .block (deviceReadDispatch env info) := by
  have hdefault : AnswersTyped 3 .block (deviceDefaultReadCb env info) :=
    answersTyped_of_documented (documentedAnswer_device env info 3)
  intro instId resId type s htype v s' hread
  unfold deviceReadDispatch at hread
  split at hread
  · exact hdefault instId resId type s htype v s' hread
  · next cb hcb =>
    split at hread
    · next value s₁ heq =>
      obtain ⟨hvalue, -⟩ := Prod.mk.inj hread
      obtain ⟨-, rfl⟩ := Prod.mk.inj hvalue
      exact h cb hcb instId resId type s htype _ _ heq
    · next s₁ _ => exact hdefault instId resId type s₁ htype v s' hread
    · next hok _ heq =>
      obtain ⟨hvalue, -⟩ := Prod.mk.inj hread
      obtain ⟨rfl, -⟩ := Prod.mk.inj hvalue
      exact absurd rfl hok

/-- The callback that the resources of the call are read with. -/
def StdObject.callback (env : DeviceEnv σ) : StdObject σ κ → Option (ReadCb σ (CtxPtr κ))
  | .security info _ => some (blockCb (securityReadCb info))
  | .server info _ _ _ _ => some (blockCb (serverReadCb (some info)))
  | .device info _ => some (deviceReadDispatch env info)
  | .connMon readCb _ | .firmware readCb _ | .location readCb _ | .connStats readCb _ _ _ =>
    readCb

/-- **There is no other callback in a table.** -/
theorem StdObject.readCb_resources (env : DeviceEnv σ) (f : StdObject σ κ) :
    ∀ res ∈ f.resources env, res.readCb = none ∨ res.readCb = f.callback env := by
  cases f with
  | connMon readCb | location readCb =>
    rcases readCb with _ | rcb
    · exact List.forall_mem_nil _
    · simp only [resources, Option.elim, connMonResources, locationResources, callback,
        List.forall_mem_cons, List.not_mem_nil, false_imp_iff, implies_true, or_true, and_true]
  | _ =>
    simp only [resources, securityResources, serverResources, deviceResources, firmwareResources,
      connStatsResources, callback, List.forall_mem_append, List.forall_mem_cons,
      List.not_mem_nil, forall_mem_optional, or_true, true_or, false_imp_iff, implies_true,
      and_true]

/-- **Every callback in a table is typed**, if that of the application is. -/
theorem StdObject.answersTyped (env : DeviceEnv σ) {f : StdObject σ κ} (hf : f.Typed) :
    ∀ cb ∈ f.callback env, AnswersTyped f.objId f.ctx cb := by
  cases f with
  | security info =>
    rintro cb ⟨⟩
    exact answersTyped_of_documented fun _ resId _ => documentedAnswer_security info resId
  | server info =>
    rintro cb ⟨⟩
    exact answersTyped_of_documented fun _ resId _ => documentedAnswer_server info resId
  | device info =>
    rintro cb ⟨⟩
    exact answersTyped_deviceReadDispatch env hf
  | connMon | firmware | location | connStats => exact hf

/-! ### A reader that knows the types -/

section Reader

variable {fp : FloatOps} {m : Mem} {buf : ℕ} {objId : UInt16}

/-- A record is read as what is documented for its identifier. -/
def readTyped (fp : FloatOps) (objId : UInt16) (m : Mem) (buf : ℕ) (p : ℕ × TlvHeader) :
    Option (UInt16 × Value) :=
  match documentedType objId p.2.id with
  | none => none
  | some type => match tlvDecodeValue fp type m (buf + p.1 + p.2.valueOffset) p.2.valueLen with
    | .ok v => some (p.2.id, v)
    | .error _ => none

/-- **What is read of a payload** of `n` bytes, if all of it can be read. -/
def readByTypes (fp : FloatOps) (objId : UInt16) (m : Mem) (buf n : ℕ) :
    Option (List (UInt16 × Value)) :=
  let (hs, stop) := tlvWalk m buf n n 0 ⟨.resource, 0, 0, 0⟩
  if stop = n then hs.mapM (readTyped fp objId m buf) else none

/-- **A record is read as the reading it carries** exactly if that is of the documented
type. -/
theorem readTyped_eq_some_iff {p : ℕ × TlvHeader} {r : UInt16 × Value}
    (h : Carries fp m buf p r) :
    readTyped fp objId m buf p = some r ↔ documentedType objId r.1 = some r.2.type := by
  obtain ⟨-, hid, hval⟩ := h
  rw [readTyped, hid]
  constructor
  · intro hread
    split at hread
    · cases hread
    · next type htype =>
      split at hread
      · next v hdec =>
        have hv : v = r.2 := congrArg Prod.snd (Option.some.inj hread)
        rw [htype, ← hv, type_of_decodeValue hdec]
      · cases hread
  · intro htype
    simp only [htype, hval]

/-- The whole list of records, likewise. -/
theorem mapM_readTyped_eq_some_iff {hs : List (ℕ × TlvHeader)} {rds : List (UInt16 × Value)}
    (h : List.Forall₂ (Carries fp m buf) hs rds) :
    hs.mapM (readTyped fp objId m buf) = some rds ↔
      ∀ r ∈ rds, documentedType objId r.1 = some r.2.type := by
  induction h with
  | nil => simp
  | @cons p r hs rds hpr _ ih =>
    rw [List.forall_mem_cons, ← readTyped_eq_some_iff hpr, ← ih, List.mapM_cons]
    constructor
    · intro hall
      obtain ⟨r', hr', hrest⟩ := Option.bind_eq_some_iff.mp hall
      obtain ⟨rds', hrds', hcons⟩ := Option.bind_eq_some_iff.mp hrest
      obtain ⟨rfl, rfl⟩ := List.cons.inj (Option.some.inj hcons)
      exact ⟨hr', hrds'⟩
    · rintro ⟨hr, hrds⟩
      rw [hr, hrds]
      rfl

end Reader

/-! ### The readings -/

section Readings

variable {obj : ObjectDef σ κ} {instId : UInt16}

/-- The readings come in the order of the table. -/
theorem ids_readings_sublist (ress : List (ResourceDef σ κ)) (s : σ) :
    ((readings obj instId ress s).map Prod.fst).Sublist (ress.map ResourceDef.id) := by
  rw [readings_eq_map, List.map_map]
  induction ress generalizing s with
  | nil => exact List.Sublist.refl _
  | cons res rest ih =>
    rw [emitted]
    rcases res.read obj instId s with ⟨_ | ⟨resId, v⟩, s'⟩
    · exact (ih s').cons _
    · exact (ih s').cons_cons _

/-- **A reading is an answer** of the callback of its resource. -/
theorem mem_readings {ress : List (ResourceDef σ κ)} {s : σ} {r : UInt16 × Value}
    (h : r ∈ readings obj instId ress s) :
    ∃ res ∈ ress, r.1 = res.id ∧ ∃ cb ∈ res.readCb, ∃ s₁ s₂,
      cb obj.id instId res.id obj.userCtx s₁ = ((.ok, r.2), s₂) := by
  induction ress generalizing s with
  | nil => cases h
  | cons res rest ih =>
    rcases hread : res.read obj instId s with ⟨_ | r', s'⟩
    · rw [readings_cons_none hread] at h
      obtain ⟨res', hres', hr⟩ := ih h
      exact ⟨res', List.mem_cons_of_mem _ hres', hr⟩
    · rw [readings_cons_some hread] at h
      rcases List.mem_cons.mp h with rfl | h
      · refine ⟨res, List.mem_cons_self, ResourceDef.id_of_read hread, ?_⟩
        rw [ResourceDef.read] at hread
        split at hread
        · cases hread
        · split at hread
          · cases hread
          · next cb hcb =>
            split at hread
            · next v s₂ hv =>
              obtain ⟨hr, -⟩ := Prod.mk.inj hread
              obtain rfl := Option.some.inj hr
              exact ⟨cb, hcb, s, s₂, hv⟩
            · cases hread
      · obtain ⟨res', hres', hr⟩ := ih h
        exact ⟨res', List.mem_cons_of_mem _ hres', hr⟩

end Readings

/-- **Readings of the documented types.** -/
def DocumentedReadings (obj : ObjectDef σ κ) (instId : UInt16) (s : σ) : Prop :=
  ∀ r ∈ obj.readings instId s, documentedType obj.id r.1 = some r.2.type

variable {env : DeviceEnv σ} {f : StdObject σ κ} {obj : ObjectDef σ (CtxPtr κ)}

/-- What a table declares is what is documented. -/
theorem StdObject.documentedType_resources (env : DeviceEnv σ) (f : StdObject σ κ) :
    ∀ res ∈ f.resources env, documentedType f.objId res.id = some res.type := by
  intro res hres
  have hmem : (res.id, res.type) ∈ declared (f.resources env) := List.mem_map_of_mem hres
  exact documentedType_of_mem _ ((f.declared_sublist env).subset hmem)

/-- **A typed object has readings of the documented types.** -/
theorem StdObject.documentedReadings (hobj : f.create env = some obj) (hf : f.Typed)
    (instId : UInt16) (s : σ) : DocumentedReadings obj instId s := by
  obtain ⟨hress, hid, hctx⟩ := create_eq_some hobj
  intro r hr
  rw [ObjectDef.readings, hress] at hr
  obtain ⟨res, hres, hrid, cb, hcb, s₁, s₂, hv⟩ := mem_readings hr
  have htype := f.documentedType_resources env res hres
  rw [hid, hctx] at hv
  have hcallback : cb ∈ f.callback env := by
    rcases f.readCb_resources env res hres with hnone | hsome
    · rw [hnone] at hcb
      cases hcb
    · rwa [hsome] at hcb
  have hanswer := f.answersTyped env hf cb hcallback instId res.id res.type s₁ htype r.2 s₂ hv
  rw [hid, hrid, htype, hanswer]

/-- The identifiers of a table increase. -/
theorem StdObject.ids_pairwise (env : DeviceEnv σ) (f : StdObject σ κ) :
    ((f.resources env).map ResourceDef.id).Pairwise (· < ·) := by
  have hsub := (f.declared_sublist env).map Prod.fst
  rw [declared, List.map_map] at hsub
  exact (documented_pairwise _).1.sublist hsub

/-- **What a reader that knows the types makes of a payload.** -/
theorem readByTypes_encodeInstance {fp : FloatOps} {m m' : Mem} {buf bufSize n : ℕ}
    {instId : UInt16} {s s' : σ} {obj : ObjectDef σ κ}
    (h : tlvEncodeInstance fp obj instId m buf bufSize s = ((m', some n), s')) :
    readByTypes fp obj.id m' buf n = some (obj.readings instId s) ↔
      DocumentedReadings obj instId s := by
  obtain ⟨hs, hwalk, hcar⟩ := tlvWalk_encodeInstance h le_rfl ⟨.resource, 0, 0, 0⟩
  rw [readByTypes, hwalk]
  dsimp only
  rw [if_pos rfl, mapM_readTyped_eq_some_iff hcar, DocumentedReadings]

/-- **The standard objects are read back.** No resource that a factory adds is lost, and their
identifiers increase, so that a payload has at most one value of each. If the callback of the
application answers values of the documented types, every payload of the object is read by a
server that knows these types as exactly what has been answered. Of a payload with a value of
another type it is not. -/
theorem std_objects_read_back (fp : FloatOps) (env : DeviceEnv σ) (f : StdObject σ κ)
    (obj : ObjectDef σ (CtxPtr κ)) (hobj : f.create env = some obj) (instId : UInt16) (s : σ) :
    obj.resources = f.resources env ∧
    ((obj.readings instId s).map Prod.fst).Pairwise (· < ·) ∧
    (f.Typed → DocumentedReadings obj instId s) ∧
    ∀ m buf bufSize m' n s',
      tlvEncodeInstance fp obj instId m buf bufSize s = ((m', some n), s') →
      (readByTypes fp obj.id m' buf n = some (obj.readings instId s) ↔
        DocumentedReadings obj instId s) := by
  obtain ⟨hress, -, -⟩ := StdObject.create_eq_some hobj
  refine ⟨hress, ?_, fun hf => StdObject.documentedReadings hobj hf instId s, ?_⟩
  · have hids := f.ids_pairwise env
    rw [← hress] at hids
    exact hids.sublist (ids_readings_sublist obj.resources s)
  · intro m buf bufSize m' n s' h
    exact readByTypes_encodeInstance h

/-- The Server object is read back from 22 bytes. -/
theorem std_objects_read_back_sample :
    readByTypes ieee754 1 (tlvEncodeInstance ieee754
        (createServerObject (κ := Unit) sampleServer 0 true false ()) 0 (fun _ => 0) 0 64 ()).1.1 0
        22 =
      some [(0, .integer 1), (1, .integer 300), (2, .integer 0), (3, .integer 0),
        (5, .integer 0), (6, .boolean true), (7, .string (ascii "U"))] := by
  have hobj : (StdObject.server sampleServer 0 true false ()).create
      ⟨fun _ => (0, ()), fun _ => (0, ())⟩ =
        some (createServerObject (κ := Unit) sampleServer 0 true false ()) := rfl
  have hread := std_objects_read_back ieee754 _ _ _ hobj 0 ()
  exact (hread.2.2.2 (fun _ => 0) 0 64 _ 22 () rfl).mpr (hread.2.2.1 fun _ h => nomatch h)

/-! ### The configuration -/

/-- The bytes of a text or of an opaque value. -/
def Value.bytes : Value → List UInt8
  | .string data | .corelnk data | .opaqueData data => data
  | _ => []

/-- **The values that can be encoded**, in some buffer. -/
theorem isSome_tlvValueBytes_iff {fp : FloatOps} {v : Value} :
    (tlvValueBytes fp v).isSome ↔ v.type ≠ .none ∧ v.bytes.length ≤ 256 := by
  rcases v with _ | _ | _ | _ | d | _ | _ | _ | _ | _
  case float =>
    rw [tlvValueBytes]
    split <;> simp [Value.type, Value.bytes]
  case string data | corelnk data | opaqueData data =>
    rw [tlvValueBytes]
    split <;> simp [Value.type, Value.bytes] <;> omega
  all_goals simp [tlvValueBytes, Value.type, Value.bytes]

/-- **When there is a payload at all**, if the buffer is large enough. -/
theorem exists_encodeInstance_iff {fp : FloatOps} {obj : ObjectDef σ κ} {instId : UInt16} {s : σ} :
    (∃ m buf bufSize, (tlvEncodeInstance fp obj instId m buf bufSize s).1.2 ≠ none) ↔
      ∀ r ∈ obj.readings instId s, (tlvValueBytes fp r.2).isSome := by
  have hunenc : ∀ r : UInt16 × Value, Unencodable fp r ↔ ¬(tlvValueBytes fp r.2).isSome := by
    intro r
    rw [unencodable_iff, TlvRecord.ofValue_eq_none, Option.not_isSome_iff_eq_none]
  constructor
  · rintro ⟨m, buf, bufSize, hsome⟩ r hr
    by_contra hnone
    refine hsome ?_
    rcases Nat.eq_zero_or_pos bufSize with rfl | hpos
    · rfl
    · exact (tlvEncodeInstance_eq_none hpos).mpr (Or.inl ⟨r, hr, (hunenc r).mpr hnone⟩)
  · intro hall
    have hnone : ¬∃ r ∈ obj.readings instId s, Unencodable fp r := by
      rintro ⟨r, hr, hu⟩
      exact (hunenc r).mp hu (hall r hr)
    obtain ⟨rs, hrs⟩ := exists_records hnone
    refine ⟨fun _ => 0, 0, (recordsBytes rs).length + 1, ?_⟩
    rw [tlvEncodeInstance, if_neg (by omega), tlvEncodeLoop_of_le hrs (by omega)]
    exact Option.some_ne_none _

/-- What a Security object is to answer. -/
def SecurityInfo.configuration (info : SecurityInfo) : List (UInt16 × Value) :=
  [(0, .string (info.serverUri.getD [])), (1, .boolean info.isBootstrap),
    (2, .integer info.mode.value), (3, .opaqueData (info.pubKeyIdentity.getD [])),
    (4, .opaqueData (info.serverPubKey.getD [])), (5, .opaqueData (info.secretKey.getD [])),
    (10, valueInt info.shortServerId.toUInt32)]

/-- What a Server object is to answer. -/
def ServerInfo.configuration (info : ServerInfo) : List (UInt16 × Value) :=
  [(0, valueInt info.shortServerId.toUInt32), (1, valueInt info.lifetime),
    (2, valueInt info.defaultMinPeriod), (3, valueInt info.defaultMaxPeriod),
    (5, valueInt info.disableTimeout), (6, .boolean info.notificationStoring),
    (7, .string (info.binding.getD (ascii "U")))]

/-- **The configuration of a call**, of the objects that are read from it alone. -/
def StdObject.configuration : StdObject σ κ → Option (List (UInt16 × Value))
  | .security info _ => some info.configuration
  | .server info _ _ _ _ => some info.configuration
  | _ => none

theorem keyValue_eq (key : Option (List UInt8)) : keyValue key = .opaqueData (key.getD []) := by
  rcases key with _ | _ | ⟨b, data⟩
  · rfl
  · rfl
  · rw [keyValue, List.length_cons, if_pos (Nat.succ_pos _)]
    rfl

/-- What is answered is the configuration. -/
theorem StdObject.readings_of_configuration {conf : List (UInt16 × Value)}
    (hconf : f.configuration = some conf) (hobj : f.create env = some obj) (instId : UInt16)
    (s : σ) : obj.readings instId s = conf := by
  obtain ⟨hress, -, hctx⟩ := create_eq_some hobj
  rw [ObjectDef.readings, hress]
  cases f with
  | security info =>
    obtain rfl := Option.some.inj hconf
    obtain rfl : obj = createSecurityObject info _ := (Option.some.inj hobj).symm
    simp only [SecurityInfo.configuration, ← keyValue_eq]
    rfl
  | server info instId' regUpdateCb disableCb =>
    obtain rfl := Option.some.inj hconf
    obtain rfl : obj = createServerObject info _ _ _ _ := (Option.some.inj hobj).symm
    cases regUpdateCb <;> cases disableCb <;> rfl
  | _ => cases hconf

/-- No value of a configuration is the empty one. -/
theorem StdObject.type_configuration {conf : List (UInt16 × Value)}
    (hconf : f.configuration = some conf) : ∀ r ∈ conf, r.2.type ≠ .none := by
  cases f with
  | security info =>
    obtain rfl := Option.some.inj hconf
    simp [SecurityInfo.configuration, valueInt, Value.type]
  | server info =>
    obtain rfl := Option.some.inj hconf
    simp [ServerInfo.configuration, valueInt, Value.type]
  | _ => cases hconf

/-- **The configuration is read back.** Of a Security and of a Server object every payload is
read by a server that knows the types as the configuration the object has been made from, and
there are payloads exactly if no text and no key has more than 256 bytes. -/
theorem configuration_read_back (fp : FloatOps) (env : DeviceEnv σ) (f : StdObject σ κ)
    (conf : List (UInt16 × Value)) (hconf : f.configuration = some conf)
    (obj : ObjectDef σ (CtxPtr κ)) (hobj : f.create env = some obj) (instId : UInt16) (s : σ) :
    (∀ m buf bufSize m' n s',
      tlvEncodeInstance fp obj instId m buf bufSize s = ((m', some n), s') →
        readByTypes fp obj.id m' buf n = some conf) ∧
    ((∃ m buf bufSize, (tlvEncodeInstance fp obj instId m buf bufSize s).1.2 ≠ none) ↔
      ∀ r ∈ conf, r.2.bytes.length ≤ 256) := by
  have hreadings := StdObject.readings_of_configuration hconf hobj instId s
  have htyped : f.Typed := by
    cases f with
    | security | server => exact fun _ h => nomatch h
    | _ => cases hconf
  constructor
  · intro m buf bufSize m' n s' h
    rw [← hreadings]
    exact (readByTypes_encodeInstance h).mpr (StdObject.documentedReadings hobj htyped instId s)
  · rw [exists_encodeInstance_iff, hreadings]
    refine forall₂_congr fun r hr => ?_
    rw [isSome_tlvValueBytes_iff, and_iff_right (StdObject.type_configuration hconf r hr)]

/-- A server that is reached with a pre-shared key. -/
def sampleSecurity : SecurityInfo where
  serverUri := some (ascii "coaps://lwm2m")
  isBootstrap := false
  mode := .psk
  pubKeyIdentity := some (ascii "id")
  serverPubKey := none
  secretKey := some [0xCA, 0xFE]
  shortServerId := 123

/-- Its Security object is read back from 35 bytes. -/
theorem configuration_read_back_sample :
    readByTypes ieee754 0 (tlvEncodeInstance ieee754
        (createSecurityObject (κ := Unit) sampleSecurity 0) 0 (fun _ => 0) 0 64 ()).1.1 0 35 =
      some sampleSecurity.configuration := by
  have hobj : (StdObject.security sampleSecurity 0).create
      ⟨fun _ => (0, ()), fun _ => (0, ())⟩ =
        some (createSecurityObject (κ := Unit) sampleSecurity 0) := rfl
  exact (configuration_read_back ieee754 _ _ _ rfl _ hobj 0 ()).1 (fun _ => 0) 0 64 _ 35 () rfl

end WbLwm2m

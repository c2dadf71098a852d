import WbLwm2m.Notify
import WbLwm2m.TlvInstance

/-!
# The Device object

`wb_lwm2m_create_device_object` makes an object whose resources are all read through one
dispatcher. It asks the custom callback of the application first, if there is one, and answers
from the stored device info when that does not know the resource. The dispatcher finds both in
a block the factory has allocated, which is the context of the object.

The application also gives the factory a context for its callback. The object has one context
only: what the custom callback is called with is the block
(`WbLwm2m.device_context_lost`).
-/

namespace WbLwm2m

open World

/-- **A context pointer**: one of the application's, or the block the factory has allocated,
which is none of these. -/
inductive CtxPtr (κ : Type) where
  | user (p : κ)
  | device
deriving DecidableEq

/-- What the callbacks ask of the system: `esp_get_free_heap_size` and `time`. -/
structure DeviceEnv (σ : Type) where
  freeHeapSize : σ → UInt32 × σ
  time : σ → Int64 × σ

/-- `wb_lwm2m_device_info_t`: strings that may be `NULL`; of the callbacks that are executed it
matters only whether they are there. -/
structure DeviceInfo (σ κ : Type) where
  manufacturer : Option (List UInt8)
  modelNumber : Option (List UInt8)
  serialNumber : Option (List UInt8)
  binding : Option (List UInt8)
  firmwareVersion : Option (List UInt8)
  deviceType : Option (List UInt8)
  hardwareVersion : Option (List UInt8)
  softwareVersion : Option (List UInt8)
  utcOffset : Option (List UInt8)
  timezone : Option (List UInt8)
  readCb : Option (ReadCb σ (CtxPtr κ))
  factoryResetCb : Bool
  resetErrorCb : Bool

variable {σ κ : Type}

/-! ### The callbacks -/

/-- `device_default_read_cb`. It is called with the block alone; what another pointer points at
is no device info. -/
def deviceDefaultReadCb (env : DeviceEnv σ) (info : DeviceInfo σ κ) : ReadCb σ (CtxPtr κ) :=
  fun _ _ resId ctx s => match ctx with
    | .user _ => ((.invalidState, .none), s)
    | .device => match resId.toNat with
      -- static strings
      | 0 => ((.ok, .string (info.manufacturer.getD [])), s)
      | 1 => ((.ok, .string (info.modelNumber.getD [])), s)
      | 2 => ((.ok, .string (info.serialNumber.getD [])), s)
      | 3 => ((.ok, .string (info.firmwareVersion.getD [])), s)
      | 14 => ((.ok, .string (info.utcOffset.getD [])), s)
      | 15 => ((.ok, .string (info.timezone.getD [])), s)
      | 16 => ((.ok, .string (info.binding.getD (ascii "U"))), s)
      | 17 => ((.ok, .string (info.deviceType.getD [])), s)
      | 18 => ((.ok, .string (info.hardwareVersion.getD [])), s)
      | 19 => ((.ok, .string (info.softwareVersion.getD [])), s)
      -- dynamic resources
      | 9 => ((.ok, .integer 100), s)
      | 10 =>
        let (free, s) := env.freeHeapSize s
        ((.ok, .integer (free.toUInt64.toInt64 / 1024)), s)
      | 11 => ((.ok, .integer 0), s)
      | 13 =>
        let (now, s) := env.time s
        ((.ok, .time now), s)
      | 20 => ((.ok, .integer 0), s)
      | 21 => ((.ok, .integer 320), s)
      | 6 => ((.ok, .integer 0), s)
      | 7 => ((.ok, .integer 3300), s)
      | 8 => ((.ok, .integer 0), s)
      | _ => ((.notFound, .none), s)

/-- `device_read_dispatch`: the custom callback gets the context of the dispatcher. -/
def deviceReadDispatch (env : DeviceEnv σ) (info : DeviceInfo σ κ) : ReadCb σ (CtxPtr κ) :=
  fun objId instId resId ctx s => match info.readCb with
    | none => deviceDefaultReadCb env info objId instId resId ctx s
    | some readCb => match readCb objId instId resId ctx s with
      | ((.ok, value), s) => ((.ok, value), s)
      | ((.notFound, _), s) => deviceDefaultReadCb env info objId instId resId ctx s
      | ((err, value), s) => ((err, value), s)

/-! ### The factory -/

/-- `add_resource`: the array of an object has room for 24 resources. -/
def addResource (ress : List (ResourceDef σ κ)) (res : ResourceDef σ κ) :
    List (ResourceDef σ κ) :=
  if 24 ≤ ress.length then ress else ress ++ [res]

/-- A resource that is only there under a condition. -/
def optional (cond : Bool) (res : ResourceDef σ κ) : List (ResourceDef σ κ) :=
  if cond then [res] else []

/-- The resources `wb_lwm2m_create_device_object` adds, in its order. -/
def deviceResources (env : DeviceEnv σ) (info : DeviceInfo σ κ) :
    List (ResourceDef σ (CtxPtr κ)) :=
  let rcb := some (deviceReadDispatch env info)
  [⟨0, .string, 1, false, rcb⟩, ⟨1, .string, 1, false, rcb⟩, ⟨2, .string, 1, false, rcb⟩] ++
    optional info.firmwareVersion.isSome ⟨3, .string, 1, false, rcb⟩ ++
    [⟨4, .none, 4, false, none⟩] ++
    optional info.factoryResetCb ⟨5, .none, 4, false, none⟩ ++
    [⟨6, .integer, 1, true, rcb⟩, ⟨7, .integer, 1, true, rcb⟩, ⟨8, .integer, 1, true, rcb⟩,
      ⟨9, .integer, 1, false, rcb⟩, ⟨10, .integer, 1, false, rcb⟩,
      ⟨11, .integer, 1, true, rcb⟩] ++
    optional info.resetErrorCb ⟨12, .none, 4, false, none⟩ ++
    [⟨13, .time, 3, false, rcb⟩] ++
    optional info.utcOffset.isSome ⟨14, .string, 3, false, rcb⟩ ++
    optional info.timezone.isSome ⟨15, .string, 3, false, rcb⟩ ++
    [⟨16, .string, 1, false, rcb⟩] ++
    optional info.deviceType.isSome ⟨17, .string, 1, false, rcb⟩ ++
    optional info.hardwareVersion.isSome ⟨18, .string, 1, false, rcb⟩ ++
    optional info.softwareVersion.isSome ⟨19, .string, 1, false, rcb⟩ ++
    [⟨20, .integer, 1, false, rcb⟩, ⟨21, .integer, 1, false, rcb⟩]

/-- `wb_lwm2m_create_device_object`, when memory does not run out. The last argument is not
looked at. -/
def createDeviceObject (env : DeviceEnv σ) (info : DeviceInfo σ κ) (_userCtx : κ) :
    ObjectDef σ (CtxPtr κ) where
  id := 3
  instances := [0]
  resources := (deviceResources env info).foldl addResource []
  userCtx := .device

theorem foldl_addResource {ress : List (ResourceDef σ κ)} {acc : List (ResourceDef σ κ)}
    (h : acc.length + ress.length ≤ 24) : ress.foldl addResource acc = acc ++ ress := by
  induction ress generalizing acc with
  | nil => rw [List.foldl_nil, List.append_nil]
  | cons res ress ih =>
    rw [List.length_cons] at h
    have hroom : addResource acc res = acc ++ [res] := if_neg (by omega)
    rw [List.foldl_cons, hroom, ih (by rw [List.length_append, List.length_singleton]; omega),
      List.append_assoc, List.singleton_append]

theorem length_optional (cond : Bool) (res : ResourceDef σ κ) :
    (optional cond res).length = cond.toNat := by
  cases cond <;> rfl

theorem length_deviceResources_le (env : DeviceEnv σ) (info : DeviceInfo σ κ) :
    (deviceResources env info).length ≤ 22 := by
  simp only [deviceResources, List.length_append, List.length_cons, List.length_nil,
    length_optional]
  have h3 := info.firmwareVersion.isSome.toNat_le
  have h5 := info.factoryResetCb.toNat_le
  have h12 := info.resetErrorCb.toNat_le
  have h14 := info.utcOffset.isSome.toNat_le
  have h15 := info.timezone.isSome.toNat_le
  have h17 := info.deviceType.isSome.toNat_le
  have h18 := info.hardwareVersion.isSome.toNat_le
  have h19 := info.softwareVersion.isSome.toNat_le
  omega

/-- **There is room for all resources.** -/
theorem resources_createDeviceObject (env : DeviceEnv σ) (info : DeviceInfo σ κ) (userCtx : κ) :
    (createDeviceObject env info userCtx).resources = deviceResources env info := by
  have hle := length_deviceResources_le env info
  have hroom : ([] : List (ResourceDef σ (CtxPtr κ))).length +
      (deviceResources env info).length ≤ 24 := by
    rw [List.length_nil]
    omega
  rw [createDeviceObject, foldl_addResource hroom, List.nil_append]

/-! ### Recording the calls -/

section Recording

variable {ι : Type}

/-- A callback that also records the contexts it is called with. -/
def recordCalls (cb : ReadCb σ ι) : ReadCb (σ × List ι) ι :=
  fun objId instId resId ctx s =>
    ((cb objId instId resId ctx s.1).1, (cb objId instId resId ctx s.1).2, s.2 ++ [ctx])

/-- The system, next to which calls are recorded. -/
def DeviceEnv.recording (env : DeviceEnv σ) : DeviceEnv (σ × List ι) where
  freeHeapSize s := ((env.freeHeapSize s.1).1, (env.freeHeapSize s.1).2, s.2)
  time s := ((env.time s.1).1, (env.time s.1).2, s.2)

end Recording

/-- The device info, with a custom callback that records its calls. -/
def DeviceInfo.recording (info : DeviceInfo σ κ) : DeviceInfo (σ × List (CtxPtr κ)) κ :=
  { info with readCb := info.readCb.map recordCalls }

/-- **The Device object of an info**, in which the calls of the custom callback are
recorded. -/
def recordingDevice (env : DeviceEnv σ) (info : DeviceInfo σ κ) (userCtx : κ) :
    ObjectDef (σ × List (CtxPtr κ)) (CtxPtr κ) :=
  createDeviceObject env.recording info.recording userCtx

variable {env : DeviceEnv σ} {info : DeviceInfo σ κ}

/-- The built-in callback calls nothing of the application's. -/
theorem calls_deviceDefaultReadCb (objId instId resId : UInt16) (ctx : CtxPtr κ)
    (s : σ × List (CtxPtr κ)) :
    (deviceDefaultReadCb env.recording info.recording objId instId resId ctx s).2.2 = s.2 := by
  rcases ctx with p | _
  · rfl
  · unfold deviceDefaultReadCb
    dsimp only
    split <;> rfl

/-- **The dispatcher calls the custom callback** once, with its own context. -/
theorem calls_deviceReadDispatch {cb : ReadCb σ (CtxPtr κ)} (hcb : info.readCb = some cb)
    (objId instId resId : UInt16) (ctx : CtxPtr κ) (s : σ × List (CtxPtr κ)) :
    (deviceReadDispatch env.recording info.recording objId instId resId ctx s).2.2 =
      s.2 ++ [ctx] := by
  have hrec : info.recording.readCb = some (recordCalls cb) := by
    rw [DeviceInfo.recording, hcb]
    rfl
  rw [deviceReadDispatch, hrec]
  have hcalls : (recordCalls cb objId instId resId ctx s).2.2 = s.2 ++ [ctx] := rfl
  dsimp only
  split
  · next heq => rwa [heq] at hcalls
  · next heq =>
    rw [calls_deviceDefaultReadCb]
    rwa [heq] at hcalls
  · next heq => rwa [heq] at hcalls

/-- **The built-in callback answers** what the custom one does not know. -/
theorem deviceReadDispatch_notFound {cb : ReadCb σ (CtxPtr κ)} (hcb : info.readCb = some cb)
    {objId instId resId : UInt16} {ctx : CtxPtr κ} {s s' : σ} {v : Value}
    (h : cb objId instId resId ctx s = ((.notFound, v), s')) :
    deviceReadDispatch env info objId instId resId ctx s =
      deviceDefaultReadCb env info objId instId resId ctx s' := by
  rw [deviceReadDispatch, hcb]
  simp only [h]

/-! ### What the loops keep -/

section Loops

variable {fp : FloatOps} {obj : ObjectDef σ κ} {instId : UInt16} {buf bufSize : ℕ} {P : σ → Prop}

/-- **The loop of the TLV encoder**: what its first read establishes, and every read keeps, holds
of the application at the end. -/
theorem tlvEncodeLoop_invariant {ress : List (ResourceDef σ κ)} {s : σ} (hs : ress = [] → P s)
    (hfirst : ∀ res ∈ ress.head?, P (res.read obj instId s).2)
    (hread : ∀ res ∈ ress, ∀ s, P s → P (res.read obj instId s).2) (m : Memory.Mem) (off : ℕ) :
    P (tlvEncodeLoop fp obj instId buf bufSize ress m off s).2 := by
  induction ress generalizing m off s with
  | nil => exact hs rfl
  | cons res rest ih =>
    have hs' := hfirst res rfl
    have hrest : ∀ res ∈ rest, ∀ s, P s → P (res.read obj instId s).2 :=
      fun r hr => hread r (List.mem_cons_of_mem _ hr)
    rw [tlvEncodeLoop]
    generalize res.read obj instId s = r at hs' ⊢
    rcases r with ⟨_ | ⟨resId, v⟩, s'⟩
    · exact ih (fun _ => hs') (fun r hr => hrest r (List.mem_of_mem_head? hr) s' hs') hrest m off
    · dsimp only
      split
      · exact hs'
      · exact ih (fun _ => hs') (fun r hr => hrest r (List.mem_of_mem_head? hr) s' hs') hrest _ _

/-- **The loop of the SenML encoder**, likewise. -/
theorem senmlEncodeLoop_invariant {ress : List (ResourceDef σ κ)} {s : σ} (hs : ress = [] → P s)
    (hfirst : ∀ res ∈ ress.head?, P (res.read obj instId s).2)
    (hread : ∀ res ∈ ress, ∀ s, P s → P (res.read obj instId s).2) (m : Memory.Mem) (off : ℕ)
    (first : Bool) : P (senmlEncodeLoop fp obj instId buf bufSize ress m off first s).2 := by
  induction ress generalizing m off first s with
  | nil => exact hs rfl
  | cons res rest ih =>
    have hs' := hfirst res rfl
    have hrest : ∀ res ∈ rest, ∀ s, P s → P (res.read obj instId s).2 :=
      fun r hr => hread r (List.mem_cons_of_mem _ hr)
    rw [senmlEncodeLoop]
    generalize res.read obj instId s = r at hs' ⊢
    rcases r with ⟨_ | ⟨resId, v⟩, s'⟩
    · exact ih (fun _ => hs') (fun r hr => hrest r (List.mem_of_mem_head? hr) s' hs') hrest m off
        first
    · dsimp only
      split
      · exact hs'
      · split
        · exact hs'
        · exact ih (fun _ => hs') (fun r hr => hrest r (List.mem_of_mem_head? hr) s' hs') hrest _ _
            false

end Loops

/-! ### The context of the application -/

theorem forall_mem_optional {Q : ResourceDef σ κ → Prop} {cond : Bool} {res : ResourceDef σ κ} :
    (∀ r ∈ optional cond res, Q r) ↔ (cond = true → Q res) := by
  cases cond <;> simp [optional]

/-- The resources that can be executed. -/
def deviceExecutable : List UInt16 := [4, 5, 12]

/-- **All other resources are read through the dispatcher.** -/
theorem readCb_deviceResources (env : DeviceEnv σ) (info : DeviceInfo σ κ) :
    ∀ res ∈ deviceResources env info, res.readCb =
      if res.id ∈ deviceExecutable then none else some (deviceReadDispatch env info) := by
  rw [deviceResources]
  simp only [List.forall_mem_append, List.forall_mem_cons, forall_mem_optional]
  simp [deviceExecutable]

/-- The first resource of the object. -/
theorem head?_deviceResources (env : DeviceEnv σ) (info : DeviceInfo σ κ) :
    (deviceResources env info).head? =
      some ⟨0, .string, 1, false, some (deviceReadDispatch env info)⟩ :=
  rfl

theorem deviceResources_ne_nil (env : DeviceEnv σ) (info : DeviceInfo σ κ) :
    deviceResources env info ≠ [] := by
  intro hnil
  have hhead := head?_deviceResources env info
  rw [hnil] at hhead
  cases hhead

/-- A read changes the application as its callback does. -/
theorem ResourceDef.read_snd {res : ResourceDef σ κ} {cb : ReadCb σ κ} (htype : res.type ≠ .none)
    (hcb : res.readCb = some cb) (obj : ObjectDef σ κ) (instId : UInt16) (s : σ) :
    (res.read obj instId s).2 = (cb obj.id instId res.id obj.userCtx s).2 := by
  rw [ResourceDef.read, if_neg htype, hcb]
  dsimp only
  split
  · next heq => rw [heq]
  · next heq => rw [heq]

/-- A read keeps what its callback keeps. -/
theorem ResourceDef.read_invariant {P : σ → Prop} {res : ResourceDef σ κ} {obj : ObjectDef σ κ}
    {instId : UInt16} {s : σ} (hs : P s)
    (hcb : ∀ cb, res.readCb = some cb → P (cb obj.id instId res.id obj.userCtx s).2) :
    P (res.read obj instId s).2 := by
  by_cases htype : res.type = .none
  · rw [ResourceDef.read, if_pos htype]
    exact hs
  · rcases hres : res.readCb with _ | cb
    · rw [ResourceDef.read, if_neg htype, hres]
      exact hs
    · rw [ResourceDef.read_snd htype hres]
      exact hcb cb hres

/-- **The context is lost**: there are calls, and all are made with the block. -/
structure Lost (calls : List (CtxPtr κ)) : Prop where
  ne_nil : calls ≠ []
  eq_device : ∀ ctx ∈ calls, ctx = .device

theorem lost_append {calls : List (CtxPtr κ)} (h : ∀ ctx ∈ calls, ctx = .device) :
    Lost (calls ++ [.device]) where
  ne_nil := List.append_ne_nil_of_right_ne_nil _ (List.cons_ne_nil _ _)
  eq_device := List.forall_mem_append.mpr ⟨h, List.forall_mem_singleton.mpr rfl⟩

section Reads

variable {cb : ReadCb σ (CtxPtr κ)} (hcb : info.readCb = some cb)
include hcb

/-- A read of the Device object makes calls with the block only. -/
theorem lost_read (userCtx : κ) {res : ResourceDef (σ × List (CtxPtr κ)) (CtxPtr κ)}
    (hres : res ∈ deviceResources env.recording info.recording) (instId : UInt16)
    {s : σ × List (CtxPtr κ)} (hs : Lost s.2) :
    Lost (res.read (recordingDevice env info userCtx) instId s).2.2 := by
  refine ResourceDef.read_invariant (P := fun s : σ × List (CtxPtr κ) => Lost s.2) hs
    fun cb' hcb' => ?_
  rw [readCb_deviceResources _ _ res hres] at hcb'
  split at hcb'
  · cases hcb'
  · obtain rfl := Option.some.inj hcb'
    show Lost (deviceReadDispatch env.recording info.recording _ _ _ .device s).2.2
    rw [calls_deviceReadDispatch hcb]
    exact lost_append hs.eq_device

/-- The first resource is read through the dispatcher. -/
theorem lost_read_first (userCtx : κ) {res : ResourceDef (σ × List (CtxPtr κ)) (CtxPtr κ)}
    (hres : res ∈ (deviceResources env.recording info.recording).head?) (instId : UInt16) (s : σ) :
    Lost (res.read (recordingDevice env info userCtx) instId (s, [])).2.2 := by
  obtain rfl := Option.some.inj ((head?_deviceResources _ _).symm.trans hres)
  have htype : ResType.string ≠ .none := by decide
  rw [ResourceDef.read_snd htype rfl]
  show Lost (deviceReadDispatch env.recording info.recording _ _ _ .device (s, [])).2.2
  rw [calls_deviceReadDispatch hcb]
  exact lost_append (List.forall_mem_nil _)

/-- **The TLV encoder** calls the custom callback with the block. -/
theorem lost_tlvEncodeInstance (fp : FloatOps) (userCtx : κ) (instId : UInt16)
    (m : Memory.Mem) (buf : ℕ) {bufSize : ℕ} (hsize : 0 < bufSize) (s : σ) :
    Lost (tlvEncodeInstance fp (recordingDevice env info userCtx) instId m buf bufSize
      (s, [])).2.2 := by
  have hress : (recordingDevice env info userCtx).resources = _ :=
    resources_createDeviceObject _ _ _
  rw [tlvEncodeInstance, if_neg hsize.ne', hress]
  exact tlvEncodeLoop_invariant (P := fun s : σ × List (CtxPtr κ) => Lost s.2)
    (fun h => absurd h (deviceResources_ne_nil _ _))
    (fun res hres => lost_read_first hcb userCtx hres instId s)
    (fun res hres s hs => lost_read hcb userCtx hres instId hs) m 0

/-- **The SenML encoder** calls the custom callback with the block. -/
theorem lost_encodeSenmlJsonInstance (fp : FloatOps) (userCtx : κ) (instId : UInt16)
    (m : Memory.Mem) (buf : ℕ) {bufSize : ℕ} (hsize : 2 ≤ bufSize) (s : σ) :
    Lost (encodeSenmlJsonInstance fp (recordingDevice env info userCtx) instId m buf bufSize
      (s, [])).2.2 := by
  have hress : (recordingDevice env info userCtx).resources = _ :=
    resources_createDeviceObject _ _ _
  have hloop : Lost (senmlEncodeLoop fp (recordingDevice env info userCtx) instId buf bufSize
      (recordingDevice env info userCtx).resources (Memory.store m buf (ascii "[")) 1 true
      (s, [])).2.2 := by
    rw [hress]
    exact senmlEncodeLoop_invariant (P := fun s : σ × List (CtxPtr κ) => Lost s.2)
      (fun h => absurd h (deviceResources_ne_nil _ _))
      (fun res hres => lost_read_first hcb userCtx hres instId s)
      (fun res hres s hs => lost_read hcb userCtx hres instId hs) _ 1 true
  rw [encodeSenmlJsonInstance, if_neg (by omega), if_neg (by omega)]
  split
  · next heq => rwa [heq] at hloop
  · next heq =>
    rw [heq] at hloop
    split <;> exact hloop

/-- **A notification** calls the custom callback with the block. -/
theorem lost_notifyApp {ψ : Type} (userCtx : κ)
    {w : World (σ × List (CtxPtr κ)) (CtxPtr κ) ψ} (hstate : w.client.state = .registered)
    (hfind : w.client.objects.find? (fun obj => obj.id = 3) =
      some (recordingDevice env info userCtx))
    {res : ResourceDef (σ × List (CtxPtr κ)) (CtxPtr κ)}
    (hres : res ∈ (recordingDevice env info userCtx).resources) (hread : res.readCb.isSome)
    (instId : UInt16) (s : σ) : Lost (notifyApp w 3 instId res.id (s, [])).2 := by
  have hress : (recordingDevice env info userCtx).resources = _ :=
    resources_createDeviceObject _ _ _
  have hexec : res.id ∉ deviceExecutable := by
    intro hexec
    rw [readCb_deviceResources _ _ res (hress ▸ hres), if_pos hexec] at hread
    cases hread
  -- the first resource of this id is read through the dispatcher as well
  have hsome : ((recordingDevice env info userCtx).resources.find?
      fun r => r.id = res.id).isSome := List.find?_isSome.mpr ⟨res, hres, decide_eq_true rfl⟩
  obtain ⟨res', hres'⟩ := Option.isSome_iff_exists.mp hsome
  have hid : res'.id = res.id := by simpa using List.find?_some hres'
  have hcb' : res'.readCb = some (deviceReadDispatch env.recording info.recording) := by
    rw [readCb_deviceResources _ _ res' (hress ▸ List.mem_of_find?_eq_some hres'),
      if_neg (hid ▸ hexec)]
  have hfrom : readFrom w.client.objects 3 res.id = some (recordingDevice env info userCtx,
      deviceReadDispatch env.recording info.recording) := by
    rw [readFrom, hfind]
    dsimp only
    rw [hres']
    dsimp only
    rw [hcb', Option.map_some]
  rw [notifyApp, if_neg (not_not.mpr hstate), hfrom]
  show Lost (deviceReadDispatch env.recording info.recording _ _ _ .device (s, [])).2.2
  rw [calls_deviceReadDispatch hcb]
  exact lost_append (List.forall_mem_nil _)

end Reads

/-- **The calls a read of the object makes**: by the TLV encoder, by the SenML encoder, or by
the notification of a resource that can be read. -/
inductive DeviceRead (fp : FloatOps) (env : DeviceEnv σ) (info : DeviceInfo σ κ) (userCtx : κ) :
    List (CtxPtr κ) → Prop where
  | tlv (instId : UInt16) (m : Memory.Mem) (buf bufSize : ℕ) (hsize : 0 < bufSize) (s : σ) :
    DeviceRead fp env info userCtx (tlvEncodeInstance fp (recordingDevice env info userCtx)
      instId m buf bufSize (s, [])).2.2
  | senml (instId : UInt16) (m : Memory.Mem) (buf bufSize : ℕ) (hsize : 2 ≤ bufSize) (s : σ) :
    DeviceRead fp env info userCtx (encodeSenmlJsonInstance fp
      (recordingDevice env info userCtx) instId m buf bufSize (s, [])).2.2
  | notify {ψ : Type} (w : World (σ × List (CtxPtr κ)) (CtxPtr κ) ψ)
    (hstate : w.client.state = .registered)
    (hfind : w.client.objects.find? (fun obj => obj.id = 3) =
      some (recordingDevice env info userCtx))
    (res : ResourceDef (σ × List (CtxPtr κ)) (CtxPtr κ))
    (hres : res ∈ (recordingDevice env info userCtx).resources) (hread : res.readCb.isSome)
    (instId : UInt16) (s : σ) :
    DeviceRead fp env info userCtx (notifyApp w 3 instId res.id (s, [])).2

/-- The contexts of the calls are the one given. -/
def Reaches (userCtx : κ) (calls : List (CtxPtr κ)) : Prop := ∀ ctx ∈ calls, ctx = .user userCtx

theorem Lost.not_reaches {userCtx : κ} {calls : List (CtxPtr κ)} (h : Lost calls) :
    ¬Reaches userCtx calls := by
  intro hreaches
  obtain ⟨ctx, hctx⟩ := List.exists_mem_of_ne_nil calls h.ne_nil
  cases (h.eq_device ctx hctx).symm.trans (hreaches ctx hctx)

theorem DeviceRead.lost {fp : FloatOps} {cb : ReadCb σ (CtxPtr κ)} (hcb : info.readCb = some cb)
    {userCtx : κ} {calls : List (CtxPtr κ)} (h : DeviceRead fp env info userCtx calls) :
    Lost calls := by
  rcases h with ⟨instId, m, buf, bufSize, hsize, s⟩ | ⟨instId, m, buf, bufSize, hsize, s⟩ |
    ⟨w, hstate, hfind, res, hres, hread, instId, s⟩
  · exact lost_tlvEncodeInstance hcb fp userCtx instId m buf hsize s
  · exact lost_encodeSenmlJsonInstance hcb fp userCtx instId m buf hsize s
  · exact lost_notifyApp hcb userCtx hstate hfind hres hread instId s

/-- **The context of the application reaches its callback in no read** of the Device object,
while the built-in callback answers whatever the custom one does not know. -/
theorem device_context_lost (fp : FloatOps) (env : DeviceEnv σ) (info : DeviceInfo σ κ)
    (cb : ReadCb σ (CtxPtr κ)) (hcb : info.readCb = some cb) (userCtx : κ) :
    (∀ calls, DeviceRead fp env info userCtx calls → ¬Reaches userCtx calls) ∧
      ∀ objId instId resId s v s', cb objId instId resId .device s = ((.notFound, v), s') →
        deviceReadDispatch env info objId instId resId .device s =
          deviceDefaultReadCb env info objId instId resId .device s' :=
  ⟨fun _ hcalls => (hcalls.lost hcb).not_reaches,
    fun _ _ _ _ _ _ hnone => deviceReadDispatch_notFound hcb hnone⟩

/-- A system with nothing free at the beginning of time. -/
def idleEnv : DeviceEnv Unit where
  freeHeapSize s := (0, s)
  time s := (0, s)

/-- An info with nothing but a custom callback that knows no resource. -/
def callbackInfo : DeviceInfo Unit ℕ where
  manufacturer := none
  modelNumber := none
  serialNumber := none
  binding := none
  firmwareVersion := none
  deviceType := none
  hardwareVersion := none
  softwareVersion := none
  utcOffset := none
  timezone := none
  readCb := some fun _ _ _ _ s => ((.notFound, .none), s)
  factoryResetCb := false
  resetErrorCb := false

theorem device_context_lost_callback :
    (∀ calls, DeviceRead ieee754 idleEnv callbackInfo 7 calls → ¬Reaches 7 calls) ∧
      ∀ objId instId resId s v s',
        ((EspErr.notFound, Value.none), s) = ((.notFound, v), s') →
          deviceReadDispatch idleEnv callbackInfo objId instId resId .device s =
            deviceDefaultReadCb idleEnv callbackInfo objId instId resId .device s' :=
  device_context_lost ieee754 idleEnv callbackInfo (fun _ _ _ _ s => ((.notFound, .none), s))
    rfl 7

/-- The context 7 does not reach the callback. -/
theorem device_context_not_reached :
    ¬∀ calls, DeviceRead ieee754 idleEnv callbackInfo 7 calls → Reaches 7 calls := by
  intro hreaches
  have hsize : 0 < 256 := by decide
  have hread := hreaches _ (.tlv 0 (fun _ => 0) 0 256 hsize ())
  exact (lost_tlvEncodeInstance rfl ieee754 7 0 _ 0 hsize ()).not_reaches hread

end WbLwm2m

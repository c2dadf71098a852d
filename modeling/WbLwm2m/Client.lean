import WbLwm2m.LinkFormat
import Mathlib.Tactic.Simps.Basic

/-!
# The client

The structures and the functions of `wb_lwm2m.c`. A function of the source becomes a
function of the *world*: the client structure, which of its API calls is in progress, and
a log of what the client has called and what has been handed to it, newest entry first.
The log is where the claims about requests, handles, timers and dispatched events are
read off; no function looks at it.

What the CoAP client, the timer service and the memory allocator answer is a parameter of
each function that asks them. `wb_coap_client_init` answers a handle or `NULL`, and
`xTimerCreate` a timer or `NULL`; handles and timers are numbers that are given out once.

`wb_lwm2m_stop` is not one function here but two, before and after its wait, since other
tasks run during the wait. The application's event handler does not call back into the
component.

Texts are the characters of a C string, without the terminator. A field `char[n]` filled
by `snprintf` holds the first `n - 1` of them.
-/

namespace WbLwm2m

open Memory

/-- The characters of a C string. -/
abbrev Text := List UInt8

/-- What `snprintf (dst, size, …)` leaves in a `char[size]`. -/
def printText (size : ℕ) (text : Text) : Text := text.take (size - 1)

/-- `wb_lwm2m_state_t` -/
inductive State where
  | idle
  | connecting
  | registering
  | registered
  | updating
  | deregistering
  | error
deriving DecidableEq, Repr

/-- `wb_lwm2m_event_type_t` -/
inductive EventType where
  | connected
  | disconnected
  | registered
  | regFailed
  | regUpdated
  | deregistered
  | bootstrapDone
  | error
deriving DecidableEq, Repr

/-- The response codes the client tells apart. -/
inductive RespCode where
  /-- `WB_COAP_RESP_CREATED` -/
  | created
  /-- `WB_COAP_RESP_CHANGED` -/
  | changed
  | other (code : UInt8)
deriving DecidableEq, Repr

/-- `wb_coap_response_t`: `request_path` may be `NULL`, `location_path` is an array. -/
structure CoapResponse where
  requestPath : Option Text
  code : RespCode
  locationPath : Text
deriving DecidableEq, Repr

/-- `wb_coap_event_data_t`: the event, and the response of a response event, which may be
`NULL`. An error event does not say to the handler which request it is about; `lost` is
the path of the request the CoAP client has given up, if it is about one. -/
inductive CoapEvent where
  | connected
  | disconnected
  | response (resp : Option CoapResponse)
  | error (lost : Option Text)
deriving DecidableEq, Repr

/-- The content formats of the client's requests; a request without a payload has
format 0. -/
inductive Format where
  | zero
  | linkFormat
  | json
deriving DecidableEq, Repr

/-- `wb_coap_client_config_t`, where `ψ` is the type of the security settings, which the
client hands on unread. -/
structure CoapConfig (ψ : Type) where
  uri : Text
  security : ψ
  taskStackSize : UInt32
  taskPriority : UInt8
deriving DecidableEq

/-- `wb_lwm2m_client_config_t`: pointers that may be `NULL` are options, and of the event
handler it matters only whether there is one. -/
structure ClientConfig (ψ : Type) where
  serverUri : Option Text
  endpointName : Option Text
  lifetime : UInt32
  binding : Option Text
  lwm2mVersion : Option Text
  security : ψ
  eventHandler : Bool
  taskStackSize : UInt32
  taskPriority : UInt8

/-- The API calls the log tells apart. -/
inductive Api where
  | start
  | stop
  | destroy
deriving DecidableEq, Repr

/-- **A log entry**: a call to the CoAP client, to the timer service, to the event
handler or to the allocator, with its answer; an event handed to the client; the
beginning and the end of an API call. -/
inductive Entry (ψ : Type) where
  | coapInit (cfg : CoapConfig ψ) (h : Option ℕ)
  | coapStart (h : ℕ) (err : EspErr)
  | coapStop (h : ℕ)
  | coapDestroy (h : ℕ)
  | coapPost (h : Option ℕ) (path : Text) (payload : Option Text) (format : Format) (err : EspErr)
  | coapDelete (h : Option ℕ) (path : Text) (err : EspErr)
  | delay (ms : ℕ)
  | timerCreate (t : Option ℕ) (intervalMs : UInt32)
  | timerStart (t : ℕ)
  | timerStop (t : ℕ)
  | timerDelete (t : ℕ)
  | dispatch (type : EventType)
  | free
  | handled (event : CoapEvent)
  | called (api : Api)
  | returned (api : Api)
deriving DecidableEq

/-- `struct wb_lwm2m_client` -/
structure Client (σ κ ψ : Type) where
  serverUri : Text
  endpointName : Text
  lifetime : UInt32
  binding : Text
  lwm2mVersion : Text
  security : ψ
  eventHandler : Bool
  taskStackSize : UInt32
  taskPriority : UInt8
  objects : List (ObjectDef σ κ)
  coap : Option ℕ
  state : State
  regLocation : Text
  updateTimer : Option ℕ

theorem Client.withTimer_none {σ κ ψ : Type} {c : Client σ κ ψ} (h : c.updateTimer = none) :
    { c with updateTimer := none } = c := by
  rw [← h]

theorem Client.withCoap_none {σ κ ψ : Type} {c : Client σ κ ψ} (h : c.coap = none) :
    { c with coap := none } = c := by
  rw [← h]

/-- Which call is in progress between two steps: none, a stop that waits (called by
`wb_lwm2m_destroy` or not), or no call is possible any more. -/
inductive Phase where
  | running
  | stopping (inDestroy : Bool)
  | destroyed
deriving DecidableEq, Repr

/-- **The world**: the client, the call in progress, the numbers of the next handle and
the next timer, and the log. -/
structure World (σ κ ψ : Type) where
  client : Client σ κ ψ
  phase : Phase
  nextHandle : ℕ
  nextTimer : ℕ
  log : List (Entry ψ)

variable {σ κ ψ : Type}

/-! ### Initialisation -/

/-- `wb_lwm2m_init`, when memory does not run out -/
def init (config : ClientConfig ψ) : Option (Client σ κ ψ) :=
  match config.serverUri, config.endpointName with
  | some serverUri, some endpointName => some {
      serverUri
      endpointName
      lifetime := if config.lifetime > 0 then config.lifetime else 86400
      binding := printText 8 (config.binding.getD (ascii "U"))
      lwm2mVersion := printText 8 (config.lwm2mVersion.getD (ascii "1.0"))
      security := config.security
      eventHandler := config.eventHandler
      taskStackSize := config.taskStackSize
      taskPriority := config.taskPriority
      objects := []
      coap := none
      state := .idle
      regLocation := []
      updateTimer := none }
  | _, _ => none

/-- The world of a client that has just been made. -/
def World.initial (c : Client σ κ ψ) : World σ κ ψ := ⟨c, .running, 0, 0, []⟩

namespace World

/-! ### The parts of the world -/

/-- Append a log entry. -/
@[simps] def record (w : World σ κ ψ) (e : Entry ψ) : World σ κ ψ := { w with log := e :: w.log }

@[simps] def setState (w : World σ κ ψ) (s : State) : World σ κ ψ :=
  { w with client := { w.client with state := s } }

@[simps] def setLocation (w : World σ κ ψ) (loc : Text) : World σ κ ψ :=
  { w with client := { w.client with regLocation := loc } }

@[simps] def setCoap (w : World σ κ ψ) (h : Option ℕ) : World σ κ ψ :=
  { w with client := { w.client with coap := h } }

@[simps] def setTimer (w : World σ κ ψ) (t : Option ℕ) : World σ κ ψ :=
  { w with client := { w.client with updateTimer := t } }

@[simps] def setPhase (w : World σ κ ψ) (p : Phase) : World σ κ ψ := { w with phase := p }

/-! ### Helpers of the source -/

/-- `dispatch_lwm2m_event` -/
def dispatchEvent (w : World σ κ ψ) (type : EventType) : World σ κ ψ :=
  if w.client.eventHandler then w.record (.dispatch type) else w

section dispatchEvent

variable (w : World σ κ ψ) (type : EventType)

@[simp] theorem dispatchEvent_client : (w.dispatchEvent type).client = w.client := by
  rw [dispatchEvent]
  split <;> rfl

@[simp] theorem dispatchEvent_phase : (w.dispatchEvent type).phase = w.phase := by
  rw [dispatchEvent]
  split <;> rfl

@[simp] theorem dispatchEvent_nextHandle : (w.dispatchEvent type).nextHandle = w.nextHandle := by
  rw [dispatchEvent]
  split <;> rfl

@[simp] theorem dispatchEvent_nextTimer : (w.dispatchEvent type).nextTimer = w.nextTimer := by
  rw [dispatchEvent]
  split <;> rfl

/-- What does not look at dispatched events is not changed by one. -/
theorem apply_dispatchEvent {β : Type} {g : List (Entry ψ) → β}
    (hdispatch : ∀ t log, g (.dispatch t :: log) = g log) :
    g (w.dispatchEvent type).log = g w.log := by
  rw [dispatchEvent]
  split
  · exact hdispatch type w.log
  · rfl

end dispatchEvent

/-- `stop_update_timer` -/
def stopUpdateTimer (w : World σ κ ψ) : World σ κ ψ :=
  match w.client.updateTimer with
  | none => w
  | some t => ((w.record (.timerStop t)).record (.timerDelete t)).setTimer none

section stopUpdateTimer

variable (w : World σ κ ψ)

@[simp] theorem stopUpdateTimer_client :
    w.stopUpdateTimer.client = { w.client with updateTimer := none } := by
  cases h : w.client.updateTimer with
  | none =>
    rw [stopUpdateTimer, h]
    exact (Client.withTimer_none h).symm
  | some t =>
    rw [stopUpdateTimer, h]
    rfl

@[simp] theorem stopUpdateTimer_phase : w.stopUpdateTimer.phase = w.phase := by
  cases h : w.client.updateTimer <;> simp [stopUpdateTimer, h]

@[simp] theorem stopUpdateTimer_nextHandle : w.stopUpdateTimer.nextHandle = w.nextHandle := by
  cases h : w.client.updateTimer <;> simp [stopUpdateTimer, h]

@[simp] theorem stopUpdateTimer_nextTimer : w.stopUpdateTimer.nextTimer = w.nextTimer := by
  cases h : w.client.updateTimer <;> simp [stopUpdateTimer, h]

/-- What does not look at timers is not changed by stopping one. -/
theorem apply_stopUpdateTimer {β : Type} {g : List (Entry ψ) → β}
    (hstop : ∀ t log, g (.timerStop t :: log) = g log)
    (hdelete : ∀ t log, g (.timerDelete t :: log) = g log) :
    g w.stopUpdateTimer.log = g w.log := by
  cases h : w.client.updateTimer with
  | none => rw [stopUpdateTimer, h]
  | some t =>
    rw [stopUpdateTimer, h]
    exact (hdelete t _).trans (hstop t _)

end stopUpdateTimer

/-- The period of the keep-alive timer, in `uint32_t` arithmetic. -/
def updateInterval (lifetime : UInt32) : UInt32 :=
  let intervalMs := lifetime * 800
  if intervalMs < 10000 then 10000 else intervalMs

/-- `start_update_timer`; `created` says whether `xTimerCreate` succeeds. -/
def startUpdateTimer (w : World σ κ ψ) (created : Bool) : World σ κ ψ :=
  let w := w.stopUpdateTimer
  let intervalMs := updateInterval w.client.lifetime
  -- the field takes what `xTimerCreate` answers, `NULL` included
  if created then
    let t := w.nextTimer
    let w := { w with nextTimer := t + 1 }
    ((w.record (.timerCreate (some t) intervalMs)).setTimer (some t)).record (.timerStart t)
  else (w.record (.timerCreate none intervalMs)).setTimer none

section startUpdateTimer

variable (w : World σ κ ψ) (created : Bool)

@[simp] theorem startUpdateTimer_client : (w.startUpdateTimer created).client =
    { w.client with updateTimer := if created then some w.nextTimer else none } := by
  cases created <;> simp [startUpdateTimer, setTimer]

@[simp] theorem startUpdateTimer_phase : (w.startUpdateTimer created).phase = w.phase := by
  cases created <;> simp [startUpdateTimer]

@[simp] theorem startUpdateTimer_nextHandle :
    (w.startUpdateTimer created).nextHandle = w.nextHandle := by
  cases created <;> simp [startUpdateTimer]

/-- What does not look at timers is not changed by starting one. -/
theorem apply_startUpdateTimer {β : Type} {g : List (Entry ψ) → β}
    (hstop : ∀ t log, g (.timerStop t :: log) = g log)
    (hdelete : ∀ t log, g (.timerDelete t :: log) = g log)
    (hcreate : ∀ t ms log, g (.timerCreate t ms :: log) = g log)
    (hstart : ∀ t log, g (.timerStart t :: log) = g log) :
    g (w.startUpdateTimer created).log = g w.log := by
  have hbefore := apply_stopUpdateTimer w hstop hdelete
  cases created with
  | false => exact (hcreate _ _ _).trans hbefore
  | true => exact (hstart _ _).trans ((hcreate _ _ _).trans hbefore)

end startUpdateTimer

/-- The path of the registration request, in its `char[256]`. -/
def regPath (c : Client σ κ ψ) : Text :=
  printText 256 (ascii "/rd?ep=" ++ c.endpointName ++ ascii "&lt=" ++
    Decimal.ofNat c.lifetime.toNat ++ ascii "&b=" ++ c.binding ++ ascii "&lwm2m=" ++
    c.lwm2mVersion)

/-- The payload of the registration request, encoded into a `char[512]`. -/
def linkPayload (objects : List (ObjectDef σ κ)) : Option Text :=
  match encodeLinkFormat objects (fun _ => 0) 0 512 with
  | (_, none) => none
  | (linkBuf, some linkLen) => some (load linkBuf 0 linkLen)

/-- `send_registration`; `postErr` is what `wb_coap_client_post` answers. -/
def sendRegistration (w : World σ κ ψ) (postErr : EspErr) : EspErr × World σ κ ψ :=
  let w := w.setState .registering
  match linkPayload w.client.objects with
  -- no request is made, and no event is dispatched
  | none => (.fail, w.setState .error)
  | some payload =>
    let w := w.record
      (.coapPost w.client.coap (regPath w.client) (some payload) .linkFormat postErr)
    if postErr ≠ .ok then (postErr, w.setState .error) else (.ok, w)

/-! ### The API -/

/-- `wb_lwm2m_add_object` -/
def addObject (w : World σ κ ψ) (obj : ObjectDef σ κ) : EspErr × World σ κ ψ :=
  if 16 ≤ w.client.objects.length then (.noMem, w)
  else if w.client.state ≠ .idle then (.invalidState, w)
  else (.ok, { w with client := { w.client with objects := w.client.objects ++ [obj] } })

/-- `wb_lwm2m_start`; `inited` says whether `wb_coap_client_init` answers a handle, and
`startErr` is what `wb_coap_client_start` answers. -/
def start (w : World σ κ ψ) (inited : Bool) (startErr : EspErr) : EspErr × World σ κ ψ :=
  if w.client.state ≠ .idle then (.invalidState, w)
  else
    let coapCfg : CoapConfig ψ :=
      ⟨w.client.serverUri, w.client.security, w.client.taskStackSize, w.client.taskPriority⟩
    if inited then
      let h := w.nextHandle
      let w := { w with nextHandle := h + 1 }
      -- a handle that is still there is overwritten
      let w := (w.record (.coapInit coapCfg (some h))).setCoap (some h)
      let w := (w.setState .connecting).record (.coapStart h startErr)
      if startErr ≠ .ok then
        (startErr, ((w.record (.coapDestroy h)).setCoap none).setState .idle)
      else (.ok, w)
    else (.fail, (w.record (.coapInit coapCfg none)).setCoap none)

/-- `wb_lwm2m_update_registration` -/
def updateRegistration (w : World σ κ ψ) (postErr : EspErr) : EspErr × World σ κ ψ :=
  if w.client.state ≠ .registered then (.invalidState, w)
  else if w.client.regLocation = [] then (.invalidState, w)
  else
    let w := w.setState .updating
    let w := w.record (.coapPost w.client.coap w.client.regLocation none .zero postErr)
    (postErr, if postErr ≠ .ok then w.setState .registered else w)

/-- `wb_lwm2m_stop` up to its wait, and whether it waits. -/
def stopBegin (w : World σ κ ψ) (deleteErr : EspErr) : World σ κ ψ × Bool :=
  let w := w.stopUpdateTimer
  -- a client that is updating has a location too, and is not asked about
  if w.client.state = .registered ∧ w.client.regLocation ≠ [] then
    let w := w.setState .deregistering
    let w := w.record (.coapDelete w.client.coap w.client.regLocation deleteErr)
    (w.record (.delay 500), true)
  else (w, false)

/-- `wb_lwm2m_stop` from the end of its wait on -/
def stopEnd (w : World σ κ ψ) : World σ κ ψ :=
  -- the handle is stopped and kept
  let w := match w.client.coap with
    | some h => w.record (.coapStop h)
    | none => w
  ((w.setState .idle).setLocation []).dispatchEvent .deregistered

section stopEnd

variable (w : World σ κ ψ)

@[simp] theorem stopEnd_client :
    w.stopEnd.client = { w.client with state := .idle, regLocation := [] } := by
  cases h : w.client.coap <;> simp [stopEnd, h, setState, setLocation]

@[simp] theorem stopEnd_phase : w.stopEnd.phase = w.phase := by
  cases h : w.client.coap <;> simp [stopEnd, h]

@[simp] theorem stopEnd_nextHandle : w.stopEnd.nextHandle = w.nextHandle := by
  cases h : w.client.coap <;> simp [stopEnd, h]

/-- What does not look at stopped handles or dispatched events is not changed by the end
of a stop. -/
theorem apply_stopEnd {β : Type} {g : List (Entry ψ) → β}
    (hstop : ∀ h log, g (.coapStop h :: log) = g log)
    (hdispatch : ∀ t log, g (.dispatch t :: log) = g log) : g w.stopEnd.log = g w.log := by
  rw [stopEnd, apply_dispatchEvent _ _ hdispatch]
  cases w.client.coap with
  | none => rfl
  | some h => exact hstop h _

end stopEnd

/-- The part of `wb_lwm2m_destroy` that releases the CoAP handle. -/
def releaseCoap (w : World σ κ ψ) : World σ κ ψ :=
  match w.client.coap with
  | some h => (w.record (.coapDestroy h)).setCoap none
  | none => w

/-- The part of `wb_lwm2m_destroy` that releases the keep-alive timer. -/
def releaseTimer (w : World σ κ ψ) : World σ κ ψ :=
  match w.client.updateTimer with
  | some t => (w.record (.timerDelete t)).setTimer none
  | none => w

/-- `wb_lwm2m_destroy` behind the call of `wb_lwm2m_stop` -/
def destroyEnd (w : World σ κ ψ) : World σ κ ψ := w.releaseCoap.releaseTimer.record .free

section destroyEnd

variable (w : World σ κ ψ)

@[simp] theorem releaseCoap_client : w.releaseCoap.client = { w.client with coap := none } := by
  cases h : w.client.coap with
  | none =>
    rw [releaseCoap, h]
    exact (Client.withCoap_none h).symm
  | some t =>
    rw [releaseCoap, h]
    rfl

@[simp] theorem releaseTimer_client :
    w.releaseTimer.client = { w.client with updateTimer := none } := by
  cases h : w.client.updateTimer with
  | none =>
    rw [releaseTimer, h]
    exact (Client.withTimer_none h).symm
  | some t =>
    rw [releaseTimer, h]
    rfl

@[simp] theorem releaseCoap_nextHandle : w.releaseCoap.nextHandle = w.nextHandle := by
  rw [releaseCoap]
  split <;> rfl

@[simp] theorem releaseTimer_nextHandle : w.releaseTimer.nextHandle = w.nextHandle := by
  rw [releaseTimer]
  split <;> rfl

@[simp] theorem destroyEnd_client :
    w.destroyEnd.client = { w.client with coap := none, updateTimer := none } := by
  simp [destroyEnd]

@[simp] theorem destroyEnd_nextHandle : w.destroyEnd.nextHandle = w.nextHandle := by
  simp [destroyEnd]

/-- What does not look at handles is not changed by releasing one. -/
theorem apply_releaseCoap {β : Type} {g : List (Entry ψ) → β}
    (hdestroy : ∀ h log, g (.coapDestroy h :: log) = g log) :
    g w.releaseCoap.log = g w.log := by
  cases h : w.client.coap with
  | none => rw [releaseCoap, h]
  | some h' =>
    rw [releaseCoap, h]
    exact hdestroy h' _

/-- What does not look at timers is not changed by releasing one. -/
theorem apply_releaseTimer {β : Type} {g : List (Entry ψ) → β}
    (hdelete : ∀ t log, g (.timerDelete t :: log) = g log) :
    g w.releaseTimer.log = g w.log := by
  cases h : w.client.updateTimer with
  | none => rw [releaseTimer, h]
  | some t =>
    rw [releaseTimer, h]
    exact hdelete t _

end destroyEnd

/-- The path of a notification, in its `char[32]`. -/
def notifyPath (objId instId resId : UInt16) : Text :=
  printText 32 (ascii "/" ++ fmtU16 objId ++ ascii "/" ++ fmtU16 instId ++ ascii "/" ++
    fmtU16 resId)

/-- The payload of a notification, encoded into a `char[256]`. -/
def senmlPayload (fp : FloatOps) (objId instId resId : UInt16) (value : Value) : Option Text :=
  match encodeSenmlJson fp objId instId resId value (fun _ => 0) 0 256 with
  | (_, none) => none
  | (buf, some len) => some (load buf 0 len)

/-- `wb_lwm2m_notify`; `app` is the state of the application when its callback runs. -/
def notify (fp : FloatOps) (w : World σ κ ψ) (objId instId resId : UInt16) (app : σ)
    (postErr : EspErr) : EspErr × World σ κ ψ :=
  if w.client.state ≠ .registered then (.invalidState, w)
  else match w.client.objects.find? fun obj => obj.id = objId with
    | none => (.notFound, w)
    | some obj => match obj.resources.find? fun res => res.id = resId with
      | none => (.notFound, w)
      | some res => match res.readCb with
        | none => (.notFound, w)
        | some readCb => match readCb objId instId resId obj.userCtx app with
          | ((.ok, value), _) => match senmlPayload fp objId instId resId value with
            | none => (.fail, w)
            | some payload =>
              (postErr, w.record (.coapPost w.client.coap (notifyPath objId instId resId)
                (some payload) .json postErr))
          | ((err, _), _) => (err, w)

/-! ### The event handler and the timer callback -/

/-- The location a registration is answered with, in its `char[128]`: without a
Location-Path, the endpoint name stands in. -/
def newLocation (w : World σ κ ψ) (locationPath : Text) : Text :=
  if locationPath ≠ [] then printText 128 locationPath
  else printText 128 (ascii "/rd/" ++ w.client.endpointName)

/-- The response branch of `coap_event_handler`. -/
def handleResponse (w : World σ κ ψ) (resp : CoapResponse) (postErr : EspErr)
    (timerCreated : Bool) : World σ κ ψ :=
  if w.client.state = .registering ∧ resp.requestPath = some (ascii "/rd") then
    if resp.code = .created then
      let w := w.setLocation (w.newLocation resp.locationPath)
      ((w.setState .registered).startUpdateTimer timerCreated).dispatchEvent .registered
    else (w.setState .error).dispatchEvent .regFailed
  -- from here on the path of the response is not looked at
  else if w.client.state = .updating then
    if resp.code = .changed then (w.setState .registered).dispatchEvent .regUpdated
    else (((w.setState .registering).setLocation []).sendRegistration postErr).2
  else if w.client.state = .deregistering then
    ((w.setState .idle).setLocation []).dispatchEvent .deregistered
  else w

/-- `coap_event_handler` -/
def coapEventHandler (w : World σ κ ψ) (event : CoapEvent) (postErr : EspErr)
    (timerCreated : Bool) : World σ κ ψ :=
  match event with
  -- the first two branches do not look at the state
  | .connected => ((w.dispatchEvent .connected).sendRegistration postErr).2
  | .disconnected =>
    ((w.stopUpdateTimer.setState .error).setLocation []).dispatchEvent .disconnected
  | .response none => w
  | .response (some resp) => w.handleResponse resp postErr timerCreated
  | .error _ =>
    if w.client.state = .registering then (w.setState .error).dispatchEvent .regFailed
    else w.dispatchEvent .error

/-- `update_timer_cb` -/
def updateTimerCb (w : World σ κ ψ) (postErr : EspErr) : World σ κ ψ :=
  if w.client.state = .registered then (w.updateRegistration postErr).2 else w

end World

end WbLwm2m

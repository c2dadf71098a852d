import WbLwm2m.Client
import WbLwm2m.Lib.Transition

/-!
# Steps

What can happen to a client, one step at a time (`WbLwm2m.step`): an API call, a firing
of the keep-alive timer, an event of the CoAP client. Each step is atomic, except that
`wb_lwm2m_stop`, called by the application or by `wb_lwm2m_destroy`, takes two steps when
it waits: other steps may come in between, but no further start, stop or destroy.

The environment's answers are part of the action. Events come from a CoAP client that has
been made and not yet destroyed, whether it is running or not, and a timer fires while it
is not deleted; beyond that every order of events, and any response, is possible.

Proofs about steps do not unfold the code: `WbLwm2m.Effect` lists what a step can do,
with the conditions under which it does it, and `WbLwm2m.effect_of_step` says that there is
nothing else.
-/

namespace WbLwm2m

variable {σ κ ψ : Type}

/-- **The actions**, with the answers of the environment. -/
inductive Action (σ κ : Type) where
  | addObject (obj : ObjectDef σ κ)
  | start (inited : Bool) (startErr : EspErr)
  | updateRegistration (postErr : EspErr)
  | stop (deleteErr : EspErr)
  | destroy (deleteErr : EspErr)
  /-- The wait of a stop is over. -/
  | resume
  | notify (objId instId resId : UInt16) (app : σ) (postErr : EspErr)
  | timer (t : ℕ) (postErr : EspErr)
  | event (event : CoapEvent) (postErr : EspErr) (timerCreated : Bool)

/-- The actions that send an update. -/
def Action.Updating : Action σ κ → Prop
  | .updateRegistration _ => True
  | .timer _ _ => True
  | _ => False

/-- The calls that stop a client. -/
def Action.Stopping : Action σ κ → Prop
  | .stop _ => True
  | .destroy _ => True
  | _ => False

/-! ### Handles and timers of the log -/

/-- What a log entry is about. -/
inductive Topic where
  | handle
  | coap
  | request
  | wait
  | timer
  | dispatch
  | memory
  | event
  | api
deriving DecidableEq, Repr

/-- The topic of an entry. -/
@[reducible, simp] def Entry.topic : Entry ψ → Topic
  | .coapInit _ _ => .handle
  | .coapDestroy _ => .handle
  | .coapStart _ _ => .coap
  | .coapStop _ => .coap
  | .coapPost _ _ _ _ _ => .request
  | .coapDelete _ _ _ => .request
  | .delay _ => .wait
  | .timerCreate _ _ => .timer
  | .timerStart _ => .timer
  | .timerStop _ => .timer
  | .timerDelete _ => .timer
  | .dispatch _ => .dispatch
  | .free => .memory
  | .handled _ => .event
  | .called _ => .api
  | .returned _ => .api

/-- The CoAP handles that have been obtained and not yet destroyed. -/
def liveHandles : List (Entry ψ) → List ℕ
  | [] => []
  | .coapInit _ (some h) :: log => h :: liveHandles log
  | .coapDestroy h :: log => (liveHandles log).erase h
  | _ :: log => liveHandles log

/-- The timers that have been obtained and not yet deleted. -/
def liveTimers : List (Entry ψ) → List ℕ
  | [] => []
  | .timerCreate (some t) _ :: log => t :: liveTimers log
  | .timerDelete t :: log => (liveTimers log).erase t
  | _ :: log => liveTimers log

namespace World

/-- The second half of a stop, by itself or as part of a destroy. -/
def finishStop (w : World σ κ ψ) : World σ κ ψ :=
  (w.stopEnd.setPhase .running).record (.returned .stop)

/-- The rest of a destroy, when nothing is left to stop. -/
def finishDestroy (w : World σ κ ψ) : World σ κ ψ :=
  (w.destroyEnd.setPhase .destroyed).record (.returned .destroy)

section Finish

variable (w : World σ κ ψ)

@[simp] theorem finishStop_client :
    w.finishStop.client = { w.client with state := .idle, regLocation := [] } :=
  stopEnd_client w

@[simp] theorem finishStop_phase : w.finishStop.phase = .running := rfl

@[simp] theorem finishStop_log : w.finishStop.log = .returned .stop :: w.stopEnd.log := rfl

@[simp] theorem finishStop_nextHandle : w.finishStop.nextHandle = w.nextHandle :=
  stopEnd_nextHandle w

@[simp] theorem finishDestroy_client :
    w.finishDestroy.client = { w.client with coap := none, updateTimer := none } :=
  destroyEnd_client w

@[simp] theorem finishDestroy_phase : w.finishDestroy.phase = .destroyed := rfl

@[simp] theorem finishDestroy_log :
    w.finishDestroy.log = .returned .destroy :: w.destroyEnd.log := rfl

@[simp] theorem finishDestroy_nextHandle : w.finishDestroy.nextHandle = w.nextHandle :=
  destroyEnd_nextHandle w

end Finish

end World

open World

/-- **A step**, where the action is enabled. -/
def step (fp : FloatOps) (w : World σ κ ψ) : Action σ κ → Option (World σ κ ψ)
  | .addObject obj => if w.phase = .destroyed then none else some (w.addObject obj).2
  | .start inited startErr =>
    if w.phase = .running then
      some (((w.record (.called .start)).start inited startErr).2.record (.returned .start))
    else none
  | .updateRegistration postErr =>
    if w.phase = .destroyed then none else some (w.updateRegistration postErr).2
  | .stop deleteErr =>
    if w.phase = .running then match (w.record (.called .stop)).stopBegin deleteErr with
      | (w, true) => some (w.setPhase (.stopping false))
      | (w, false) => some w.finishStop
    else none
  | .destroy deleteErr =>
    if w.phase = .running then
      let w := w.record (.called .destroy)
      -- a client that is not idle is stopped first
      if w.client.state ≠ .idle then match w.stopBegin deleteErr with
        | (w, true) => some (w.setPhase (.stopping true))
        | (w, false) => some w.stopEnd.finishDestroy
      else some w.finishDestroy
    else none
  | .resume => match w.phase with
    | .stopping false => some w.finishStop
    | .stopping true => some w.stopEnd.finishDestroy
    | _ => none
  | .notify objId instId resId app postErr =>
    if w.phase = .destroyed then none else some (w.notify fp objId instId resId app postErr).2
  | .timer t postErr =>
    if w.phase = .destroyed ∨ t ∉ liveTimers w.log then none else some (w.updateTimerCb postErr)
  | .event event postErr timerCreated =>
    if w.phase = .destroyed ∨ liveHandles w.log = [] then none
    else some ((w.record (.handled event)).coapEventHandler event postErr timerCreated)

/-- Nothing happens to a client that has been destroyed. -/
theorem phase_of_step {fp : FloatOps} {w w' : World σ κ ψ} {a : Action σ κ}
    (h : step fp w a = some w') : w.phase ≠ .destroyed := by
  intro hphase
  cases a <;> simp [step, hphase] at h

/-! ### What a step can do -/

/-- What `send_registration` can do: the post is made, and its answer decides the state,
or the payload does not fit. -/
inductive Registers (w : World σ κ ψ) (err : EspErr) : World σ κ ψ → Prop
  | posted (payload : Text) (hpayload : linkPayload w.client.objects = some payload) :
    Registers w err ((w.record
      (.coapPost w.client.coap (regPath w.client) (some payload) .linkFormat err)).setState
        (if err = .ok then .registering else .error))
  | noPayload (hpayload : linkPayload w.client.objects = none) :
    Registers w err (w.setState .error)

namespace Registers

variable {w w' : World σ κ ψ} {err : EspErr} (h : Registers w err w')
include h

theorem state_eq : w'.client.state = .registering ∨ w'.client.state = .error := by
  cases h with
  | posted payload hpayload =>
    by_cases herr : err = .ok
    · exact Or.inl (by simp [herr])
    · exact Or.inr (by simp [herr])
  | noPayload => exact Or.inr rfl

theorem state_ne {s : State} (hreg : s ≠ .registering := by decide)
    (herr : s ≠ .error := by decide) : w'.client.state ≠ s := by
  rintro rfl
  rcases h.state_eq with hs | hs
  · exact hreg hs
  · exact herr hs

theorem client_eq : w'.client = { w.client with state := w'.client.state } := by
  cases h <;> rfl

theorem phase_eq : w'.phase = w.phase := by
  cases h <;> rfl

theorem nextHandle_eq : w'.nextHandle = w.nextHandle := by
  cases h <;> rfl

/-- What does not look at requests with a payload is not changed by a registration. -/
theorem apply_eq {β : Type} {g : List (Entry ψ) → β}
    (hpost : ∀ h path p f e log, g (.coapPost h path (some p) f e :: log) = g log) :
    g w'.log = g w.log := by
  cases h with
  | posted payload hpayload => exact hpost _ _ _ _ _ _
  | noPayload => rfl

end Registers

/-- **What a step can do.** -/
inductive Effect (w : World σ κ ψ) : Action σ κ → World σ κ ψ → Prop
  | addRefused {obj : ObjectDef σ κ} : Effect w (.addObject obj) w
  | added {obj : ObjectDef σ κ} (hstate : w.client.state = .idle) :
    Effect w (.addObject obj)
      { w with client := { w.client with objects := w.client.objects ++ [obj] } }
  | startRefused {inited : Bool} {err : EspErr} (hphase : w.phase = .running)
      (hstate : w.client.state ≠ .idle) :
    Effect w (.start inited err) ((w.record (.called .start)).record (.returned .start))
  | startNoHandle {err : EspErr} (cfg : CoapConfig ψ) (hphase : w.phase = .running)
      (hstate : w.client.state = .idle) :
    Effect w (.start false err)
      ((((w.record (.called .start)).record (.coapInit cfg none)).setCoap none).record
        (.returned .start))
  | startFailed {err : EspErr} (cfg : CoapConfig ψ) (hphase : w.phase = .running)
      (hstate : w.client.state = .idle) (herr : err ≠ .ok) :
    Effect w (.start true err)
      ((((((({ w with nextHandle := w.nextHandle + 1 }.record (.called .start)).record
        (.coapInit cfg (some w.nextHandle))).record (.coapStart w.nextHandle err)).record
          (.coapDestroy w.nextHandle)).setCoap none).setState .idle).record (.returned .start))
  | started (cfg : CoapConfig ψ) (hphase : w.phase = .running) (hstate : w.client.state = .idle) :
    Effect w (.start true .ok)
      (((((({ w with nextHandle := w.nextHandle + 1 }.record (.called .start)).record
        (.coapInit cfg (some w.nextHandle))).record (.coapStart w.nextHandle .ok)).setCoap
          (some w.nextHandle)).setState .connecting).record (.returned .start))
  /-- An update that is refused, by a call or by the timer. -/
  | updateRefused {a : Action σ κ} {err : EspErr}
      (ha : a = .updateRegistration err ∨ ∃ t ∈ liveTimers w.log, a = .timer t err)
      (hstate : w.client.state ≠ .registered ∨ w.client.regLocation = []) : Effect w a w
  /-- An update: the answer to its post decides the state. -/
  | updateSent {a : Action σ κ} {err : EspErr}
      (ha : a = .updateRegistration err ∨ ∃ t ∈ liveTimers w.log, a = .timer t err)
      (hstate : w.client.state = .registered) (hloc : w.client.regLocation ≠ []) :
    Effect w a ((w.record
      (.coapPost w.client.coap w.client.regLocation none .zero err)).setState
        (if err = .ok then .updating else .registered))
  | notifyRefused {objId instId resId : UInt16} {app : σ} {err : EspErr} :
    Effect w (.notify objId instId resId app err) w
  | notified {objId instId resId : UInt16} {app : σ} {err : EspErr} (payload : Text)
      (hstate : w.client.state = .registered) :
    Effect w (.notify objId instId resId app err)
      (w.record (.coapPost w.client.coap (notifyPath objId instId resId) (some payload) .json err))
  /-- A stop that waits, with the deregistration it waits for. -/
  | stopWaits {a : Action σ κ} {err : EspErr} (api : Api) (inDestroy : Bool)
      (ha : a = .stop err ∧ api = .stop ∧ inDestroy = false ∨
        a = .destroy err ∧ api = .destroy ∧ inDestroy = true)
      (hphase : w.phase = .running) (hstate : w.client.state = .registered)
      (hloc : w.client.regLocation ≠ []) :
    Effect w a ((((((w.record (.called api)).stopUpdateTimer).setState .deregistering).record
      (.coapDelete w.client.coap w.client.regLocation err)).record (.delay 500)).setPhase
        (.stopping inDestroy))
  | stopped {err : EspErr} (hphase : w.phase = .running)
      (hstate : ¬(w.client.state = .registered ∧ w.client.regLocation ≠ [])) :
    Effect w (.stop err) (w.record (.called .stop)).stopUpdateTimer.finishStop
  | destroyedStopped {err : EspErr} (hphase : w.phase = .running) (hidle : w.client.state ≠ .idle)
      (hstate : ¬(w.client.state = .registered ∧ w.client.regLocation ≠ [])) :
    Effect w (.destroy err)
      (w.record (.called .destroy)).stopUpdateTimer.stopEnd.finishDestroy
  | destroyed {err : EspErr} (hphase : w.phase = .running) (hstate : w.client.state = .idle) :
    Effect w (.destroy err) (w.record (.called .destroy)).finishDestroy
  | stopResumed (hphase : w.phase = .stopping false) : Effect w .resume w.finishStop
  | destroyResumed (hphase : w.phase = .stopping true) :
    Effect w .resume w.stopEnd.finishDestroy
  | connected {w' : World σ κ ψ} {err : EspErr} {created : Bool}
      (hw' : Registers ((w.record (.handled .connected)).dispatchEvent .connected) err w') :
    Effect w (.event .connected err created) w'
  | disconnected {err : EspErr} {created : Bool} :
    Effect w (.event .disconnected err created)
      ((((w.record (.handled .disconnected)).stopUpdateTimer.setState .error).setLocation
        []).dispatchEvent .disconnected)
  | noResponse {err : EspErr} {created : Bool} :
    Effect w (.event (.response none) err created) (w.record (.handled (.response none)))
  /-- A response in a state that does not expect it. -/
  | ignored {resp : CoapResponse} {err : EspErr} {created : Bool}
      (hreg : ¬(w.client.state = .registering ∧ resp.requestPath = some (ascii "/rd")))
      (hupd : w.client.state ≠ .updating) (hdereg : w.client.state ≠ .deregistering) :
    Effect w (.event (.response (some resp)) err created)
      (w.record (.handled (.response (some resp))))
  | registered {resp : CoapResponse} {err : EspErr} {created : Bool}
      (hstate : w.client.state = .registering) (hpath : resp.requestPath = some (ascii "/rd"))
      (hcode : resp.code = .created) :
    Effect w (.event (.response (some resp)) err created)
      ((((w.record (.handled (.response (some resp)))).setLocation
        (w.newLocation resp.locationPath)).setState .registered).startUpdateTimer
          created |>.dispatchEvent .registered)
  | rejected {resp : CoapResponse} {err : EspErr} {created : Bool}
      (hstate : w.client.state = .registering) (hpath : resp.requestPath = some (ascii "/rd"))
      (hcode : resp.code ≠ .created) :
    Effect w (.event (.response (some resp)) err created)
      (((w.record (.handled (.response (some resp)))).setState .error).dispatchEvent .regFailed)
  | updated {resp : CoapResponse} {err : EspErr} {created : Bool}
      (hstate : w.client.state = .updating) (hcode : resp.code = .changed) :
    Effect w (.event (.response (some resp)) err created)
      (((w.record (.handled (.response (some resp)))).setState .registered).dispatchEvent
        .regUpdated)
  | updateRejected {w' : World σ κ ψ} {resp : CoapResponse} {err : EspErr} {created : Bool}
      (hstate : w.client.state = .updating) (hcode : resp.code ≠ .changed)
      (hw' : Registers ((w.record (.handled (.response (some resp)))).setLocation []) err w') :
    Effect w (.event (.response (some resp)) err created) w'
  | deregistered {resp : CoapResponse} {err : EspErr} {created : Bool}
      (hstate : w.client.state = .deregistering) :
    Effect w (.event (.response (some resp)) err created)
      ((((w.record (.handled (.response (some resp)))).setState .idle).setLocation
        []).dispatchEvent .deregistered)
  | failed {lost : Option Text} {err : EspErr} {created : Bool}
      (hstate : w.client.state = .registering) :
    Effect w (.event (.error lost) err created)
      (((w.record (.handled (.error lost))).setState .error).dispatchEvent .regFailed)
  | reported {lost : Option Text} {err : EspErr} {created : Bool}
      (hstate : w.client.state ≠ .registering) :
    Effect w (.event (.error lost) err created)
      ((w.record (.handled (.error lost))).dispatchEvent .error)

theorem updating_of_call {w : World σ κ ψ} {a : Action σ κ} {err : EspErr}
    (ha : a = .updateRegistration err ∨ ∃ t ∈ liveTimers w.log, a = .timer t err) :
    a.Updating := by
  rcases ha with rfl | ⟨t, -, rfl⟩
  · exact trivial
  · exact trivial

theorem stopping_of_call {a : Action σ κ} {err : EspErr} {api : Api} {inDestroy : Bool}
    (ha : a = .stop err ∧ api = .stop ∧ inDestroy = false ∨
      a = .destroy err ∧ api = .destroy ∧ inDestroy = true) : a.Stopping := by
  rcases ha with ⟨rfl, -⟩ | ⟨rfl, -⟩
  · exact trivial
  · exact trivial

theorem Action.Updating.not_stopping {a : Action σ κ} (h : a.Updating) : ¬a.Stopping := by
  intro hstop
  cases a with
  | updateRegistration | timer => exact hstop
  | _ => exact h

/-! ### There is nothing else -/

theorem registers_sendRegistration (w : World σ κ ψ) (err : EspErr) :
    Registers w err (w.sendRegistration err).2 := by
  cases hpayload : linkPayload w.client.objects with
  | none =>
    have h : (w.sendRegistration err).2 = w.setState .error := by
      simp only [sendRegistration, setState, hpayload]
    rw [h]
    exact Registers.noPayload hpayload
  | some payload =>
    have h : (w.sendRegistration err).2 = (w.record (.coapPost w.client.coap
        (regPath w.client) (some payload) .linkFormat err)).setState
          (if err = .ok then .registering else .error) := by
      simp only [sendRegistration, setState, record, regPath, hpayload]
      by_cases herr : err = .ok
      · simp [herr]
      · simp [herr]
    rw [h]
    exact Registers.posted payload hpayload

theorem effect_start {w : World σ κ ψ} (hphase : w.phase = .running) (inited : Bool)
    (err : EspErr) :
    Effect w (.start inited err : Action σ κ)
      (((w.record (.called .start)).start inited err).2.record (.returned .start)) := by
  by_cases hstate : w.client.state = .idle
  · cases inited with
    | false =>
      have h : ((w.record (.called .start)).start false err).2 =
          ((w.record (.called .start)).record (.coapInit ⟨w.client.serverUri, w.client.security,
            w.client.taskStackSize, w.client.taskPriority⟩ none)).setCoap none := by
        simp [start, record, hstate]
      rw [h]
      exact Effect.startNoHandle _ hphase hstate
    | true =>
      by_cases herr : err = .ok
      · subst herr
        have h : ((w.record (.called .start)).start true .ok).2 =
            ((((({ w with nextHandle := w.nextHandle + 1 }.record (.called .start)).record
              (.coapInit ⟨w.client.serverUri, w.client.security, w.client.taskStackSize,
                w.client.taskPriority⟩ (some w.nextHandle))).record
                  (.coapStart w.nextHandle .ok)).setCoap
                    (some w.nextHandle)).setState .connecting) := by
          simp [start, record, setCoap, setState, hstate]
        rw [h]
        exact Effect.started _ hphase hstate
      · have h : ((w.record (.called .start)).start true err).2 =
            (((((({ w with nextHandle := w.nextHandle + 1 }.record (.called .start)).record
              (.coapInit ⟨w.client.serverUri, w.client.security, w.client.taskStackSize,
                w.client.taskPriority⟩ (some w.nextHandle))).record
                  (.coapStart w.nextHandle err)).record (.coapDestroy w.nextHandle)).setCoap
                    none).setState .idle) := by
          simp [start, record, setCoap, setState, hstate, herr]
        rw [h]
        exact Effect.startFailed _ hphase hstate herr
  · have h : ((w.record (.called .start)).start inited err).2 = w.record (.called .start) := by
      simp [start, record, hstate]
    rw [h]
    exact Effect.startRefused hphase hstate

theorem effect_update {w : World σ κ ψ} {a : Action σ κ} {err : EspErr}
    (ha : a = .updateRegistration err ∨ ∃ t ∈ liveTimers w.log, a = .timer t err) :
    Effect w a (w.updateRegistration err).2 := by
  by_cases hok : w.client.state = .registered ∧ w.client.regLocation ≠ []
  · obtain ⟨hstate, hloc⟩ := hok
    have h : (w.updateRegistration err).2 = (w.record
        (.coapPost w.client.coap w.client.regLocation none .zero err)).setState
          (if err = .ok then .updating else .registered) := by
      by_cases herr : err = .ok
      · simp [updateRegistration, record, setState, hstate, hloc, herr]
      · simp [updateRegistration, record, setState, hstate, hloc, herr]
    rw [h]
    exact Effect.updateSent ha hstate hloc
  · have hrefused : w.client.state ≠ .registered ∨ w.client.regLocation = [] := by
      rcases not_and_or.mp hok with h | h
      · exact Or.inl h
      · exact Or.inr (not_not.mp h)
    have h : (w.updateRegistration err).2 = w := by
      rcases hrefused with h | h
      · simp [updateRegistration, h]
      · by_cases hstate : w.client.state = .registered
        · simp [updateRegistration, h, hstate]
        · simp [updateRegistration, hstate]
    rw [h]
    exact Effect.updateRefused ha hrefused

theorem effect_notify (fp : FloatOps) (w : World σ κ ψ) (objId instId resId : UInt16) (app : σ)
    (err : EspErr) :
    Effect w (.notify objId instId resId app err)
      (w.notify fp objId instId resId app err).2 := by
  rw [notify]
  by_cases hstate : w.client.state = .registered
  · rw [if_neg (not_not.mpr hstate)]
    split
    · exact Effect.notifyRefused
    · split
      · exact Effect.notifyRefused
      · split
        · exact Effect.notifyRefused
        · split
          · split
            · exact Effect.notifyRefused
            · exact Effect.notified _ hstate
          · exact Effect.notifyRefused
  · rw [if_pos hstate]
    exact Effect.notifyRefused

/-- What the first half of a stop does. -/
theorem stopBegin_of_registered {w : World σ κ ψ} (hstate : w.client.state = .registered)
    (hloc : w.client.regLocation ≠ []) (err : EspErr) :
    w.stopBegin err = (((w.stopUpdateTimer.setState .deregistering).record
      (.coapDelete w.client.coap w.client.regLocation err)).record (.delay 500), true) := by
  cases htimer : w.client.updateTimer with
  | none => simp [stopBegin, stopUpdateTimer, htimer, setState, record, hstate, hloc]
  | some t => simp [stopBegin, stopUpdateTimer, htimer, setState, setTimer, record, hstate, hloc]

theorem stopBegin_of_not_registered {w : World σ κ ψ}
    (h : ¬(w.client.state = .registered ∧ w.client.regLocation ≠ [])) (err : EspErr) :
    w.stopBegin err = (w.stopUpdateTimer, false) := by
  cases htimer : w.client.updateTimer with
  | none => simp [stopBegin, stopUpdateTimer, htimer, h]
  | some t => simp [stopBegin, stopUpdateTimer, htimer, setTimer, record, h]

theorem effect_response (w : World σ κ ψ) (resp : CoapResponse) (err : EspErr) (created : Bool) :
    Effect w (.event (.response (some resp)) err created : Action σ κ)
      ((w.record (.handled (.response (some resp)))).handleResponse resp err created) := by
  rw [handleResponse]
  split
  · next hreg =>
    split
    · next hcode => exact Effect.registered hreg.1 hreg.2 hcode
    · next hcode => exact Effect.rejected hreg.1 hreg.2 hcode
  · next hreg =>
    split
    · next hupd =>
      split
      · next hcode => exact Effect.updated hupd hcode
      · next hcode => exact Effect.updateRejected hupd hcode (registers_sendRegistration _ err)
    · next hupd =>
      split
      · next hdereg => exact Effect.deregistered hdereg
      · next hdereg => exact Effect.ignored hreg hupd hdereg

theorem effect_event (w : World σ κ ψ) (event : CoapEvent) (err : EspErr) (created : Bool) :
    Effect w (.event event err created : Action σ κ)
      ((w.record (.handled event)).coapEventHandler event err created) := by
  cases event with
  | connected => exact Effect.connected (registers_sendRegistration _ err)
  | disconnected => exact Effect.disconnected
  | response resp => cases resp with
    | none => exact Effect.noResponse
    | some resp => exact effect_response w resp err created
  | error lost =>
    rw [coapEventHandler]
    split
    · next hstate => exact Effect.failed hstate
    · next hstate => exact Effect.reported hstate

/-- **A step has one of the listed effects.** -/
theorem effect_of_step {fp : FloatOps} {w w' : World σ κ ψ} {a : Action σ κ}
    (h : step fp w a = some w') : Effect w a w' := by
  cases a with
  | addObject obj =>
    obtain ⟨-, h⟩ := Option.ite_none_left_eq_some.mp h
    obtain rfl := Option.some.inj h
    rw [addObject]
    split
    · exact Effect.addRefused
    · split
      · exact Effect.addRefused
      · next hstate => exact Effect.added (not_not.mp hstate)
  | start inited err =>
    obtain ⟨hphase, h⟩ := Option.ite_none_right_eq_some.mp h
    obtain rfl := Option.some.inj h
    exact effect_start hphase inited err
  | updateRegistration err =>
    obtain ⟨-, h⟩ := Option.ite_none_left_eq_some.mp h
    obtain rfl := Option.some.inj h
    exact effect_update (Or.inl rfl)
  | stop err =>
    obtain ⟨hphase, h⟩ := Option.ite_none_right_eq_some.mp h
    by_cases hreg : w.client.state = .registered ∧ w.client.regLocation ≠ []
    · have hbegin := stopBegin_of_registered (w := w.record (.called .stop)) hreg.1 hreg.2 err
      rw [hbegin] at h
      obtain rfl := Option.some.inj h
      exact Effect.stopWaits .stop false (Or.inl ⟨rfl, rfl, rfl⟩) hphase hreg.1 hreg.2
    · have hbegin := stopBegin_of_not_registered (w := w.record (.called .stop)) hreg err
      rw [hbegin] at h
      obtain rfl := Option.some.inj h
      exact Effect.stopped hphase hreg
  | destroy err =>
    obtain ⟨hphase, h⟩ := Option.ite_none_right_eq_some.mp h
    split at h
    · next hidle =>
      by_cases hreg : w.client.state = .registered ∧ w.client.regLocation ≠ []
      · have hbegin := stopBegin_of_registered (w := w.record (.called .destroy)) hreg.1 hreg.2 err
        rw [hbegin] at h
        obtain rfl := Option.some.inj h
        exact Effect.stopWaits .destroy true (Or.inr ⟨rfl, rfl, rfl⟩) hphase hreg.1 hreg.2
      · have hbegin := stopBegin_of_not_registered (w := w.record (.called .destroy)) hreg err
        rw [hbegin] at h
        obtain rfl := Option.some.inj h
        exact Effect.destroyedStopped hphase hidle hreg
    · next hidle =>
      obtain rfl := Option.some.inj h
      exact Effect.destroyed hphase (not_not.mp hidle)
  | resume =>
    cases hphase : w.phase with
    | running =>
      rw [step, hphase] at h
      cases h
    | stopping inDestroy =>
      rw [step, hphase] at h
      cases inDestroy with
      | false =>
        obtain rfl := Option.some.inj h
        exact Effect.stopResumed hphase
      | true =>
        obtain rfl := Option.some.inj h
        exact Effect.destroyResumed hphase
    | destroyed =>
      rw [step, hphase] at h
      cases h
  | notify objId instId resId app err =>
    obtain ⟨-, h⟩ := Option.ite_none_left_eq_some.mp h
    obtain rfl := Option.some.inj h
    exact effect_notify fp w objId instId resId app err
  | timer t err =>
    obtain ⟨hen, h⟩ := Option.ite_none_left_eq_some.mp h
    obtain rfl := Option.some.inj h
    have ht : t ∈ liveTimers w.log := not_not.mp (not_or.mp hen).2
    have ha : (Action.timer t err : Action σ κ) = .updateRegistration err ∨
        ∃ t' ∈ liveTimers w.log, (Action.timer t err : Action σ κ) = .timer t' err :=
      Or.inr ⟨t, ht, rfl⟩
    rw [updateTimerCb]
    -- the callback asks for the state before `wb_lwm2m_update_registration` does
    split
    · exact effect_update ha
    · next hstate => exact Effect.updateRefused ha (Or.inl hstate)
  | event event err created =>
    obtain ⟨-, h⟩ := Option.ite_none_left_eq_some.mp h
    obtain rfl := Option.some.inj h
    exact effect_event w event err created

/-! ### A small client -/

/-- A client without objects. -/
def sampleConfig : ClientConfig Unit where
  serverUri := some (ascii "coap://server")
  endpointName := some (ascii "dev")
  lifetime := 0
  binding := none
  lwm2mVersion := none
  security := ()
  eventHandler := true
  taskStackSize := 0
  taskPriority := 0

/-- What `wb_lwm2m_init` makes of it. -/
def sampleClient : Client Unit Unit Unit where
  serverUri := ascii "coap://server"
  endpointName := ascii "dev"
  lifetime := 86400
  binding := ascii "U"
  lwm2mVersion := ascii "1.0"
  security := ()
  eventHandler := true
  taskStackSize := 0
  taskPriority := 0
  objects := []
  coap := none
  state := .idle
  regLocation := []
  updateTimer := none

theorem init_sampleConfig : init sampleConfig = some sampleClient := rfl

/-- The run that registers a client under the location `/rd/1`. -/
def registerActions {σ κ : Type} : List (Action σ κ) :=
  [.start true .ok, .event .connected .ok true,
    .event (.response (some ⟨some (ascii "/rd"), .created, ascii "/rd/1"⟩)) .ok true]

end WbLwm2m

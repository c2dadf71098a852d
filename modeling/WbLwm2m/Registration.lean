import WbLwm2m.Log

/-!
# The registration state

State, location and keep-alive timer are three fields that the functions of the client
write separately. This module says what holds between them in every state that can be
reached, in the wait of a stop and elsewhere: a client that is registered, updating or
deregistering has a location (`WbLwm2m.Located`), the timer of the client is the one timer
that has not been deleted (`WbLwm2m.TimerAccounted`), and a client that is registered or
updating has a timer as long as timers can be created (`WbLwm2m.Refreshed`).
-/

namespace WbLwm2m

open World Transition

variable {σ κ ψ : Type} {w w' : World σ κ ψ} {a : Action σ κ}

/-- The states in which there is something to refresh or to remove at the server. -/
def State.HasLocation (s : State) : Prop := s = .registered ∨ s = .updating ∨ s = .deregistering

instance : DecidablePred State.HasLocation := fun s =>
  inferInstanceAs (Decidable (s = .registered ∨ s = .updating ∨ s = .deregistering))

/-- The states in which the registration is kept alive. -/
def State.KeptAlive (s : State) : Prop := s = .registered ∨ s = .updating

instance : DecidablePred State.KeptAlive := fun s =>
  inferInstanceAs (Decidable (s = .registered ∨ s = .updating))

/-! ### The location -/

/-- A state that needs a location has one. -/
def Located (w : World σ κ ψ) : Prop := w.client.state.HasLocation → w.client.regLocation ≠ []

theorem located_of_state {s : State} (h : w.client.state = s)
    (hs : ¬s.HasLocation := by decide) : Located w :=
  fun h' => absurd (h ▸ h') hs

/-- The location is never empty: it starts with `/rd/` when the server names none. -/
theorem newLocation_ne_nil (w : World σ κ ψ) (locationPath : Text) :
    w.newLocation locationPath ≠ [] := by
  rw [newLocation]
  split
  · next h =>
    obtain ⟨b, l, rfl⟩ := List.exists_cons_of_ne_nil h
    exact List.cons_ne_nil _ _
  · exact List.cons_ne_nil _ _

theorem Registers.located {err : EspErr} (h : Registers w err w') : Located w' := by
  rcases h.state_eq with hs | hs
  · exact located_of_state hs
  · exact located_of_state hs

/-- **Every step keeps the location.** -/
theorem located_step (h : Effect w a w') (hw : Located w) : Located w' := by
  cases h with
  | addRefused | added | startRefused | updateRefused | notifyRefused | notified | noResponse
  | ignored => exact hw
  | startNoHandle cfg hphase hstate => exact located_of_state hstate
  | startFailed => exact located_of_state (s := .idle) rfl
  | started => exact located_of_state (s := .connecting) rfl
  | updateSent ha hstate hloc =>
    intro _
    exact hloc
  | stopWaits api inDestroy ha hphase hstate hloc =>
    intro _
    simpa using hloc
  | stopped | stopResumed | destroyedStopped | destroyResumed | deregistered =>
    exact located_of_state (s := .idle) (by simp)
  | destroyed hphase hstate => exact located_of_state (s := .idle) (by simpa using hstate)
  | connected hw' => exact hw'.located
  -- the location is cleared before the client registers again
  | updateRejected hstate hcode hw' => exact hw'.located
  | disconnected | rejected | failed => exact located_of_state (s := .error) (by simp)
  | registered hstate hpath hcode =>
    intro _
    simpa using newLocation_ne_nil w _
  | updated hstate hcode =>
    intro _
    simpa using hw (Or.inr (Or.inl hstate))
  | reported =>
    intro hs
    simpa using hw (by simpa using hs)

/-! ### The timer -/

/-- The timer of the client is the one that is not deleted. -/
def TimerAccounted (w : World σ κ ψ) : Prop := liveTimers w.log = w.client.updateTimer.toList

theorem liveTimers_dispatchEvent (w : World σ κ ψ) (type : EventType) :
    liveTimers (w.dispatchEvent type).log = liveTimers w.log :=
  apply_dispatchEvent w type fun _ _ => rfl

theorem liveTimers_stopEnd (w : World σ κ ψ) : liveTimers w.stopEnd.log = liveTimers w.log :=
  apply_stopEnd w (fun _ _ => rfl) fun _ _ => rfl

theorem Registers.liveTimers_eq {err : EspErr} (h : Registers w err w') :
    liveTimers w'.log = liveTimers w.log :=
  h.apply_eq fun _ _ _ _ _ _ => rfl

theorem liveTimers_stopUpdateTimer (h : TimerAccounted w) :
    liveTimers w.stopUpdateTimer.log = [] := by
  rw [TimerAccounted] at h
  cases ht : w.client.updateTimer with
  | none =>
    rw [ht] at h
    rw [stopUpdateTimer, ht]
    exact h
  | some t =>
    rw [ht] at h
    have hlog : liveTimers w.stopUpdateTimer.log = (liveTimers w.log).erase t := by
      rw [stopUpdateTimer, ht]
      rfl
    rw [hlog, h]
    exact List.erase_cons_head t []

theorem liveTimers_startUpdateTimer (h : TimerAccounted w) (created : Bool) :
    liveTimers (w.startUpdateTimer created).log =
      (if created then some w.nextTimer else none).toList := by
  have hstop := liveTimers_stopUpdateTimer h
  cases created with
  | false => exact hstop
  | true =>
    have hlog : liveTimers (w.startUpdateTimer true).log =
        w.stopUpdateTimer.nextTimer :: liveTimers w.stopUpdateTimer.log := rfl
    rw [hlog, hstop, stopUpdateTimer_nextTimer]
    rfl

theorem liveTimers_destroyEnd (h : TimerAccounted w) : liveTimers w.destroyEnd.log = [] := by
  have hcoap : liveTimers w.releaseCoap.log = w.client.updateTimer.toList :=
    (apply_releaseCoap w fun _ _ => rfl).trans h
  have hfree : liveTimers w.destroyEnd.log = liveTimers w.releaseCoap.releaseTimer.log := rfl
  have htimer : w.releaseCoap.client.updateTimer = w.client.updateTimer := by
    rw [releaseCoap_client]
  rw [hfree, releaseTimer, htimer]
  cases ht : w.client.updateTimer with
  | none =>
    rw [ht] at hcoap
    exact hcoap
  | some t =>
    have hlog : liveTimers ((w.releaseCoap.record (.timerDelete t)).setTimer none).log =
        (liveTimers w.releaseCoap.log).erase t := rfl
    rw [ht] at hcoap
    simp only [hlog, hcoap]
    exact List.erase_cons_head t []

theorem TimerAccounted.stopEnd (h : TimerAccounted w) : TimerAccounted w.stopEnd := by
  rw [TimerAccounted, liveTimers_stopEnd, h, stopEnd_client]

theorem TimerAccounted.finishStop (h : TimerAccounted w) : TimerAccounted w.finishStop :=
  h.stopEnd

theorem TimerAccounted.finishDestroy (h : TimerAccounted w) : TimerAccounted w.finishDestroy := by
  have hlog : liveTimers w.finishDestroy.log = liveTimers w.destroyEnd.log := rfl
  rw [TimerAccounted, hlog, liveTimers_destroyEnd h]
  simp

theorem TimerAccounted.stopUpdateTimer (h : TimerAccounted w) :
    TimerAccounted w.stopUpdateTimer := by
  rw [TimerAccounted, liveTimers_stopUpdateTimer h, stopUpdateTimer_client]
  rfl

/-- **Every step accounts for the timers.** -/
theorem timerAccounted_step (h : Effect w a w') (hw : TimerAccounted w) : TimerAccounted w' := by
  cases h with
  | addRefused | added | startRefused | startNoHandle | startFailed | started | updateRefused
  | updateSent | notifyRefused | notified | noResponse | ignored => exact hw
  -- entries about other things do not count, so that what held at the call holds here
  | stopWaits api =>
    have hcalled : TimerAccounted (w.record (.called api)) := hw
    exact hcalled.stopUpdateTimer
  | stopped =>
    have hcalled : TimerAccounted (w.record (.called .stop)) := hw
    exact hcalled.stopUpdateTimer.finishStop
  | destroyedStopped =>
    have hcalled : TimerAccounted (w.record (.called .destroy)) := hw
    exact hcalled.stopUpdateTimer.stopEnd.finishDestroy
  | destroyed =>
    have hcalled : TimerAccounted (w.record (.called .destroy)) := hw
    exact hcalled.finishDestroy
  | stopResumed => exact hw.finishStop
  | destroyResumed => exact hw.stopEnd.finishDestroy
  | connected hw' =>
    rw [TimerAccounted, hw'.liveTimers_eq, liveTimers_dispatchEvent, hw'.client_eq,
      dispatchEvent_client]
    exact hw
  | updateRejected hstate hcode hw' =>
    rw [TimerAccounted, hw'.liveTimers_eq, hw'.client_eq]
    exact hw
  | disconnected =>
    rw [TimerAccounted, liveTimers_dispatchEvent, dispatchEvent_client]
    have hhandled : TimerAccounted (w.record (.handled .disconnected)) := hw
    exact hhandled.stopUpdateTimer
  | @registered resp err created =>
    rw [TimerAccounted, liveTimers_dispatchEvent, dispatchEvent_client, startUpdateTimer_client]
    have hhandled : TimerAccounted (((w.record (.handled (.response (some resp)))).setLocation
      (w.newLocation resp.locationPath)).setState .registered) := hw
    exact liveTimers_startUpdateTimer hhandled created
  | rejected | updated | deregistered | failed | reported =>
    rw [TimerAccounted, liveTimers_dispatchEvent, dispatchEvent_client]
    exact hw

/-! ### Keeping alive -/

/-- A registration that should be kept alive has a timer. -/
def Refreshed (w : World σ κ ψ) : Prop := w.client.state.KeptAlive → w.client.updateTimer ≠ none

/-- Timers can be created. -/
def Action.TimerCreated : Action σ κ → Prop
  | .event _ _ timerCreated => timerCreated = true
  | _ => True

theorem refreshed_of_state {s : State} (h : w.client.state = s) (hs : ¬s.KeptAlive := by decide) :
    Refreshed w :=
  fun h' => absurd (h ▸ h') hs

theorem Registers.refreshed {err : EspErr} (h : Registers w err w') : Refreshed w' := by
  rcases h.state_eq with hs | hs
  · exact refreshed_of_state hs
  · exact refreshed_of_state hs

/-- **Every step keeps the timer**, if timers can be created. -/
theorem refreshed_step (h : Effect w a w') (ha : a.TimerCreated) (hw : Refreshed w) :
    Refreshed w' := by
  cases h with
  | addRefused | added | startRefused | updateRefused | notifyRefused | notified | noResponse
  | ignored => exact hw
  | startNoHandle cfg hphase hstate => exact refreshed_of_state hstate
  | startFailed => exact refreshed_of_state (s := .idle) rfl
  | started => exact refreshed_of_state (s := .connecting) rfl
  | updateSent hcall hstate hloc =>
    intro _
    exact hw (Or.inl hstate)
  -- the timer is deleted before the wait, but the state changes with it
  | stopWaits => exact refreshed_of_state (s := .deregistering) rfl
  | stopped | stopResumed | destroyedStopped | destroyResumed | deregistered =>
    exact refreshed_of_state (s := .idle) (by simp)
  | destroyed hphase hstate => exact refreshed_of_state (s := .idle) (by simpa using hstate)
  | connected hw' => exact hw'.refreshed
  | updateRejected hstate hcode hw' => exact hw'.refreshed
  | disconnected | rejected | failed => exact refreshed_of_state (s := .error) (by simp)
  | registered hstate hpath hcode =>
    intro _
    obtain rfl : _ = true := ha
    simp
  | updated hstate hcode =>
    intro _
    simpa using hw (Or.inr hstate)
  | reported =>
    intro hs
    simpa using hw (by simpa using hs)

/-! ### Every reachable state -/

/-- The state of a client that has just been made. -/
theorem init_idle {config : ClientConfig ψ} {c : Client σ κ ψ} (h : init config = some c) :
    c.state = .idle ∧ c.regLocation = [] ∧ c.coap = none ∧ c.updateTimer = none := by
  rw [← asMade_init h]
  exact ⟨rfl, rfl, rfl, rfl⟩

variable {fp : FloatOps} {config : ClientConfig ψ} {c : Client σ κ ψ} {as : List (Action σ κ)}

theorem located_run (hinit : init config = some c)
    (hrun : run (step fp) (World.initial c) as = some w) : Located w := by
  refine run_invariant_all (fun s a s' hs h => ?_)
    (located_of_state (s := .idle) (init_idle hinit).1) hrun
  exact located_step (effect_of_step h) hs

theorem timerAccounted_initial (hinit : init config = some c) :
    TimerAccounted (World.initial c) := by
  rw [TimerAccounted, World.initial, (init_idle hinit).2.2.2]
  rfl

theorem timerAccounted_run (hinit : init config = some c)
    (hrun : run (step fp) (World.initial c) as = some w) : TimerAccounted w := by
  refine run_invariant_all (fun s a s' hs h => ?_) (timerAccounted_initial hinit) hrun
  exact timerAccounted_step (effect_of_step h) hs

/-- **The registration-state invariant.** In every state that can be reached while timers
can be created, a client that is registered, updating or deregistering has a location,
and a client that is registered or updating has a keep-alive timer, which has not been
deleted. -/
theorem registration_state_invariant (hinit : init config = some c)
    (htimer : ∀ a ∈ as, a.TimerCreated) (hrun : run (step fp) (World.initial c) as = some w) :
    (w.client.state.HasLocation → w.client.regLocation ≠ []) ∧
      (w.client.state.KeptAlive → ∃ t, w.client.updateTimer = some t ∧ t ∈ liveTimers w.log) := by
  refine ⟨located_run hinit hrun, fun hstate => ?_⟩
  have hrefreshed : Refreshed w := by
    refine run_invariant (P := Refreshed) (fun s a s' ha hs h => ?_) htimer ?_ hrun
    · exact refreshed_step (effect_of_step h) ha hs
    · exact refreshed_of_state (s := .idle) (init_idle hinit).1
  obtain ⟨t, ht⟩ := Option.ne_none_iff_exists'.mp (hrefreshed hstate)
  refine ⟨t, ht, ?_⟩
  rw [timerAccounted_run hinit hrun, ht]
  exact List.mem_singleton.mpr rfl

/-- The registered client has its location and its timer. -/
theorem registration_state_invariant_sample : ∃ w,
    run (step ieee754) (World.initial sampleClient) registerActions = some w ∧
      w.client.state = .registered ∧ w.client.regLocation ≠ [] ∧
      ∃ t, w.client.updateTimer = some t ∧ t ∈ liveTimers w.log := by
  have htimer : ∀ a ∈ (registerActions : List (Action Unit Unit)), a.TimerCreated := by
    simp [registerActions, Action.TimerCreated]
  obtain ⟨w, hrun⟩ : ∃ w, run (step ieee754) (World.initial sampleClient) registerActions =
    some w := ⟨_, rfl⟩
  have hstate : w.client.state = .registered := by
    obtain rfl := Option.some.inj hrun
    rfl
  obtain ⟨hloc, ht⟩ := registration_state_invariant init_sampleConfig htimer hrun
  exact ⟨w, hrun, hstate, hloc (Or.inl hstate), ht (Or.inl hstate)⟩

end WbLwm2m

import WbLwm2m.Registration

/-!
# A stopped client

From the return of a stop until the next start or destroy a client should stay idle,
without location, without keep-alive timer and without sending a request, and only a start
should take it out of idle. The CoAP client is not destroyed by a stop, so that its events
may still arrive, during the wait of the stop and after it.

Most branches of the handler look at the state and find nothing to do. Two do not look: a
connected client registers, and a disconnected one reports an error. And a stop deletes the
keep-alive timer before its wait, so that a registration which is completed during the wait
leaves a timer behind. `WbLwm2m.stays_stopped_iff` says that nothing else disturbs a
stopped client.
-/

namespace WbLwm2m

open World Transition

variable {σ κ ψ : Type} {w w' : World σ κ ψ} {a : Action σ κ}

/-! ### What the log says about stops -/

/-- A stop has returned, and no start or destroy has been called since. -/
def isStopped : List (Entry ψ) → Bool
  | [] => false
  | .returned .stop :: _ => true
  | .called .start :: _ => false
  | .called .destroy :: _ => false
  | _ :: log => isStopped log

/-- A request has been made since the last stop has returned. -/
def requestSinceStop : List (Entry ψ) → Bool
  | [] => false
  | .returned .stop :: _ => false
  | .coapPost _ _ _ _ _ :: _ => true
  | .coapDelete _ _ _ :: _ => true
  | _ :: log => requestSinceStop log

/-- Since the beginning of the wait a registration has been completed with a keep-alive
timer, and the session has not been lost after that. -/
def timerInWait : List (Entry ψ) → Bool
  | [] => false
  | .delay _ :: _ => false
  | .handled .disconnected :: _ => false
  | .timerCreate t _ :: _ => t.isSome
  | _ :: log => timerInWait log

@[simp] theorem isStopped_cons {e : Entry ψ} (he : e.topic ≠ .api) (log : List (Entry ψ)) :
    isStopped (e :: log) = isStopped log := by
  cases e <;> first | rfl | exact absurd rfl he

@[simp] theorem requestSinceStop_cons {e : Entry ψ} (he : e.topic ≠ .api ∧ e.topic ≠ .request)
    (log : List (Entry ψ)) : requestSinceStop (e :: log) = requestSinceStop log := by
  cases e <;> first | rfl | exact absurd rfl he.1 | exact absurd rfl he.2

section Frames

variable (w)

@[simp] theorem isStopped_dispatchEvent (type : EventType) :
    isStopped (w.dispatchEvent type).log = isStopped w.log :=
  apply_dispatchEvent w type fun _ _ => rfl

@[simp] theorem isStopped_stopUpdateTimer : isStopped w.stopUpdateTimer.log = isStopped w.log :=
  apply_stopUpdateTimer w (fun _ _ => rfl) fun _ _ => rfl

@[simp] theorem isStopped_startUpdateTimer (created : Bool) :
    isStopped (w.startUpdateTimer created).log = isStopped w.log :=
  apply_startUpdateTimer w created (fun _ _ => rfl) (fun _ _ => rfl) (fun _ _ _ => rfl)
    fun _ _ => rfl

@[simp] theorem isStopped_stopEnd : isStopped w.stopEnd.log = isStopped w.log :=
  apply_stopEnd w (fun _ _ => rfl) fun _ _ => rfl

@[simp] theorem isStopped_destroyEnd : isStopped w.destroyEnd.log = isStopped w.log :=
  (apply_releaseTimer w.releaseCoap fun _ _ => rfl).trans (apply_releaseCoap w fun _ _ => rfl)

@[simp] theorem requestSinceStop_dispatchEvent (type : EventType) :
    requestSinceStop (w.dispatchEvent type).log = requestSinceStop w.log :=
  apply_dispatchEvent w type fun _ _ => rfl

@[simp] theorem requestSinceStop_stopEnd :
    requestSinceStop w.stopEnd.log = requestSinceStop w.log :=
  apply_stopEnd w (fun _ _ => rfl) fun _ _ => rfl

@[simp] theorem requestSinceStop_destroyEnd :
    requestSinceStop w.destroyEnd.log = requestSinceStop w.log :=
  (apply_releaseTimer w.releaseCoap fun _ _ => rfl).trans (apply_releaseCoap w fun _ _ => rfl)

end Frames

theorem Registers.isStopped_eq {err : EspErr} (h : Registers w err w') :
    isStopped w'.log = isStopped w.log :=
  h.apply_eq fun _ _ _ _ _ _ => rfl

/-! ### The timer of the wait -/

/-- During a wait the client has a timer exactly if it has got one in the wait. -/
def WaitTimer (w : World σ κ ψ) : Prop :=
  ∀ inDestroy, w.phase = .stopping inDestroy →
    (timerInWait w.log = true ↔ w.client.updateTimer ≠ none)

theorem WaitTimer.congr (hw : WaitTimer w) (hphase : w'.phase = w.phase)
    (hlog : timerInWait w'.log = timerInWait w.log)
    (htimer : w'.client.updateTimer = w.client.updateTimer) : WaitTimer w' := by
  intro inDestroy h
  rw [hlog, htimer]
  exact hw inDestroy (hphase ▸ h)

theorem waitTimer_of_not_stopping (h : ∀ inDestroy, w.phase ≠ .stopping inDestroy) :
    WaitTimer w :=
  fun inDestroy h' => absurd h' (h inDestroy)

theorem timerInWait_dispatchEvent (w : World σ κ ψ) (type : EventType) :
    timerInWait (w.dispatchEvent type).log = timerInWait w.log :=
  apply_dispatchEvent w type fun _ _ => rfl

theorem timerInWait_stopUpdateTimer (w : World σ κ ψ) :
    timerInWait w.stopUpdateTimer.log = timerInWait w.log :=
  apply_stopUpdateTimer w (fun _ _ => rfl) fun _ _ => rfl

theorem timerInWait_startUpdateTimer (w : World σ κ ψ) (created : Bool) :
    timerInWait (w.startUpdateTimer created).log = created := by
  cases created with
  | false => rfl
  | true => rfl

theorem Registers.timerInWait_eq {err : EspErr} (h : Registers w err w') :
    timerInWait w'.log = timerInWait w.log :=
  h.apply_eq fun _ _ _ _ _ _ => rfl

/-- **Every step keeps track of the timer of the wait.** -/
theorem waitTimer_step (h : Effect w a w') (hw : WaitTimer w) : WaitTimer w' := by
  cases h with
  | addRefused | added | updateRefused | notifyRefused => exact hw
  | updateSent | notified | noResponse | ignored => exact hw.congr rfl rfl rfl
  | startRefused hphase | startNoHandle _ hphase | startFailed _ hphase | started _ hphase =>
    refine waitTimer_of_not_stopping fun inDestroy h => ?_
    exact absurd (hphase.symm.trans h) Phase.noConfusion
  | stopWaits => exact fun _ _ => iff_of_false Bool.false_ne_true fun h => h (by simp)
  | stopped | stopResumed => exact waitTimer_of_not_stopping fun _ => Phase.noConfusion
  | destroyedStopped | destroyed | destroyResumed =>
    exact waitTimer_of_not_stopping fun _ => Phase.noConfusion
  | connected hw' =>
    refine hw.congr ?_ ?_ ?_
    · rw [hw'.phase_eq, dispatchEvent_phase, record_phase]
    · rw [hw'.timerInWait_eq, timerInWait_dispatchEvent]
      rfl
    · rw [hw'.client_eq, dispatchEvent_client]
      rfl
  | updateRejected hstate hcode hw' =>
    refine hw.congr ?_ ?_ ?_
    · rw [hw'.phase_eq, setLocation_phase, record_phase]
    · rw [hw'.timerInWait_eq]
      rfl
    · rw [hw'.client_eq]
      rfl
  -- a lost session deletes the timer
  | disconnected =>
    intro _ _
    rw [timerInWait_dispatchEvent]
    refine iff_of_false ?_ fun h => h (by simp)
    have hstop := timerInWait_stopUpdateTimer (w.record (.handled .disconnected))
    exact fun h => absurd (hstop.symm.trans h) Bool.false_ne_true
  | @registered resp err created =>
    intro _ _
    rw [timerInWait_dispatchEvent, timerInWait_startUpdateTimer, dispatchEvent_client,
      startUpdateTimer_client]
    cases created with
    | false => exact iff_of_false Bool.false_ne_true fun h => h rfl
    | true => exact iff_of_true rfl (Option.some_ne_none _)
  | rejected | updated | deregistered | failed | reported =>
    refine hw.congr ?_ ?_ ?_
    · simp
    · rw [timerInWait_dispatchEvent]
      rfl
    · simp

/-! ### Staying stopped -/

/-- **A stopped client is quiet**: idle, without location and keep-alive timer, and it has
sent nothing since the stop. -/
def StaysStopped (w : World σ κ ψ) : Prop :=
  isStopped w.log = true → w.client.state = .idle ∧ w.client.regLocation = [] ∧
    w.client.updateTimer = none ∧ liveTimers w.log = [] ∧ requestSinceStop w.log = false

/-- Only a start takes a client out of idle. -/
def LeavesIdleByStart (w : World σ κ ψ) (a : Action σ κ) (w' : World σ κ ψ) : Prop :=
  w.client.state = .idle → w'.client.state ≠ .idle → ∃ inited err, a = .start inited err

/-- What does not disturb a stop: no connected or disconnected event is handled while the
client is idle, and at the end of a stop's wait there is no timer of a registration that
has been completed in the wait. -/
def Undisturbed (w : World σ κ ψ) : Action σ κ → Prop
  | .event .connected _ _ => w.client.state ≠ .idle
  | .event .disconnected _ _ => w.client.state ≠ .idle
  | .resume => w.phase = .stopping false → timerInWait w.log = false
  | _ => True

theorem isStopped_eq_false (hw : StaysStopped w) {s : State} (h : w.client.state = s)
    (hs : s ≠ .idle := by decide) : isStopped w.log = false := by
  by_contra hne
  exact hs (h.symm.trans (hw (eq_true_of_ne_false hne)).1)

/-- A client that is not stopped has nothing to keep. -/
theorem staysStopped_of_eq_false (h : isStopped w.log = false) : StaysStopped w :=
  fun h' => absurd (h.symm.trans h') Bool.false_ne_true

theorem leavesIdle_of_ne {s : State} (h : w.client.state = s) (hs : s ≠ .idle := by decide) :
    LeavesIdleByStart w a w' :=
  fun h' => absurd (h.symm.trans h') hs

theorem leavesIdle_of_eq (h : w'.client.state = w.client.state) : LeavesIdleByStart w a w' :=
  fun h₁ h₂ => absurd (h.trans h₁) h₂

theorem leavesIdle_of_idle (h : w'.client.state = .idle) : LeavesIdleByStart w a w' :=
  fun _ h' => absurd h h'

theorem StaysStopped.congr (hw : StaysStopped w) (hclient : w'.client = w.client)
    (hstopped : isStopped w'.log = isStopped w.log)
    (htimers : liveTimers w'.log = liveTimers w.log)
    (hrequest : requestSinceStop w'.log = requestSinceStop w.log) : StaysStopped w' := by
  rw [StaysStopped, hstopped, hclient, htimers, hrequest]
  exact hw

theorem undisturbed_of_update {err : EspErr}
    (ha : a = .updateRegistration err ∨ ∃ t ∈ liveTimers w.log, a = .timer t err) :
    Undisturbed w a := by
  rcases ha with rfl | ⟨t, -, rfl⟩
  · exact trivial
  · exact trivial

/-- A stop that has returned has left no timer exactly if none has come up in the wait. -/
theorem staysStopped_finishStop_iff (ht : TimerAccounted w) :
    StaysStopped w.finishStop ↔ w.client.updateTimer = none := by
  have hclient : w.finishStop.client.updateTimer = w.client.updateTimer := by
    simp
  constructor
  · intro h
    rw [← hclient]
    exact (h rfl).2.2.1
  · intro h _
    refine ⟨by simp, by simp, hclient.trans h, ?_, rfl⟩
    rw [ht.finishStop, hclient, h]
    rfl

/-- A client that is not idle is not stopped, and is not stopped by what is not a stop. -/
theorem StaysStopped.of_active (hw : StaysStopped w) {s : State} (hstate : w.client.state = s)
    (hlog : isStopped w'.log = isStopped w.log) (hs : s ≠ .idle := by decide) :
    StaysStopped w' :=
  staysStopped_of_eq_false (hlog.trans (isStopped_eq_false hw hstate hs))

/-- An event that takes a client to another state than idle disturbs a client that is idle, and
no other. -/
theorem staysStopped_event_iff (hw : StaysStopped w) (ha : ∀ inited err, a ≠ .start inited err)
    (hstate : w'.client.state ≠ .idle) (hlog : isStopped w'.log = isStopped w.log) :
    StaysStopped w' ∧ LeavesIdleByStart w a w' ↔ w.client.state ≠ .idle := by
  constructor
  · rintro ⟨-, hleaves⟩ hidle
    obtain ⟨inited, err, hstart⟩ := hleaves hidle hstate
    exact ha inited err hstart
  · intro hactive
    exact ⟨hw.of_active rfl hlog hactive, leavesIdle_of_ne rfl hactive⟩

/-- The end of the wait of a stop: nothing in the client says whether there is a timer, but the
log does. -/
theorem staysStopped_stopResumed_iff (ht : TimerAccounted w) (hwait : WaitTimer w)
    (hphase : w.phase = .stopping false) :
    StaysStopped w.finishStop ↔ timerInWait w.log = false := by
  rw [staysStopped_finishStop_iff ht, ← not_iff_not, ← ne_eq, ← hwait false hphase,
    Bool.not_eq_false]

/-- The end of the wait of a destroy. -/
theorem staysStopped_destroyResumed (ht : TimerAccounted w) (hw : StaysStopped w) :
    StaysStopped w.stopEnd.finishDestroy := by
  intro h
  have hold := hw (by simpa [isStopped] using h)
  refine ⟨by simp, by simp, by simp, ?_, ?_⟩
  · exact liveTimers_destroyEnd ht.stopEnd
  · simpa [requestSinceStop] using hold.2.2.2.2

/-- **The step**: a stopped client is disturbed exactly by what the condition excludes. -/
theorem staysStopped_step_iff (h : Effect w a w') (ht : TimerAccounted w) (hwait : WaitTimer w)
    (hw : StaysStopped w) :
    StaysStopped w' ∧ LeavesIdleByStart w a w' ↔ Undisturbed w a := by
  cases h with
  | addRefused | notifyRefused => exact iff_of_true ⟨hw, leavesIdle_of_eq rfl⟩ trivial
  | added => exact iff_of_true ⟨hw, leavesIdle_of_eq rfl⟩ trivial
  | updateRefused hcall =>
    exact iff_of_true ⟨hw, leavesIdle_of_eq rfl⟩ (undisturbed_of_update hcall)
  | startRefused =>
    exact iff_of_true ⟨staysStopped_of_eq_false rfl, leavesIdle_of_eq rfl⟩ trivial
  | startNoHandle | startFailed | started =>
    exact iff_of_true ⟨staysStopped_of_eq_false rfl, fun _ _ => ⟨_, _, rfl⟩⟩ trivial
  | updateSent hcall hstate =>
    refine iff_of_true ⟨hw.of_active hstate ?_, leavesIdle_of_ne hstate⟩
      (undisturbed_of_update hcall)
    simp
  | notified payload hstate =>
    refine iff_of_true ⟨hw.of_active hstate ?_, leavesIdle_of_ne hstate⟩ trivial
    simp
  | stopWaits api inDestroy hcall hphase hstate =>
    have hnot := isStopped_eq_false hw hstate
    refine iff_of_true ⟨staysStopped_of_eq_false ?_, leavesIdle_of_ne hstate⟩ ?_
    · rcases hcall with ⟨-, rfl, -⟩ | ⟨-, rfl, -⟩
      · simpa [isStopped] using hnot
      · simp [isStopped]
    · rcases hcall with ⟨rfl, -⟩ | ⟨rfl, -⟩
      · exact trivial
      · exact trivial
  | stopped =>
    have hcalled : TimerAccounted (w.record (.called .stop)) := ht
    refine iff_of_true ⟨?_, leavesIdle_of_idle (by simp)⟩ trivial
    exact (staysStopped_finishStop_iff hcalled.stopUpdateTimer).mpr (by simp)
  | destroyedStopped =>
    refine iff_of_true ⟨staysStopped_of_eq_false ?_, leavesIdle_of_idle ?_⟩ trivial
    · simp [isStopped]
    · simp
  | destroyed hphase hstate =>
    refine iff_of_true ⟨staysStopped_of_eq_false ?_, leavesIdle_of_idle ?_⟩ trivial
    · simp [isStopped]
    · simpa using hstate
  | stopResumed hphase =>
    rw [and_iff_left (leavesIdle_of_idle (by simp)), staysStopped_stopResumed_iff ht hwait hphase]
    exact ⟨fun h _ => h, fun h => h hphase⟩
  | destroyResumed hphase =>
    refine iff_of_true ⟨staysStopped_destroyResumed ht hw, leavesIdle_of_idle (by simp)⟩ ?_
    exact fun h => absurd (hphase.symm.trans h) (by decide)
  -- the two events that are handled in every state
  | connected hw' =>
    refine staysStopped_event_iff hw (by rintro _ _ ⟨⟩) hw'.state_ne ?_
    rw [hw'.isStopped_eq, isStopped_dispatchEvent]
    rfl
  | disconnected =>
    refine staysStopped_event_iff hw (by rintro _ _ ⟨⟩) ?_ ?_
    · simp
    · simp
  | noResponse | ignored =>
    exact iff_of_true ⟨hw.congr rfl rfl rfl rfl, leavesIdle_of_eq rfl⟩ trivial
  | registered hstate | rejected hstate | updated hstate | deregistered hstate | failed hstate =>
    refine iff_of_true ⟨hw.of_active hstate ?_, leavesIdle_of_ne hstate⟩ trivial
    simp
  | updateRejected hstate hcode hw' =>
    exact iff_of_true ⟨hw.of_active hstate hw'.isStopped_eq, leavesIdle_of_ne hstate⟩ trivial
  | reported hstate =>
    refine iff_of_true ⟨hw.congr ?_ ?_ ?_ ?_, leavesIdle_of_eq ?_⟩ trivial
    · simp
    · simp
    · rw [liveTimers_dispatchEvent]
      rfl
    · simp
    · simp

/-- **A stopped client stays stopped exactly when it is not disturbed.** In every run, from
the return of each stop to the next start or destroy the client is idle, has no location
and no keep-alive timer and sends no request, and only a start takes it out of idle, if
and only if no connected or disconnected event is handled while it is idle, and no wait of
a stop ends with the timer of a registration completed in the wait. -/
theorem stays_stopped_iff {fp : FloatOps} {config : ClientConfig ψ} {c : Client σ κ ψ}
    (hinit : init config = some c) (as : List (Action σ κ)) :
    Along (step fp) (fun w a w' => StaysStopped w' ∧ LeavesIdleByStart w a w')
        (World.initial c) as ↔
      Along (step fp) (fun w a _ => Undisturbed w a) (World.initial c) as := by
  refine along_iff (J := fun w => TimerAccounted w ∧ WaitTimer w) (fun w a w' hJ h => ?_)
    (fun w a w' hJ hw h => ?_) ⟨timerAccounted_initial hinit, ?_⟩ ?_ as
  · exact ⟨timerAccounted_step (effect_of_step h) hJ.1, waitTimer_step (effect_of_step h) hJ.2⟩
  · exact staysStopped_step_iff (effect_of_step h) hJ.1 hJ.2 hw
  · exact waitTimer_of_not_stopping fun _ => Phase.noConfusion
  · exact staysStopped_of_eq_false rfl

/-- A client that is stopped before it is connected, and hears of it no more. -/
theorem stays_stopped_iff_sample :
    Along (step ieee754) (fun w a w' => StaysStopped w' ∧ LeavesIdleByStart w a w')
      (World.initial sampleClient) [.start true .ok, .stop .ok, .updateRegistration .ok] := by
  refine (stays_stopped_iff init_sampleConfig _).mpr ?_
  intro w₁ _
  refine ⟨trivial, ?_⟩
  intro w₂ _
  refine ⟨trivial, ?_⟩
  intro w₃ _
  exact ⟨trivial, trivial⟩

/-- **A late connected event wakes a stopped client**: it registers. -/
theorem late_connected_wakes : ∃ w,
    run (step ieee754) (World.initial sampleClient)
      [.start true .ok, .stop .ok, .event .connected .ok true] = some w ∧
        isStopped w.log = true ∧ w.client.state = .registering ∧ ¬StaysStopped w := by
  obtain ⟨w, hrun⟩ : ∃ w, run (step ieee754) (World.initial sampleClient)
    [.start true .ok, .stop .ok, .event .connected .ok true] = some w := ⟨_, rfl⟩
  have hstopped : isStopped w.log = true ∧ w.client.state = .registering := by
    obtain rfl := Option.some.inj hrun
    exact ⟨rfl, rfl⟩
  refine ⟨w, hrun, hstopped.1, hstopped.2, fun h => ?_⟩
  exact absurd (hstopped.2.symm.trans (h hstopped.1).1) (by decide)

end WbLwm2m

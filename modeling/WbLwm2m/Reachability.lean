import WbLwm2m.Advertised
import WbLwm2m.Handles
import WbLwm2m.Trace
import WbLwm2m.Lib.Observation

/-!
# What a client can be brought to

The other modules say what never happens to a client; this one says what can. Two things
are needed for most of it: a handle is live, so that the CoAP client may report something,
and the objects fit a registration (`WbLwm2m.Live`). A few steps are then always possible,
and what they lead to is known.

Two results come of it. The event handler gets to see exactly the traces that an automaton
with three states accepts (`WbLwm2m.event_traces_iff`). And stopping and starting brings
every client that can be registered at all back to a registration
(`WbLwm2m.recovery_registers_iff`).
-/

namespace WbLwm2m

open World Transition

variable {σ κ ψ : Type} {w w' : World σ κ ψ} {a : Action σ κ} {fp : FloatOps}

/-! ### Steps that are always possible -/

/-- No call is in progress, some handle is live, and the objects fit a registration. -/
structure Live (w : World σ κ ψ) : Prop where
  phase : w.phase = .running
  handle : liveHandles w.log ≠ []
  payload : linkPayload w.client.objects ≠ none

theorem Live.congr (hw : Live w) (hview : handleView w'.log = handleView w.log)
    (hobjects : w'.client.objects = w.client.objects) (hphase : w'.phase = .running) :
    Live w' := by
  obtain ⟨hlive, -⟩ := of_handleView_eq hview
  refine ⟨hphase, ?_, ?_⟩
  · rw [hlive]
    exact hw.handle
  · rw [hobjects]
    exact hw.payload

theorem phase_of_event {event : CoapEvent} {err : EspErr} {created : Bool}
    (h : Effect w (.event event err created) w') : w'.phase = w.phase := by
  cases h with
  | connected hw' => simpa using hw'.phase_eq
  | updateRejected hstate hcode hw' => exact hw'.phase_eq
  | updateRefused ha | updateSent ha => exact (updating_of_call ha).elim
  | stopWaits _ _ ha => exact (stopping_of_call ha).elim
  | _ => simp

/-- An event can be handled, and leaves all of this as it is. -/
theorem Live.event (fp : FloatOps) (hw : Live w) (event : CoapEvent) (err : EspErr)
    (created : Bool) :
    step fp w (.event event err created) =
        some ((w.record (.handled event)).coapEventHandler event err created) ∧
      Live ((w.record (.handled event)).coapEventHandler event err created) := by
  have hen : ¬(w.phase = .destroyed ∨ liveHandles w.log = []) := by
    rintro (hphase | hnone)
    · exact absurd (hw.phase.symm.trans hphase) (by decide)
    · exact hw.handle hnone
  have hstep : step fp w (.event event err created) =
      some ((w.record (.handled event)).coapEventHandler event err created) := if_neg hen
  have heffect := effect_of_step hstep
  refine ⟨hstep, hw.congr (handles_of_effect heffect (fun h => h)).1 ?_ ?_⟩
  · exact objects_of_effect heffect fun _ h => by cases h
  · rw [phase_of_event heffect, hw.phase]

/-- A registration of a client with a payload is posted. -/
theorem Registers.state_of_payload {err : EspErr} (h : Registers w err w')
    (hpayload : linkPayload w.client.objects ≠ none) :
    w'.client.state = if err = .ok then .registering else .error := by
  cases h with
  | posted => rfl
  | noPayload hnone => exact absurd hnone hpayload

/-- **A connected client registers**, or fails to, as its post is answered. -/
theorem Live.connect (fp : FloatOps) (hw : Live w) (err : EspErr) : ∃ w',
    step fp w (.event .connected err true) = some w' ∧ Live w' ∧
      w'.client.state = (if err = .ok then .registering else .error) ∧
      dispatched w'.log = heard w.client.eventHandler [.connected] ++ dispatched w.log := by
  obtain ⟨hstep, hlive⟩ := hw.event fp .connected err true
  have hreg := registers_sendRegistration
    ((w.record (.handled .connected)).dispatchEvent .connected) err
  refine ⟨_, hstep, hlive, hreg.state_of_payload (by simpa using hw.payload), ?_⟩
  exact hreg.dispatched_eq.trans (by simp)

/-- **A client that is registering is registered by the answer `2.01`.** -/
theorem Live.accept (fp : FloatOps) (hw : Live w) (hstate : w.client.state = .registering)
    (location : Text) (created : Bool) : ∃ w',
      step fp w (.event (.response (some ⟨some (ascii "/rd"), .created, location⟩)) .ok created) =
        some w' ∧ Live w' ∧ w'.client.state = .registered ∧
      w'.client.regLocation = w.newLocation location ∧
      dispatched w'.log = heard w.client.eventHandler [.registered] ++ dispatched w.log := by
  obtain ⟨hstep, hlive⟩ :=
    hw.event fp (.response (some ⟨some (ascii "/rd"), .created, location⟩)) .ok created
  refine ⟨_, hstep, hlive, ?_⟩
  simp [coapEventHandler, handleResponse, hstate, newLocation]

/-- A lost session is reported in any state. -/
theorem Live.disconnect (fp : FloatOps) (hw : Live w) : ∃ w',
    step fp w (.event .disconnected .ok true) = some w' ∧ Live w' ∧ w'.client.state = .error ∧
      dispatched w'.log = heard w.client.eventHandler [.disconnected] ++ dispatched w.log := by
  obtain ⟨hstep, hlive⟩ := hw.event fp .disconnected .ok true
  refine ⟨_, hstep, hlive, ?_⟩
  simp [coapEventHandler]

/-- An error of the CoAP client ends a registration that is being made. -/
theorem Live.fail (fp : FloatOps) (hw : Live w) (hstate : w.client.state = .registering) : ∃ w',
    step fp w (.event (.error none) .ok true) = some w' ∧ Live w' ∧ w'.client.state = .error ∧
      dispatched w'.log = heard w.client.eventHandler [.regFailed] ++ dispatched w.log := by
  obtain ⟨hstep, hlive⟩ := hw.event fp (.error none) .ok true
  refine ⟨_, hstep, hlive, ?_⟩
  simp [coapEventHandler, hstate]

/-- Otherwise it is reported and changes nothing. -/
theorem Live.report (fp : FloatOps) (hw : Live w) (hstate : w.client.state ≠ .registering) :
    ∃ w', step fp w (.event (.error none) .ok true) = some w' ∧ Live w' ∧
      w'.client = w.client ∧
      dispatched w'.log = heard w.client.eventHandler [.error] ++ dispatched w.log := by
  obtain ⟨hstep, hlive⟩ := hw.event fp (.error none) .ok true
  refine ⟨_, hstep, hlive, ?_⟩
  simp [coapEventHandler, hstate]

theorem Live.phase_ne (hw : Live w) : w.phase ≠ .destroyed := by
  rw [hw.phase]
  decide

/-- The update of a registered client is posted. -/
theorem Live.step_update (fp : FloatOps) (hw : Live w) (hstate : w.client.state = .registered)
    (hloc : w.client.regLocation ≠ []) (err : EspErr) :
    step fp w (.updateRegistration err) = some ((w.record
      (.coapPost w.client.coap w.client.regLocation none .zero err)).setState
        (if err = .ok then .updating else .registered)) := by
  have hsent : (w.updateRegistration err).2 = (w.record
      (.coapPost w.client.coap w.client.regLocation none .zero err)).setState
        (if err = .ok then .updating else .registered) := by
    by_cases herr : err = .ok
    · simp [updateRegistration, record, setState, hstate, hloc, herr]
    · simp [updateRegistration, record, setState, hstate, hloc, herr]
  rw [step, if_neg hw.phase_ne, hsent]

/-- **A registered client can be updated**; the answer is not there yet. -/
theorem Live.update (fp : FloatOps) (hw : Live w) (hstate : w.client.state = .registered)
    (hloc : w.client.regLocation ≠ []) : ∃ w',
      step fp w (.updateRegistration .ok) = some w' ∧ Live w' ∧ w'.client.state = .updating ∧
        w'.client.regLocation = w.client.regLocation ∧ dispatched w'.log = dispatched w.log :=
  ⟨_, hw.step_update fp hstate hloc .ok, ⟨hw.phase, hw.handle, hw.payload⟩, rfl, rfl, rfl⟩

/-- An update that the server confirms. -/
theorem Live.confirm (fp : FloatOps) (hw : Live w) (hstate : w.client.state = .updating) : ∃ w',
    step fp w (.event (.response (some ⟨none, .changed, []⟩)) .ok true) = some w' ∧ Live w' ∧
      w'.client.state = .registered ∧ w'.client.regLocation = w.client.regLocation ∧
      dispatched w'.log = heard w.client.eventHandler [.regUpdated] ++ dispatched w.log := by
  obtain ⟨hstep, hlive⟩ := hw.event fp (.response (some ⟨none, .changed, []⟩)) .ok true
  refine ⟨_, hstep, hlive, ?_⟩
  simp [coapEventHandler, handleResponse, hstate]

/-- An update that the server refuses: the client registers again, without a word. -/
theorem Live.refuse (fp : FloatOps) (hw : Live w) (hstate : w.client.state = .updating) : ∃ w',
    step fp w (.event (.response (some ⟨none, .created, []⟩)) .ok true) = some w' ∧ Live w' ∧
      w'.client.state = .registering ∧ dispatched w'.log = dispatched w.log := by
  obtain ⟨hstep, hlive⟩ := hw.event fp (.response (some ⟨none, .created, []⟩)) .ok true
  have hreg := registers_sendRegistration
    (((w.record (.handled (.response (some ⟨none, .created, []⟩)))).setState
      .registering).setLocation []) .ok
  have hw' : (w.record (.handled (.response (some ⟨none, .created, []⟩)))).coapEventHandler
      (.response (some ⟨none, .created, []⟩)) .ok true =
        ((((w.record (.handled (.response (some ⟨none, .created, []⟩)))).setState
          .registering).setLocation []).sendRegistration .ok).2 := by
    simp [coapEventHandler, handleResponse, hstate]
  rw [hw'] at hstep hlive
  exact ⟨_, hstep, hlive, hreg.state_of_payload hw.payload, hreg.dispatched_eq⟩

/-- The rest of a stop that has waited, if it has. -/
def awaited (w : World σ κ ψ) : List (Action σ κ) :=
  if w.client.state = .registered ∧ w.client.regLocation ≠ [] then [.resume] else []

/-- A client that waits for its deregistration. -/
def stopSent (w : World σ κ ψ) (deleteErr : EspErr) : World σ κ ψ :=
  ((((w.record (.called .stop)).stopUpdateTimer.setState .deregistering).record
    (.coapDelete w.client.coap w.client.regLocation deleteErr)).record (.delay 500)).setPhase
      (.stopping false)

/-- A registered client deregisters before it stops. -/
theorem run_stop_of_registered (fp : FloatOps) (hphase : w.phase = .running)
    (hstate : w.client.state = .registered) (hloc : w.client.regLocation ≠ [])
    (deleteErr : EspErr) : run (step fp) w [.stop deleteErr, .resume] =
      some (stopSent w deleteErr).finishStop := by
  have hstep : step fp w (.stop deleteErr) = some (stopSent w deleteErr) := by
    have hbegin := stopBegin_of_registered (w := w.record (.called .stop)) hstate hloc deleteErr
    rw [step, if_pos hphase, hbegin]
    rfl
  exact run_cons_eq_some hstep (run_one rfl)

/-- **A client that is stopped** is idle afterwards, and has the handles it had before. -/
theorem exists_run_stop (fp : FloatOps) (hphase : w.phase = .running) (deleteErr : EspErr) : ∃ w',
    run (step fp) w (.stop deleteErr :: awaited w) = some w' ∧ w'.phase = .running ∧
      handleView w'.log = handleView w.log ∧ w'.client.objects = w.client.objects ∧
      w'.client.state = .idle ∧
      dispatched w'.log = heard w.client.eventHandler [.deregistered] ++ dispatched w.log := by
  by_cases hreg : w.client.state = .registered ∧ w.client.regLocation ≠ []
  · rw [awaited, if_pos hreg]
    refine ⟨_, run_stop_of_registered fp hphase hreg.1 hreg.2 deleteErr, rfl, ?_⟩
    simp [stopSent]
  · have hstep : step fp w (.stop deleteErr) =
        some (w.record (.called .stop)).stopUpdateTimer.finishStop := by
      rw [step, if_pos hphase, stopBegin_of_not_registered (w := w.record (.called .stop)) hreg]
    rw [awaited, if_neg hreg]
    refine ⟨_, run_one hstep, rfl, ?_⟩
    simp

/-- **An idle client can be started**, whether it has a handle or not. -/
theorem live_start (fp : FloatOps) (hphase : w.phase = .running) (hstate : w.client.state = .idle)
    (hpayload : linkPayload w.client.objects ≠ none) : ∃ w',
      step fp w (.start true .ok) = some w' ∧ Live w' ∧ w'.client.state = .connecting ∧
        dispatched w'.log = dispatched w.log := by
  have hstep : step fp w (.start true .ok) =
      some (((w.record (.called .start)).start true .ok).2.record (.returned .start)) :=
    if_pos hphase
  generalize ((w.record (.called .start)).start true .ok).2.record (.returned .start) = w' at hstep
  refine ⟨w', hstep, ?_⟩
  have heffect := effect_of_step hstep
  cases heffect with
  | startRefused _ hs => exact absurd hstate hs
  | startFailed _ _ _ herr => exact absurd rfl herr
  | started cfg => exact ⟨⟨hphase, List.cons_ne_nil _ _, hpayload⟩, rfl, rfl⟩
  | updateRefused ha | updateSent ha => exact (updating_of_call ha).elim
  | stopWaits _ _ ha => exact (stopping_of_call ha).elim

/-! ### The traces of events -/

/-- **What the event handler can tell of the client**: that it is not registered, that it is
trying to register, or that it is registered. -/
inductive Session where
  | unregistered
  | registering
  | registered
deriving DecidableEq, Repr

/-- **The acceptor of traces.** -/
def Session.next : Session → EventType → Option Session
  | _, .connected => some .registering
  | _, .disconnected => some .unregistered
  | _, .deregistered => some .unregistered
  | .unregistered, .error => some .unregistered
  | .unregistered, _ => none
  | .registering, .registered => some .registered
  | .registering, .regFailed => some .unregistered
  -- an error that is not about the registration is reported after the registration has failed
  | .registering, .error => some .unregistered
  | .registering, _ => none
  | .registered, .bootstrapDone => none
  | .registered, .regFailed => some .unregistered
  | .registered, _ => some .registered

/-- The states of a client of which no more can be told. -/
def Session.Allows : Session → State → Prop
  | .unregistered, s => s = .idle ∨ s = .connecting ∨ s = .error
  | .registering, s => s = .registering ∨ s = .error
  | .registered, s => s.HasLocation ∨ s = .registering ∨ s = .error

instance (q : Session) : DecidablePred q.Allows := fun s => match q with
  | .unregistered => inferInstanceAs (Decidable (s = .idle ∨ s = .connecting ∨ s = .error))
  | .registering => inferInstanceAs (Decidable (s = .registering ∨ s = .error))
  | .registered => inferInstanceAs (Decidable (s.HasLocation ∨ s = .registering ∨ s = .error))

/-- The acceptor can follow the move. -/
def Session.Follows (q : Session) (report : Option EventType) (s : State) : Prop :=
  match report with
  | none => q.Allows s
  | some type => ∃ q', q.next type = some q' ∧ q'.Allows s

theorem Session.Allows.eq_registered {q : Session} {s : State} (h : q.Allows s)
    (hs : s.HasLocation) : q = .registered := by
  cases q with
  | registered => rfl
  | unregistered | registering => rcases hs with rfl | rfl | rfl <;> exact absurd h (by decide)

theorem Session.Allows.of_registering {q : Session} (h : q.Allows .registering) :
    q = .registering ∨ q = .registered := by
  cases q with
  | unregistered => exact absurd h (by decide)
  | registering => exact Or.inl rfl
  | registered => exact Or.inr rfl

/-- **The acceptor follows every move**, where an error that is only reported does not
belong to a registration that is being made. -/
theorem Session.follows_of_move {q : Session} {s s' : State} {report : Option EventType}
    (h : Move s report s') (herror : report = some .error → s ≠ .registering)
    (hs : q.Allows s) : q.Follows report s' := by
  cases h with
  | stay => exact hs
  | started =>
    cases q with
    | unregistered => exact Or.inr (Or.inl rfl)
    | registering | registered => exact absurd hs (by decide)
  | connected _ hs' => exact ⟨.registering, by cases q <;> rfl, hs'⟩
  | disconnected => exact ⟨.unregistered, by cases q <;> rfl, by decide⟩
  | stopped => exact ⟨.unregistered, by cases q <;> rfl, by decide⟩
  | registered =>
    rcases hs.of_registering with rfl | rfl
    · exact ⟨.registered, rfl, by decide⟩
    · exact ⟨.registered, rfl, by decide⟩
  | regFailed =>
    rcases hs.of_registering with rfl | rfl
    · exact ⟨.unregistered, rfl, by decide⟩
    · exact ⟨.unregistered, rfl, by decide⟩
  | updating | deregistering =>
    obtain rfl := hs.eq_registered (by decide)
    exact Or.inl (by decide)
  | updated =>
    obtain rfl := hs.eq_registered (by decide)
    exact ⟨.registered, rfl, by decide⟩
  | reregistering hs' =>
    obtain rfl := hs.eq_registered (by decide)
    exact Or.inr hs'
  | reported =>
    cases q with
    | unregistered => exact ⟨.unregistered, rfl, hs⟩
    | registering => exact ⟨.unregistered, rfl, Or.inr (Or.inr (hs.resolve_left (herror rfl)))⟩
    | registered => exact ⟨.registered, rfl, hs⟩

/-- While a registration is being made, an error is not just reported. -/
theorem not_error_of_effect (h : Effect w a w') (hstate : w.client.state = .registering) :
    dispatched w'.log ≠ .error :: dispatched w.log := by
  cases h with
  | connected hw' =>
    rw [hw'.dispatched_eq, dispatched_dispatchEvent]
    by_cases hhandler : w.client.eventHandler <;> simp [heard, hhandler]
  | updateRejected hs => exact absurd (hstate.symm.trans hs) (by decide)
  | reported hs => exact absurd hstate hs
  | _ => by_cases hhandler : w.client.eventHandler <;> simp [heard, hhandler]

theorem eventHandler_of_run {as : List (Action σ κ)} (hrun : run (step fp) w as = some w') :
    w'.client.eventHandler = w.client.eventHandler := by
  refine run_invariant_all (P := fun v => v.client.eventHandler = w.client.eventHandler)
    (fun v a v' hv h => ?_) rfl hrun
  exact (eventHandler_of_effect (effect_of_step h)).trans hv

/-- **Every trace is accepted.** -/
theorem reads_of_run {as : List (Action σ κ)} (hhandler : w.client.eventHandler = true)
    (hstate : w.client.state = .idle) (hlog : dispatched w.log = [])
    (hrun : run (step fp) w as = some w') : ∃ trace q,
      dispatched w'.log = trace.reverse ∧ reads Session.next .unregistered trace = some q := by
  have hstart : reads Session.next .unregistered [] = some .unregistered := rfl
  have hidle : w.client.eventHandler = true ∧ Session.unregistered.Allows w.client.state :=
    ⟨hhandler, Or.inl hstate⟩
  refine exists_reads_of_run (fun w => dispatched w.log)
    (fun (q : Session) w => w.client.eventHandler = true ∧ q.Allows w.client.state)
    (fun q v a v' hv h => ?_) hidle hlog hstart hrun
  have heffect := effect_of_step h
  have hkept : v'.client.eventHandler = true := (eventHandler_of_effect heffect).trans hv.1
  obtain ⟨report, hmove, hreport⟩ := moves_of_effect heffect
  rw [hv.1] at hreport
  have herror : report = some .error → v.client.state ≠ .registering := by
    rintro rfl hreg
    exact not_error_of_effect heffect hreg hreport
  have hfollows := Session.follows_of_move hmove herror hv.2
  cases report with
  | none => exact Or.inl ⟨hreport, hkept, hfollows⟩
  | some type =>
    obtain ⟨q', hnext, hallows⟩ := hfollows
    exact Or.inr ⟨type, q', hreport, hnext, hkept, hallows⟩

/-! ### Every accepted trace can be brought about -/

/-- What a client is to be before the next event. -/
inductive Pose where
  | outside
  | registering
  | registered
deriving DecidableEq, Repr

/-- The client stands so. -/
def Pose.Holds (i : Pose) (w : World σ κ ψ) : Prop :=
  Live w ∧ w.client.eventHandler = true ∧ match i with
    | .outside => w.client.state ≠ .registering
    | .registering => w.client.state = .registering
    | .registered => w.client.state = .registered ∧ w.client.regLocation ≠ []

/-- A client that is trying to register may have failed already. -/
def Session.Poses : Session → Pose → Prop
  | .unregistered, i => i = .outside
  | .registering, i => i ≠ .registered
  | .registered, i => i = .registered

theorem Session.exists_poses (q : Session) : ∃ i, q.Poses i := by
  cases q with
  | unregistered => exact ⟨.outside, rfl⟩
  | registering => exact ⟨.outside, by rintro ⟨⟩⟩
  | registered => exact ⟨.registered, rfl⟩

/-- The client can be brought from one to the other, and its handler sees the event. -/
def Shows (fp : FloatOps) (w : World σ κ ψ) (types : List EventType) (i : Pose) : Prop :=
  ∃ as w', run (step fp) w as = some w' ∧ i.Holds w' ∧
    dispatched w'.log = types ++ dispatched w.log

section Shows

variable (hw : Live w) (hhandler : w.client.eventHandler = true)
include hw hhandler

theorem shows_connected {i : Pose} (hi : i ≠ .registered) : Shows fp w [.connected] i := by
  cases i with
  | outside =>
    obtain ⟨w', hstep, hlive, hstate, hlog⟩ := hw.connect fp .fail
    have hrun : run (step fp) w [.event .connected .fail true] = some w' :=
      run_cons_eq_some hstep rfl
    refine ⟨_, w', hrun, ⟨hlive, (eventHandler_of_run hrun).trans hhandler, ?_⟩, ?_⟩
    · simp [hstate]
    · rwa [hhandler] at hlog
  | registering =>
    obtain ⟨w', hstep, hlive, hstate, hlog⟩ := hw.connect fp .ok
    have hrun : run (step fp) w [.event .connected .ok true] = some w' :=
      run_cons_eq_some hstep rfl
    refine ⟨_, w', hrun, ⟨hlive, (eventHandler_of_run hrun).trans hhandler, ?_⟩, ?_⟩
    · simp [hstate]
    · rwa [hhandler] at hlog
  | registered => exact absurd rfl hi

theorem shows_disconnected : Shows fp w [.disconnected] .outside := by
  obtain ⟨w', hstep, hlive, hstate, hlog⟩ := hw.disconnect fp
  have hrun : run (step fp) w [.event .disconnected .ok true] = some w' := run_one hstep
  refine ⟨_, w', hrun, ⟨hlive, (eventHandler_of_run hrun).trans hhandler, ?_⟩, ?_⟩
  · simp [hstate]
  · rwa [hhandler] at hlog

theorem shows_deregistered : Shows fp w [.deregistered] .outside := by
  obtain ⟨w', hrun, hphase, hview, hobjects, hstate, hlog⟩ := exists_run_stop fp hw.phase .ok
  have hlive := hw.congr hview hobjects hphase
  refine ⟨_, w', hrun, ⟨hlive, (eventHandler_of_run hrun).trans hhandler, ?_⟩, ?_⟩
  · simp [hstate]
  · rwa [hhandler] at hlog

theorem shows_registered (hstate : w.client.state = .registering) :
    Shows fp w [.registered] .registered := by
  obtain ⟨w', hstep, hlive, hstate, hloc, hlog⟩ := hw.accept fp hstate [] true
  have hrun : run (step fp) w
      [.event (.response (some ⟨some (ascii "/rd"), .created, []⟩)) .ok true] = some w' :=
    run_one hstep
  refine ⟨_, w', hrun, ⟨hlive, (eventHandler_of_run hrun).trans hhandler, hstate, ?_⟩, ?_⟩
  · rw [hloc]
    exact newLocation_ne_nil w []
  · rwa [hhandler] at hlog

theorem shows_regFailed (hstate : w.client.state = .registering) :
    Shows fp w [.regFailed] .outside := by
  obtain ⟨w', hstep, hlive, hstate, hlog⟩ := hw.fail fp hstate
  have hrun : run (step fp) w [.event (.error none) .ok true] = some w' := run_one hstep
  refine ⟨_, w', hrun, ⟨hlive, (eventHandler_of_run hrun).trans hhandler, ?_⟩, ?_⟩
  · simp [hstate]
  · rwa [hhandler] at hlog

theorem shows_regUpdated (hstate : w.client.state = .registered)
    (hloc : w.client.regLocation ≠ []) : Shows fp w [.regUpdated] .registered := by
  obtain ⟨v, hupdate, hv, hvstate, hvloc, hvlog⟩ := hw.update fp hstate hloc
  obtain ⟨w', hstep, hlive, hstate', hloc', hlog⟩ := hv.confirm fp hvstate
  have hsent : run (step fp) w [.updateRegistration .ok] = some v := run_one hupdate
  have hrun := run_append_eq_some hsent (run_one hstep)
  refine ⟨_, w', hrun, ⟨hlive, (eventHandler_of_run hrun).trans hhandler, hstate', ?_⟩, ?_⟩
  · rwa [hloc', hvloc]
  · rwa [hvlog, (eventHandler_of_run hsent).trans hhandler] at hlog

/-- An error that is only reported leaves the client as it stands. -/
theorem shows_error {i : Pose} (hi : i.Holds w) (hne : i ≠ .registering) :
    Shows fp w [.error] i := by
  have hstate : w.client.state ≠ .registering := by
    cases i with
    | outside => exact hi.2.2
    | registering => exact absurd rfl hne
    | registered =>
      rw [hi.2.2.1]
      decide
  obtain ⟨w', hstep, hlive, hclient, hlog⟩ := hw.report fp hstate
  refine ⟨_, w', run_one hstep, ⟨hlive, ?_⟩, ?_⟩
  · rw [hclient]
    exact hi.2
  · rwa [hhandler] at hlog

/-- A registered client is brought to register again, without a word: an update is refused. -/
theorem shows_nothing (hstate : w.client.state = .registered) (hloc : w.client.regLocation ≠ []) :
    Shows fp w [] .registering := by
  obtain ⟨v, hupdate, hv, hvstate, hvloc, hvlog⟩ := hw.update fp hstate hloc
  obtain ⟨w', hstep, hlive, hstate', hlog⟩ := hv.refuse fp hvstate
  have hsent : run (step fp) w [.updateRegistration .ok] = some v := run_one hupdate
  have hrun := run_append_eq_some hsent (run_one hstep)
  exact ⟨_, w', hrun, ⟨hlive, (eventHandler_of_run hrun).trans hhandler, hstate'⟩,
    hlog.trans hvlog⟩

end Shows

theorem Shows.trans {types types' : List EventType} {i i' : Pose} (h : Shows fp w types i)
    (h' : ∀ v : World σ κ ψ, i.Holds v → Shows fp v types' i') :
    Shows fp w (types' ++ types) i' := by
  obtain ⟨as, v, hrun, hv, hlog⟩ := h
  obtain ⟨bs, w', hrest, hi', hlog'⟩ := h' v hv
  refine ⟨as ++ bs, w', run_append_eq_some hrun hrest, hi', ?_⟩
  rw [hlog', hlog, List.append_assoc]

/-- **Every step of the acceptor can be brought about**, from some pose of the state before. -/
theorem exists_pose_shows {q q' : Session} {type : EventType} (hnext : q.next type = some q')
    {i' : Pose} (hi' : q'.Poses i') :
    ∃ i, q.Poses i ∧ ∀ w : World σ κ ψ, i.Holds w → Shows fp w [type] i' := by
  obtain ⟨i, hi⟩ := q.exists_poses
  cases type with
  | connected =>
    obtain rfl : Session.registering = q' := by cases q <;> exact Option.some.inj hnext
    exact ⟨i, hi, fun w hw => shows_connected hw.1 hw.2.1 hi'⟩
  | disconnected =>
    obtain rfl : Session.unregistered = q' := by cases q <;> exact Option.some.inj hnext
    obtain rfl : i' = .outside := hi'
    exact ⟨i, hi, fun w hw => shows_disconnected hw.1 hw.2.1⟩
  | deregistered =>
    obtain rfl : Session.unregistered = q' := by cases q <;> exact Option.some.inj hnext
    obtain rfl : i' = .outside := hi'
    exact ⟨i, hi, fun w hw => shows_deregistered hw.1 hw.2.1⟩
  | registered =>
    cases q with
    | unregistered => cases hnext
    | registering =>
      obtain rfl := Option.some.inj hnext
      obtain rfl : i' = .registered := hi'
      exact ⟨.registering, by rintro ⟨⟩, fun w hw => shows_registered hw.1 hw.2.1 hw.2.2⟩
    | registered =>
      obtain rfl := Option.some.inj hnext
      obtain rfl : i' = .registered := hi'
      refine ⟨.registered, rfl, fun w hw => ?_⟩
      exact (shows_nothing hw.1 hw.2.1 hw.2.2.1 hw.2.2.2).trans
        fun v hv => shows_registered hv.1 hv.2.1 hv.2.2
  | regFailed =>
    cases q with
    | unregistered => cases hnext
    | registering =>
      obtain rfl := Option.some.inj hnext
      obtain rfl : i' = .outside := hi'
      exact ⟨.registering, by rintro ⟨⟩, fun w hw => shows_regFailed hw.1 hw.2.1 hw.2.2⟩
    | registered =>
      obtain rfl := Option.some.inj hnext
      obtain rfl : i' = .outside := hi'
      refine ⟨.registered, rfl, fun w hw => ?_⟩
      exact (shows_nothing hw.1 hw.2.1 hw.2.2.1 hw.2.2.2).trans
        fun v hv => shows_regFailed hv.1 hv.2.1 hv.2.2
  | regUpdated =>
    cases q with
    | unregistered | registering => cases hnext
    | registered =>
      obtain rfl := Option.some.inj hnext
      obtain rfl : i' = .registered := hi'
      exact ⟨.registered, rfl,
        fun w hw => shows_regUpdated hw.1 hw.2.1 hw.2.2.1 hw.2.2.2⟩
  | error =>
    cases q with
    | unregistered | registering =>
      obtain rfl := Option.some.inj hnext
      obtain rfl : i' = .outside := hi'
      exact ⟨.outside, by first | rfl | rintro ⟨⟩,
        fun w hw => shows_error hw.1 hw.2.1 hw (by rintro ⟨⟩)⟩
    | registered =>
      obtain rfl := Option.some.inj hnext
      obtain rfl : i' = .registered := hi'
      exact ⟨.registered, rfl, fun w hw => shows_error hw.1 hw.2.1 hw (by rintro ⟨⟩)⟩
  | bootstrapDone => cases q <;> cases hnext

/-- **The traces of events are the words of the acceptor.** A list of events is what the
event handler of some run sees, from first to last, if and only if the acceptor reads it. -/
theorem event_traces_iff {config : ClientConfig ψ} {c : Client σ κ ψ}
    (hinit : init config = some c) (hhandler : config.eventHandler = true)
    (trace : List EventType) :
    (∃ as w, run (step fp) (World.initial c) as = some w ∧ dispatched w.log = trace.reverse) ↔
      (reads Session.next .unregistered trace).isSome := by
  have hc : (World.initial c).client.eventHandler = true :=
    (eventHandler_init hinit).trans hhandler
  have hidle : (World.initial c).client.state = .idle := (init_idle hinit).1
  constructor
  · rintro ⟨as, w, hrun, hlog⟩
    obtain ⟨trace', q, hlog', hread⟩ := reads_of_run hc hidle rfl hrun
    obtain rfl : trace = trace' := List.reverse_injective (hlog.symm.trans hlog')
    exact Option.isSome_iff_exists.mpr ⟨q, hread⟩
  · intro hread
    obtain ⟨q, hq⟩ := Option.isSome_iff_exists.mp hread
    obtain ⟨i, hi⟩ := q.exists_poses
    have hobjects : (World.initial c).client.objects = [] := by
      have hmade := congrArg Client.objects (asMade_init hinit)
      exact hmade.symm
    have hpayload : linkPayload (World.initial c).client.objects ≠ none := by
      rw [hobjects, linkPayload_eq]
      exact Option.some_ne_none _
    obtain ⟨v, hstart, hv, hstate, hlog⟩ := live_start (w := World.initial c) fp rfl hidle hpayload
    have hrun : run (step fp) (World.initial c) [.start true .ok] = some v := run_one hstart
    have hpose : Pose.Holds .outside v := by
      refine ⟨hv, (eventHandler_of_run hrun).trans hc, ?_⟩
      simp [hstate]
    obtain ⟨as, w, hrun', -, hseen⟩ := exists_run_of_reads (fun w => dispatched w.log)
      Pose.Holds Session.Poses (fun q o q' h i' hi' => exists_pose_shows h hi')
      (by
        rintro i rfl
        exact ⟨_, v, hrun, hpose, hlog⟩) hq hi
    exact ⟨as, w, hrun', hseen⟩

/-- A client that is registered, updated, re-registered after a refused update, and stopped:
the second registration is reported without a connection before it. -/
theorem event_traces_iff_sample : ∃ as w,
    run (step ieee754) (World.initial sampleClient) as = some w ∧ dispatched w.log =
      [.deregistered, .registered, .error, .regUpdated, .registered, .connected] :=
  (event_traces_iff init_sampleConfig rfl
    [.connected, .registered, .regUpdated, .error, .registered, .deregistered]).mpr rfl

/-! ### Recovery -/

/-- A client that has posted a registration has objects that fit one. -/
def Posted (w : World σ κ ψ) : Prop :=
  w.client.state.HasLocation ∨ w.client.state = .registering →
    linkPayload w.client.objects ≠ none

theorem posted_of_state {s : State} (h : w.client.state = s)
    (hs : ¬(s.HasLocation ∨ s = .registering) := by decide) : Posted w :=
  fun h' => absurd (h ▸ h') hs

theorem Posted.of_eq (hw : Posted w) {s : State} (hstate : w.client.state = s)
    (hobjects : w'.client.objects = w.client.objects)
    (hs : s.HasLocation ∨ s = .registering := by decide) : Posted w' := by
  intro _
  rw [hobjects]
  exact hw (hstate ▸ hs)

theorem Registers.posted_of {err : EspErr} (h : Registers w err w') : Posted w' := by
  cases h with
  | posted payload hpayload =>
    intro _ hnone
    exact absurd (hpayload.symm.trans hnone) (Option.some_ne_none payload)
  | noPayload => exact posted_of_state (s := .error) rfl

theorem posted_step (h : Effect w a w') (hw : Posted w) : Posted w' := by
  cases h with
  | addRefused | startRefused | updateRefused | notifyRefused | notified | noResponse | ignored =>
    exact hw
  -- objects are added to idle clients only
  | added hstate | startNoHandle _ _ hstate => exact posted_of_state hstate
  | startFailed => exact posted_of_state (s := .idle) rfl
  | started => exact posted_of_state (s := .connecting) rfl
  | updateSent _ hstate => exact hw.of_eq hstate rfl
  | stopWaits _ _ _ _ hstate => exact hw.of_eq hstate (by simp)
  | stopped | stopResumed | destroyedStopped | destroyResumed | deregistered =>
    exact posted_of_state (s := .idle) (by simp)
  | destroyed hphase hstate => exact posted_of_state (s := .idle) (by simpa using hstate)
  | connected hw' => exact hw'.posted_of
  | updateRejected hstate hcode hw' => exact hw'.posted_of
  | disconnected | rejected | failed => exact posted_of_state (s := .error) (by simp)
  | registered hstate => exact hw.of_eq hstate (by simp)
  | updated hstate => exact hw.of_eq hstate (by simp)
  | reported =>
    intro hs
    rw [dispatchEvent_client] at hs ⊢
    exact hw hs

/-- **Objects are never taken away.** -/
theorem objects_prefix_of_run {as : List (Action σ κ)} (hrun : run (step fp) w as = some w') :
    w.client.objects <+: w'.client.objects := by
  refine run_invariant_all (P := fun v => w.client.objects <+: v.client.objects)
    (fun v a v' hv h => ?_) (List.prefix_refl _) hrun
  rw [objects_of_step h]
  cases a with
  | addObject obj =>
    rw [accepted]
    split
    · exact hv.trans (List.prefix_append _ _)
    · exact hv
  | _ => exact hv

/-- What does not fit a registration never will, whatever is added. -/
theorem linkPayload_of_prefix {objects objects' : List (ObjectDef σ κ)}
    (h : objects <+: objects') (hfits : linkPayload objects' ≠ none) :
    linkPayload objects ≠ none := by
  obtain ⟨rest, rfl⟩ := h
  rw [linkPayload_eq] at hfits ⊢
  have hsum : ((objectLinks (objects ++ rest)).map linkLength).sum ≤ 512 := by
    by_contra hsum
    exact hfits (if_neg hsum)
  rw [objectLinks, List.flatMap_append, List.map_append, List.sum_append] at hsum
  have hle : ((objectLinks objects).map linkLength).sum ≤ 512 :=
    le_trans (Nat.le_add_right _ _) hsum
  rw [if_pos hle]
  exact Option.some_ne_none _

theorem newLocation_of_run {as : List (Action σ κ)} (hrun : run (step fp) w as = some w')
    (location : Text) : w'.newLocation location = w.newLocation location := by
  have hmade : w'.client.asMade = w.client.asMade := by
    refine run_invariant_all (P := fun v => v.client.asMade = w.client.asMade)
      (fun v a v' hv h => ?_) rfl hrun
    exact (asMade_of_effect (effect_of_step h)).trans hv
  have hname : w'.client.endpointName = w.client.endpointName := by
    have hsame := congrArg Client.endpointName hmade
    exact hsame
  rw [newLocation, newLocation, hname]

/-- **Stop and start again**: the stop with its wait, a start that succeeds, a connection,
and a server that accepts the registration. -/
def recovery (w : World σ κ ψ) (deleteErr : EspErr) (location : Text) (created : Bool) :
    List (Action σ κ) :=
  (.stop deleteErr :: awaited w) ++ [.start true .ok, .event .connected .ok true,
    .event (.response (some ⟨some (ascii "/rd"), .created, location⟩)) .ok created]

theorem exists_run_recovery (fp : FloatOps) (hphase : w.phase = .running)
    (hpayload : linkPayload w.client.objects ≠ none) (deleteErr : EspErr) (location : Text)
    (created : Bool) : ∃ w', run (step fp) w (recovery w deleteErr location created) = some w' ∧
      w'.client.state = .registered ∧ w'.client.regLocation = w.newLocation location := by
  obtain ⟨w₁, hstop, hphase₁, -, hobjects, hidle, -⟩ := exists_run_stop fp hphase deleteErr
  obtain ⟨w₂, hstart, hw₂, -, -⟩ := live_start fp hphase₁ hidle (hobjects ▸ hpayload)
  obtain ⟨w₃, hconnect, hw₃, hstate₃, -⟩ := hw₂.connect fp .ok
  obtain ⟨w', haccept, -, hstate, hloc, -⟩ := hw₃.accept fp hstate₃ location created
  have hbefore := run_append_eq_some hstop (run_cons_eq_some hstart (run_one hconnect))
  refine ⟨w', ?_, hstate, ?_⟩
  · exact run_append_eq_some hstop
      (run_cons_eq_some hstart (run_cons_eq_some hconnect (run_one haccept)))
  · rw [hloc, newLocation_of_run hbefore]

/-- **Whatever has happened to a client, stopping and starting it again brings it back**, if
anything does. In every state that can be reached in which no call is in progress, a stop,
a start, a connection and an accepted registration leave the client registered under the new
location exactly if its objects fit a registration; and if they do not, no run at all leads
from there to a registered client. -/
theorem recovery_registers_iff {config : ClientConfig ψ} {c : Client σ κ ψ}
    {as : List (Action σ κ)} (hinit : init config = some c)
    (hrun : run (step fp) (World.initial c) as = some w) (hphase : w.phase = .running)
    (deleteErr : EspErr) (location : Text) (created : Bool) :
    ((∃ w', run (step fp) w (recovery w deleteErr location created) = some w' ∧
        w'.client.state = .registered ∧ w'.client.regLocation = w.newLocation location) ↔
      ((objectLinks w.client.objects).map linkLength).sum ≤ 512) ∧
    ((∃ bs w', run (step fp) w bs = some w' ∧ w'.client.state = .registered) ↔
      ((objectLinks w.client.objects).map linkLength).sum ≤ 512) := by
  have hfits : linkPayload w.client.objects ≠ none ↔
      ((objectLinks w.client.objects).map linkLength).sum ≤ 512 := by
    rw [linkPayload_eq]
    split
    · next h => exact iff_of_true (Option.some_ne_none _) h
    · next h => exact iff_of_false (fun h' => h' rfl) h
  -- a client that gets registered has posted the objects it has now, and maybe more
  have honly (bs : List (Action σ κ)) (w' : World σ κ ψ) (hrest : run (step fp) w bs = some w')
      (hstate : w'.client.state = .registered) : linkPayload w.client.objects ≠ none := by
    have hposted : Posted w' := by
      refine run_invariant_all (fun v a v' hv h => ?_)
        (posted_of_state (s := .idle) (init_idle hinit).1) (run_append_eq_some hrun hrest)
      exact posted_step (effect_of_step h) hv
    have hfits' := hposted (Or.inl (Or.inl hstate))
    exact linkPayload_of_prefix (objects_prefix_of_run hrest) hfits'
  rw [← hfits]
  constructor
  · constructor
    · rintro ⟨w', hrest, hstate, -⟩
      exact honly _ w' hrest hstate
    · intro hpayload
      exact exists_run_recovery fp hphase hpayload deleteErr location created
  · constructor
    · rintro ⟨bs, w', hrest, hstate⟩
      exact honly bs w' hrest hstate
    · intro hpayload
      obtain ⟨w', hrest, hstate, -⟩ :=
        exists_run_recovery fp hphase hpayload deleteErr location created
      exact ⟨_, w', hrest, hstate⟩

/-- A client whose session was lost is registered again. -/
theorem recovery_registers_iff_sample : ∃ w w',
    run (step ieee754) (World.initial sampleClient)
      (registerActions ++ [.event .disconnected .ok true]) = some w ∧
    w.client.state = .error ∧
    run (step ieee754) w (recovery w .ok (ascii "/rd/2") true) = some w' ∧
    w'.client.state = .registered ∧ w'.client.regLocation = ascii "/rd/2" := by
  obtain ⟨w, hrun⟩ : ∃ w, run (step ieee754) (World.initial sampleClient)
    (registerActions ++ [.event .disconnected .ok true]) = some w := ⟨_, rfl⟩
  have hw : w.phase = .running ∧ w.client.state = .error ∧ w.client.objects = [] := by
    obtain rfl := Option.some.inj hrun
    exact ⟨rfl, rfl, rfl⟩
  obtain ⟨w', hrest, hstate, hloc⟩ := (recovery_registers_iff init_sampleConfig hrun hw.1 .ok
    (ascii "/rd/2") true).1.mpr (by simp [hw.2.2, objectLinks])
  refine ⟨w, w', hrun, hw.2.1, hrest, hstate, hloc.trans ?_⟩
  simp [newLocation, ascii, printText]

end WbLwm2m

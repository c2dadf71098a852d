import WbLwm2m.Log
import WbLwm2m.Registration

/-!
# Responses

Registrations, updates, deregistrations and notifications share one session and one event
handler, so that the answers to several requests may be on their way at once. The handler
tells the answer to a registration by its path. In the states updating and deregistering it
takes any response for the one it waits for.

A handled response is isolated if it leaves an updating or deregistering client alone
unless its path is the current location (`WbLwm2m.Isolated`). As the handler does not look
at the path there, this fails for every response that goes astray (`WbLwm2m.Astray`), and
`WbLwm2m.responses_isolated_iff` says so for runs.

Whether a response can go astray is decided earlier. A request is in flight from its
acceptance by the CoAP client until its answer has been handled or it has been given up
(`WbLwm2m.inFlight`); a lost session alone ends none. The CoAP client reports an answer
under a path that is determined by the path of the request; how, is a parameter, since a
registration is posted to a path with a query. If every response answers a request that is
in flight (`WbLwm2m.Answers`), it is enough that nothing else is in flight when the client
enters one of the two states (`WbLwm2m.EntersAlone`). What else is in flight there may be
answered next, and goes astray (`WbLwm2m.isolated_answers_iff`).
-/

namespace WbLwm2m

open World Transition

variable {σ κ ψ : Type} {w w' : World σ κ ψ} {a : Action σ κ} {fp : FloatOps}
  {reported : Text → Text}

/-! ### Requests in flight -/

/-- The paths of the requests that have been accepted and neither been answered nor given
up. -/
def inFlight (reported : Text → Text) : List (Entry ψ) → List Text
  | [] => []
  | .coapPost _ path _ _ .ok :: log => path :: inFlight reported log
  | .coapDelete _ path .ok :: log => path :: inFlight reported log
  | .handled (.response (some ⟨some answered, _, _⟩)) :: log =>
    (inFlight reported log).eraseP fun path => reported path = answered
  | .handled (.error (some path)) :: log => (inFlight reported log).erase path
  | _ :: log => inFlight reported log

@[simp] theorem inFlight_cons {e : Entry ψ} (he : e.topic ≠ .request ∧ e.topic ≠ .event)
    (log : List (Entry ψ)) : inFlight reported (e :: log) = inFlight reported log := by
  cases e <;> first | rfl | exact absurd rfl he.1 | exact absurd rfl he.2

theorem inFlight_coapDelete (h : Option ℕ) (path : Text) (err : EspErr) (log : List (Entry ψ)) :
    inFlight reported (.coapDelete h path err :: log) =
      if err = .ok then path :: inFlight reported log else inFlight reported log := by
  cases err <;> rfl

theorem inFlight_dispatchEvent (w : World σ κ ψ) (type : EventType) :
    inFlight reported (w.dispatchEvent type).log = inFlight reported w.log :=
  apply_dispatchEvent w type fun _ _ => by simp

theorem inFlight_stopUpdateTimer (w : World σ κ ψ) :
    inFlight reported w.stopUpdateTimer.log = inFlight reported w.log :=
  apply_stopUpdateTimer w (fun _ _ => by simp) fun _ _ => by simp

/-! ### Isolation -/

/-- The states in which the handler waits for the answer to a request to the location. -/
def State.AwaitsLocation (s : State) : Prop := s = .updating ∨ s = .deregistering

instance : DecidablePred State.AwaitsLocation := fun s =>
  inferInstanceAs (Decidable (s = .updating ∨ s = .deregistering))

/-- **A response only affects the exchange it answers**: a response that is handled while
the client is updating or deregistering, and whose path is not the location, leaves state
and location alone and dispatches nothing. -/
def Isolated (w : World σ κ ψ) (a : Action σ κ) (w' : World σ κ ψ) : Prop :=
  match a with
  | .event (.response (some resp)) _ _ =>
    w.client.state.AwaitsLocation → resp.requestPath ≠ some w.client.regLocation →
      w'.client.state = w.client.state ∧ w'.client.regLocation = w.client.regLocation ∧
        dispatched w'.log = dispatched w.log
  | _ => True

/-- The action is a response to another exchange than the one the client waits for. -/
def Astray (w : World σ κ ψ) : Action σ κ → Prop
  | .event (.response (some resp)) _ _ =>
    w.client.state.AwaitsLocation ∧ resp.requestPath ≠ some w.client.regLocation
  | _ => False

instance (w : World σ κ ψ) (a : Action σ κ) : Decidable (Astray w a) := match a with
  | .event (.response (some resp)) _ _ => inferInstanceAs (Decidable
    (w.client.state.AwaitsLocation ∧ resp.requestPath ≠ some w.client.regLocation))
  | .event (.response none) _ _ | .event .connected _ _ | .event .disconnected _ _
  | .event (.error _) _ _ | .addObject _ | .start _ _ | .updateRegistration _ | .stop _
  | .destroy _ | .resume | .notify _ _ _ _ _ | .timer _ _ => instDecidableFalse

/-- Any response changes the state of a client that is updating or deregistering. -/
theorem state_ne_of_response {resp : CoapResponse} {err : EspErr} {created : Bool}
    (h : Effect w (.event (.response (some resp)) err created) w')
    (hw : w.client.state.AwaitsLocation) : w'.client.state ≠ w.client.state := by
  have hne : w.client.state ≠ .registering := by
    intro hreg
    exact absurd (hreg ▸ hw) (by decide)
  cases h with
  | updateRefused ha | updateSent ha => exact (updating_of_call ha).elim
  | stopWaits _ _ ha => exact (stopping_of_call ha).elim
  | ignored hreg hupd hdereg => exact (hw.elim hupd hdereg).elim
  | registered hstate | rejected hstate => exact absurd hstate hne
  | updated hstate => simp [hstate]
  | updateRejected hstate hcode hw' =>
    rw [hstate]
    exact hw'.state_ne
  | deregistered hstate => simp [hstate]

/-- **The step**: exactly the responses that go astray are not isolated. -/
theorem isolated_iff (h : Effect w a w') : Isolated w a w' ↔ ¬Astray w a := by
  unfold Isolated Astray
  split
  · constructor
    · rintro hisolated ⟨hw, hpath⟩
      exact state_ne_of_response h hw (hisolated hw hpath).1
    · intro hastray hw hpath
      exact absurd ⟨hw, hpath⟩ hastray
  · exact iff_of_true trivial not_false

/-! ### In flight to the location -/

/-- While the client is updating or deregistering, the answers to the requests in flight are
reported under the location. -/
def FlightToLocation (reported : Text → Text) (w : World σ κ ψ) : Prop :=
  w.client.state.AwaitsLocation →
    ∀ path ∈ inFlight reported w.log, reported path = w.client.regLocation

theorem flightToLocation_of_state {s : State} (h : w.client.state = s)
    (hs : ¬s.AwaitsLocation := by decide) : FlightToLocation reported w :=
  fun h' => absurd (h ▸ h') hs

theorem FlightToLocation.congr (hw : FlightToLocation reported w)
    (hstate : w'.client.state = w.client.state)
    (hloc : w'.client.regLocation = w.client.regLocation)
    (hflight : ∀ path ∈ inFlight reported w'.log, path ∈ inFlight reported w.log) :
    FlightToLocation reported w' := by
  intro h path hpath
  rw [hloc]
  exact hw (hstate ▸ h) path (hflight path hpath)

theorem Registers.flightToLocation {err : EspErr} (h : Registers w err w') :
    FlightToLocation reported w' := by
  rcases h.state_eq with hs | hs
  · exact flightToLocation_of_state hs
  · exact flightToLocation_of_state hs

/-! ### Entering alone -/

/-- The requests in flight behind a request to the location that the CoAP client answers
with `err`. -/
def flightWith (reported : Text → Text) (w : World σ κ ψ) (err : EspErr) : List Text :=
  if err = .ok then w.client.regLocation :: inFlight reported w.log
  else inFlight reported w.log

/-- **The client enters updating and deregistering alone**: when an update is accepted, or
a registered client is stopped, all requests then in flight are reported under the
location. -/
def EntersAlone (reported : Text → Text) (w : World σ κ ψ) : Action σ κ → Prop
  | .updateRegistration err | .timer _ err =>
    w.client.state = .registered → w.client.regLocation ≠ [] → err = .ok →
      ∀ path ∈ flightWith reported w err, reported path = w.client.regLocation
  | .stop err | .destroy err =>
    w.client.state = .registered → w.client.regLocation ≠ [] →
      ∀ path ∈ flightWith reported w err, reported path = w.client.regLocation
  | _ => True

instance (w : World σ κ ψ) (a : Action σ κ) : Decidable (EntersAlone reported w a) := match a with
  | .updateRegistration err | .timer _ err => inferInstanceAs (Decidable
    (w.client.state = .registered → w.client.regLocation ≠ [] → err = .ok →
      ∀ path ∈ flightWith reported w err, reported path = w.client.regLocation))
  | .stop err | .destroy err => inferInstanceAs (Decidable
    (w.client.state = .registered → w.client.regLocation ≠ [] →
      ∀ path ∈ flightWith reported w err, reported path = w.client.regLocation))
  | .addObject _ | .start _ _ | .resume | .notify _ _ _ _ _ | .event _ _ _ => instDecidableTrue

/-- What is in flight once the deregistration has been handed over. -/
theorem inFlight_stopWaits (reported : Text → Text) (w : World σ κ ψ) (api : Api) (err : EspErr) :
    inFlight reported (.delay 500 :: .coapDelete w.client.coap w.client.regLocation err ::
      (w.record (.called api)).stopUpdateTimer.log) = flightWith reported w err := by
  have hstop : inFlight reported (w.record (.called api)).stopUpdateTimer.log =
      inFlight reported w.log := by
    rw [inFlight_stopUpdateTimer]
    rfl
  rw [inFlight_cons (by simp), inFlight_coapDelete, hstop, flightWith]

/-- **The step**: a client that enters the two states alone has nothing else in flight
there. -/
theorem flightToLocation_step (h : Effect w a w') (hw : FlightToLocation reported w)
    (ha : EntersAlone reported w a) : FlightToLocation reported w' := by
  cases h with
  | addRefused | notifyRefused | updateRefused => exact hw
  | added => exact hw.congr rfl rfl fun _ h => h
  | startRefused => exact hw.congr rfl rfl (by simp)
  | startNoHandle cfg hphase hstate => exact flightToLocation_of_state (s := .idle) hstate
  | startFailed => exact flightToLocation_of_state (s := .idle) rfl
  | started => exact flightToLocation_of_state (s := .connecting) rfl
  -- entering updating: the post is in flight itself, if it has been accepted
  | @updateSent a err hcall hstate hloc =>
    by_cases herr : err = .ok
    · subst herr
      rcases hcall with rfl | ⟨t, -, rfl⟩
      · exact fun _ => ha hstate hloc rfl
      · exact fun _ => ha hstate hloc rfl
    · exact flightToLocation_of_state (s := .registered) (by simp [herr])
  | notified payload hstate => exact flightToLocation_of_state (s := .registered) hstate
  -- entering deregistering, whether the delete request has been accepted or not
  | @stopWaits a err api inDestroy hcall hphase hstate hloc =>
    have hflight := inFlight_stopWaits reported w api err
    have hkept : ((w.record (.called api)).stopUpdateTimer).client.regLocation =
        w.client.regLocation := by simp
    intro _ path hpath
    have hmem : path ∈ flightWith reported w err := hflight ▸ hpath
    refine Eq.trans ?_ hkept.symm
    rcases hcall with ⟨rfl, -⟩ | ⟨rfl, -⟩
    · exact ha hstate hloc path hmem
    · exact ha hstate hloc path hmem
  | stopped | stopResumed | destroyedStopped | destroyResumed | deregistered =>
    exact flightToLocation_of_state (s := .idle) (by simp)
  | destroyed hphase hstate =>
    exact flightToLocation_of_state (s := .idle) (by simpa using hstate)
  | connected hw' => exact hw'.flightToLocation
  | updateRejected hstate hcode hw' => exact hw'.flightToLocation
  | disconnected | rejected | failed => exact flightToLocation_of_state (s := .error) (by simp)
  | registered | updated => exact flightToLocation_of_state (s := .registered) (by simp)
  | noResponse => exact hw.congr rfl rfl fun _ h => h
  | ignored hreg hupd hdereg =>
    refine flightToLocation_of_state (s := w.client.state) rfl fun h => ?_
    rcases h with h | h
    · exact hupd h
    · exact hdereg h
  -- a request that is given up is no longer in flight
  | @reported lost err created hstate =>
    refine hw.congr (by simp) (by simp) fun path hpath => ?_
    rw [inFlight_dispatchEvent] at hpath
    cases lost with
    | none => exact hpath
    | some p => exact List.mem_of_mem_erase hpath

/-- **A response answers a request that is in flight**, and says so by its path. -/
def Answers (reported : Text → Text) (w : World σ κ ψ) : Action σ κ → Prop
  | .event (.response (some resp)) _ _ =>
    ∃ path ∈ inFlight reported w.log, resp.requestPath = some (reported path)
  | _ => True

instance (w : World σ κ ψ) (a : Action σ κ) : Decidable (Answers reported w a) := match a with
  | .event (.response (some resp)) _ _ => inferInstanceAs (Decidable
    (∃ path ∈ inFlight reported w.log, resp.requestPath = some (reported path)))
  | .event (.response none) _ _ | .event .connected _ _ | .event .disconnected _ _
  | .event (.error _) _ _ | .addObject _ | .start _ _ | .updateRegistration _ | .stop _
  | .destroy _ | .resume | .notify _ _ _ _ _ | .timer _ _ => instDecidableTrue

/-- Where nothing else is in flight, no answer goes astray. -/
theorem FlightToLocation.not_astray (hw : FlightToLocation reported w)
    (ha : Answers reported w a) : ¬Astray w a := by
  unfold Astray Answers at *
  split at ha
  · rintro ⟨hstate, hne⟩
    obtain ⟨path, hpath, heq⟩ := ha
    exact hne (heq.trans (congrArg some (hw hstate path hpath)))
  · exact not_false

/-- **The answers to what is in flight** are isolated exactly if all of it is in flight to the
location: an answer that is reported under another path may be the next event. -/
theorem isolated_answers_iff (hphase : w.phase ≠ .destroyed) (hlive : liveHandles w.log ≠ []) :
    (∀ a w', Answers reported w a → step fp w a = some w' → Isolated w a w') ↔
      FlightToLocation reported w := by
  constructor
  · intro hisolated hstate path hpath
    by_contra hne
    obtain ⟨resp, hresp⟩ : ∃ resp : CoapResponse, resp = ⟨some (reported path), .changed, []⟩ :=
      ⟨_, rfl⟩
    have hnot : ¬(w.phase = .destroyed ∨ liveHandles w.log = []) :=
      fun h => h.elim hphase hlive
    have hstep : step fp w (.event (.response (some resp)) .ok true) =
        some ((w.record (.handled (.response (some resp)))).coapEventHandler
          (.response (some resp)) .ok true) := by
      rw [step, if_neg hnot]
    have hanswers : Answers reported w (.event (.response (some resp)) .ok true) :=
      ⟨path, hpath, by rw [hresp]⟩
    have hastray : Astray w (.event (.response (some resp)) .ok true) := by
      refine ⟨hstate, fun h => hne ?_⟩
      rw [hresp] at h
      exact Option.some.inj h
    exact (isolated_iff (effect_of_step hstep)).mp (hisolated _ _ hanswers hstep) hastray
  · intro hw a w' ha h
    exact (isolated_iff (effect_of_step h)).mpr (hw.not_astray ha)

/-- **Responses are isolated exactly when none goes astray.** In every run, all handled
responses are isolated if and only if no response whose path is not the current location is
handled while the client is updating or deregistering. If every response answers a request
in flight, that is so whenever the client enters the two states alone: when an update is
accepted or a registered client is stopped, all requests then in flight are reported under
the location, and no notification among them. -/
theorem responses_isolated_iff (reported : Text → Text)
    {config : ClientConfig ψ} {c : Client σ κ ψ} (hinit : init config = some c)
    (as : List (Action σ κ)) :
    (Along (step fp) (fun w a w' => Isolated w a w') (World.initial c) as ↔
      Along (step fp) (fun w a _ => ¬Astray w a) (World.initial c) as) ∧
    (Along (step fp) (fun w a _ => Answers reported w a ∧ EntersAlone reported w a)
        (World.initial c) as →
      Along (step fp) (fun w a w' => Isolated w a w') (World.initial c) as) := by
  constructor
  · refine along_step_iff (J := fun _ => True) (fun _ _ _ _ _ => trivial) ?_ trivial as
    exact fun w a w' _ h => isolated_iff (effect_of_step h)
  · refine along_of_condition (J := FlightToLocation reported) (fun w a w' hw ha h => ?_)
      (fun w a w' hw ha h => ?_) (flightToLocation_of_state (s := .idle) (init_idle hinit).1)
    · exact flightToLocation_step (effect_of_step h) hw ha.2
    · exact (isolated_iff (effect_of_step h)).mpr (hw.not_astray ha.1)

/-- A path without its query, as the CoAP client reports it. -/
def withoutQuery (path : Text) : Text := path.takeWhile (· ≠ 0x3F)

/-- The run in which an update is sent by the timer and answered, and the client is stopped
and the deregistration answered in the wait. -/
def answeredActions : List (Action Unit Unit) :=
  registerActions ++ [.timer 0 .ok,
    .event (.response (some ⟨some (ascii "/rd/1"), .changed, []⟩)) .ok true, .stop .ok,
    .event (.response (some ⟨some (ascii "/rd/1"), .other 0x42, []⟩)) .ok true, .resume]

/-- The client goes through both states, enters them alone, and gets its own answers. -/
theorem responses_isolated_iff_sample :
    Along (step ieee754) (fun w a w' => Isolated w a w') (World.initial sampleClient)
        answeredActions ∧
      Along (step ieee754) (fun w a _ => Answers withoutQuery w a ∧ EntersAlone withoutQuery w a)
        (World.initial sampleClient) answeredActions ∧
      ∃ w, run (step ieee754) (World.initial sampleClient) answeredActions = some w ∧
        dispatched w.log = [.deregistered, .deregistered, .regUpdated, .registered, .connected] :=
  ⟨(responses_isolated_iff withoutQuery init_sampleConfig _).1.mpr (by decide), by decide, _,
    rfl, rfl⟩

/-- The run in which the answer to a notification of `/3/0/9` is still missing when the
keep-alive timer sends an update. -/
def notifyThenUpdate : List (Action Unit Unit) :=
  .addObject sampleObject :: registerActions ++ [.notify 3 0 9 () .ok, .timer 0 .ok]

/-- **The answer to a notification completes an update**: the response to `/3/0/9` takes the
client from updating to registered, and the update is reported as successful. -/
theorem notification_completes_update : ∃ w w',
    run (step ieee754) (World.initial sampleClient) notifyThenUpdate = some w ∧
      ascii "/3/0/9" ∈ inFlight withoutQuery w.log ∧
      w.client.state = .updating ∧ w.client.regLocation = ascii "/rd/1" ∧
      step ieee754 w (.event (.response (some ⟨some (ascii "/3/0/9"), .changed, []⟩)) .ok true) =
        some w' ∧
      ¬Isolated w (.event (.response (some ⟨some (ascii "/3/0/9"), .changed, []⟩)) .ok true) w' ∧
      w'.client.state = .registered ∧ dispatched w'.log = .regUpdated :: dispatched w.log := by
  obtain ⟨w, hrun⟩ : ∃ w, run (step ieee754) (World.initial sampleClient) notifyThenUpdate =
    some w := ⟨_, rfl⟩
  obtain ⟨w', hstep⟩ : ∃ w', step ieee754 w
      (.event (.response (some ⟨some (ascii "/3/0/9"), .changed, []⟩)) .ok true) = some w' := by
    obtain rfl := Option.some.inj hrun
    exact ⟨_, rfl⟩
  have hw : w.client.state = .updating ∧ w.client.regLocation = ascii "/rd/1" ∧
      inFlight withoutQuery w.log = [ascii "/rd/1", ascii "/3/0/9"] := by
    obtain rfl := Option.some.inj hrun
    exact ⟨rfl, rfl, rfl⟩
  have hw' : w'.client.state = .registered ∧
      dispatched w'.log = .regUpdated :: dispatched w.log := by
    obtain rfl := Option.some.inj hrun
    obtain rfl := Option.some.inj hstep
    exact ⟨rfl, rfl⟩
  obtain ⟨hstate, hloc, hflight⟩ := hw
  have hmem : ascii "/3/0/9" ∈ inFlight withoutQuery w.log := by
    rw [hflight]
    decide
  refine ⟨w, w', hrun, hmem, hstate, hloc, hstep, fun h => ?_, hw'⟩
  have hpath : some (ascii "/3/0/9") ≠ some w.client.regLocation := by
    rw [hloc]
    decide
  obtain ⟨hkept, -⟩ := h (Or.inl hstate) hpath
  exact absurd (hw'.1.symm.trans (hkept.trans hstate)) (by decide)

end WbLwm2m

import WbLwm2m.Log

/-!
# Failures

A client that gets into its error state should say so, with the event of a lost session or
of a failed registration. The handler writes the state error in three branches and reports
it in each. `send_registration` writes it too, when the payload does not fit or the post is
refused, and reports nothing; its two callers do not look at what it returns.
`WbLwm2m.failures_reported_iff`: these are the silent failures, and there are no others.
-/

namespace WbLwm2m

open World Transition

variable {σ κ ψ : Type} {w w' : World σ κ ψ} {a : Action σ κ} {fp : FloatOps}

/-- **A failure is reported**: a step that leads to error, from another state, reports a lost
session or a failed registration. -/
def FailureReported (w w' : World σ κ ψ) : Prop :=
  w.client.state ≠ .error → w'.client.state = .error →
    ∃ types, dispatched w'.log = types ++ dispatched w.log ∧
      (.disconnected ∈ types ∨ .regFailed ∈ types)

/-- A registration can be sent: its payload fits, and the post is accepted. -/
def CanRegister (c : Client σ κ ψ) (postErr : EspErr) : Prop :=
  linkPayload c.objects ≠ none ∧ postErr = .ok

/-- What would fail silently does not fail: the registration of a client that is connected
while it is not in error, and the one after a rejected update. -/
def RegistersAloud (w : World σ κ ψ) : Action σ κ → Prop
  | .event .connected postErr _ => w.client.state ≠ .error → CanRegister w.client postErr
  | .event (.response (some resp)) postErr _ =>
    w.client.state = .updating → resp.code ≠ .changed → CanRegister w.client postErr
  | _ => True

theorem Registers.error_iff {err : EspErr} (h : Registers w err w') :
    w'.client.state = .error ↔ ¬CanRegister w.client err := by
  cases h with
  | posted payload hpayload =>
    by_cases herr : err = .ok
    · exact iff_of_false (by simp [herr]) (by simp [CanRegister, hpayload, herr])
    · exact iff_of_true (by simp [herr]) (by simp [CanRegister, herr])
  | noPayload hpayload => exact iff_of_true rfl (by simp [CanRegister, hpayload])

theorem failureReported_of_ne {s : State} (h : w'.client.state = s)
    (hs : s ≠ .error := by decide) : FailureReported w w' :=
  fun _ h' => absurd (h.symm.trans h') hs

theorem failureReported_of_eq (h : w'.client.state = w.client.state) : FailureReported w w' :=
  fun hw hw' => absurd (h.symm.trans hw') hw

/-- A step that reports other events fails unless it does not lead to error. -/
theorem failureReported_iff {types : List EventType}
    (hlog : dispatched w'.log = types ++ dispatched w.log)
    (htypes : .disconnected ∉ types ∧ .regFailed ∉ types) :
    FailureReported w w' ↔ (w.client.state ≠ .error → w'.client.state ≠ .error) := by
  constructor
  · intro h hw hw'
    obtain ⟨types', hlog', htypes'⟩ := h hw hw'
    obtain rfl : types = types' := List.append_cancel_right (hlog.symm.trans hlog')
    rcases htypes' with h | h
    · exact htypes.1 h
    · exact htypes.2 h
  · exact fun h hw hw' => absurd hw' (h hw)

theorem failureReported_of_log {type : EventType} (hhandler : w.client.eventHandler = true)
    (hlog : dispatched w'.log = heard w.client.eventHandler [type] ++ dispatched w.log)
    (htype : type = .disconnected ∨ type = .regFailed) : FailureReported w w' := by
  intro _ _
  refine ⟨[type], ?_, ?_⟩
  · rw [hlog, hhandler]
    rfl
  · rcases htype with rfl | rfl
    · exact Or.inl (List.mem_singleton.mpr rfl)
    · exact Or.inr (List.mem_singleton.mpr rfl)

/-- **The step**: a failure is silent exactly if it is one of a registration that cannot be
sent. -/
theorem failureReported_step_iff (h : Effect w a w') (hhandler : w.client.eventHandler = true) :
    FailureReported w w' ↔ RegistersAloud w a := by
  cases h with
  | addRefused | added | startRefused | startNoHandle | notifyRefused | notified | noResponse =>
    exact iff_of_true (failureReported_of_eq rfl) trivial
  | startFailed => exact iff_of_true (failureReported_of_ne (s := .idle) rfl) trivial
  | started => exact iff_of_true (failureReported_of_ne (s := .connecting) rfl) trivial
  | updateRefused ha =>
    rcases ha with rfl | ⟨t, -, rfl⟩
    · exact iff_of_true (failureReported_of_eq rfl) trivial
    · exact iff_of_true (failureReported_of_eq rfl) trivial
  | @updateSent a err ha =>
    have hne : FailureReported w ((w.record (.coapPost w.client.coap w.client.regLocation none .zero
        err)).setState (if err = .ok then .updating else .registered)) := by
      by_cases herr : err = .ok
      · exact failureReported_of_ne (s := .updating) (by simp [herr])
      · exact failureReported_of_ne (s := .registered) (by simp [herr])
    rcases ha with rfl | ⟨t, -, rfl⟩
    · exact iff_of_true hne trivial
    · exact iff_of_true hne trivial
  | stopWaits api inDestroy ha =>
    rcases ha with ⟨rfl, -⟩ | ⟨rfl, -⟩
    · exact iff_of_true (failureReported_of_ne (s := .deregistering) rfl) trivial
    · exact iff_of_true (failureReported_of_ne (s := .deregistering) rfl) trivial
  | stopped | destroyedStopped | stopResumed | destroyResumed =>
    exact iff_of_true (failureReported_of_ne (s := .idle) (by simp)) trivial
  | destroyed => exact iff_of_true (failureReported_of_eq (by simp)) trivial
  -- the two callers of `send_registration`
  | connected hw' =>
    have hlog : dispatched w'.log = [.connected] ++ dispatched w.log := by
      rw [hw'.dispatched_eq]
      simp [heard, hhandler]
    rw [failureReported_iff hlog (by simp), ne_eq, ne_eq, hw'.error_iff, not_not,
      dispatchEvent_client]
    exact Iff.rfl
  | updateRejected hstate hcode hw' =>
    have hlog : dispatched w'.log = [] ++ dispatched w.log := by
      rw [hw'.dispatched_eq]
      rfl
    rw [failureReported_iff hlog (by simp), ne_eq, ne_eq, hw'.error_iff, not_not]
    have hne : w.client.state ≠ .error := by simp [hstate]
    exact ⟨fun h _ _ => h hne, fun h _ => h hstate hcode⟩
  | disconnected =>
    exact iff_of_true (failureReported_of_log hhandler (by simp) (Or.inl rfl)) trivial
  | ignored hreg hupd =>
    exact iff_of_true (failureReported_of_eq rfl) fun h => absurd h hupd
  | registered hstate =>
    refine iff_of_true (failureReported_of_ne (s := .registered) (by simp)) fun h => ?_
    exact absurd (hstate.symm.trans h) (by decide)
  | rejected hstate =>
    refine iff_of_true (failureReported_of_log hhandler (by simp) (Or.inr rfl)) fun h => ?_
    exact absurd (hstate.symm.trans h) (by decide)
  | updated hstate hcode =>
    refine iff_of_true (failureReported_of_ne (s := .registered) (by simp)) fun _ h => ?_
    exact absurd hcode h
  | deregistered hstate =>
    refine iff_of_true (failureReported_of_ne (s := .idle) (by simp)) fun h => ?_
    exact absurd (hstate.symm.trans h) (by decide)
  | failed => exact iff_of_true (failureReported_of_log hhandler (by simp) (Or.inr rfl)) trivial
  | reported => exact iff_of_true (failureReported_of_eq (by simp)) trivial

/-- **Failures are reported exactly if no registration fails to be sent.** In every run of a
client with an event handler, each step that leads to error from another state reports a
lost session or a failed registration, if and only if the payload of the registration fits
and its post is accepted whenever a client that is not in error is connected, and whenever
an update is rejected. -/
theorem failures_reported_iff {config : ClientConfig ψ} {c : Client σ κ ψ}
    (hinit : init config = some c) (hhandler : config.eventHandler = true)
    (as : List (Action σ κ)) :
    Along (step fp) (fun w _ w' => FailureReported w w') (World.initial c) as ↔
      Along (step fp) (fun w a _ => RegistersAloud w a) (World.initial c) as := by
  refine along_step_iff (J := fun w => w.client.eventHandler = true)
    (fun w a w' hJ h => ?_) (fun w a w' hJ h => ?_) ?_ as
  · exact (eventHandler_of_effect (effect_of_step h)).trans hJ
  · exact failureReported_step_iff (effect_of_step h) hJ
  · exact (eventHandler_init hinit).trans hhandler

/-- A run in which the session is lost. -/
theorem failures_reported_iff_sample :
    Along (step ieee754) (fun w _ w' => FailureReported w w') (World.initial sampleClient)
      [.start true .ok, .event .connected .ok true, .event .disconnected .ok true] := by
  refine (failures_reported_iff init_sampleConfig rfl _).mpr ?_
  intro w₁ h₁
  obtain rfl := Option.some.inj h₁
  refine ⟨trivial, ?_⟩
  intro w₂ _
  refine ⟨fun _ => ⟨Option.some_ne_none _, rfl⟩, ?_⟩
  intro w₃ _
  exact ⟨trivial, trivial⟩

/-- **A refused registration fails silently**: the client gets into its error state, and only
the connection is reported. -/
theorem refused_registration_is_silent : ∃ w w',
    run (step ieee754) (World.initial sampleClient) [.start true .ok] = some w ∧
      step ieee754 w (.event .connected .fail true) = some w' ∧
      w.client.state = .connecting ∧ w'.client.state = .error ∧
      dispatched w'.log = .connected :: dispatched w.log ∧ ¬FailureReported w w' := by
  obtain ⟨w, hrun⟩ : ∃ w, run (step ieee754) (World.initial sampleClient) [.start true .ok] =
    some w := ⟨_, rfl⟩
  obtain ⟨w', hstep⟩ : ∃ w', step ieee754 w (.event .connected .fail true) = some w' := by
    obtain rfl := Option.some.inj hrun
    exact ⟨_, rfl⟩
  have hstates : w.client.state = .connecting ∧ w'.client.state = .error ∧
      dispatched w'.log = .connected :: dispatched w.log := by
    obtain rfl := Option.some.inj hrun
    obtain rfl := Option.some.inj hstep
    exact ⟨rfl, rfl, rfl⟩
  obtain ⟨hw, hw', hlog⟩ := hstates
  have hlog' : dispatched w'.log = [.connected] ++ dispatched w.log := hlog
  refine ⟨w, w', hrun, hstep, hw, hw', hlog, fun h => ?_⟩
  exact (failureReported_iff hlog' (by simp)).mp h (by simp [hw]) hw'

end WbLwm2m

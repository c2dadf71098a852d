import WbLwm2m.Log

/-!
# The state machine

What a client looks like from outside: a state, and the events it reports. The moves of
this machine (`WbLwm2m.Move`) leave out everything else, locations, timers and requests;
`WbLwm2m.moves_of_effect` says that every step of the client is a move, and that its log
gets the event of the move if there is an event handler. What the trace of events says about
the state is then a matter of the machine alone.
-/

namespace WbLwm2m

open World Transition

variable {σ κ ψ : Type} {w w' : World σ κ ψ} {a : Action σ κ}

/-- **A move**: the state before, the event that is reported, if any, and the state after. -/
inductive Move : State → Option EventType → State → Prop
  | stay (s : State) : Move s none s
  | started : Move .idle none .connecting
  /-- A connected client registers, whatever its state. -/
  | connected (s : State) {s' : State} (h : s' = .registering ∨ s' = .error) :
    Move s (some .connected) s'
  | disconnected (s : State) : Move s (some .disconnected) .error
  | registered : Move .registering (some .registered) .registered
  | regFailed : Move .registering (some .regFailed) .error
  | updating : Move .registered none .updating
  | updated : Move .updating (some .regUpdated) .registered
  /-- After an update that was rejected the client registers again. -/
  | reregistering {s' : State} (h : s' = .registering ∨ s' = .error) : Move .updating none s'
  | deregistering : Move .registered none .deregistering
  /-- The deregistration has been answered, or a stop has come to its end. -/
  | stopped (s : State) : Move s (some .deregistered) .idle
  | reported (s : State) : Move s (some .error) s

/-- The step is a move, and reports what the move reports. -/
def Moves (w w' : World σ κ ψ) (report : Option EventType) : Prop :=
  Move w.client.state report w'.client.state ∧
    dispatched w'.log = heard w.client.eventHandler report.toList ++ dispatched w.log

theorem heard_none (handler : Bool) : heard handler (none : Option EventType).toList = [] := by
  cases handler <;> rfl

theorem Moves.of_silent {s s' : State} (hmove : Move s none s') (hs : w.client.state = s)
    (hs' : w'.client.state = s') (hlog : dispatched w'.log = dispatched w.log) :
    Moves w w' none := by
  refine ⟨?_, ?_⟩
  · rw [hs, hs']
    exact hmove
  · rw [heard_none, hlog]
    rfl

theorem Moves.of_report {s s' : State} {type : EventType} (hmove : Move s (some type) s')
    (hs : w.client.state = s) (hs' : w'.client.state = s')
    (hlog : dispatched w'.log = heard w.client.eventHandler [type] ++ dispatched w.log) :
    Moves w w' (some type) := by
  refine ⟨?_, hlog⟩
  rw [hs, hs']
  exact hmove

/-- **Every step is a move of the machine.** -/
theorem moves_of_effect (h : Effect w a w') : ∃ report, Moves w w' report := by
  cases h with
  | addRefused | added | updateRefused | notifyRefused =>
    exact ⟨none, Moves.of_silent (.stay _) rfl rfl rfl⟩
  | startRefused | notified | noResponse | ignored =>
    exact ⟨none, Moves.of_silent (.stay _) rfl rfl rfl⟩
  | startNoHandle => exact ⟨none, Moves.of_silent (.stay _) rfl rfl rfl⟩
  | startFailed cfg hphase hstate => exact ⟨none, Moves.of_silent (.stay .idle) hstate rfl rfl⟩
  | started cfg hphase hstate => exact ⟨none, Moves.of_silent .started hstate rfl rfl⟩
  | @updateSent a err ha hstate =>
    by_cases herr : err = .ok
    · exact ⟨none, Moves.of_silent .updating hstate (by simp [herr]) rfl⟩
    · exact ⟨none, Moves.of_silent (.stay .registered) hstate (by simp [herr]) rfl⟩
  | stopWaits api inDestroy ha hphase hstate =>
    exact ⟨none, Moves.of_silent .deregistering hstate rfl (by simp)⟩
  | stopped | destroyedStopped | stopResumed | destroyResumed =>
    exact ⟨_, Moves.of_report (.stopped _) rfl (by simp) (by simp)⟩
  | destroyed hphase hstate =>
    exact ⟨none, Moves.of_silent (.stay .idle) hstate (by simpa using hstate) (by simp)⟩
  | connected hw' =>
    refine ⟨_, Moves.of_report (.connected _ hw'.state_eq) rfl rfl ?_⟩
    rw [hw'.dispatched_eq]
    simp
  | updateRejected hstate hcode hw' =>
    refine ⟨none, Moves.of_silent (.reregistering hw'.state_eq) hstate rfl ?_⟩
    rw [hw'.dispatched_eq]
    simp
  | disconnected => exact ⟨_, Moves.of_report (.disconnected _) rfl (by simp) (by simp)⟩
  | registered hstate => exact ⟨_, Moves.of_report .registered hstate (by simp) (by simp)⟩
  | rejected hstate | failed hstate =>
    exact ⟨_, Moves.of_report .regFailed hstate (by simp) (by simp)⟩
  | updated hstate => exact ⟨_, Moves.of_report .updated hstate (by simp) (by simp)⟩
  | deregistered hstate => exact ⟨_, Moves.of_report (.stopped _) hstate (by simp) (by simp)⟩
  | reported => exact ⟨_, Moves.of_report (.reported _) rfl (by simp) (by simp)⟩

end WbLwm2m

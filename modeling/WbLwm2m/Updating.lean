import WbLwm2m.Registration

/-!
# Registration updates

An update is outstanding from the moment its post has been accepted until a response or
an error has been handled (`WbLwm2m.updateOutstanding`). While the client is updating it
refuses updates and notifications, so that it had better be waiting for something: a
client that is updating with no update outstanding is wedged.

The error branch of the handler looks at the state registering only, and a response event
without a response is dropped. `WbLwm2m.never_wedged_iff` says that these two are the only
ways into a wedge.
-/

namespace WbLwm2m

open World Transition

variable {σ κ ψ : Type} {w w' : World σ κ ψ} {a : Action σ κ}

/-- Whether an update is outstanding. Of the client's requests, an update is the one
without a payload. -/
def updateOutstanding : List (Entry ψ) → Bool
  | [] => false
  | .coapPost _ _ none _ .ok :: _ => true
  | .handled (.response _) :: _ => false
  | .handled (.error _) :: _ => false
  | _ :: log => updateOutstanding log

/-- A client that is updating waits for something. -/
def NotWedged (w : World σ κ ψ) : Prop :=
  w.client.state = .updating → updateOutstanding w.log = true

/-- The events that answer an update without ending it: an error, or a response event
without a response, that is handled while the client is updating. -/
def UpdateLost (w : World σ κ ψ) : Action σ κ → Prop
  | .event (.error _) _ _ => w.client.state = .updating
  | .event (.response none) _ _ => w.client.state = .updating
  | _ => False

instance (w : World σ κ ψ) (a : Action σ κ) : Decidable (UpdateLost w a) := match a with
  | .event (.error _) _ _ | .event (.response none) _ _ =>
    inferInstanceAs (Decidable (w.client.state = .updating))
  | .event (.response (some _)) _ _ | .event .connected _ _ | .event .disconnected _ _
  | .addObject _ | .start _ _ | .updateRegistration _ | .stop _ | .destroy _ | .resume
  | .notify _ _ _ _ _ | .timer _ _ => instDecidableFalse

theorem notWedged_of_state {s : State} (h : w.client.state = s) (hs : s ≠ .updating := by decide) :
    NotWedged w :=
  fun h' => absurd (h.symm.trans h') hs

theorem updateOutstanding_dispatchEvent (w : World σ κ ψ) (type : EventType) :
    updateOutstanding (w.dispatchEvent type).log = updateOutstanding w.log :=
  apply_dispatchEvent w type fun _ _ => rfl

theorem Registers.notWedged {err : EspErr} (h : Registers w err w') : NotWedged w' := by
  rcases h.state_eq with hs | hs
  · exact notWedged_of_state hs
  · exact notWedged_of_state hs

theorem not_updateLost_of_update {err : EspErr}
    (ha : a = .updateRegistration err ∨ ∃ t ∈ liveTimers w.log, a = .timer t err) :
    ¬UpdateLost w a := by
  rcases ha with rfl | ⟨t, -, rfl⟩
  · exact not_false
  · exact not_false

/-- **The step**: from a state that is not wedged, exactly the lost updates lead to a
wedge. -/
theorem notWedged_step_iff (h : Effect w a w') (hw : NotWedged w) :
    NotWedged w' ↔ ¬UpdateLost w a := by
  cases h with
  | addRefused | added | startRefused | notifyRefused => exact iff_of_true hw not_false
  | updateRefused ha => exact iff_of_true hw (not_updateLost_of_update ha)
  | startNoHandle cfg hphase hstate =>
    exact iff_of_true (notWedged_of_state hstate) not_false
  | startFailed => exact iff_of_true (notWedged_of_state (s := .idle) rfl) not_false
  | started => exact iff_of_true (notWedged_of_state (s := .connecting) rfl) not_false
  -- the post just made is the outstanding one, unless it has been refused
  | @updateSent a err ha hstate hloc =>
    refine iff_of_true ?_ (not_updateLost_of_update ha)
    by_cases herr : err = .ok
    · subst herr
      exact fun _ => rfl
    · exact notWedged_of_state (s := .registered) (by simp [herr])
  | notified payload hstate =>
    exact iff_of_true (notWedged_of_state (s := .registered) hstate) not_false
  | stopWaits api inDestroy ha =>
    refine iff_of_true (notWedged_of_state (s := .deregistering) rfl) ?_
    rcases ha with ⟨rfl, -, -⟩ | ⟨rfl, -, -⟩
    · exact not_false
    · exact not_false
  | stopped | stopResumed | destroyedStopped | destroyResumed | deregistered =>
    exact iff_of_true (notWedged_of_state (s := .idle) (by simp)) not_false
  | destroyed hphase hstate =>
    refine iff_of_true (notWedged_of_state (s := .idle) ?_) not_false
    simpa using hstate
  | connected hw' => exact iff_of_true hw'.notWedged not_false
  | updateRejected hstate hcode hw' => exact iff_of_true hw'.notWedged not_false
  | disconnected | rejected =>
    exact iff_of_true (notWedged_of_state (s := .error) (by simp)) not_false
  | registered | updated =>
    exact iff_of_true (notWedged_of_state (s := .registered) (by simp)) not_false
  -- the two branches that can lose an update
  | noResponse =>
    by_cases hstate : w.client.state = .updating
    · exact iff_of_false (fun h => absurd (h hstate) Bool.false_ne_true) (not_not.mpr hstate)
    · exact iff_of_true (notWedged_of_state rfl hstate) hstate
  | ignored hreg hupd => exact iff_of_true (notWedged_of_state rfl hupd) not_false
  | failed hstate =>
    refine iff_of_true (notWedged_of_state (s := .error) (by simp)) fun h => ?_
    exact absurd (hstate.symm.trans h) (by decide)
  | reported hstate =>
    by_cases hupd : w.client.state = .updating
    · refine iff_of_false (fun h => ?_) (not_not.mpr hupd)
      have hout := h (by simpa using hupd)
      rw [updateOutstanding_dispatchEvent] at hout
      exact absurd hout Bool.false_ne_true
    · exact iff_of_true (notWedged_of_state (s := w.client.state) (by simp) hupd) hupd

/-- **A client gets wedged in updating exactly by a lost update.** In every run, the states
reached are never wedged if and only if no error, and no response event without a
response, is handled while the client is updating. -/
theorem never_wedged_iff {fp : FloatOps} {config : ClientConfig ψ} {c : Client σ κ ψ}
    (hinit : init config = some c) (as : List (Action σ κ)) :
    Along (step fp) (fun _ _ w' => NotWedged w') (World.initial c) as ↔
      Along (step fp) (fun w a _ => ¬UpdateLost w a) (World.initial c) as := by
  refine along_state_iff (J := fun _ => True) (fun _ _ _ _ _ => trivial)
    (fun w a w' _ hw h => notWedged_step_iff (effect_of_step h) hw) trivial ?_ as
  exact notWedged_of_state (s := .idle) (init_idle hinit).1

/-- The run in which an update is sent by the timer and answered. -/
def updateActions : List (Action Unit Unit) :=
  registerActions ++
    [.timer 0 .ok, .event (.response (some ⟨some (ascii "/rd/1"), .changed, []⟩)) .ok true]

/-- The client is updating before the answer, and registered after it. -/
theorem never_wedged_iff_sample :
    Along (step ieee754) (fun _ _ w' => NotWedged w') (World.initial sampleClient)
        updateActions ∧
      ∃ w w', run (step ieee754) (World.initial sampleClient) (updateActions.take 4) = some w ∧
        w.client.state = .updating ∧
        run (step ieee754) (World.initial sampleClient) updateActions = some w' ∧
        w'.client.state = .registered :=
  ⟨(never_wedged_iff init_sampleConfig _).mpr (by decide), _, _, rfl, rfl, rfl, rfl⟩

/-- **A lost update wedges the client**: the update is sent by the timer, the CoAP client
gives it up, and the client is updating with nothing outstanding. -/
theorem lost_update_wedges : ∃ w,
    run (step ieee754) (World.initial sampleClient)
      (registerActions ++ [.timer 0 .ok, .event (.error (some (ascii "/rd/1"))) .ok true]) =
        some w ∧ ¬NotWedged w := by
  obtain ⟨w, hrun⟩ : ∃ w, run (step ieee754) (World.initial sampleClient)
      (registerActions ++ [.timer 0 .ok, .event (.error (some (ascii "/rd/1"))) .ok true]) =
        some w := ⟨_, rfl⟩
  refine ⟨w, hrun, fun h => ?_⟩
  obtain rfl := Option.some.inj hrun
  exact absurd (h rfl) Bool.false_ne_true

end WbLwm2m

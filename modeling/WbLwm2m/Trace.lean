import WbLwm2m.Lib.Log
import WbLwm2m.Deregistration
import WbLwm2m.Machine
import WbLwm2m.Registration

/-!
# The trace of events

What does the event handler get to know? The trace of a client, newest event first, is
compared here with its state and with its registrations.

A client that is registered, updating or deregistering has reported a registration and
nothing since that ends it (`WbLwm2m.Fresh`), so that the last event about the
registration confirms the state: `WbLwm2m.registered_status_justified`.

The reverse is not so: `wb_lwm2m_stop` reports the end of a registration whenever it comes to
its end, of a client that was never registered too, and once more when the answer to the
deregistration has been reported during its wait. `WbLwm2m.deregistered_once_iff` says when
this does not happen, and `WbLwm2m.stop_deregisters_once_iff` the same of a single stop.
-/

namespace WbLwm2m

open World Transition Log

variable {σ κ ψ : Type} {w w' : World σ κ ψ} {a : Action σ κ} {fp : FloatOps}

/-! ### Events about the registration -/

/-- The events that end a registration. -/
def EventType.Ends (type : EventType) : Prop :=
  type = .regFailed ∨ type = .disconnected ∨ type = .deregistered

/-- The events that tell whether there is a registration. -/
def EventType.IsStatus (type : EventType) : Prop :=
  type = .registered ∨ type = .regUpdated ∨ type.Ends

/-- **A registration has been reported**, and nothing since then that ends it. -/
def Fresh (trace : List EventType) : Prop := Since (fun t => ¬t.Ends) (· = .registered) trace

/-- The last event that tells whether there is a registration says that there is one. -/
def Confirmed (trace : List EventType) : Prop :=
  Since (fun t => ¬t.IsStatus) (fun t => t = .registered ∨ t = .regUpdated) trace

/-- A registration has been reported, and no deregistration since then. -/
def OpenRegistration (trace : List EventType) : Prop :=
  Since (· ≠ .deregistered) (· = .registered) trace

/-- **Each deregistration is reported once**: before each there is a registration with no
other deregistration in between. -/
def DeregisteredOnce (trace : List EventType) : Prop :=
  Each (fun t earlier => t = .deregistered → OpenRegistration earlier) trace

theorem Fresh.confirmed {trace : List EventType} (h : Fresh trace) : Confirmed trace := by
  induction trace with
  | nil => exact h
  | cons t trace ih =>
    rcases h with rfl | ⟨hends, hrest⟩
    · exact Or.inl (Or.inl rfl)
    · by_cases hregistered : t = .registered ∨ t = .regUpdated
      · exact Or.inl hregistered
      · refine Or.inr ⟨?_, ih hrest⟩
        rintro (rfl | rfl | hstatus)
        · exact hregistered (Or.inl rfl)
        · exact hregistered (Or.inr rfl)
        · exact hends hstatus

theorem Fresh.openRegistration {trace : List EventType} (h : Fresh trace) :
    OpenRegistration trace := by
  refine Since.mono h (fun t hends => ?_) fun _ => id
  rintro rfl
  exact hends (Or.inr (Or.inr rfl))

/-- **A move keeps track of the registration.** -/
theorem fresh_of_move {s s' : State} {report : Option EventType} (h : Move s report s')
    {trace : List EventType} (hs : s.HasLocation → Fresh trace) (hs' : s'.HasLocation) :
    Fresh (report.toList ++ trace) := by
  cases h with
  | stay => exact hs hs'
  | registered => exact Or.inl rfl
  | updating => exact hs (Or.inl rfl)
  | deregistering => exact hs (Or.inl rfl)
  | updated => exact Or.inr ⟨by simp [EventType.Ends], hs (Or.inr (Or.inl rfl))⟩
  | reported => exact Or.inr ⟨by simp [EventType.Ends], hs hs'⟩
  | started | disconnected | regFailed | stopped => exact absurd hs' (by decide)
  | connected _ h | reregistering h =>
    rcases h with rfl | rfl
    · exact absurd hs' (by decide)
    · exact absurd hs' (by decide)

/-! ### The state and the trace -/

/-- A client that has a location has reported its registration. -/
def Reported (w : World σ κ ψ) : Prop := w.client.state.HasLocation → Fresh (dispatched w.log)

theorem reported_step (h : Effect w a w') (hhandler : w.client.eventHandler = true)
    (hw : Reported w) : Reported w' := by
  obtain ⟨report, hmove, hlog⟩ := moves_of_effect h
  intro hs'
  rw [hlog, hhandler]
  exact fresh_of_move hmove hw hs'

theorem reported_initial {config : ClientConfig ψ} {c : Client σ κ ψ}
    (hinit : init config = some c) : Reported (World.initial c) := by
  intro hstate
  rw [World.initial, (init_idle hinit).1] at hstate
  exact absurd hstate (by decide)

/-- The entries that a client without a registration should not make: the report of an
update, the post of an update, and the post of a notification. -/
def Entry.NeedsRegistration : Entry ψ → Prop
  | .dispatch .regUpdated => True
  | .coapPost _ _ none _ _ => True
  | .coapPost _ _ (some _) .json _ => True
  | _ => False

/-- An entry that needs a registration is made when there has been one. -/
def Covered (e : Entry ψ) (older : List (Entry ψ)) : Prop :=
  e.NeedsRegistration → Fresh (dispatched older)

/-- Who makes an entry that needs a registration. -/
theorem Made.needsRegistration {e : Entry ψ} (h : Made w a e) (he : e.NeedsRegistration) :
    (a.Updating ∨ a.Notifying) ∧ w.client.state = .registered ∨
      a.Answers .changed ∧ w.client.state = .updating := by
  cases e with
  | dispatch type => cases type with
    | regUpdated => exact Or.inr (h.2 rfl)
    | _ => exact he.elim
  | coapPost handle path payload format err => cases payload with
    | none => exact Or.inl ⟨Or.inl h.1.1, h.1.2⟩
    | some payload => cases format with
      | json => exact Or.inl ⟨Or.inr h.1.1, h.1.2⟩
      | _ => exact he.elim
  | _ => exact he.elim

theorem covered_step (h : Effect w a w') (hreported : Reported w) (hw : Each Covered w.log) :
    Each Covered w'.log := by
  by_cases hneeds : (a.Updating ∨ a.Notifying) ∧ w.client.state = .registered ∨
      a.Answers .changed ∧ w.client.state = .updating
  · cases h with
    | updateRefused | notifyRefused => exact hw
    | updateSent _ hstate | notified _ hstate =>
      exact ⟨fun _ => hreported (Or.inl hstate), hw⟩
    | @updated resp err created hstate =>
      have hhandled : Each Covered (w.record (.handled (.response (some resp)))).log :=
        ⟨fun h => h.elim, hw⟩
      rw [dispatchEvent]
      split
      · exact ⟨fun _ => hreported (Or.inr (Or.inl hstate)), hhandled⟩
      · exact hhandled
    -- the other effects are not those of the actions in question
    | stopWaits _ _ ha =>
      rcases ha with ⟨rfl, -⟩ | ⟨rfl, -⟩
      · simp [Action.Updating, Action.Notifying, Action.Answers] at hneeds
      · simp [Action.Updating, Action.Notifying, Action.Answers] at hneeds
    | updateRejected _ hcode =>
      simp [Action.Updating, Action.Notifying, Action.Answers, hcode] at hneeds
    | ignored _ hupd => simp [Action.Updating, Action.Notifying, hupd] at hneeds
    | registered hstate | rejected hstate | deregistered hstate =>
      simp [Action.Updating, Action.Notifying, hstate] at hneeds
    | _ => simp [Action.Updating, Action.Notifying, Action.Answers] at hneeds
  · obtain ⟨es, hes, hmade⟩ := made_of_effect h
    rw [hes]
    refine hw.append fun e he l hneed => ?_
    exact absurd ((hmade e he).needsRegistration hneed) hneeds

section Runs

variable {config : ClientConfig ψ} {c : Client σ κ ψ} {as : List (Action σ κ)}

/-- **The trace justifies the state.** In every run of a client with an event handler, while
the client is registered or updating the last event about its registration is that it has
been registered or updated; and whenever an update is reported or sent, or a notification is
sent, a registration has been reported and nothing since then that ends it. -/
theorem registered_status_justified (hinit : init config = some c)
    (hhandler : config.eventHandler = true)
    (hrun : run (step fp) (World.initial c) as = some w) :
    (w.client.state.KeptAlive → Confirmed (dispatched w.log)) ∧ Each Covered w.log := by
  have hkept : w.client.eventHandler = true ∧ Reported w ∧ Each Covered w.log := by
    have hstart : Each Covered (World.initial c).log := trivial
    refine run_invariant_all
      (P := fun w => w.client.eventHandler = true ∧ Reported w ∧ Each Covered w.log)
      (fun s a s' hs h => ?_)
      ⟨(eventHandler_init hinit).trans hhandler, reported_initial hinit, hstart⟩ hrun
    have heffect := effect_of_step h
    exact ⟨(eventHandler_of_effect heffect).trans hs.1, reported_step heffect hs.1 hs.2.1,
      covered_step heffect hs.2.1 hs.2.2⟩
  refine ⟨fun hstate => (hkept.2.1 ?_).confirmed, hkept.2.2⟩
  rcases hstate with hstate | hstate
  · exact Or.inl hstate
  · exact Or.inr (Or.inl hstate)

/-- A client whose update has been answered. -/
theorem registered_status_justified_sample : ∃ w,
    run (step ieee754) (World.initial sampleClient) (registerActions ++ [.timer 0 .ok,
      .event (.response (some ⟨some (ascii "/rd/1"), .changed, []⟩)) .ok true]) = some w ∧
      w.client.state = .registered ∧ Confirmed (dispatched w.log) ∧ Each Covered w.log := by
  obtain ⟨w, hrun⟩ : ∃ w, run (step ieee754) (World.initial sampleClient)
      (registerActions ++ [.timer 0 .ok,
        .event (.response (some ⟨some (ascii "/rd/1"), .changed, []⟩)) .ok true]) = some w :=
    ⟨_, rfl⟩
  have hstate : w.client.state = .registered := by
    obtain rfl := Option.some.inj hrun
    rfl
  obtain ⟨hconfirmed, hcovered⟩ := registered_status_justified init_sampleConfig rfl hrun
  exact ⟨w, hrun, hstate, hconfirmed (Or.inl hstate), hcovered⟩

end Runs

/-! ### Deregistrations -/

/-- The step ends a stop: one that does not wait, or the wait of one that does. -/
def EndsStop (w : World σ κ ψ) : Action σ κ → Prop
  | .stop _ => ¬(w.client.state = .registered ∧ w.client.regLocation ≠ [])
  | .destroy _ => w.client.state ≠ .idle ∧
    ¬(w.client.state = .registered ∧ w.client.regLocation ≠ [])
  | .resume => True
  | _ => False

instance (w : World σ κ ψ) : DecidablePred (EndsStop w) := fun a => match a with
  | .stop _ => inferInstanceAs (Decidable (¬(w.client.state = .registered ∧
      w.client.regLocation ≠ [])))
  | .destroy _ => inferInstanceAs (Decidable (w.client.state ≠ .idle ∧
      ¬(w.client.state = .registered ∧ w.client.regLocation ≠ [])))
  | .resume => inferInstanceAs (Decidable True)
  | .addObject _ | .start _ _ | .updateRegistration _ | .notify _ _ _ _ _ | .timer _ _
  | .event _ _ _ => inferInstanceAs (Decidable False)

/-- A response is handled while the client is deregistering, and taken for the answer. -/
def Deregisters (w : World σ κ ψ) : Action σ κ → Prop
  | .event (.response (some _)) _ _ => w.client.state = .deregistering
  | _ => False

theorem Deregisters.state_eq (h : Deregisters w a) : w.client.state = .deregistering := by
  cases a with
  | event event err created => cases event with
    | response resp => cases resp with
      | some resp => exact h
      | none => exact h.elim
    | _ => exact h.elim
  | _ => exact h.elim

/-- **Whether there has been a registration** since the last stop came to its end and the
last deregistration was answered. -/
def registeredSince (before : Bool) (w : World σ κ ψ) (a : Action σ κ) (_ : World σ κ ψ) : Bool :=
  match a with
  | .event (.response (some resp)) _ _ =>
    if w.client.state = .registering ∧ resp.requestPath = some (ascii "/rd") ∧
      resp.code = .created then true
    else if w.client.state = .deregistering then false
    else before
  | a => if EndsStop w a then false else before

/-- What a step means for the trace of a client with an event handler. -/
inductive Traces (before : Bool) (w : World σ κ ψ) (a : Action σ κ) (w' : World σ κ ψ) : Prop
  | ended (hstop : EndsStop w a) (hlog : dispatched w'.log = .deregistered :: dispatched w.log)
      (hsince : registeredSince before w a w' = false)
  | answered (hstop : ¬EndsStop w a) (hanswer : Deregisters w a)
      (hlog : dispatched w'.log = .deregistered :: dispatched w.log)
      (hsince : registeredSince before w a w' = false)
  | registered (hstop : ¬EndsStop w a) (hanswer : ¬Deregisters w a)
      (hlog : dispatched w'.log = .registered :: dispatched w.log)
      (hsince : registeredSince before w a w' = true)
  | other (hstop : ¬EndsStop w a) (hanswer : ¬Deregisters w a) (types : List EventType)
      (htypes : ∀ t ∈ types, t ≠ .registered ∧ t ≠ .deregistered)
      (hlog : dispatched w'.log = types ++ dispatched w.log)
      (hsince : registeredSince before w a w' = before)

theorem traces_of_effect (h : Effect w a w') (hhandler : w.client.eventHandler = true)
    (before : Bool) : Traces before w a w' := by
  cases h with
  | addRefused | added | startRefused | startNoHandle | startFailed | started | notifyRefused
  | notified | noResponse =>
    exact Traces.other not_false not_false [] (by simp) rfl rfl
  | updateRefused ha | updateSent ha =>
    rcases ha with rfl | ⟨t, -, rfl⟩
    · exact Traces.other not_false not_false [] (by simp) rfl rfl
    · exact Traces.other not_false not_false [] (by simp) rfl rfl
  | stopWaits api inDestroy ha hphase hstate hloc =>
    rcases ha with ⟨rfl, -⟩ | ⟨rfl, -⟩
    · refine Traces.other ?_ not_false [] (by simp) (by simp) ?_
      · simp [EndsStop, hstate, hloc]
      · simp [registeredSince, EndsStop, hstate, hloc]
    · refine Traces.other ?_ not_false [] (by simp) (by simp) ?_
      · simp [EndsStop, hstate, hloc]
      · simp [registeredSince, EndsStop, hstate, hloc]
  | stopped hphase hnot =>
    exact Traces.ended hnot (by simp [heard, hhandler]) (if_pos hnot)
  | destroyedStopped hphase hidle hnot =>
    exact Traces.ended ⟨hidle, hnot⟩ (by simp [heard, hhandler]) (if_pos ⟨hidle, hnot⟩)
  | destroyed hphase hstate =>
    refine Traces.other ?_ not_false [] (by simp) (by simp) ?_
    · simp [EndsStop, hstate]
    · simp [registeredSince, EndsStop, hstate]
  | stopResumed | destroyResumed =>
    exact Traces.ended trivial (by simp [heard, hhandler]) rfl
  | connected hw' =>
    refine Traces.other not_false not_false [.connected] (by simp) ?_ rfl
    rw [hw'.dispatched_eq]
    simp [heard, hhandler]
  | disconnected =>
    exact Traces.other not_false not_false [.disconnected] (by simp) (by simp [heard, hhandler]) rfl
  | ignored hreg hupd hdereg =>
    refine Traces.other not_false hdereg [] (by simp) rfl ((if_neg ?_).trans (if_neg hdereg))
    exact fun h => hreg ⟨h.1, h.2.1⟩
  | @registered resp err created hstate hpath hcode =>
    have hanswer : ¬Deregisters w (.event (.response (some resp)) err created) := fun h =>
      absurd (hstate.symm.trans h) (by decide)
    exact Traces.registered not_false hanswer (by simp [heard, hhandler])
      (if_pos ⟨hstate, hpath, hcode⟩)
  | rejected hstate hpath hcode =>
    refine Traces.other not_false ?_ [.regFailed] (by simp) (by simp [heard, hhandler]) ?_
    · simp [Deregisters, hstate]
    · simp [registeredSince, hstate, hcode]
  | updated hstate hcode =>
    refine Traces.other not_false ?_ [.regUpdated] (by simp) (by simp [heard, hhandler]) ?_
    · simp [Deregisters, hstate]
    · simp [registeredSince, hstate]
  | updateRejected hstate hcode hw' =>
    refine Traces.other not_false ?_ [] (by simp) ?_ ?_
    · simp [Deregisters, hstate]
    · rw [hw'.dispatched_eq]
      rfl
    · simp [registeredSince, hstate]
  | deregistered hstate =>
    refine Traces.answered not_false hstate (by simp [heard, hhandler]) ?_
    simp [registeredSince, hstate]
  | failed =>
    exact Traces.other not_false not_false [.regFailed] (by simp) (by simp [heard, hhandler]) rfl
  | reported =>
    exact Traces.other not_false not_false [.error] (by simp) (by simp [heard, hhandler]) rfl

/-- What else is reported does not matter. -/
theorem openRegistration_append {types trace : List EventType}
    (h : ∀ t ∈ types, t ≠ .registered ∧ t ≠ .deregistered) :
    OpenRegistration (types ++ trace) ↔ OpenRegistration trace := by
  induction types with
  | nil => exact Iff.rfl
  | cons t types ih =>
    obtain ⟨⟨hregistered, hderegistered⟩, hrest⟩ := List.forall_mem_cons.mp h
    rw [← ih hrest]
    constructor
    · rintro (h | ⟨-, h⟩)
      · exact absurd h hregistered
      · exact h
    · exact fun h => Or.inr ⟨hderegistered, h⟩

theorem deregisteredOnce_append {types trace : List EventType}
    (h : ∀ t ∈ types, t ≠ .registered ∧ t ≠ .deregistered) :
    DeregisteredOnce (types ++ trace) ↔ DeregisteredOnce trace :=
  ⟨fun h' => each_append h', fun h' => h'.append fun t ht _ hd => absurd hd (h t ht).2⟩

/-- What is known of the past agrees with the trace, if there is an event handler. -/
def Remembers (p : World σ κ ψ × Bool) : Prop :=
  p.1.client.eventHandler = true →
    Reported p.1 ∧ (p.2 = true ↔ OpenRegistration (dispatched p.1.log))

/-- Stops come to their end after a registration only, or nobody hears of it. -/
def StopsRegistered (since : Bool) (w : World σ κ ψ) (a : Action σ κ) : Prop :=
  w.client.eventHandler = true → EndsStop w a → since = true

theorem remembers_step {since : Bool} (h : Effect w a w') (hw : Remembers (w, since)) :
    Remembers (w', registeredSince since w a w') := by
  intro hhandler'
  have hhandler : w.client.eventHandler = true :=
    (eventHandler_of_effect h).symm.trans hhandler'
  obtain ⟨hreported, hsame⟩ := hw hhandler
  refine ⟨reported_step h hhandler hreported, ?_⟩
  rcases traces_of_effect h hhandler since with ⟨-, hlog, hsince⟩ | ⟨-, -, hlog, hsince⟩ |
    ⟨-, -, hlog, hsince⟩ | ⟨-, -, types, htypes, hlog, hsince⟩
  · rw [hlog, hsince]
    exact iff_of_false Bool.false_ne_true (by simp [OpenRegistration, Since])
  · rw [hlog, hsince]
    exact iff_of_false Bool.false_ne_true (by simp [OpenRegistration, Since])
  · rw [hlog, hsince]
    exact iff_of_true rfl (Or.inl rfl)
  · rw [hlog, hsince, openRegistration_append htypes]
    exact hsame

/-- **The step**: the trace goes wrong exactly when a stop ends without a registration. -/
theorem deregisteredOnce_step_iff {since : Bool} (h : Effect w a w')
    (hremembers : Remembers (w, since)) (hw : DeregisteredOnce (dispatched w.log)) :
    DeregisteredOnce (dispatched w'.log) ↔ StopsRegistered since w a := by
  by_cases hhandler : w.client.eventHandler = true
  · obtain ⟨hreported, hsame⟩ := hremembers hhandler
    rcases traces_of_effect h hhandler since with ⟨hstop, hlog, -⟩ | ⟨hstop, hanswer, hlog, -⟩ |
      ⟨hstop, -, hlog, -⟩ | ⟨hstop, -, types, htypes, hlog, -⟩
    · rw [hlog]
      constructor
      · intro honce _ _
        exact hsame.mpr (honce.1 rfl)
      · intro hregistered
        exact ⟨fun _ => hsame.mp (hregistered hhandler hstop), hw⟩
    · have hopen := (hreported (Or.inr (Or.inr hanswer.state_eq))).openRegistration
      rw [hlog]
      exact iff_of_true ⟨fun _ => hopen, hw⟩ fun _ hends => absurd hends hstop
    · rw [hlog]
      refine iff_of_true ⟨fun hd => absurd hd (by decide), hw⟩ fun _ hends => absurd hends hstop
    · rw [hlog, deregisteredOnce_append htypes]
      exact iff_of_true hw fun _ hends => absurd hends hstop
  · obtain ⟨report, -, hlog⟩ := moves_of_effect h
    rw [hlog, heard, if_neg hhandler]
    exact iff_of_true hw fun hh => absurd hh hhandler

/-- **Each deregistration is reported once exactly if stops end registrations.** In every
run, each deregistration that is reported is preceded by the report of a registration with
no other deregistration in between, if and only if, whenever a stop comes to its end and
there is an event handler, there has been a registration since the last stop came to its
end and the last deregistration was answered. -/
theorem deregistered_once_iff {config : ClientConfig ψ} {c : Client σ κ ψ}
    (hinit : init config = some c) (as : List (Action σ κ)) :
    Along (step fp) (fun _ _ w' => DeregisteredOnce (dispatched w'.log)) (World.initial c) as ↔
      Along (withHistory (step fp) registeredSince) (fun s a _ => StopsRegistered s.2 s.1 a)
        (World.initial c, false) as := by
  rw [← along_withHistory_iff registeredSince false]
  refine along_state_iff (J := Remembers) (P := fun s => DeregisteredOnce (dispatched s.1.log))
    (fun s a s' hJ h => ?_) (fun s a s' hJ hP h => ?_) ?_ ?_ as
  · obtain ⟨hstep, hhistory⟩ := withHistory_eq_some.mp h
    have hremembers := remembers_step (effect_of_step hstep) hJ
    rwa [← hhistory] at hremembers
  · exact deregisteredOnce_step_iff (effect_of_step (withHistory_eq_some.mp h).1) hJ hP
  · exact fun _ => ⟨reported_initial hinit, iff_of_false Bool.false_ne_true not_false⟩
  · exact trivial

/-- A client that is registered and stopped, and hears nothing in the wait. -/
theorem deregistered_once_iff_sample :
    Along (step ieee754) (fun _ _ w' => DeregisteredOnce (dispatched w'.log))
      (World.initial sampleClient) (registerActions ++ [.stop .ok, .resume]) := by
  refine (deregistered_once_iff init_sampleConfig _).mpr ?_
  intro s₁ h₁
  obtain rfl := Option.some.inj h₁
  refine ⟨fun _ h => h.elim, ?_⟩
  intro s₂ h₂
  obtain rfl := Option.some.inj h₂
  refine ⟨fun _ h => h.elim, ?_⟩
  intro s₃ h₃
  obtain rfl := Option.some.inj h₃
  refine ⟨fun _ h => h.elim, ?_⟩
  intro s₄ h₄
  obtain rfl := Option.some.inj h₄
  refine ⟨fun _ h => absurd ⟨rfl, by decide⟩ h, ?_⟩
  intro s₅ _
  exact ⟨fun _ _ => rfl, trivial⟩

/-- **A deregistration that is answered is reported twice**: by the answer, which arrives
during the wait of the stop, and at the end of the stop. -/
theorem deregistration_reported_twice : ∃ w,
    run (step ieee754) (World.initial sampleClient) (registerActions ++ [.stop .ok,
      .event (.response (some ⟨some (ascii "/rd/1"), .other 0x42, []⟩)) .ok true, .resume]) =
        some w ∧
      dispatched w.log = [.deregistered, .deregistered, .registered, .connected] ∧
      ¬DeregisteredOnce (dispatched w.log) := by
  obtain ⟨w, hrun⟩ : ∃ w, run (step ieee754) (World.initial sampleClient)
      (registerActions ++ [.stop .ok,
        .event (.response (some ⟨some (ascii "/rd/1"), .other 0x42, []⟩)) .ok true, .resume]) =
      some w := ⟨_, rfl⟩
  have htrace : dispatched w.log = [.deregistered, .deregistered, .registered, .connected] := by
    obtain rfl := Option.some.inj hrun
    rfl
  refine ⟨w, hrun, htrace, fun honce => ?_⟩
  rw [htrace] at honce
  have hopen : OpenRegistration [.deregistered, .registered, .connected] := honce.1 rfl
  simp [OpenRegistration, Since] at hopen

/-! ### One stop -/

/-- The deregistrations that have been reported. -/
def deregistrations (w : World σ κ ψ) : ℕ := (dispatched w.log).count .deregistered

/-- **One step reports one deregistration**, if it ends a stop or handles what is taken for the
answer, and none otherwise. -/
theorem deregistrations_of_effect (h : Effect w a w') (hhandler : w.client.eventHandler = true) :
    (EndsStop w a ∨ Deregisters w a) ∧ deregistrations w' = deregistrations w + 1 ∨
      ¬(EndsStop w a ∨ Deregisters w a) ∧ deregistrations w' = deregistrations w := by
  rw [deregistrations, deregistrations]
  rcases traces_of_effect h hhandler false with ⟨hstop, hlog, -⟩ | ⟨-, hanswer, hlog, -⟩ |
    ⟨hstop, hanswer, hlog, -⟩ | ⟨hstop, hanswer, types, htypes, hlog, -⟩
  · exact Or.inl ⟨Or.inl hstop, by rw [hlog, List.count_cons_self]⟩
  · exact Or.inl ⟨Or.inr hanswer, by rw [hlog, List.count_cons_self]⟩
  · exact Or.inr ⟨not_or.mpr ⟨hstop, hanswer⟩, by rw [hlog, List.count_cons_of_ne (by decide)]⟩
  · have hnone : types.count .deregistered = 0 :=
      List.count_eq_zero.mpr fun hmem => (htypes _ hmem).2 rfl
    exact Or.inr ⟨not_or.mpr ⟨hstop, hanswer⟩, by rw [hlog, List.count_append, hnone, zero_add]⟩

/-- During a wait nothing ends a stop but its end. -/
theorem not_endsStop {inDestroy : Bool} (h : Effect w a w') (hw : w.phase = .stopping inDestroy)
    (ha : a ≠ .resume) : ¬EndsStop w a := by
  have hrunning := phase_ne_running hw
  cases h with
  | stopWaits _ _ _ hphase | stopped hphase | destroyedStopped hphase | destroyed hphase =>
    exact absurd hphase hrunning
  | stopResumed | destroyResumed => exact absurd rfl ha
  | updateRefused hcall | updateSent hcall =>
    rcases hcall with rfl | ⟨t, -, rfl⟩
    · exact not_false
    · exact not_false
  | _ => exact not_false

/-- The beginning of a stop that waits reports nothing. -/
theorem deregistrations_of_wait {inDestroy : Bool} (h : Effect w a w') (ha : a.Stopping)
    (hw' : w'.phase = .stopping inDestroy) : deregistrations w' = deregistrations w := by
  rw [deregistrations, deregistrations]
  cases h with
  | stopWaits => simp
  | stopped | destroyedStopped | destroyed => cases hw'
  | updateRefused hcall | updateSent hcall =>
    exact absurd ha (updating_of_call hcall).not_stopping
  | _ => exact ha.elim

/-- **A wait** reports the answers that are handled in it. -/
theorem deregistrations_of_run {inDestroy : Bool} {bs : List (Action σ κ)}
    (hhandler : w.client.eventHandler = true) (hw : w.phase = .stopping inDestroy)
    (hbs : ∀ b ∈ bs, b ≠ .resume) (hrun : run (step fp) w bs = some w') :
    deregistrations w ≤ deregistrations w' ∧ (deregistrations w' = deregistrations w ↔
      Along (step fp) (fun v b _ => ¬Deregisters v b) w bs) := by
  induction bs generalizing w with
  | nil =>
    obtain rfl := Option.some.inj hrun
    exact ⟨le_rfl, iff_of_true rfl trivial⟩
  | cons b bs ih =>
    obtain ⟨hb, hbs⟩ := List.forall_mem_cons.mp hbs
    obtain ⟨v, hv, hrest⟩ := exists_step_of_run_cons hrun
    have heffect := effect_of_step hv
    have hends := not_endsStop heffect hw hb
    obtain ⟨hle, hiff⟩ := ih ((eventHandler_of_effect heffect).trans hhandler)
      (phase_of_effect heffect hw hb) hbs hrest
    rw [along_cons_of_step hv]
    rcases deregistrations_of_effect heffect hhandler with ⟨hor, hcount⟩ | ⟨hnor, hcount⟩
    · refine ⟨by omega, iff_of_false (by omega) fun h => ?_⟩
      exact h.1 (hor.resolve_left hends)
    · rw [hcount] at hle hiff
      rw [and_iff_right (not_or.mp hnor).2]
      exact ⟨hle, hiff⟩

/-- **One stop reports one deregistration** when it waits for the answer and no response is
taken for one in its wait; otherwise it reports more. -/
theorem stop_deregisters_once_iff {w₁ w₂ : World σ κ ψ} {inDestroy : Bool}
    {bs : List (Action σ κ)} (hhandler : w.client.eventHandler = true) (ha : a.Stopping)
    (h : step fp w a = some w₁) (hphase : w₁.phase = .stopping inDestroy)
    (hbs : ∀ b ∈ bs, b ≠ .resume) (hrun : run (step fp) w₁ bs = some w₂)
    (hend : step fp w₂ .resume = some w') :
    deregistrations w + 1 ≤ deregistrations w' ∧ (deregistrations w' = deregistrations w + 1 ↔
      Along (step fp) (fun v b _ => ¬Deregisters v b) w₁ bs) := by
  have hkept : ∀ (v : World σ κ ψ) b v', v.client.eventHandler = true → step fp v b = some v' →
      v'.client.eventHandler = true := fun v b v' hv hstep =>
    (eventHandler_of_effect (effect_of_step hstep)).trans hv
  have hhandler₁ := hkept w a w₁ hhandler h
  have hhandler₂ := run_invariant_all hkept hhandler₁ hrun
  have hfirst := deregistrations_of_wait (effect_of_step h) ha hphase
  obtain ⟨hle, hiff⟩ := deregistrations_of_run hhandler₁ hphase hbs hrun
  rcases deregistrations_of_effect (effect_of_step hend) hhandler₂ with ⟨-, hlast⟩ | ⟨hnor, -⟩
  · rw [hlast, ← hfirst, ← hiff]
    exact ⟨by omega, by omega⟩
  · exact absurd (Or.inl trivial) hnor

/-- **A stop of a client that is not idle reports a deregistration**, whether it waits or not. -/
theorem deregistrations_lt_of_stops (hstops : Stops fp w w')
    (hhandler : w.client.eventHandler = true) (hidle : w.client.state ≠ .idle) :
    deregistrations w < deregistrations w' := by
  cases hstops with
  | @atOnce a _ ha h hphase =>
    have heffect := effect_of_step h
    have hends : EndsStop w a := by
      have hnot : ¬(w.client.state = .registered ∧ w.client.regLocation ≠ []) := by
        cases heffect with
        | stopWaits => exact absurd rfl (hphase _)
        | stopped _ hnot | destroyedStopped _ _ hnot => exact hnot
        | destroyed _ hstate => exact absurd hstate hidle
        | updateRefused hcall | updateSent hcall =>
          exact absurd ha (updating_of_call hcall).not_stopping
        | _ => exact ha.elim
      cases a with
      | stop err => exact hnot
      | destroy err => exact ⟨hidle, hnot⟩
      | _ => exact ha.elim
    rcases deregistrations_of_effect heffect hhandler with ⟨-, hcount⟩ | ⟨hnor, -⟩
    · omega
    · exact absurd (Or.inl hends) hnor
  | waited ha h hphase hbs hrun hend =>
    exact (stop_deregisters_once_iff hhandler ha h hphase hbs hrun hend).1

end WbLwm2m

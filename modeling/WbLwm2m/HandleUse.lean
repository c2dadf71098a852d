import WbLwm2m.Lib.Log
import WbLwm2m.Handles

/-!
# What the CoAP client is called with

`WbLwm2m.Handles` is about the handles that are obtained and destroyed; this module is
about those that are used. A handle may be started, stopped, destroyed or given a request
only while it is live, and a request needs one: `wb_lwm2m_client` has `NULL` in its place
when a start has failed.

`WbLwm2m.HandleDiscipline` says what a call of the CoAP client found when it was made. The
invariant behind it is that a client without a handle is idle or in error
(`WbLwm2m.Quiet`), where nothing but the connected event makes a request. A client that has
lost its handle to a failed restart can still get that event, from the handle that was
there before, and this is the only way to a request on no handle
(`WbLwm2m.handle_discipline_iff`).
-/

namespace WbLwm2m

open World Transition Log

variable {σ κ ψ : Type} {w w' : World σ κ ψ} {a : Action σ κ}

/-! ### The discipline -/

/-- A request goes to a live handle. -/
def OnLive (h : Option ℕ) (older : List (Entry ψ)) : Prop := ∃ k ∈ liveHandles older, h = some k

/-- What a call of the CoAP client finds in the log. -/
def HandleCall : Entry ψ → List (Entry ψ) → Prop
  | .coapStart h _, older => h ∈ liveHandles older
  | .coapStop h, older => h ∈ liveHandles older
  | .coapDestroy h, older => h ∈ liveHandles older
  | .coapPost h _ _ _ _, older => OnLive h older
  | .coapDelete h _ _, older => OnLive h older
  | _, _ => True

/-- **Each call in its turn.** -/
def HandleDiscipline (log : List (Entry ψ)) : Prop := Each HandleCall log

/-- The handle of the client is live, and so was every handle that has been used. -/
structure HandlesUsed (w : World σ κ ψ) : Prop where
  live : ∀ h, w.client.coap = some h → h ∈ liveHandles w.log
  discipline : HandleDiscipline w.log

/-- An entry that is not about the CoAP client. -/
def Entry.Offline (e : Entry ψ) : Prop :=
  e.topic ≠ .handle ∧ e.topic ≠ .coap ∧ e.topic ≠ .request

theorem Entry.Offline.handleCall {e : Entry ψ} (he : e.Offline) (log : List (Entry ψ)) :
    HandleCall e log := by
  obtain ⟨hhandle, hcoap, hrequest⟩ := he
  cases e <;> first | exact trivial | exact absurd rfl hhandle | exact absurd rfl hcoap |
    exact absurd rfl hrequest

theorem liveHandles_cons {e : Entry ψ} (he : e.topic ≠ .handle) (log : List (Entry ψ)) :
    liveHandles (e :: log) = liveHandles log :=
  (of_handleView_eq (handleView_cons he log)).1

/-! ### The functions keep the discipline -/

theorem OnLive.of_client (hw : HandlesUsed w) (hcoap : w.client.coap ≠ none) :
    OnLive w.client.coap w.log := by
  obtain ⟨h, hh⟩ := Option.ne_none_iff_exists'.mp hcoap
  exact ⟨h, hw.live h hh, hh⟩

/-- What adds other entries and leaves the handle alone keeps all of it. -/
theorem HandlesUsed.adds (hw : HandlesUsed w) (h : Adds Entry.Offline w.log w'.log)
    (hcoap : w'.client.coap = w.client.coap) : HandlesUsed w' := by
  obtain ⟨es, hlog, hes⟩ := h
  have hlive : liveHandles w'.log = liveHandles w.log := by
    rw [hlog]
    clear hlog
    induction es with
    | nil => rfl
    | cons e es ih =>
      obtain ⟨he, hes⟩ := List.forall_mem_cons.mp hes
      rw [List.cons_append, liveHandles_cons he.1]
      exact ih hes
  refine ⟨?_, ?_⟩
  · rw [hcoap, hlive]
    exact hw.live
  · rw [HandleDiscipline, hlog]
    exact Each.append hw.discipline fun e he => (hes e he).handleCall

theorem HandlesUsed.record (hw : HandlesUsed w) {e : Entry ψ} (he : e.Offline) :
    HandlesUsed (w.record e) :=
  hw.adds ((Adds.refl _).cons he) rfl

/-- A call on a live handle that leaves it live. -/
theorem HandlesUsed.call (hw : HandlesUsed w) {e : Entry ψ} (htopic : e.topic ≠ .handle)
    (he : HandleCall e w.log) : HandlesUsed (w.record e) := by
  refine ⟨fun h hh => ?_, he, hw.discipline⟩
  have hlive : liveHandles (e :: w.log) = liveHandles w.log := liveHandles_cons htopic _
  change h ∈ liveHandles (e :: w.log)
  rw [hlive]
  exact hw.live h hh

theorem HandlesUsed.setState (hw : HandlesUsed w) (s : State) : HandlesUsed (w.setState s) :=
  ⟨hw.live, hw.discipline⟩

theorem HandlesUsed.setLocation (hw : HandlesUsed w) (loc : Text) :
    HandlesUsed (w.setLocation loc) :=
  ⟨hw.live, hw.discipline⟩

theorem HandlesUsed.setPhase (hw : HandlesUsed w) (p : Phase) : HandlesUsed (w.setPhase p) :=
  ⟨hw.live, hw.discipline⟩

theorem HandlesUsed.setCoap_none (hw : HandlesUsed w) : HandlesUsed (w.setCoap none) :=
  ⟨fun h hh => absurd hh (Option.some_ne_none h).symm, hw.discipline⟩

theorem HandlesUsed.dispatchEvent (hw : HandlesUsed w) (type : EventType) :
    HandlesUsed (w.dispatchEvent type) :=
  hw.adds (adds_dispatchEvent w type (by simp [Entry.Offline])) (by simp)

theorem HandlesUsed.stopUpdateTimer (hw : HandlesUsed w) : HandlesUsed w.stopUpdateTimer :=
  hw.adds (adds_stopUpdateTimer w (by simp [Entry.Offline]) (by simp [Entry.Offline])) (by simp)

theorem HandlesUsed.startUpdateTimer (hw : HandlesUsed w) (created : Bool) :
    HandlesUsed (w.startUpdateTimer created) := by
  refine hw.adds (adds_startUpdateTimer w created ?_ ?_ ?_ ?_) (by simp)
    <;> simp [Entry.Offline]

theorem HandlesUsed.stopEnd (hw : HandlesUsed w) : HandlesUsed w.stopEnd := by
  rw [World.stopEnd]
  cases hcoap : w.client.coap with
  | none => exact ((hw.setState _).setLocation _).dispatchEvent _
  | some h =>
    have hstop : HandlesUsed (w.record (.coapStop h)) := hw.call (by simp) (hw.live h hcoap)
    exact ((hstop.setState _).setLocation _).dispatchEvent _

theorem HandlesUsed.destroyEnd (hw : HandlesUsed w) : HandlesUsed w.destroyEnd := by
  have hcoap : HandlesUsed w.releaseCoap := by
    rw [releaseCoap]
    cases hcoap : w.client.coap with
    | none => exact hw
    | some h => exact ⟨fun k hk => absurd hk (Option.some_ne_none k).symm,
        hw.live h hcoap, hw.discipline⟩
  have htimer : HandlesUsed w.releaseCoap.releaseTimer := by
    rw [releaseTimer]
    cases w.releaseCoap.client.updateTimer with
    | none => exact hcoap
    | some t => exact hcoap.adds ((Adds.refl _).cons (by simp [Entry.Offline])) rfl
  exact htimer.record (by simp [Entry.Offline])

theorem HandlesUsed.finishStop (hw : HandlesUsed w) : HandlesUsed w.finishStop :=
  (hw.stopEnd.setPhase _).record (by simp [Entry.Offline])

theorem HandlesUsed.finishDestroy (hw : HandlesUsed w) : HandlesUsed w.finishDestroy :=
  (hw.destroyEnd.setPhase _).record (by simp [Entry.Offline])

/-- A registration keeps the discipline exactly if there is a handle, or nothing to send. -/
theorem Registers.handleDiscipline_iff {err : EspErr} (h : Registers w err w')
    (hw : HandlesUsed w) : HandleDiscipline w'.log ↔
      (w.client.coap = none → linkPayload w.client.objects = none) := by
  cases h with
  | posted payload hpayload =>
    constructor
    · rintro ⟨⟨k, -, hk⟩, -⟩ hcoap
      exact absurd (hcoap.symm.trans hk) (Option.some_ne_none k).symm
    · intro hsafe
      have hcoap : w.client.coap ≠ none := fun hcoap =>
        absurd (hpayload.symm.trans (hsafe hcoap)) (Option.some_ne_none payload)
      exact ⟨OnLive.of_client hw hcoap, hw.discipline⟩
  | noPayload hpayload => exact iff_of_true hw.discipline fun _ => hpayload

theorem Registers.handlesUsed {err : EspErr} (h : Registers w err w') (hw : HandlesUsed w)
    (hdiscipline : HandleDiscipline w'.log) : HandlesUsed w' := by
  have hlive : liveHandles w'.log = liveHandles w.log := (of_handleView_eq h.handleView_eq).1
  refine ⟨?_, hdiscipline⟩
  rw [hlive, h.client_eq]
  exact hw.live

/-! ### Without a handle -/

/-- **A client without a handle is idle or in error.** -/
def Quiet (w : World σ κ ψ) : Prop :=
  w.client.coap = none → w.client.state = .idle ∨ w.client.state = .error

theorem Quiet.coap_ne_none (hw : Quiet w) {s : State} (hs : w.client.state = s)
    (hidle : s ≠ .idle := by decide) (herror : s ≠ .error := by decide) :
    w.client.coap ≠ none := by
  intro hcoap
  rcases hw hcoap with h | h
  · exact hidle (hs.symm.trans h)
  · exact herror (hs.symm.trans h)

theorem quiet_of_idle (h : w.client.state = .idle) : Quiet w := fun _ => Or.inl h

theorem quiet_of_error (h : w.client.state = .error) : Quiet w := fun _ => Or.inr h

theorem quiet_of_coap (h : w.client.coap ≠ none) : Quiet w := fun hcoap => absurd hcoap h

/-- A connected event finds a handle to register on, or nothing to send. -/
def ConnectsOnHandle (w : World σ κ ψ) : Action σ κ → Prop
  | .event .connected _ _ =>
    w.client.coap = none → linkPayload w.client.objects = none
  | _ => True

/-- A registration leaves a client quiet if it keeps the discipline. -/
theorem Registers.quiet {err : EspErr} (h : Registers w err w')
    (hsafe : w.client.coap = none → linkPayload w.client.objects = none) : Quiet w' := by
  cases h with
  | posted payload hpayload =>
    intro hcoap
    exact absurd (hpayload.symm.trans (hsafe hcoap)) (Option.some_ne_none payload)
  | noPayload => exact quiet_of_error rfl

/-- **Every step keeps the discipline**, of a client that is quiet without a handle, unless
it is a connected event that finds none. -/
theorem handlesUsed_step (h : Effect w a w') (hw : HandlesUsed w) (hquiet : Quiet w)
    (hinv : HandleInvariant w') (ha : ConnectsOnHandle w a) : HandlesUsed w' ∧ Quiet w' := by
  have hcalled (api : Api) : HandlesUsed (w.record (.called api)) :=
    hw.record (by simp [Entry.Offline])
  have hhandled (event : CoapEvent) : HandlesUsed (w.record (.handled event)) :=
    hw.record (by simp [Entry.Offline])
  cases h with
  | addRefused | updateRefused | notifyRefused => exact ⟨hw, hquiet⟩
  | added => exact ⟨⟨hw.live, hw.discipline⟩, hquiet⟩
  | startRefused =>
    exact ⟨(hcalled .start).record (by simp [Entry.Offline]), hquiet⟩
  | startNoHandle cfg hphase hstate =>
    refine ⟨⟨hinv.live, trivial, trivial, (hcalled .start).discipline⟩, ?_⟩
    exact quiet_of_idle hstate
  -- the new handle is started, and destroyed again
  | startFailed =>
    refine ⟨⟨hinv.live, trivial, ?_, ?_, trivial, (hcalled .start).discipline⟩, ?_⟩
    · exact List.mem_cons_self
    · exact List.mem_cons_self
    · exact quiet_of_idle rfl
  | started =>
    refine ⟨⟨hinv.live, trivial, ?_, trivial, (hcalled .start).discipline⟩, ?_⟩
    · exact List.mem_cons_self
    · exact quiet_of_coap (Option.some_ne_none _)
  | @updateSent _ err hcall hstate =>
    have hcoap := hquiet.coap_ne_none hstate
    have hpost := hw.call (e := .coapPost w.client.coap w.client.regLocation none .zero err)
      (by simp) (OnLive.of_client hw hcoap)
    exact ⟨hpost.setState _, quiet_of_coap hcoap⟩
  | @notified objId instId resId app err payload hstate =>
    have hcoap := hquiet.coap_ne_none hstate
    have hpost := hw.call
      (e := .coapPost w.client.coap (notifyPath objId instId resId) (some payload) .json err)
      (by simp) (OnLive.of_client hw hcoap)
    exact ⟨hpost, quiet_of_coap hcoap⟩
  | @stopWaits _ err api inDestroy hcall hphase hstate =>
    have hcoap := hquiet.coap_ne_none hstate
    have hstop := (hcalled api).stopUpdateTimer
    have hkept : (w.record (.called api)).stopUpdateTimer.client.coap = w.client.coap := by simp
    have hlive : OnLive w.client.coap (w.record (.called api)).stopUpdateTimer.log :=
      hkept ▸ OnLive.of_client hstop (hkept ▸ hcoap)
    have hdelete := (hstop.setState .deregistering).call
      (e := .coapDelete w.client.coap w.client.regLocation err) (by simp) hlive
    refine ⟨(hdelete.record (by simp [Entry.Offline])).setPhase _, quiet_of_coap ?_⟩
    simpa using hcoap
  | stopped => exact ⟨(hcalled .stop).stopUpdateTimer.finishStop, quiet_of_idle (by simp)⟩
  | destroyedStopped =>
    exact ⟨(hcalled .destroy).stopUpdateTimer.stopEnd.finishDestroy, quiet_of_idle (by simp)⟩
  | destroyed hphase hstate =>
    exact ⟨(hcalled .destroy).finishDestroy, quiet_of_idle (by simpa using hstate)⟩
  | stopResumed => exact ⟨hw.finishStop, quiet_of_idle (by simp)⟩
  | destroyResumed => exact ⟨hw.stopEnd.finishDestroy, quiet_of_idle (by simp)⟩
  | connected hw' =>
    have hbefore := (hhandled .connected).dispatchEvent .connected
    have hsafe : ((w.record (.handled .connected)).dispatchEvent .connected).client.coap = none →
        linkPayload ((w.record (.handled .connected)).dispatchEvent .connected).client.objects =
          none := by
      rw [dispatchEvent_client]
      exact ha
    exact ⟨hw'.handlesUsed hbefore ((hw'.handleDiscipline_iff hbefore).mpr hsafe), hw'.quiet hsafe⟩
  | @updateRejected _ resp _ _ hstate hcode hw' =>
    have hbefore := (hhandled (.response (some resp))).setLocation []
    have hsafe : w.client.coap = none → linkPayload w.client.objects = none :=
      fun hnone => absurd hnone (hquiet.coap_ne_none hstate)
    exact ⟨hw'.handlesUsed hbefore ((hw'.handleDiscipline_iff hbefore).mpr hsafe), hw'.quiet hsafe⟩
  | disconnected =>
    have hlost := (hhandled .disconnected).stopUpdateTimer
    exact ⟨((hlost.setState _).setLocation _).dispatchEvent _, quiet_of_error (by simp)⟩
  | registered hstate =>
    have hcoap := hquiet.coap_ne_none hstate
    refine ⟨((((hhandled _).setLocation _).setState _).startUpdateTimer _).dispatchEvent _, ?_⟩
    exact quiet_of_coap (by simpa using hcoap)
  | noResponse | ignored => exact ⟨hhandled _, hquiet⟩
  | rejected | failed =>
    exact ⟨((hhandled _).setState _).dispatchEvent _, quiet_of_error (by simp)⟩
  | updated hstate =>
    have hcoap := hquiet.coap_ne_none hstate
    exact ⟨((hhandled _).setState _).dispatchEvent _, quiet_of_coap (by simpa using hcoap)⟩
  | deregistered =>
    exact ⟨(((hhandled _).setState _).setLocation _).dispatchEvent _, quiet_of_idle (by simp)⟩
  | reported =>
    refine ⟨(hhandled _).dispatchEvent _, fun hcoap => ?_⟩
    rw [dispatchEvent_client] at hcoap ⊢
    exact hquiet hcoap

/-- A connected event that finds no handle breaks the discipline. -/
theorem connectsOnHandle_of_discipline (h : Effect w a w') (hw : HandlesUsed w)
    (hdiscipline : HandleDiscipline w'.log) : ConnectsOnHandle w a := by
  cases h with
  | connected hw' =>
    have hbefore : HandlesUsed ((w.record (.handled .connected)).dispatchEvent .connected) :=
      (hw.record (by simp [Entry.Offline])).dispatchEvent .connected
    have hsafe := (hw'.handleDiscipline_iff hbefore).mp hdiscipline
    rw [dispatchEvent_client] at hsafe
    exact hsafe
  | updateRefused hcall | updateSent hcall => rcases hcall with rfl | ⟨t, -, rfl⟩ <;> exact trivial
  | stopWaits api inDestroy hcall => rcases hcall with ⟨rfl, -⟩ | ⟨rfl, -⟩ <;> exact trivial
  | _ => exact trivial

/-! ### Every run -/

/-- The handles are in order, and while the discipline is kept the client is quiet without
a handle. -/
structure HandlesInOrder (w : World σ κ ψ) : Prop where
  invariant : HandleInvariant w
  quiet : HandleDiscipline w.log → Quiet w

theorem HandlesInOrder.used (hw : HandlesInOrder w) (h : HandleDiscipline w.log) :
    HandlesUsed w :=
  ⟨hw.invariant.live, h⟩

/-- A step only adds to the log. -/
theorem handleDiscipline_of_effect (h : Effect w a w') (hw' : HandleDiscipline w'.log) :
    HandleDiscipline w.log := by
  obtain ⟨es, hlog, -⟩ := made_of_effect h
  rw [HandleDiscipline, hlog] at hw'
  exact each_append hw'

theorem handlesInOrder_step (h : Effect w a w') (hw : HandlesInOrder w) : HandlesInOrder w' := by
  have hinv := handleInvariant_step h hw.invariant
  refine ⟨hinv, fun hdiscipline => ?_⟩
  have hbefore := handleDiscipline_of_effect h hdiscipline
  have hused := hw.used hbefore
  have ha := connectsOnHandle_of_discipline h hused hdiscipline
  exact (handlesUsed_step h hused (hw.quiet hbefore) hinv ha).2

/-- **The step**: exactly a connected event without a handle breaks the discipline. -/
theorem handleDiscipline_step_iff (h : Effect w a w') (hw : HandlesInOrder w)
    (hdiscipline : HandleDiscipline w.log) : HandleDiscipline w'.log ↔ ConnectsOnHandle w a := by
  have hused := hw.used hdiscipline
  constructor
  · exact connectsOnHandle_of_discipline h hused
  · intro ha
    have hinv := handleInvariant_step h hw.invariant
    exact (handlesUsed_step h hused (hw.quiet hdiscipline) hinv ha).1.discipline

/-- **Requests are made on live handles unless a failed restart is followed by a connected
event.** In every run, whatever the client starts, stops, destroys, posts to or deletes on
is a handle that is live at that moment, if and only if no connected event is handled while
the client has no handle and objects that fit a registration. -/
theorem handle_discipline_iff {fp : FloatOps} {config : ClientConfig ψ} {c : Client σ κ ψ}
    (hinit : init config = some c) (as : List (Action σ κ)) :
    Along (step fp) (fun _ _ w' => HandleDiscipline w'.log) (World.initial c) as ↔
      Along (step fp) (fun w a _ => ConnectsOnHandle w a) (World.initial c) as := by
  obtain ⟨hidle, -, hcoap, -⟩ := init_idle hinit
  refine along_state_iff (J := HandlesInOrder) (P := fun w => HandleDiscipline w.log) ?_ ?_ ?_ ?_ as
  · intro w a w' hw h
    exact handlesInOrder_step (effect_of_step h) hw
  · intro w a w' hw hdiscipline h
    exact handleDiscipline_step_iff (effect_of_step h) hw hdiscipline
  · exact ⟨handleInvariant_initial hcoap, fun _ => quiet_of_idle hidle⟩
  · exact trivial

/-- A restart whose initialisation fails, and the event of the old handle: the registration
is posted on no handle. -/
theorem handle_discipline_iff_sample :
    ¬Along (step ieee754) (fun _ _ w' => HandleDiscipline w'.log) (World.initial sampleClient)
      [.start true .ok, .stop .ok, .start false .ok, .event .connected .ok true] := by
  rw [handle_discipline_iff init_sampleConfig]
  intro h
  obtain ⟨-, h⟩ := h _ rfl
  obtain ⟨-, h⟩ := h _ rfl
  obtain ⟨-, h⟩ := h _ rfl
  obtain ⟨hsafe, -⟩ := h _ rfl
  exact absurd (hsafe rfl) (by decide)

end WbLwm2m

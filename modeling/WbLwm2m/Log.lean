import WbLwm2m.Step

/-!
# What a step leaves in the log

The log grows at its front. This module says what a step may add to it: entry by entry,
which requests it makes and when (`WbLwm2m.Made`), and which settings of the client it
leaves alone. A statement about all entries of a log is then proved without another look
at the steps.
-/

namespace WbLwm2m

open World Transition

variable {σ κ ψ : Type} {w w' : World σ κ ψ} {a : Action σ κ}

/-! ### What is added to the log -/

/-- The second log is the first one with some entries added, all of them with `P`. -/
def Adds (P : Entry ψ → Prop) (l l' : List (Entry ψ)) : Prop :=
  ∃ es, l' = es ++ l ∧ ∀ e ∈ es, P e

section Adds

variable {P : Entry ψ → Prop}

theorem Adds.refl (l : List (Entry ψ)) : Adds P l l := ⟨[], rfl, fun _ he => absurd he (by simp)⟩

theorem Adds.cons {l l' : List (Entry ψ)} (h : Adds P l l') {e : Entry ψ} (he : P e) :
    Adds P l (e :: l') := by
  obtain ⟨es, rfl, hes⟩ := h
  exact ⟨e :: es, rfl, List.forall_mem_cons.mpr ⟨he, hes⟩⟩

theorem Adds.trans {l₁ l₂ l₃ : List (Entry ψ)} (h : Adds P l₁ l₂) (h' : Adds P l₂ l₃) :
    Adds P l₁ l₃ := by
  obtain ⟨es, rfl, hes⟩ := h
  obtain ⟨fs, rfl, hfs⟩ := h'
  refine ⟨fs ++ es, (List.append_assoc _ _ _).symm, fun e he => ?_⟩
  rcases List.mem_append.mp he with he | he
  · exact hfs e he
  · exact hes e he

theorem Adds.mono {Q : Entry ψ → Prop} {l l' : List (Entry ψ)} (h : Adds P l l')
    (hPQ : ∀ e, P e → Q e) : Adds Q l l' := by
  obtain ⟨es, rfl, hes⟩ := h
  exact ⟨es, rfl, fun e he => hPQ e (hes e he)⟩

/-- What is in the second log has `P` or was there before. -/
theorem Adds.mem {l l' : List (Entry ψ)} (h : Adds P l l') {e : Entry ψ} (he : e ∈ l') :
    P e ∨ e ∈ l := by
  obtain ⟨es, rfl, hes⟩ := h
  exact (List.mem_append.mp he).imp_left (hes e)

theorem adds_dispatchEvent (w : World σ κ ψ) (type : EventType) (h : ∀ t, P (.dispatch t)) :
    Adds P w.log (w.dispatchEvent type).log := by
  rw [dispatchEvent]
  split
  · exact (Adds.refl _).cons (h type)
  · exact Adds.refl _

theorem adds_stopUpdateTimer (w : World σ κ ψ) (hs : ∀ t, P (.timerStop t))
    (hd : ∀ t, P (.timerDelete t)) : Adds P w.log w.stopUpdateTimer.log := by
  rw [stopUpdateTimer]
  split
  · exact Adds.refl _
  · exact ((Adds.refl _).cons (hs _)).cons (hd _)

theorem adds_startUpdateTimer (w : World σ κ ψ) (created : Bool) (hs : ∀ t, P (.timerStop t))
    (hd : ∀ t, P (.timerDelete t)) (hc : ∀ t ms, P (.timerCreate t ms))
    (hst : ∀ t, P (.timerStart t)) : Adds P w.log (w.startUpdateTimer created).log := by
  have hstop := adds_stopUpdateTimer w hs hd
  cases created with
  | false => exact hstop.cons (hc _ _)
  | true => exact (hstop.cons (hc _ _)).cons (hst _)

theorem adds_stopEnd (w : World σ κ ψ) (hs : ∀ h, P (.coapStop h)) (hd : ∀ t, P (.dispatch t)) :
    Adds P w.log w.stopEnd.log := by
  rw [stopEnd]
  refine Adds.trans ?_ (adds_dispatchEvent _ _ hd)
  cases w.client.coap with
  | none => exact Adds.refl _
  | some h => exact (Adds.refl _).cons (hs h)

theorem adds_destroyEnd (w : World σ κ ψ) (hh : ∀ h, P (.coapDestroy h))
    (ht : ∀ t, P (.timerDelete t)) (hf : P .free) : Adds P w.log w.destroyEnd.log := by
  have hcoap : Adds P w.log w.releaseCoap.log := by
    rw [releaseCoap]
    split
    · exact (Adds.refl _).cons (hh _)
    · exact Adds.refl _
  have htimer : Adds P w.releaseCoap.log w.releaseCoap.releaseTimer.log := by
    rw [releaseTimer]
    split
    · exact (Adds.refl _).cons (ht _)
    · exact Adds.refl _
  exact (hcoap.trans htimer).cons hf

theorem Registers.adds {err : EspErr} (h : Registers w err w')
    (hp : ∀ h path p f e, P (.coapPost h path p f e)) : Adds P w.log w'.log := by
  cases h with
  | posted payload => exact (Adds.refl _).cons (hp _ _ _ _ _)
  | noPayload => exact Adds.refl _

end Adds

/-! ### Dispatched events -/

/-- The events that have been dispatched. -/
def dispatched : List (Entry ψ) → List EventType
  | [] => []
  | .dispatch type :: log => type :: dispatched log
  | _ :: log => dispatched log

@[simp] theorem dispatched_cons {e : Entry ψ} (he : e.topic ≠ .dispatch) (log : List (Entry ψ)) :
    dispatched (e :: log) = dispatched log := by
  cases e <;> first | rfl | exact absurd rfl he

/-- What the event handler gets to hear: nothing if there is none. -/
def heard (handler : Bool) (types : List EventType) : List EventType :=
  if handler then types else []

@[simp] theorem dispatched_dispatchEvent (w : World σ κ ψ) (type : EventType) :
    dispatched (w.dispatchEvent type).log =
      heard w.client.eventHandler [type] ++ dispatched w.log := by
  rw [dispatchEvent, heard]
  split <;> rfl

@[simp] theorem dispatched_stopUpdateTimer (w : World σ κ ψ) :
    dispatched w.stopUpdateTimer.log = dispatched w.log :=
  apply_stopUpdateTimer w (fun _ _ => rfl) fun _ _ => rfl

@[simp] theorem dispatched_startUpdateTimer (w : World σ κ ψ) (created : Bool) :
    dispatched (w.startUpdateTimer created).log = dispatched w.log :=
  apply_startUpdateTimer w created (fun _ _ => rfl) (fun _ _ => rfl) (fun _ _ _ => rfl)
    fun _ _ => rfl

@[simp] theorem dispatched_stopEnd (w : World σ κ ψ) :
    dispatched w.stopEnd.log = heard w.client.eventHandler [.deregistered] ++ dispatched w.log := by
  rw [stopEnd, dispatched_dispatchEvent]
  cases w.client.coap <;> rfl

@[simp] theorem dispatched_destroyEnd (w : World σ κ ψ) :
    dispatched w.destroyEnd.log = dispatched w.log :=
  (apply_releaseTimer w.releaseCoap fun _ _ => rfl).trans (apply_releaseCoap w fun _ _ => rfl)

theorem Registers.dispatched_eq {err : EspErr} (h : Registers w err w') :
    dispatched w'.log = dispatched w.log :=
  h.apply_eq fun _ _ _ _ _ _ => rfl

/-! ### Made in a step -/

/-- The action is a notification. -/
def Action.Notifying : Action σ κ → Prop
  | .notify _ _ _ _ _ => True
  | _ => False

/-- The action is a response with the given code. -/
def Action.Answers (code : RespCode) : Action σ κ → Prop
  | .event (.response (some resp)) _ _ => resp.code = code
  | _ => False

/-- **What a step may add to the log.** The three kinds of post are told apart by payload
and format: a registration has a payload in link format, an update has none, and a
notification has one in JSON. -/
def Made (w : World σ κ ψ) (a : Action σ κ) : Entry ψ → Prop
  | .coapPost h path (some payload) .linkFormat _ =>
    h = w.client.coap ∧ path = regPath w.client ∧ linkPayload w.client.objects = some payload
  | .coapPost h path none format _ =>
    (a.Updating ∧ w.client.state = .registered) ∧ h = w.client.coap ∧
      path = w.client.regLocation ∧ path ≠ [] ∧ format = .zero
  | .coapPost h _ (some _) .json _ =>
    (a.Notifying ∧ w.client.state = .registered) ∧ h = w.client.coap
  | .coapPost _ _ (some _) .zero _ => False
  | .coapDelete h path _ =>
    (a.Stopping ∧ w.phase = .running ∧ w.client.state = .registered) ∧ h = w.client.coap ∧
      path = w.client.regLocation ∧ path ≠ []
  | .dispatch type => w.client.eventHandler = true ∧
    (type = .regUpdated → a.Answers .changed ∧ w.client.state = .updating)
  | _ => True

theorem adds_made_dispatchEvent (v : World σ κ ψ) (type : EventType)
    (hv : v.client.eventHandler = w.client.eventHandler)
    (htype : type = .regUpdated → a.Answers .changed ∧ w.client.state = .updating) :
    Adds (Made w a) v.log (v.dispatchEvent type).log := by
  rw [dispatchEvent]
  split
  · next hhandler =>
    have hmade : Made w a (.dispatch type) := ⟨hv.symm.trans hhandler, htype⟩
    exact (Adds.refl _).cons hmade
  · exact Adds.refl _

theorem adds_made_stopEnd (v : World σ κ ψ) (hv : v.client.eventHandler = w.client.eventHandler) :
    Adds (Made w a) v.log v.stopEnd.log := by
  rw [stopEnd]
  refine Adds.trans ?_ (adds_made_dispatchEvent _ _ ?_ (by simp))
  · cases v.client.coap with
    | none => exact Adds.refl _
    | some h => exact (Adds.refl _).cons trivial
  · rw [← hv]
    cases v.client.coap <;> rfl

theorem Registers.adds_made {v : World σ κ ψ} {err : EspErr} (h : Registers v err w')
    (hv : v.client.coap = w.client.coap) (hpath : regPath v.client = regPath w.client)
    (hobjects : v.client.objects = w.client.objects) : Adds (Made w a) v.log w'.log := by
  cases h with
  | posted payload hpayload =>
    refine (Adds.refl _).cons ?_
    exact ⟨hv, hpath, hobjects ▸ hpayload⟩
  | noPayload => exact Adds.refl _

/-- **A step adds nothing else.** -/
theorem made_of_effect (h : Effect w a w') : Adds (Made w a) w.log w'.log := by
  have hrefl : Adds (Made w a) w.log w.log := Adds.refl _
  have hcalled (api : Api) : Adds (Made w a) w.log (w.record (.called api)).log :=
    hrefl.cons trivial
  have hhandled (event : CoapEvent) : Adds (Made w a) w.log (w.record (.handled event)).log :=
    hrefl.cons trivial
  have htimer (v : World σ κ ψ) : Adds (Made w a) v.log v.stopUpdateTimer.log :=
    adds_stopUpdateTimer v (fun _ => trivial) fun _ => trivial
  have hdestroy (v : World σ κ ψ) : Adds (Made w a) v.log v.finishDestroy.log :=
    (adds_destroyEnd v (fun _ => trivial) (fun _ => trivial) trivial).cons trivial
  cases h with
  | addRefused | added | updateRefused | notifyRefused => exact hrefl
  | startRefused => exact (hcalled .start).cons trivial
  | startNoHandle => refine ((hcalled .start).cons ?_).cons ?_ <;> exact trivial
  | startFailed =>
    refine ((((hcalled .start).cons ?_).cons ?_).cons ?_).cons ?_ <;> exact trivial
  | started => refine (((hcalled .start).cons ?_).cons ?_).cons ?_ <;> exact trivial
  | updateSent ha hstate hloc =>
    exact hrefl.cons ⟨⟨updating_of_call ha, hstate⟩, rfl, rfl, hloc, rfl⟩
  | notified payload hstate => exact hrefl.cons ⟨⟨trivial, hstate⟩, rfl⟩
  | noResponse | ignored => exact hhandled _
  | @stopWaits _ err api inDestroy ha hphase hstate hloc =>
    have hbefore := (hcalled api).trans (htimer _)
    have hdelete : Made w a (.coapDelete w.client.coap w.client.regLocation err) :=
      ⟨⟨stopping_of_call ha, hphase, hstate⟩, rfl, rfl, hloc⟩
    exact (hbefore.cons hdelete).cons trivial
  | stopped =>
    have hbefore := (hcalled .stop).trans (htimer _)
    exact (hbefore.trans (adds_made_stopEnd _ (by simp))).cons trivial
  | destroyedStopped =>
    have hbefore := (hcalled .destroy).trans (htimer _)
    exact (hbefore.trans (adds_made_stopEnd _ (by simp))).trans (hdestroy _)
  | destroyed => exact (hcalled .destroy).trans (hdestroy _)
  | stopResumed => exact (adds_made_stopEnd w rfl).cons trivial
  | destroyResumed => exact (adds_made_stopEnd w rfl).trans (hdestroy _)
  | connected hw' =>
    have hbefore := (hhandled .connected).trans (adds_made_dispatchEvent _ .connected rfl (by simp))
    exact hbefore.trans (hw'.adds_made (by simp) (by simp) (by simp))
  | updateRejected hstate hcode hw' =>
    exact (hhandled _).trans (hw'.adds_made rfl rfl rfl)
  | disconnected =>
    have hbefore := (hhandled .disconnected).trans (htimer _)
    exact hbefore.trans (adds_made_dispatchEvent _ _ (by simp) (by simp))
  | @registered resp err created =>
    have hstart := adds_startUpdateTimer (P := Made w (.event (.response (some resp)) err created))
      (((w.record (.handled (.response (some resp)))).setLocation
        (w.newLocation resp.locationPath)).setState .registered) created
      (fun _ => trivial) (fun _ => trivial) (fun _ _ => trivial) fun _ => trivial
    have hbefore := (hhandled (.response (some resp))).trans hstart
    exact hbefore.trans (adds_made_dispatchEvent _ _ (by simp) (by simp))
  | updated hstate hcode =>
    exact (hhandled _).trans (adds_made_dispatchEvent _ _ rfl fun _ => ⟨hcode, hstate⟩)
  | rejected | deregistered | failed | reported =>
    exact (hhandled _).trans (adds_made_dispatchEvent _ _ rfl (by simp))

/-! ### The settings -/

/-- The client as it was made: what it has come to since then is taken back. -/
def Client.asMade (c : Client σ κ ψ) : Client σ κ ψ :=
  { c with objects := [], coap := none, state := .idle, regLocation := [], updateTimer := none }

/-- **No step changes a setting.** -/
theorem asMade_of_effect (h : Effect w a w') : w'.client.asMade = w.client.asMade := by
  cases h with
  | stopWaits | stopped | stopResumed | destroyedStopped | destroyed | destroyResumed
  | disconnected | registered | rejected | updated | deregistered | failed | reported =>
    simp [Client.asMade]
  | connected hw' =>
    rw [hw'.client_eq, dispatchEvent_client]
    rfl
  | updateRejected hstate hcode hw' =>
    rw [hw'.client_eq]
    rfl
  | _ => rfl

theorem asMade_init {config : ClientConfig ψ} {c : Client σ κ ψ} (h : init config = some c) :
    c.asMade = c := by
  rw [init] at h
  split at h
  · obtain rfl := Option.some.inj h
    rfl
  · cases h

theorem eventHandler_init {config : ClientConfig ψ} {c : Client σ κ ψ}
    (hinit : init config = some c) : c.eventHandler = config.eventHandler := by
  rw [init] at hinit
  split at hinit
  · obtain rfl := Option.some.inj hinit
    rfl
  · cases hinit

theorem eventHandler_of_effect (h : Effect w a w') :
    w'.client.eventHandler = w.client.eventHandler := by
  have hsame := congrArg Client.eventHandler (asMade_of_effect h)
  exact hsame

end WbLwm2m

import WbLwm2m.Notify
import WbLwm2m.Payload
import WbLwm2m.Reachability
import WbLwm2m.RegistrationRequest

/-!
# The requests of a client

All that a server sees of a client are its requests: the registrations, updates,
notifications and deregistrations that are handed to the CoAP client. Some conditions on a
request concern it alone, its path and its payload (`WbLwm2m.Request.Sound`). The others
concern the requests before it, and an automaton checks them (`WbLwm2m.Standing.next`): what
goes to a location comes after a registration whose post has succeeded, it goes to the same
location until the next registration, and nothing goes there after a deregistration.

There are no conditions beside these: `WbLwm2m.request_traces_iff`. What the automaton cannot
see is where a location comes from. The answer to a registration brings it, and the requests
show it with the first update, maybe after many notifications; so whoever brings a list of
requests about has to know its end before its beginning.
-/

namespace WbLwm2m

open World Transition

variable {σ κ ψ : Type} {w w' : World σ κ ψ} {a : Action σ κ} {fp : FloatOps}

/-! ### Requests -/

/-- **A request**: what the CoAP client is given to send, and what the call answers. -/
inductive Request where
  | post (path : Text) (payload : Option Text) (format : Format) (err : EspErr)
  | delete (path : Text) (err : EspErr)
deriving DecidableEq

/-- The requests that have been made, the last one first. -/
def requests : List (Entry ψ) → List Request
  | [] => []
  | .coapPost _ path payload format err :: log => .post path payload format err :: requests log
  | .coapDelete _ path err :: log => .delete path err :: requests log
  | _ :: log => requests log

@[simp] theorem requests_cons {e : Entry ψ} (he : e.topic ≠ .request) (log : List (Entry ψ)) :
    requests (e :: log) = requests log := by
  cases e <;> first | rfl | exact absurd rfl he

@[simp] theorem requests_coapPost (h : Option ℕ) (path : Text) (payload : Option Text)
    (format : Format) (err : EspErr) (log : List (Entry ψ)) :
    requests (.coapPost h path payload format err :: log) =
      .post path payload format err :: requests log := rfl

@[simp] theorem requests_coapDelete (h : Option ℕ) (path : Text) (err : EspErr)
    (log : List (Entry ψ)) :
    requests (.coapDelete h path err :: log) = .delete path err :: requests log := rfl

@[simp] theorem requests_dispatchEvent (w : World σ κ ψ) (type : EventType) :
    requests (w.dispatchEvent type).log = requests w.log :=
  apply_dispatchEvent w type fun _ _ => rfl

@[simp] theorem requests_stopUpdateTimer (w : World σ κ ψ) :
    requests w.stopUpdateTimer.log = requests w.log :=
  apply_stopUpdateTimer w (fun _ _ => rfl) fun _ _ => rfl

@[simp] theorem requests_startUpdateTimer (w : World σ κ ψ) (created : Bool) :
    requests (w.startUpdateTimer created).log = requests w.log :=
  apply_startUpdateTimer w created (fun _ _ => rfl) (fun _ _ => rfl) (fun _ _ _ => rfl)
    fun _ _ => rfl

@[simp] theorem requests_stopEnd (w : World σ κ ψ) : requests w.stopEnd.log = requests w.log :=
  apply_stopEnd w (fun _ _ => rfl) fun _ _ => rfl

@[simp] theorem requests_destroyEnd (w : World σ κ ψ) :
    requests w.destroyEnd.log = requests w.log :=
  (apply_releaseTimer w.releaseCoap fun _ _ => rfl).trans (apply_releaseCoap w fun _ _ => rfl)

/-! ### What a step asks for -/

/-- A text that can be the location of a registration. -/
def IsLocation (path : Text) : Prop := path ≠ [] ∧ path.length ≤ 127

/-- A notification of these objects has the path and the payload. -/
def Notifiable (fp : FloatOps) (objects : List (ObjectDef σ κ)) (path payload : Text) : Prop :=
  ∃ objId instId resId app obj cb value, path = notifyPath objId instId resId ∧
    readFrom objects objId resId = some (obj, cb) ∧
    (cb objId instId resId obj.userCtx app).1 = (.ok, value) ∧
    senmlPayload fp objId instId resId value = some payload

/-- **What a step asks for**, and what becomes of the state and of the location. -/
inductive Asks (fp : FloatOps) (w w' : World σ κ ψ) : Option Request → Prop
  | nothing (hreg : w'.client.state = .registering → w.client.state = .registering)
      (hkept : w'.client.state.KeptAlive →
        w.client.state.KeptAlive ∧ w'.client.regLocation = w.client.regLocation ∨
          w.client.state = .registering ∧ IsLocation w'.client.regLocation) : Asks fp w w' none
  | registration {payload : Text} {err : EspErr}
      (hpayload : linkPayload w.client.objects = some payload)
      (hstate : w'.client.state = if err = .ok then .registering else .error) :
    Asks fp w w' (some (.post (regPath w.client) (some payload) .linkFormat err))
  | update {err : EspErr} (hstate : w.client.state = .registered)
      (hstate' : w'.client.state.KeptAlive)
      (hloc : w'.client.regLocation = w.client.regLocation) :
    Asks fp w w' (some (.post w.client.regLocation none .zero err))
  | notification {path payload : Text} {err : EspErr} (hstate : w.client.state = .registered)
      (hclient : w'.client = w.client)
      (hnotifiable : Notifiable fp w.client.objects path payload) :
    Asks fp w w' (some (.post path (some payload) .json err))
  | deregistration {err : EspErr} (hstate : w.client.state = .registered)
      (hstate' : w'.client.state = .deregistering) :
    Asks fp w w' (some (.delete w.client.regLocation err))

theorem asks_of_eq (hstate : w'.client.state = w.client.state)
    (hloc : w'.client.regLocation = w.client.regLocation) : Asks fp w w' none := by
  refine Asks.nothing (fun h => hstate ▸ h) fun h => Or.inl ⟨?_, hloc⟩
  rwa [← hstate]

theorem asks_of_state {s : State} (h : w'.client.state = s)
    (hs : ¬(s = .registering ∨ s.KeptAlive) := by decide) : Asks fp w w' none := by
  subst h
  exact Asks.nothing (fun h => absurd (Or.inl h) hs) fun h => absurd (Or.inr h) hs

/-- The location a registration is answered with is one. -/
theorem isLocation_newLocation (w : World σ κ ψ) (location : Text) :
    IsLocation (w.newLocation location) := by
  refine ⟨newLocation_ne_nil w location, ?_⟩
  rw [newLocation]
  split
  · rw [length_printText]
    exact min_le_left _ _
  · rw [length_printText]
    exact min_le_left _ _

/-- Every location can be given. -/
theorem newLocation_of_isLocation (w : World σ κ ψ) {location : Text} (h : IsLocation location) :
    w.newLocation location = location := by
  rw [newLocation, if_pos h.1]
  exact printText_of_le h.2

/-- The client asks for `r`, which is seen in the log. -/
def AsksFor (fp : FloatOps) (w w' : World σ κ ψ) (r : Option Request) : Prop :=
  Asks fp w w' r ∧ requests w'.log = r.toList ++ requests w.log

theorem Registers.asks {v : World σ κ ψ} {err : EspErr} (h : Registers v err w')
    (hpath : regPath v.client = regPath w.client) (hobjects : v.client.objects = w.client.objects)
    (hlog : requests v.log = requests w.log) : ∃ r, AsksFor fp w w' r := by
  cases h with
  | posted payload hpayload =>
    rw [hobjects] at hpayload
    refine ⟨some (.post (regPath w.client) (some payload) .linkFormat err),
      Asks.registration hpayload rfl, ?_⟩
    simp [hpath, hlog]
  | noPayload => exact ⟨none, asks_of_state (s := .error) rfl, hlog⟩

theorem asks_of_notify (objId instId resId : UInt16) (app : σ) (postErr : EspErr) :
    ∃ r, AsksFor fp w (w.notify fp objId instId resId app postErr).2 r := by
  generalize hresult : w.notify fp objId instId resId app postErr = result
  have hnotifies := notifies_notify fp w objId instId resId app postErr
  rw [hresult] at hnotifies
  cases hnotifies with
  | sent obj payload hread =>
    obtain ⟨cb, value, hfrom, hvalue, hpayload⟩ := hread.read
    refine ⟨some (.post (notifyPath objId instId resId) (some payload) .json postErr),
      Asks.notification hread.state rfl ?_, rfl⟩
    exact ⟨objId, instId, resId, app, obj, cb, value, rfl, hfrom, hvalue, hpayload⟩
  | refused => exact ⟨none, asks_of_eq rfl rfl, rfl⟩

/-- **Every step asks for one request at most**, and in one of these ways. -/
theorem asks_of_effect (h : Effect w a w')
    (ha : ∀ objId instId resId app err, a ≠ .notify objId instId resId app err) :
    ∃ r, AsksFor fp w w' r := by
  cases h with
  | notifyRefused | notified => exact absurd rfl (ha _ _ _ _ _)
  | addRefused | added | startRefused | updateRefused | noResponse | ignored =>
    exact ⟨none, asks_of_eq rfl rfl, by simp⟩
  | startNoHandle | destroyed | reported => exact ⟨none, asks_of_eq (by simp) (by simp), by simp⟩
  | startFailed => exact ⟨none, asks_of_state (s := .idle) rfl, by simp⟩
  | started => exact ⟨none, asks_of_state (s := .connecting) rfl, by simp⟩
  | @updateSent _ err ha hstate hloc =>
    refine ⟨some (.post w.client.regLocation none .zero err), Asks.update hstate ?_ rfl, by simp⟩
    by_cases herr : err = .ok
    · exact Or.inr (by simp [herr])
    · exact Or.inl (by simp [herr])
  | @stopWaits _ err api inDestroy ha hphase hstate hloc =>
    exact ⟨some (.delete w.client.regLocation err), Asks.deregistration hstate (by simp), by simp⟩
  | stopped | stopResumed | destroyedStopped | destroyResumed | deregistered =>
    exact ⟨none, asks_of_state (s := .idle) (by simp), by simp⟩
  | connected hw' => exact hw'.asks (by simp) (by simp) (by simp)
  | updateRejected hstate hcode hw' => exact hw'.asks rfl rfl (by simp)
  | disconnected | rejected | failed => exact ⟨none, asks_of_state (s := .error) (by simp), by simp⟩
  | @registered resp err created hstate hpath hcode =>
    refine ⟨none, Asks.nothing (fun _ => hstate) fun _ => Or.inr ⟨hstate, ?_⟩, by simp⟩
    simpa using isLocation_newLocation w resp.locationPath
  | updated hstate hcode =>
    refine ⟨none, Asks.nothing (by simp) fun _ => Or.inl ⟨Or.inr hstate, ?_⟩, by simp⟩
    simp

theorem asks_of_step (h : step fp w a = some w') : ∃ r, AsksFor fp w w' r := by
  cases a with
  | notify objId instId resId app postErr =>
    rw [step] at h
    split at h
    · cases h
    · obtain rfl := Option.some.inj h
      exact asks_of_notify objId instId resId app postErr
  | _ =>
    refine asks_of_effect (effect_of_step h) ?_
    rintro _ _ _ _ _ ⟨⟩

/-! ### Conditions on one request -/

/-- **The request is one that a client with these settings and these objects makes.** -/
def Request.Sound (fp : FloatOps) (c : Client σ κ ψ) : Request → Prop
  | .post path (some payload) .linkFormat _ =>
    path = regPath c ∧ linkPayload c.objects = some payload
  | .post path none .zero _ => IsLocation path
  | .post path (some payload) .json _ => Notifiable fp c.objects path payload
  | .delete path _ => IsLocation path
  | _ => False

/-- The action is an object that is added. -/
def Action.Adding : Action σ κ → Prop
  | .addObject _ => True
  | _ => False

instance (a : Action σ κ) : Decidable a.Adding := match a with
  | .addObject _ => instDecidableTrue
  | .start _ _ | .updateRegistration _ | .stop _ | .destroy _ | .resume | .notify _ _ _ _ _
  | .timer _ _ | .event _ _ _ => instDecidableFalse

/-- The client has got the settings and the objects of another one. -/
def SameSetup (c c' : Client σ κ ψ) : Prop := c.asMade = c'.asMade ∧ c.objects = c'.objects

theorem SameSetup.trans {c c' c'' : Client σ κ ψ} (h : SameSetup c c') (h' : SameSetup c' c'') :
    SameSetup c c'' :=
  ⟨h.1.trans h'.1, h.2.trans h'.2⟩

theorem SameSetup.regPath_eq {c c' : Client σ κ ψ} (h : SameSetup c c') :
    regPath c = regPath c' := by
  have hmade := congrArg regPath h.1
  exact hmade

theorem SameSetup.sound {c c' : Client σ κ ψ} (h : SameSetup c c') {r : Request}
    (hr : r.Sound fp c) : r.Sound fp c' := by
  cases r with
  | delete => exact hr
  | post path payload format err =>
    cases payload with
    | none => cases format <;> exact hr
    | some payload =>
      cases format with
      | zero => exact hr
      | linkFormat => exact ⟨hr.1.trans h.regPath_eq, h.2 ▸ hr.2⟩
      | json =>
        rw [Request.Sound, ← h.2]
        exact hr

theorem sameSetup_of_effect (h : Effect w a w') (ha : ¬a.Adding) :
    SameSetup w'.client w.client := by
  refine ⟨asMade_of_effect h, objects_of_effect h ?_⟩
  rintro obj rfl
  exact ha trivial

theorem sameSetup_of_run {as : List (Action σ κ)} (has : ∀ a ∈ as, ¬a.Adding)
    (hrun : run (step fp) w as = some w') : SameSetup w'.client w.client := by
  refine run_invariant (P := fun v => SameSetup v.client w.client)
    (fun v a v' ha hv h => ?_) has ⟨rfl, rfl⟩ hrun
  exact (sameSetup_of_effect (effect_of_step h) ha).trans hv

/-! ### Conditions on the order -/

/-- **What the requests tell of the registration**: that there is none, that there may be one
at a location that has not been seen, or that it is at this location. -/
inductive Standing where
  | out
  | pending
  | known (loc : Text)
deriving DecidableEq

/-- The registration may be at the location. -/
def Standing.Admits : Standing → Text → Prop
  | .out, _ => False
  | .pending, _ => True
  | .known loc, path => path = loc

instance (q : Standing) : DecidablePred q.Admits := fun path => match q with
  | .out => instDecidableFalse
  | .pending => instDecidableTrue
  | .known loc => inferInstanceAs (Decidable (path = loc))

/-- **The acceptor of requests.** -/
def Standing.next : Standing → Request → Option Standing
  -- a registration can be asked for at any time, and the location is open again
  | _, .post _ (some _) .linkFormat err => some (if err = .ok then .pending else .out)
  | q, .post path none .zero _ => if q.Admits path then some (.known path) else none
  | q, .post _ (some _) .json _ => if q = .out then none else some q
  | q, .delete path _ => if q.Admits path then some .out else none
  | _, _ => none

/-- The client stands so. -/
structure Standing.Holds (q : Standing) (w : World σ κ ψ) : Prop where
  kept : w.client.state.KeptAlive →
    IsLocation w.client.regLocation ∧ q.Admits w.client.regLocation
  registering : w.client.state = .registering → q = .pending

theorem Standing.holds_of_state {q : Standing} {s : State} (h : w.client.state = s)
    (hs : ¬(s = .registering ∨ s.KeptAlive) := by decide) : q.Holds w := by
  subst h
  exact ⟨fun h => absurd (Or.inr h) hs, fun h => absurd (Or.inl h) hs⟩

/-- **The acceptor follows every step.** -/
theorem Standing.follows {q : Standing} {r : Option Request} (h : Asks fp w w' r)
    (hq : q.Holds w) : r = none ∧ q.Holds w' ∨ ∃ o q', r = some o ∧ o.Sound fp w.client ∧
      q.next o = some q' ∧ q'.Holds w' := by
  cases h with
  | nothing hreg hkept =>
    refine Or.inl ⟨rfl, fun h => ?_, fun h => hq.registering (hreg h)⟩
    rcases hkept h with ⟨hold, hloc⟩ | ⟨hold, hloc⟩
    · rw [hloc]
      exact hq.kept hold
    · obtain rfl := hq.registering hold
      exact ⟨hloc, trivial⟩
  | @registration payload err hpayload hstate =>
    refine Or.inr ⟨_, _, rfl, ⟨rfl, hpayload⟩, rfl, ?_⟩
    by_cases herr : err = .ok
    · rw [if_pos herr] at hstate ⊢
      exact ⟨fun h => by simp [hstate, State.KeptAlive] at h, fun _ => rfl⟩
    · rw [if_neg herr] at hstate
      exact holds_of_state hstate
  | update hstate hstate' hloc =>
    obtain ⟨hlocation, hadmits⟩ := hq.kept (Or.inl hstate)
    refine Or.inr ⟨_, _, rfl, hlocation, if_pos hadmits, fun _ => ⟨hloc ▸ hlocation, hloc⟩, ?_⟩
    intro hreg
    exact absurd (hreg ▸ hstate') (by decide)
  | notification hstate hclient hnotifiable =>
    have hne : q ≠ .out := by
      rintro rfl
      exact (hq.kept (Or.inl hstate)).2
    refine Or.inr ⟨_, q, rfl, hnotifiable, if_neg hne, ?_⟩
    exact ⟨hclient ▸ hq.kept, hclient ▸ hq.registering⟩
  | deregistration hstate hstate' =>
    obtain ⟨hlocation, hadmits⟩ := hq.kept (Or.inl hstate)
    exact Or.inr ⟨_, _, rfl, hlocation, if_pos hadmits, holds_of_state hstate'⟩

/-! ### Bringing requests about -/

/-- The client has what it had in `w₀`, and is registered at the location, if there is one. -/
structure Settled (w₀ : World σ κ ψ) (loc : Option Text) (w : World σ κ ψ) : Prop where
  live : Live w
  setup : SameSetup w.client w₀.client
  registered : ∀ l, loc = some l →
    w.client.state = .registered ∧ w.client.regLocation = l ∧ IsLocation l

/-- Where the client can be once the requests are made that tell this of it. -/
def Standing.Places : Standing → Option Text → Prop
  | .out, loc => loc = none
  | .pending, loc => ∃ l, loc = some l ∧ IsLocation l
  | .known l, loc => loc = some l

theorem Standing.exists_places (q : Standing) : ∃ loc, q.Places loc := by
  cases q with
  | out => exact ⟨none, rfl⟩
  | pending => exact ⟨some (ascii "/rd/1"), _, rfl, by decide, by decide⟩
  | known l => exact ⟨some l, rfl⟩

/-- The client can be at a location that its requests may go to. -/
theorem Standing.Admits.places {q : Standing} {path : Text} (h : q.Admits path)
    (hpath : IsLocation path) : q.Places (some path) := by
  cases q with
  | out => exact h.elim
  | pending => exact ⟨path, rfl, hpath⟩
  | known l => exact congrArg some h

theorem Standing.Places.exists_eq {q : Standing} {loc : Option Text} (h : q.Places loc)
    (hq : q ≠ .out) : ∃ l, loc = some l := by
  cases q with
  | out => exact absurd rfl hq
  | pending =>
    obtain ⟨l, hl, -⟩ := h
    exact ⟨l, hl⟩
  | known l => exact ⟨l, h⟩

/-- The client can be brought there by steps that make this request, and no other. -/
def Sends (fp : FloatOps) (w₀ w : World σ κ ψ) (r : Request) (loc : Option Text) : Prop :=
  ∃ as w', run (guarded (fun a => ¬a.Adding) (step fp)) w as = some w' ∧ Settled w₀ loc w' ∧
    requests w'.log = r :: requests w.log

theorem sends_of_run {w₀ : World σ κ ψ} {as : List (Action σ κ)} {r : Request}
    {loc : Option Text} (hw : SameSetup w.client w₀.client) (has : ∀ a ∈ as, ¬a.Adding)
    (hrun : run (step fp) w as = some w') (hlive : Live w')
    (hloc : ∀ l, loc = some l →
      w'.client.state = .registered ∧ w'.client.regLocation = l ∧ IsLocation l)
    (hlog : requests w'.log = r :: requests w.log) : Sends fp w₀ w r loc := by
  exact ⟨as, w', run_guarded_iff.mpr ⟨has, hrun⟩,
    ⟨hlive, (sameSetup_of_run has hrun).trans hw, hloc⟩, hlog⟩

/-- The action may come with a request. -/
def Action.Requesting (w : World σ κ ψ) : Action σ κ → Prop
  | .updateRegistration _ | .timer _ _ | .notify _ _ _ _ _ | .stop _ | .destroy _ => True
  | .event .connected _ _ => True
  | .event (.response (some resp)) _ _ => w.client.state = .updating ∧ resp.code ≠ .changed
  | _ => False

theorem requests_of_effect (h : Effect w a w') (ha : ¬a.Requesting w) :
    requests w'.log = requests w.log := by
  cases h with
  | updateSent hcall => rcases hcall with rfl | ⟨t, -, rfl⟩ <;> exact absurd trivial ha
  | notified | connected => exact absurd trivial ha
  | stopWaits _ _ hcall =>
    rcases hcall with ⟨rfl, -⟩ | ⟨rfl, -⟩
    · exact absurd trivial ha
    · exact absurd trivial ha
  | updateRejected hstate hcode => exact absurd ⟨hstate, hcode⟩ ha
  | _ => simp

theorem Registers.requests_eq {err : EspErr} {payload : Text} (h : Registers w err w')
    (hpayload : linkPayload w.client.objects = some payload) :
    requests w'.log =
      .post (regPath w.client) (some payload) .linkFormat err :: requests w.log := by
  cases h with
  | posted payload' hpayload' =>
    obtain rfl := Option.some.inj (hpayload.symm.trans hpayload')
    rfl
  | noPayload hnone => exact absurd (hpayload.symm.trans hnone) (Option.some_ne_none payload)

/-- A client that is connected posts a registration. -/
theorem Live.post (fp : FloatOps) (hw : Live w) {payload : Text}
    (hpayload : linkPayload w.client.objects = some payload) (err : EspErr) : ∃ w',
      step fp w (.event .connected err true) = some w' ∧ Live w' ∧
        w'.client.state = (if err = .ok then .registering else .error) ∧
        requests w'.log =
          .post (regPath w.client) (some payload) .linkFormat err :: requests w.log := by
  obtain ⟨hstep, hlive⟩ := hw.event fp .connected err true
  have hreg := registers_sendRegistration
    ((w.record (.handled .connected)).dispatchEvent .connected) err
  refine ⟨_, hstep, hlive, hreg.state_of_payload (by simpa using hw.payload), ?_⟩
  exact (hreg.requests_eq (by simpa using hpayload)).trans (by simp)

/-- What can be read is notified. -/
theorem notify_of_readsFrom {objId instId resId : UInt16} {app : σ} {postErr : EspErr}
    {obj : ObjectDef σ κ} {payload : Text}
    (hread : ReadsFrom fp w objId instId resId app obj payload) :
    (w.notify fp objId instId resId app postErr).2 = w.record
      (.coapPost w.client.coap (notifyPath objId instId resId) (some payload) .json postErr) := by
  generalize hresult : w.notify fp objId instId resId app postErr = result
  have hnotifies := notifies_notify fp w objId instId resId app postErr
  rw [hresult] at hnotifies
  cases hnotifies with
  | refused err herr hnone => exact absurd hread (hnone obj payload)
  | sent obj' payload' hread' =>
    obtain ⟨cb, value, hfrom, hvalue, hpayload⟩ := hread.read
    obtain ⟨cb', value', hfrom', hvalue', hpayload'⟩ := hread'.read
    obtain ⟨rfl, rfl⟩ := Prod.mk.inj (Option.some.inj (hfrom.symm.trans hfrom'))
    obtain ⟨-, rfl⟩ := Prod.mk.inj (hvalue.symm.trans hvalue')
    obtain rfl := Option.some.inj (hpayload.symm.trans hpayload')
    rfl

section Settled

variable {w₀ : World σ κ ψ} {loc : Option Text} (hw : Settled w₀ loc w)
include hw

/-- **A registration** can be made anywhere, and the location that it gets can be chosen. -/
theorem sends_registration {path payload : Text} (err : EspErr) {loc' : Option Text}
    (hsound : (Request.post path (some payload) .linkFormat err).Sound fp w₀.client)
    (hloc' : (if err = .ok then Standing.pending else .out).Places loc') :
    Sends fp w₀ w (.post path (some payload) .linkFormat err) loc' := by
  obtain ⟨rfl, hpayload⟩ := hsound
  rw [← hw.setup.2] at hpayload
  rw [← hw.setup.regPath_eq]
  obtain ⟨v, hconnect, hv, hstate, hlog⟩ := hw.live.post fp hpayload err
  by_cases herr : err = .ok
  · rw [if_pos herr] at hloc' hstate
    obtain ⟨l, rfl, hl⟩ := hloc'
    obtain ⟨w', haccept, hlive, hstate', hreg, -⟩ := hv.accept fp hstate l true
    rw [newLocation_of_isLocation v hl] at hreg
    have hsame := requests_of_effect (effect_of_step haccept) (by simp [Action.Requesting, hstate])
    refine sends_of_run hw.setup (by simp [Action.Adding])
      (run_cons_eq_some hconnect (run_one haccept)) hlive ?_ (hsame.trans hlog)
    rintro _ ⟨⟩
    exact ⟨hstate', hreg, hl⟩
  · rw [if_neg herr] at hloc'
    obtain rfl : loc' = none := hloc'
    exact sends_of_run hw.setup (by simp [Action.Adding]) (run_one hconnect) hv
      (by rintro _ ⟨⟩) hlog

/-- **An update** whose post succeeds is confirmed, and then there is room for the next. -/
theorem sends_update {l : Text} (hloc : loc = some l) (err : EspErr) :
    Sends fp w₀ w (.post l none .zero err) loc := by
  obtain ⟨hstate, rfl, hl⟩ := hw.registered l hloc
  have hupdate := hw.live.step_update fp hstate hl.1 err
  by_cases herr : err = .ok
  · rw [if_pos herr] at hupdate
    have hv : Live ((w.record (.coapPost w.client.coap w.client.regLocation none .zero
        err)).setState .updating) := ⟨hw.live.phase, hw.live.handle, hw.live.payload⟩
    obtain ⟨w', hconfirm, hlive, hstate', hsame, -⟩ := hv.confirm fp rfl
    have hlog := requests_of_effect (effect_of_step hconfirm) (by simp [Action.Requesting])
    refine sends_of_run hw.setup (by simp [Action.Adding])
      (run_cons_eq_some hupdate (run_one hconfirm)) hlive ?_ hlog
    rintro l' hl'
    obtain rfl := Option.some.inj (hloc.symm.trans hl')
    exact ⟨hstate', hsame, hl⟩
  · rw [if_neg herr] at hupdate
    refine sends_of_run hw.setup (by simp [Action.Adding]) (run_one hupdate)
      ⟨hw.live.phase, hw.live.handle, hw.live.payload⟩ ?_ rfl
    rintro l' hl'
    obtain rfl := Option.some.inj (hloc.symm.trans hl')
    exact ⟨rfl, rfl, hl⟩

/-- **A notification** leaves the client as it is. -/
theorem sends_notification {l path payload : Text} (hloc : loc = some l) (err : EspErr)
    (hsound : Notifiable fp w₀.client.objects path payload) :
    Sends fp w₀ w (.post path (some payload) .json err) loc := by
  obtain ⟨hstate, -, -⟩ := hw.registered l hloc
  obtain ⟨objId, instId, resId, app, obj, cb, value, rfl, hfrom, hvalue, hpayload⟩ := hsound
  rw [← hw.setup.2] at hfrom
  have hread : ReadsFrom fp w objId instId resId app obj payload :=
    ⟨hstate, cb, value, hfrom, hvalue, hpayload⟩
  have hstep : step fp w (.notify objId instId resId app err) = some (w.record
      (.coapPost w.client.coap (notifyPath objId instId resId) (some payload) .json err)) := by
    rw [step, if_neg hw.live.phase_ne, notify_of_readsFrom hread]
  exact sends_of_run hw.setup (by simp [Action.Adding]) (run_one hstep)
    ⟨hw.live.phase, hw.live.handle, hw.live.payload⟩ hw.registered rfl

/-- **A deregistration**: the client is stopped. -/
theorem sends_deregistration {l : Text} (hloc : loc = some l) (err : EspErr) :
    Sends fp w₀ w (.delete l err) none := by
  obtain ⟨hstate, rfl, hl⟩ := hw.registered l hloc
  have hrun := run_stop_of_registered fp hw.live.phase hstate hl.1 err
  have hlive : Live (stopSent w err).finishStop :=
    hw.live.congr (by simp [stopSent]) (by simp [stopSent]) rfl
  exact sends_of_run hw.setup (by simp [Action.Adding]) hrun hlive (by rintro _ ⟨⟩)
    (by simp [stopSent])

end Settled

/-- **Every step of the acceptor can be brought about**, from some place before it. -/
theorem exists_places_sends {w₀ : World σ κ ψ} {q q' : Standing} {r : Request}
    (hsound : r.Sound fp w₀.client) (hnext : q.next r = some q') {loc' : Option Text}
    (hloc' : q'.Places loc') :
    ∃ loc, q.Places loc ∧ ∀ w, Settled w₀ loc w → Sends fp w₀ w r loc' := by
  cases r with
  | delete path err =>
    obtain ⟨hadmits, hq'⟩ := Option.ite_none_right_eq_some.mp hnext
    obtain rfl := Option.some.inj hq'
    obtain rfl : loc' = none := hloc'
    exact ⟨some path, hadmits.places hsound, fun w hw => sends_deregistration hw rfl err⟩
  | post path payload format err =>
    cases payload with
    | none =>
      cases format with
      | zero =>
        obtain ⟨hadmits, hq'⟩ := Option.ite_none_right_eq_some.mp hnext
        obtain rfl := Option.some.inj hq'
        obtain rfl : loc' = some path := hloc'
        exact ⟨some path, hadmits.places hsound, fun w hw => sends_update hw rfl err⟩
      | linkFormat | json => cases hnext
    | some payload =>
      cases format with
      | linkFormat =>
        obtain ⟨loc, hloc⟩ := q.exists_places
        obtain rfl := Option.some.inj hnext
        exact ⟨loc, hloc, fun w hw => sends_registration hw err hsound hloc'⟩
      | json =>
        obtain ⟨hne, hq'⟩ := Option.ite_none_left_eq_some.mp hnext
        obtain rfl := Option.some.inj hq'
        obtain ⟨l, hl⟩ := hloc'.exists_eq hne
        exact ⟨loc', hloc', fun w hw => sends_notification hw hl err hsound⟩
      | zero => cases hnext

/-! ### The traces of requests -/

/-- What adding objects to a client comes to. -/
theorem addObjects_eq {objects : List (ObjectDef σ κ)} (h : w.addObjects objects = some w') :
    w' = { w with client := { w.client with objects := w.client.objects ++ objects } } := by
  induction objects generalizing w with
  | nil =>
    obtain rfl := Option.some.inj h
    simp
  | cons obj rest ih =>
    rw [addObjects] at h
    split at h
    · next v hv =>
      rw [addObject] at hv
      split at hv
      · cases hv
      · split at hv
        · cases hv
        · obtain ⟨-, rfl⟩ := Prod.mk.inj hv
          simpa using ih h
    · cases h

/-- Every list of requests that is made is accepted. -/
theorem reads_of_requests {w₀ : World σ κ ψ} {as : List (Action σ κ)} {trace : List Request}
    (hstate : w₀.client.state = .idle) (hlog : requests w₀.log = [])
    (hrun : run (guarded (fun a => ¬a.Adding) (step fp)) w₀ as = some w)
    (htrace : requests w.log = trace.reverse) :
    (∀ r ∈ trace, r.Sound fp w₀.client) ∧ (reads Standing.next .out trace).isSome := by
  classical
  have hstart :
      reads (guarded (Request.Sound fp w₀.client) Standing.next) .out [] = some .out := rfl
  have hidle : Standing.out.Holds w₀ ∧ SameSetup w₀.client w₀.client :=
    ⟨Standing.holds_of_state hstate, rfl, rfl⟩
  have hfollows : ∃ trace' q, requests w.log = trace'.reverse ∧
      reads (guarded (Request.Sound fp w₀.client) Standing.next) .out trace' = some q := by
    refine exists_reads_of_run (fun w => requests w.log)
      (fun (q : Standing) w => q.Holds w ∧ SameSetup w.client w₀.client)
      (fun q v a v' hv h => ?_) hidle hlog hstart hrun
    obtain ⟨ha, hstep⟩ := guarded_eq_some_iff.mp h
    have hsetup : SameSetup v'.client w₀.client :=
      (sameSetup_of_effect (effect_of_step hstep) ha).trans hv.2
    obtain ⟨r, hasks, hseen⟩ := asks_of_step hstep
    rcases Standing.follows hasks hv.1 with ⟨rfl, hq⟩ | ⟨o, q', rfl, hsound, hnext, hq'⟩
    · exact Or.inl ⟨hseen, hq, hsetup⟩
    · refine Or.inr ⟨o, q', hseen, ?_, hq', hsetup⟩
      exact guarded_eq_some_iff.mpr ⟨hv.2.sound hsound, hnext⟩
  obtain ⟨trace', q, htrace', hread⟩ := hfollows
  obtain rfl : trace = trace' := List.reverse_injective (htrace.symm.trans htrace')
  obtain ⟨hsound, hread⟩ := reads_guarded_iff.mp hread
  exact ⟨hsound, Option.isSome_iff_exists.mpr ⟨q, hread⟩⟩

/-- The first request is a registration, and it has a payload. -/
theorem linkPayload_of_next {c : Client σ κ ψ} {q : Standing} {r : Request}
    (hsound : r.Sound fp c) (hnext : Standing.out.next r = some q) :
    linkPayload c.objects ≠ none := by
  cases r with
  | delete => cases hnext
  | post path payload format err =>
    cases payload with
    | none => cases format <;> cases hnext
    | some payload =>
      cases format with
      | linkFormat =>
        rw [hsound.2]
        exact Option.some_ne_none payload
      | zero | json => cases hnext

/-- A client that is started has a live handle, and has made no request. -/
theorem exists_settled (fp : FloatOps) {w₀ : World σ κ ψ} (hphase : w₀.phase = .running)
    (hstate : w₀.client.state = .idle) (hpayload : linkPayload w₀.client.objects ≠ none) :
    ∃ as w, run (guarded (fun a => ¬a.Adding) (step fp)) w₀ as = some w ∧ Settled w₀ none w ∧
      requests w.log = requests w₀.log := by
  obtain ⟨w, hstep, hlive, -, -⟩ := live_start fp hphase hstate hpayload
  have has : ∀ a ∈ [(.start true .ok : Action σ κ)], ¬a.Adding := by simp [Action.Adding]
  have hrun : run (step fp) w₀ [.start true .ok] = some w := run_one hstep
  have hlog := requests_of_effect (effect_of_step hstep) (by simp [Action.Requesting])
  exact ⟨_, w, run_guarded_iff.mpr ⟨has, hrun⟩,
    ⟨hlive, sameSetup_of_run has hrun, by rintro _ ⟨⟩⟩, hlog⟩

/-- **The requests of a client are the words of the acceptor.** A list of requests is what a
client with given objects makes in some run, from first to last, if and only if each of them
is one that such a client makes and the acceptor reads the list. -/
theorem request_traces_iff {config : ClientConfig ψ} {c : Client σ κ ψ}
    {objects : List (ObjectDef σ κ)} {w₀ : World σ κ ψ} (hinit : init config = some c)
    (hobjects : (World.initial c).addObjects objects = some w₀) (trace : List Request) :
    (∃ as w, (∀ a ∈ as, ¬a.Adding) ∧ run (step fp) w₀ as = some w ∧
        requests w.log = trace.reverse) ↔
      (∀ r ∈ trace, r.Sound fp w₀.client) ∧ (reads Standing.next .out trace).isSome := by
  have hw₀ := addObjects_eq hobjects
  have hidle : w₀.client.state = .idle := by
    rw [hw₀]
    exact (init_idle hinit).1
  have hlog : requests w₀.log = [] := by
    rw [hw₀]
    rfl
  constructor
  · rintro ⟨as, w, has, hrun, htrace⟩
    exact reads_of_requests hidle hlog (run_guarded_iff.mpr ⟨has, hrun⟩) htrace
  · rintro ⟨hsound, hread⟩
    classical
    cases trace with
    | nil => exact ⟨[], w₀, by simp, rfl, hlog⟩
    | cons r rest =>
      obtain ⟨q, hq⟩ := Option.isSome_iff_exists.mp hread
      obtain ⟨q₁, hnext, -⟩ := exists_step_of_run_cons hq
      have hpayload := linkPayload_of_next (hsound r List.mem_cons_self) hnext
      obtain ⟨loc, hloc⟩ := q.exists_places
      obtain ⟨as, w, hrun, -, hseen⟩ := exists_run_of_reads (fun w => requests w.log)
        (Settled w₀) Standing.Places
        (fun q o q' h loc' hloc' =>
          exists_places_sends (guarded_eq_some_iff.mp h).1 (guarded_eq_some_iff.mp h).2 hloc')
        (by
          rintro loc rfl
          obtain ⟨as, w, hrun, hw, hsame⟩ := exists_settled fp (hw₀ ▸ rfl) hidle hpayload
          exact ⟨as, w, hrun, hw, hsame.trans hlog⟩)
        (reads_guarded_iff.mpr ⟨hsound, hq⟩) hloc
      obtain ⟨has, hrun⟩ := run_guarded_iff.mp hrun
      exact ⟨as, w, has, hrun, hseen⟩

/-- A registration, a notification before the location is known, an update that is not sent,
one that is, and a deregistration. -/
def sampleRequests : List Request :=
  [.post (ascii "/rd?ep=dev&lt=86400&b=U&lwm2m=1.0") (some (ascii "</3/0>")) .linkFormat .ok,
    .post (ascii "/3/0/9") (some (ascii "[\x7b\"bn\":\"/3/0/\",\"n\":\"9\",\"v\":77\x7d]")) .json
      .ok,
    .post (ascii "/rd/7") none .zero .fail, .post (ascii "/rd/7") none .zero .ok,
    .delete (ascii "/rd/7") .ok]

theorem request_traces_iff_sample : ∃ w₀,
    (World.initial sampleClient).addObjects [sampleObject] = some w₀ ∧ ∃ as w,
      (∀ a ∈ as, ¬a.Adding) ∧ run (step ieee754) w₀ as = some w ∧
        requests w.log = sampleRequests.reverse := by
  obtain ⟨w₀, hw₀⟩ : ∃ w₀, (World.initial sampleClient).addObjects [sampleObject] = some w₀ :=
    ⟨_, rfl⟩
  refine ⟨w₀, hw₀, (request_traces_iff init_sampleConfig hw₀ sampleRequests).mpr ⟨?_, rfl⟩⟩
  obtain rfl := Option.some.inj hw₀
  have hlocation : IsLocation (ascii "/rd/7") := ⟨by decide, by decide⟩
  simp only [sampleRequests, List.forall_mem_cons]
  refine ⟨⟨by decide, rfl⟩, ?_, hlocation, hlocation, hlocation, by simp⟩
  exact ⟨3, 0, 9, (), sampleObject, _, .integer 77, rfl, rfl, rfl, rfl⟩

end WbLwm2m

import WbLwm2m.Advertised
import WbLwm2m.Failures

/-!
# Steps during a post

Two functions write the state twice: `wb_lwm2m_update_registration` and
`send_registration` set a provisional state, call `wb_coap_client_post`, and write another
state if the post fails. Elsewhere each of them is one step. Here the post is a point where
another task runs: the function is split at it, and CoAP events and stops come in between.

The second write does not ask what has happened since the first one, and what the other task
has established ought to survive it (`WbLwm2m.Survives`): the state it has left, and with it
the loss of the session and the end of a stop. `WbLwm2m.survives_failure_iff` says for which
events it does. No stop may have come to its end, and during an update no session may be
lost. Of the other events, either none writes the state, or they lead by themselves to the
state that the failure writes (`WbLwm2m.Posting.Anticipated`): what counts is the last time
that the session is made or lost, and after it the first event that decides on the
registration.
-/

namespace WbLwm2m

open World Transition

variable {σ κ ψ : Type} {w w' : World σ κ ψ} {a : Action σ κ} {fp : FloatOps}

/-! ### The two halves -/

/-- The functions that write the state on both sides of a post. -/
inductive Posting where
  /-- `wb_lwm2m_update_registration` -/
  | update
  /-- `send_registration` -/
  | registration
deriving DecidableEq, Repr

/-- The state that is set before the post. -/
def Posting.provisional : Posting → State
  | .update => .updating
  | .registration => .registering

/-- The state that is set when the post has failed. -/
def Posting.onFailure : Posting → State
  | .update => .registered
  | .registration => .error

/-- The arguments of `wb_coap_client_post`. -/
structure PostCall where
  coap : Option ℕ
  path : Text
  payload : Option Text
  format : Format

/-- The post of an update. -/
def updateCall (c : Client σ κ ψ) : PostCall := ⟨c.coap, c.regLocation, none, .zero⟩

/-- The post of a registration. -/
def registrationCall (c : Client σ κ ψ) (payload : Text) : PostCall :=
  ⟨c.coap, regPath c, some payload, .linkFormat⟩

namespace World

/-- The first half, up to the post. -/
def beginPost (w : World σ κ ψ) (p : Posting) : World σ κ ψ := w.setState p.provisional

/-- The second half, from the answer of the post on. -/
def endPost (w : World σ κ ψ) (p : Posting) (call : PostCall) (postErr : EspErr) :
    World σ κ ψ :=
  let w := w.record (.coapPost call.coap call.path call.payload call.format postErr)
  if postErr ≠ .ok then w.setState p.onFailure else w

end World

/-- **An update is its two halves**, when nothing comes in between. -/
theorem updateRegistration_eq (hstate : w.client.state = .registered)
    (hloc : w.client.regLocation ≠ []) (err : EspErr) :
    (w.updateRegistration err).2 =
      (w.beginPost .update).endPost .update (updateCall w.client) err := by
  rw [updateRegistration, if_neg (not_not.mpr hstate), if_neg hloc]
  rfl

/-- **A registration is its two halves**, when nothing comes in between. -/
theorem sendRegistration_eq {payload : Text}
    (hpayload : linkPayload w.client.objects = some payload) (err : EspErr) :
    (w.sendRegistration err).2 = (w.beginPost .registration).endPost .registration
      (registrationCall w.client payload) err := by
  have hsame : linkPayload (w.setState .registering).client.objects = some payload := hpayload
  simp only [sendRegistration, hsame, beginPost, endPost]
  split <;> rfl

/-! ### What the other task does -/

/-- What another task may do during a post: handle an event, or stop the client. -/
def Action.Meanwhile : Action σ κ → Prop
  | .event _ _ _ => True
  | .stop _ => True
  | .resume => True
  | _ => False

/-- The actions of another task that write the state of a client in state `s`. -/
def Action.WritesIn (s : State) : Action σ κ → Prop
  | .event .connected _ _ => True
  | .event .disconnected _ _ => True
  | .event (.response none) _ _ => False
  | .event (.response (some resp)) _ _ =>
    s = .registering ∧ resp.requestPath = some (ascii "/rd") ∨ s = .updating ∨ s = .deregistering
  | .event (.error _) _ _ => s = .registering
  | .stop _ => True
  | .resume => True
  | _ => False

/-- What does not write the state leaves it alone. -/
theorem state_of_not_writes (h : Effect w a w') (ha : a.Meanwhile)
    (hwrites : ¬a.WritesIn w.client.state) : w'.client.state = w.client.state := by
  cases h with
  | noResponse | ignored => rfl
  | reported => simp
  | updateRefused hcall => rcases hcall with rfl | ⟨t, -, rfl⟩ <;> exact ha.elim
  | updateSent hcall => rcases hcall with rfl | ⟨t, -, rfl⟩ <;> exact ha.elim
  | stopWaits api inDestroy hcall =>
    rcases hcall with ⟨rfl, -⟩ | ⟨rfl, -⟩
    · exact absurd trivial hwrites
    · exact ha.elim
  | addRefused | added | startRefused | startNoHandle | startFailed | started | notifyRefused
  | notified | destroyedStopped | destroyed => exact ha.elim
  | stopped | stopResumed | destroyResumed | connected | disconnected =>
    exact absurd trivial hwrites
  | registered hstate hpath | rejected hstate hpath => exact absurd (Or.inl ⟨hstate, hpath⟩) hwrites
  | updated hstate | updateRejected hstate => exact absurd (Or.inr (Or.inl hstate)) hwrites
  | deregistered hstate => exact absurd (Or.inr (Or.inr hstate)) hwrites
  | failed hstate => exact absurd hstate hwrites

/-- No step of the run writes the state. -/
def NothingWritten (fp : FloatOps) (w : World σ κ ψ) (bs : List (Action σ κ)) : Prop :=
  Along (step fp) (fun w a _ => ¬a.WritesIn w.client.state) w bs

/-- While nothing is written the state is the same, so that it is known in advance what
writes. -/
theorem nothingWritten_iff {bs : List (Action σ κ)} (hbs : ∀ b ∈ bs, b.Meanwhile)
    (hrun : run (step fp) w bs = some w') :
    NothingWritten fp w bs ↔ ∀ b ∈ bs, ¬b.WritesIn w.client.state := by
  induction bs generalizing w with
  | nil => exact iff_of_true trivial fun _ hb => absurd hb (List.not_mem_nil)
  | cons b bs ih =>
    obtain ⟨v, hstep, hrest⟩ := exists_step_of_run_cons hrun
    obtain ⟨hb, hbs⟩ := List.forall_mem_cons.mp hbs
    have htail := ih hbs hrest
    rw [List.forall_mem_cons]
    constructor
    · intro h
      obtain ⟨hnot, halong⟩ := h v hstep
      have hstate := state_of_not_writes (effect_of_step hstep) hb hnot
      exact ⟨hnot, hstate ▸ htail.mp halong⟩
    · rintro ⟨hnot, hrest'⟩ v' hv'
      obtain rfl := Option.some.inj (hstep.symm.trans hv')
      have hstate := state_of_not_writes (effect_of_step hstep) hb hnot
      exact ⟨hnot, htail.mpr (hstate ▸ hrest')⟩

/-- What does not write the state leaves it alone, step after step. -/
theorem state_of_run_not_writes {bs : List (Action σ κ)} (hbs : ∀ b ∈ bs, b.Meanwhile)
    (hwrites : ∀ b ∈ bs, ¬b.WritesIn w.client.state) (hrun : run (step fp) w bs = some w') :
    w'.client.state = w.client.state := by
  refine run_invariant (E := fun b => b.Meanwhile ∧ ¬b.WritesIn w.client.state)
    (P := fun v => v.client.state = w.client.state) (fun v b v' hb hv h => ?_)
    (fun b hb => ⟨hbs b hb, hwrites b hb⟩) rfl hrun
  have hnot : ¬b.WritesIn v.client.state := by
    rw [hv]
    exact hb.2
  exact (state_of_not_writes (effect_of_step h) hb.1 hnot).trans hv

/-! ### Events -/

/-- The parts of a stop. -/
def Action.Halts : Action σ κ → Prop
  | .stop _ => True
  | .resume => True
  | _ => False

/-- The session is lost. -/
def Action.Disconnects : Action σ κ → Prop
  | .event .disconnected _ _ => True
  | _ => False

/-- The session is made or lost. -/
def Action.Turns : Action σ κ → Prop
  | .event .connected _ _ => True
  | .event .disconnected _ _ => True
  | _ => False

/-- The event decides on a registration that is being made: an answer to `/rd`, or an
error. -/
def Action.Decides : Action σ κ → Prop
  | .event (.response (some resp)) _ _ => resp.requestPath = some (ascii "/rd")
  | .event (.error _) _ _ => True
  | _ => False

/-- It decides in its favour. -/
def Action.Accepts : Action σ κ → Prop
  | .event (.response (some resp)) _ _ =>
    resp.requestPath = some (ascii "/rd") ∧ resp.code = .created
  | _ => False

/-- The first event that decides on a registration has `Q`. -/
def FirstDecides (Q : Action σ κ → Prop) (bs : List (Action σ κ)) : Prop :=
  ∃ pre b post, bs = pre ++ b :: post ∧ (∀ x ∈ pre, ¬x.Decides) ∧ b.Decides ∧ Q b

/-- The events that leave an interrupted function alone: responses that are `NULL`; during
an update, errors; during a registration, responses to another path. -/
def Posting.Undisturbed : Posting → Action σ κ → Prop
  | _, .event (.response none) _ _ => True
  | .update, .event (.error _) _ _ => True
  | .registration, .event (.response (some resp)) _ _ =>
    resp.requestPath ≠ some (ascii "/rd")
  | _, _ => False

/-- A registration whose post is answered with `err` is accepted among the events. -/
def AcceptedIn (c : Client σ κ ψ) (err : EspErr) (bs : List (Action σ κ)) : Prop :=
  CanRegister c err ∧ FirstDecides Action.Accepts bs

/-- It cannot be sent, or is refused among the events. -/
def RefusedIn (c : Client σ κ ψ) (err : EspErr) (bs : List (Action σ κ)) : Prop :=
  ¬CanRegister c err ∨ FirstDecides (fun b => ¬b.Accepts) bs

/-- **The events lead to the state that the failure writes**, without a stop and, during an
update, without a lost session.

An update: after the last connection a registration has been accepted; or there was no
connection, and the first response has confirmed the update, or the registration that it
has led to has been accepted. A registration: the session has been lost in the end; or the
registration after the last connection has failed; or the one that was interrupted has been
refused. -/
def Posting.Anticipated (c : Client σ κ ψ) : Posting → List (Action σ κ) → Prop
  | .update, bs =>
    (∃ pre err created post, bs = pre ++ .event .connected err created :: post ∧
      (∀ b ∈ post, ¬b.Turns) ∧ AcceptedIn c err post) ∨
    (∀ b ∈ bs, ¬b.Turns) ∧ ∃ pre resp err created post,
      bs = pre ++ .event (.response (some resp)) err created :: post ∧
        (∀ b ∈ pre, Posting.update.Undisturbed b) ∧
          (resp.code = .changed ∨ AcceptedIn c err post)
  | .registration, bs =>
    (∃ pre err created post, bs = pre ++ .event .disconnected err created :: post ∧
      ∀ b ∈ post, ¬b.Turns) ∨
    (∃ pre err created post, bs = pre ++ .event .connected err created :: post ∧
      (∀ b ∈ post, ¬b.Turns) ∧ RefusedIn c err post) ∨
    (∀ b ∈ bs, ¬b.Turns) ∧ FirstDecides (fun b => ¬b.Accepts) bs

/-- **The condition on the events**: none of them is part of a stop or, during an update, a
lost session, and they write nothing or lead to what the failure writes. -/
def Posting.Spares (c : Client σ κ ψ) (p : Posting) (bs : List (Action σ κ)) : Prop :=
  (∀ b ∈ bs, ¬b.Halts) ∧ (p = .update → ∀ b ∈ bs, ¬b.Disconnects) ∧
    ((∀ b ∈ bs, p.Undisturbed b) ∨ p.Anticipated c bs)

/-! ### Where the events lead -/

/-- An answer or an error. -/
def Action.Quiet (b : Action σ κ) : Prop := b.Meanwhile ∧ ¬b.Halts ∧ ¬b.Turns

theorem not_writesIn_iff {p : Posting} {b : Action σ κ} (hb : b.Meanwhile) :
    ¬b.WritesIn p.provisional ↔ p.Undisturbed b := by
  cases b with
  | event event err created =>
    cases event with
    | connected | disconnected =>
      cases p <;> exact iff_of_false (fun h => h trivial) not_false
    | error lost => cases p <;> simp [Action.WritesIn, Posting.Undisturbed, Posting.provisional]
    | response resp =>
      cases resp with
      | none => cases p <;> exact iff_of_true not_false trivial
      | some resp =>
        cases p <;> simp [Action.WritesIn, Posting.Undisturbed, Posting.provisional]
  | stop | resume => cases p <;> exact iff_of_false (fun h => h trivial) not_false
  | _ => exact hb.elim

/-- A registration that is being made waits for an event that decides on it. -/
theorem Action.Quiet.writesIn_iff {b : Action σ κ} (hb : b.Quiet) :
    b.WritesIn .registering ↔ b.Decides := by
  obtain ⟨hmeanwhile, hhalts, hturns⟩ := hb
  cases b with
  | event event err created =>
    cases event with
    | connected | disconnected => exact absurd trivial hturns
    | error lost => exact iff_of_true rfl trivial
    | response resp =>
      cases resp with
      | none => exact Iff.rfl
      | some resp => simp [Action.WritesIn, Action.Decides]
  | stop | resume => exact absurd trivial hhalts
  | _ => exact hmeanwhile.elim

/-- Once it is decided, nothing more happens. -/
theorem Action.Quiet.not_writesIn {b : Action σ κ} (hb : b.Quiet) {s : State}
    (hs : s = .registered ∨ s = .error) : ¬b.WritesIn s := by
  obtain ⟨hmeanwhile, hhalts, hturns⟩ := hb
  cases b with
  | event event err created =>
    cases event with
    | connected | disconnected => exact absurd trivial hturns
    | error lost => rcases hs with rfl | rfl <;> simp [Action.WritesIn]
    | response resp =>
      cases resp with
      | none => exact not_false
      | some resp => rcases hs with rfl | rfl <;> simp [Action.WritesIn]
  | stop | resume => exact absurd trivial hhalts
  | _ => exact hmeanwhile.elim

/-- What the other task does to a registration that is being made. -/
theorem state_of_decides (h : Effect w a w') (hw : w.client.state = .registering)
    (ha : a.Decides) : (a.Accepts → w'.client.state = .registered) ∧
      (¬a.Accepts → w'.client.state = .error) := by
  cases h with
  | updateRefused hcall => rcases hcall with rfl | ⟨t, -, rfl⟩ <;> exact ha.elim
  | updateSent hcall => rcases hcall with rfl | ⟨t, -, rfl⟩ <;> exact ha.elim
  | stopWaits api inDestroy hcall => rcases hcall with ⟨rfl, -⟩ | ⟨rfl, -⟩ <;> exact ha.elim
  | addRefused | added | startRefused | startNoHandle | startFailed | started | notifyRefused
  | notified | stopped | destroyedStopped | destroyed | stopResumed | destroyResumed
  | connected | disconnected | noResponse => exact ha.elim
  | ignored hreg => exact absurd ⟨hw, ha⟩ hreg
  | registered _ hpath hcode => exact ⟨fun _ => by simp, fun hnot => absurd ⟨hpath, hcode⟩ hnot⟩
  | rejected _ hpath hcode => exact ⟨fun haccepts => absurd haccepts.2 hcode, fun _ => by simp⟩
  | updated hstate | updateRejected hstate | deregistered hstate =>
    exact absurd (hw.symm.trans hstate) (by decide)
  | failed => exact ⟨fun haccepts => haccepts.elim, fun _ => by simp⟩
  | reported hstate => exact absurd hw hstate

section Quiet

variable {bs : List (Action σ κ)} (hbs : ∀ b ∈ bs, b.Quiet)
  (hrun : run (step fp) w bs = some w')
include hbs hrun

theorem state_of_decided (hw : w.client.state = .registered ∨ w.client.state = .error) :
    w'.client.state = w.client.state :=
  state_of_run_not_writes (fun b hb => (hbs b hb).1) (fun b hb => (hbs b hb).not_writesIn hw) hrun

/-- The first event that decides on a registration has the last word. -/
theorem state_of_firstDecides (hw : w.client.state = .registering) :
    (FirstDecides Action.Accepts bs → w'.client.state = .registered) ∧
      (FirstDecides (fun b => ¬b.Accepts) bs → w'.client.state = .error) := by
  have hsplit {pre post : List (Action σ κ)} {b : Action σ κ} (heq : bs = pre ++ b :: post)
      (hpre : ∀ x ∈ pre, ¬x.Decides) (hb : b.Decides) :
      (b.Accepts → w'.client.state = .registered) ∧
        (¬b.Accepts → w'.client.state = .error) := by
    subst heq
    obtain ⟨t, u, ht, hu, hrest⟩ := exists_of_run_append_cons hrun
    have hquiet {x : Action σ κ} (hx : x ∈ pre) : x.Quiet := hbs x (List.mem_append_left _ hx)
    have hstate : t.client.state = .registering := by
      refine (state_of_run_not_writes (fun x hx => (hquiet hx).1) (fun x hx => ?_) ht).trans hw
      rw [hw, (hquiet hx).writesIn_iff]
      exact hpre x hx
    obtain ⟨haccepts, hrefuses⟩ := state_of_decides (effect_of_step hu) hstate hb
    have hpost : ∀ x ∈ post, x.Quiet := fun x hx =>
      hbs x (List.mem_append_right _ (List.mem_cons_of_mem _ hx))
    constructor
    · intro h
      exact (state_of_decided hpost hrest (Or.inl (haccepts h))).trans (haccepts h)
    · intro h
      exact (state_of_decided hpost hrest (Or.inr (hrefuses h))).trans (hrefuses h)
  constructor
  · rintro ⟨pre, b, post, heq, hpre, hb, haccepts⟩
    exact (hsplit heq hpre hb).1 haccepts
  · rintro ⟨pre, b, post, heq, hpre, hb, hrefuses⟩
    exact (hsplit heq hpre hb).2 hrefuses

/-- **What becomes of a registration** is decided by the first event that decides on it. -/
theorem state_iff_of_registering (hw : w.client.state = .registering) :
    (w'.client.state = .registered ↔ FirstDecides Action.Accepts bs) ∧
      (w'.client.state = .error ↔ FirstDecides (fun b => ¬b.Accepts) bs) := by
  obtain ⟨haccepts, hrefuses⟩ := state_of_firstDecides hbs hrun hw
  rcases exists_first Action.Decides bs with hnone | ⟨pre, b, post, heq, hpre, hb⟩
  · have hstate : w'.client.state = .registering := by
      refine (state_of_run_not_writes (fun b hb => (hbs b hb).1) (fun b hb => ?_) hrun).trans hw
      rw [hw, (hbs b hb).writesIn_iff]
      exact hnone b hb
    have hfirst {Q : Action σ κ → Prop} : ¬FirstDecides Q bs := by
      rintro ⟨pre, b, post, rfl, -, hb, -⟩
      exact hnone b (by simp) hb
    exact ⟨iff_of_false (by simp [hstate]) hfirst, iff_of_false (by simp [hstate]) hfirst⟩
  · by_cases hb' : b.Accepts
    · have hstate := haccepts ⟨pre, b, post, heq, hpre, hb, hb'⟩
      refine ⟨iff_of_true hstate ⟨pre, b, post, heq, hpre, hb, hb'⟩, iff_of_false ?_ fun h => ?_⟩
      · simp [hstate]
      · exact absurd (hstate.symm.trans (hrefuses h)) (by decide)
    · have hstate := hrefuses ⟨pre, b, post, heq, hpre, hb, hb'⟩
      refine ⟨iff_of_false ?_ fun h => ?_, iff_of_true hstate ⟨pre, b, post, heq, hpre, hb, hb'⟩⟩
      · simp [hstate]
      · exact absurd (hstate.symm.trans (haccepts h)) (by decide)

/-- The same for a registration that may not have been sent. -/
theorem state_iff_of_registers {v : World σ κ ψ} {err : EspErr} (hw : Registers v err w) :
    (w'.client.state = .registered ↔ AcceptedIn v.client err bs) ∧
      (w'.client.state = .error ↔ RefusedIn v.client err bs) := by
  by_cases hcan : CanRegister v.client err
  · have hstate : w.client.state = .registering :=
      hw.state_eq.resolve_right fun h => hw.error_iff.mp h hcan
    obtain ⟨haccepts, hrefuses⟩ := state_iff_of_registering hbs hrun hstate
    refine ⟨haccepts.trans (and_iff_right hcan).symm, hrefuses.trans ?_⟩
    exact (or_iff_right (not_not.mpr hcan)).symm
  · have hstate : w.client.state = .error := hw.error_iff.mpr hcan
    have hkept := (state_of_decided hbs hrun (Or.inr hstate)).trans hstate
    refine ⟨iff_of_false ?_ fun h => hcan h.1, iff_of_true hkept (Or.inl hcan)⟩
    simp [hkept]

end Quiet

theorem canRegister_congr {c c' : Client σ κ ψ} (h : c.objects = c'.objects) (err : EspErr) :
    CanRegister c err ↔ CanRegister c' err := by
  rw [CanRegister, CanRegister, h]

theorem objects_of_run {bs : List (Action σ κ)} (hbs : ∀ b ∈ bs, b.Meanwhile)
    (hrun : run (step fp) w bs = some w') : w'.client.objects = w.client.objects := by
  refine run_invariant (P := fun v => v.client.objects = w.client.objects)
    (fun v b v' hb hv h => ?_) hbs rfl hrun
  refine (objects_of_effect (effect_of_step h) ?_).trans hv
  rintro obj rfl
  exact hb

/-- The registration that another registration of the same objects would be. -/
theorem state_iff_of_registers_run {u v : World σ κ ψ} {err : EspErr} {bs : List (Action σ κ)}
    (hbs : ∀ b ∈ bs, b.Quiet) (hrun : run (step fp) u bs = some w') (hv : Registers v err u)
    (hobjects : v.client.objects = w.client.objects) :
    (w'.client.state = .registered ↔ AcceptedIn w.client err bs) ∧
      (w'.client.state = .error ↔ RefusedIn w.client err bs) := by
  have hcan := canRegister_congr hobjects err
  obtain ⟨haccepted, hrefused⟩ := state_iff_of_registers hbs hrun hv
  exact ⟨haccepted.trans (and_congr_left' hcan), hrefused.trans (or_congr_left (not_congr hcan))⟩

section Split

variable {pre post : List (Action σ κ)} {err : EspErr} {created : Bool}
  (hpre : ∀ x ∈ pre, x.Meanwhile) (hpost : ∀ x ∈ post, x.Quiet)
include hpre hpost

/-- After the last connection its registration counts. -/
theorem state_iff_of_connected
    (hrun : run (step fp) w (pre ++ .event .connected err created :: post) = some w') :
    (w'.client.state = .registered ↔ AcceptedIn w.client err post) ∧
      (w'.client.state = .error ↔ RefusedIn w.client err post) := by
  obtain ⟨t, u, ht, hu, hrest⟩ := exists_of_run_append_cons hrun
  have hobjects := objects_of_run hpre ht
  have heffect := effect_of_step hu
  cases heffect with
  | connected hreg => exact state_iff_of_registers_run hpost hrest hreg (by simpa using hobjects)
  | updateRefused ha | updateSent ha => exact (updating_of_call ha).elim
  | stopWaits _ _ ha => exact (stopping_of_call ha).elim

omit hpre in
/-- After the last loss of the session there is no registration. -/
theorem state_of_disconnected
    (hrun : run (step fp) w (pre ++ .event .disconnected err created :: post) = some w') :
    w'.client.state = .error := by
  obtain ⟨t, u, -, hu, hrest⟩ := exists_of_run_append_cons hrun
  have hlost : u.client.state = .error := by
    have heffect := effect_of_step hu
    cases heffect with
    | disconnected => simp
    | updateRefused ha | updateSent ha => exact (updating_of_call ha).elim
    | stopWaits _ _ ha => exact (stopping_of_call ha).elim
  exact (state_of_decided hpost hrest (Or.inr hlost)).trans hlost

/-- The first response ends an update. -/
theorem state_iff_of_answered {resp : CoapResponse} (hw : w.client.state = .updating)
    (hundisturbed : ∀ x ∈ pre, Posting.update.Undisturbed x)
    (hrun : run (step fp) w (pre ++ .event (.response (some resp)) err created :: post) =
      some w') :
    w'.client.state = .registered ↔ resp.code = .changed ∨ AcceptedIn w.client err post := by
  obtain ⟨t, u, ht, hu, hrest⟩ := exists_of_run_append_cons hrun
  have hobjects := objects_of_run hpre ht
  have hstate : t.client.state = .updating := by
    refine (state_of_run_not_writes hpre (fun x hx => ?_) ht).trans hw
    rw [hw]
    exact (not_writesIn_iff (p := .update) (hpre x hx)).mpr (hundisturbed x hx)
  have heffect := effect_of_step hu
  cases heffect with
  | updateRefused ha | updateSent ha => exact (updating_of_call ha).elim
  | stopWaits _ _ ha => exact (stopping_of_call ha).elim
  | ignored _ hupd => exact absurd hstate hupd
  | registered h | rejected h | deregistered h => exact absurd (hstate.symm.trans h) (by decide)
  | updated _ hcode =>
    refine iff_of_true ?_ (Or.inl hcode)
    exact (state_of_decided hpost hrest (Or.inl (by simp))).trans (by simp)
  | updateRejected _ hcode hreg =>
    refine (state_iff_of_registers_run hpost hrest hreg hobjects).1.trans ?_
    exact (or_iff_right hcode).symm

end Split

/-- A quiet event that disturbs an update is a response. -/
theorem Action.Quiet.exists_response {b : Action σ κ} (hb : b.Quiet)
    (hdisturbs : ¬Posting.update.Undisturbed b) :
    ∃ resp err created, b = .event (.response (some resp)) err created := by
  obtain ⟨hmeanwhile, hhalts, hturns⟩ := hb
  cases b with
  | event event err created =>
    cases event with
    | connected | disconnected => exact absurd trivial hturns
    | error lost => exact absurd trivial hdisturbs
    | response resp =>
      cases resp with
      | none => exact absurd trivial hdisturbs
      | some resp => exact ⟨resp, err, created, rfl⟩
  | stop | resume => exact absurd trivial hhalts
  | _ => exact hmeanwhile.elim

theorem Action.Turns.exists_event {b : Action σ κ} (hb : b.Turns) : ∃ err created,
    b = .event .connected err created ∨ b = .event .disconnected err created := by
  cases b with
  | event event err created =>
    cases event with
    | connected => exact ⟨err, created, Or.inl rfl⟩
    | disconnected => exact ⟨err, created, Or.inr rfl⟩
    | _ => exact hb.elim
  | _ => exact hb.elim

section Anticipated

variable {bs : List (Action σ κ)} (hbs : ∀ b ∈ bs, b.Meanwhile) (hhalts : ∀ b ∈ bs, ¬b.Halts)
include hbs hhalts

/-- What is left of the events behind the last turn. -/
theorem quiet_of_split {pre post : List (Action σ κ)} {b : Action σ κ} (heq : bs = pre ++ b :: post)
    (hpost : ∀ x ∈ post, ¬x.Turns) : ∀ x ∈ post, x.Quiet := by
  subst heq
  intro x hx
  have hmem : x ∈ pre ++ b :: post := List.mem_append_right _ (List.mem_cons_of_mem _ hx)
  exact ⟨hbs x hmem, hhalts x hmem, hpost x hx⟩

omit hhalts in
theorem meanwhile_of_split {pre post : List (Action σ κ)} {b : Action σ κ}
    (heq : bs = pre ++ b :: post) : ∀ x ∈ pre, x.Meanwhile := by
  subst heq
  exact fun x hx => hbs x (List.mem_append_left _ hx)

/-- What becomes of the registration of the last connection. -/
theorem state_iff_of_lastConnected (hrun : run (step fp) w bs = some w')
    {pre post : List (Action σ κ)} {err : EspErr} {created : Bool}
    (heq : bs = pre ++ .event .connected err created :: post) (hpost : ∀ x ∈ post, ¬x.Turns) :
    (w'.client.state = .registered ↔ AcceptedIn w.client err post) ∧
      (w'.client.state = .error ↔ RefusedIn w.client err post) :=
  state_iff_of_connected (meanwhile_of_split hbs heq) (quiet_of_split hbs hhalts heq hpost)
    (heq ▸ hrun)

/-- An update: the other task leads to registered exactly if this is anticipated. -/
theorem updating_anticipated_iff (hw : w.client.state = .updating)
    (hlost : ∀ b ∈ bs, ¬b.Disconnects) (hrun : run (step fp) w bs = some w') :
    w'.client.state = .registered ↔ Posting.update.Anticipated w.client bs := by
  constructor
  · intro hstate
    rcases exists_last Action.Turns bs with hnone | ⟨pre, b, post, heq, hb, hpost⟩
    · refine Or.inr ⟨hnone, ?_⟩
      have hquiet : ∀ x ∈ bs, x.Quiet := fun x hx => ⟨hbs x hx, hhalts x hx, hnone x hx⟩
      rcases exists_first (fun b => ¬Posting.update.Undisturbed b) bs with
        hall | ⟨pre, b, post, heq, hpre, hb⟩
      · have hkept : w'.client.state = w.client.state := by
          refine state_of_run_not_writes hbs (fun b hb => ?_) hrun
          rw [hw]
          exact (not_writesIn_iff (p := .update) (hbs b hb)).mpr (not_not.mp (hall b hb))
        exact absurd (hstate.symm.trans (hkept.trans hw)) (by decide)
      · have hpost : ∀ x ∈ post, ¬x.Turns := fun x hx => hnone x (by simp [heq, hx])
        obtain ⟨resp, err, created, rfl⟩ := (hquiet b (by simp [heq])).exists_response hb
        have hpre' : ∀ x ∈ pre, Posting.update.Undisturbed x := fun x hx => not_not.mp (hpre x hx)
        refine ⟨pre, resp, err, created, post, heq, hpre', ?_⟩
        exact (state_iff_of_answered (meanwhile_of_split hbs heq)
          (quiet_of_split hbs hhalts heq hpost) hw hpre' (heq ▸ hrun)).mp hstate
    · obtain ⟨err, created, rfl | rfl⟩ := hb.exists_event
      · refine Or.inl ⟨pre, err, created, post, heq, hpost, ?_⟩
        exact (state_iff_of_lastConnected hbs hhalts hrun heq hpost).1.mp hstate
      · have hmem : .event .disconnected err created ∈ bs := by simp [heq]
        exact (hlost _ hmem trivial).elim
  · rintro (⟨pre, err, created, post, heq, hpost, haccepted⟩ |
      ⟨hnone, pre, resp, err, created, post, heq, hpre, hanswer⟩)
    · exact (state_iff_of_lastConnected hbs hhalts hrun heq hpost).1.mpr haccepted
    · have hpost : ∀ x ∈ post, ¬x.Turns := fun x hx => hnone x (by simp [heq, hx])
      exact (state_iff_of_answered (meanwhile_of_split hbs heq)
        (quiet_of_split hbs hhalts heq hpost) hw hpre (heq ▸ hrun)).mpr hanswer

/-- A registration: the other task leads to error exactly if this is anticipated. -/
theorem registering_anticipated_iff (hw : w.client.state = .registering)
    (hrun : run (step fp) w bs = some w') :
    w'.client.state = .error ↔ Posting.registration.Anticipated w.client bs := by
  constructor
  · intro hstate
    rcases exists_last Action.Turns bs with hnone | ⟨pre, b, post, heq, hb, hpost⟩
    · have hquiet : ∀ x ∈ bs, x.Quiet := fun x hx => ⟨hbs x hx, hhalts x hx, hnone x hx⟩
      exact Or.inr (Or.inr ⟨hnone, (state_iff_of_registering hquiet hrun hw).2.mp hstate⟩)
    · obtain ⟨err, created, rfl | rfl⟩ := hb.exists_event
      · refine Or.inr (Or.inl ⟨pre, err, created, post, heq, hpost, ?_⟩)
        exact (state_iff_of_lastConnected hbs hhalts hrun heq hpost).2.mp hstate
      · exact Or.inl ⟨pre, err, created, post, heq, hpost⟩
  · rintro (⟨pre, err, created, post, heq, hpost⟩ |
      ⟨pre, err, created, post, heq, hpost, hrefused⟩ | ⟨hnone, hrefused⟩)
    · exact state_of_disconnected (quiet_of_split hbs hhalts heq hpost) (heq ▸ hrun)
    · exact (state_iff_of_lastConnected hbs hhalts hrun heq hpost).2.mpr hrefused
    · have hquiet : ∀ x ∈ bs, x.Quiet := fun x hx => ⟨hbs x hx, hhalts x hx, hnone x hx⟩
      exact (state_iff_of_registering hquiet hrun hw).2.mpr hrefused

end Anticipated

/-! ### A failed post -/

/-- A stop has come to its end among the steps, and none is waiting. -/
def StopCompleted (bs : List (Action σ κ)) (w : World σ κ ψ) : Prop :=
  (∃ b ∈ bs, b.Halts) ∧ w.phase = .running

/-- **What the other task has established survives**: `w` is left by the steps `bs`, and
`w'` by the function that was interrupted. The state is the one that the steps have
written, if they have written any. And the client is not registered if the session was lost
in between, and neither registered nor in error if a stop has come to its end. -/
structure Survives (fp : FloatOps) (begun : World σ κ ψ) (bs : List (Action σ κ))
    (w w' : World σ κ ψ) : Prop where
  established : NothingWritten fp begun bs ∨ w'.client.state = w.client.state
  disconnected : (∃ b ∈ bs, b.Disconnects) → w'.client.state ≠ .registered
  stopped : StopCompleted bs w → w'.client.state ≠ .registered ∧ w'.client.state ≠ .error

/-- **What has been established survives exactly the failures that the events spare.**
Whatever events another task has handled while an update or a registration was in its post,
and whatever stops it has completed, what they have established survives the failure of the
post if and only if there was no stop and, during an update, no lost session, and either
none of the events has written the state – during an update they are errors and responses
that are `NULL`, during a registration responses that are `NULL` or to another path – or
they lead by themselves to the state that the failure writes. -/
theorem survives_failure_iff (p : Posting) (v : World σ κ ψ) (call : PostCall) {err : EspErr}
    (herr : err ≠ .ok) {bs : List (Action σ κ)} (hbs : ∀ b ∈ bs, b.Meanwhile)
    (hrun : run (step fp) (v.beginPost p) bs = some w)
    (hstops : (∃ b ∈ bs, b.Halts) → w.phase = .running) :
    Survives fp (v.beginPost p) bs w (w.endPost p call err) ↔ p.Spares v.client bs := by
  have hend : (w.endPost p call err).client.state = p.onFailure := by
    rw [endPost, if_pos herr]
    rfl
  have hnothing : NothingWritten fp (v.beginPost p) bs ↔ ∀ b ∈ bs, p.Undisturbed b :=
    (nothingWritten_iff hbs hrun).trans (forall₂_congr fun b hb => not_writesIn_iff (hbs b hb))
  have hanticipated (hhalts : ∀ b ∈ bs, ¬b.Halts)
      (hlost : p = .update → ∀ b ∈ bs, ¬b.Disconnects) :
      w.client.state = p.onFailure ↔ p.Anticipated v.client bs := by
    cases p with
    | update =>
      exact updating_anticipated_iff (w := v.beginPost .update) hbs hhalts rfl (hlost rfl) hrun
    | registration =>
      exact registering_anticipated_iff (w := v.beginPost .registration) hbs hhalts rfl hrun
  constructor
  · intro h
    have hhalts : ∀ b ∈ bs, ¬b.Halts := by
      intro b hb hhalt
      obtain ⟨hreg, herror⟩ := h.stopped ⟨⟨b, hb, hhalt⟩, hstops ⟨b, hb, hhalt⟩⟩
      cases p with
      | update => exact hreg hend
      | registration => exact herror hend
    have hlost : p = .update → ∀ b ∈ bs, ¬b.Disconnects := by
      rintro rfl b hb hdisc
      exact h.disconnected ⟨b, hb, hdisc⟩ hend
    refine ⟨hhalts, hlost, ?_⟩
    rcases h.established with hwritten | hsame
    · exact Or.inl (hnothing.mp hwritten)
    · exact Or.inr ((hanticipated hhalts hlost).mp (hsame.symm.trans hend))
  · rintro ⟨hhalts, hlost, hspared⟩
    refine ⟨?_, ?_, ?_⟩
    · rcases hspared with hundisturbed | hevents
      · exact Or.inl (hnothing.mpr hundisturbed)
      · exact Or.inr (hend.trans ((hanticipated hhalts hlost).mpr hevents).symm)
    · rintro ⟨b, hb, hdisc⟩
      rw [hend]
      cases p with
      | update => exact absurd hdisc (hlost rfl b hb)
      | registration => decide
    · rintro ⟨⟨b, hb, hhalt⟩, -⟩
      exact absurd hhalt (hhalts b hb)

/-- While an update is in its post, an error is handled, and then the client is connected
and registered anew. -/
def connectedMeanwhile : List (Action Unit Unit) :=
  [.event (.error none) .ok true, .event .connected .ok true,
    .event (.response (some ⟨some (ascii "/rd"), .created, ascii "/rd/2"⟩)) .ok true]

theorem survives_failure_iff_sample : ∃ v w : World Unit Unit Unit,
    run (step ieee754) (World.initial sampleClient) registerActions = some v ∧
      run (step ieee754) (v.beginPost .update) connectedMeanwhile = some w ∧
      Survives ieee754 (v.beginPost .update) connectedMeanwhile w
        (w.endPost .update (updateCall v.client) .fail) := by
  obtain ⟨v, hv⟩ : ∃ v, run (step ieee754) (World.initial sampleClient) registerActions =
    some v := ⟨_, rfl⟩
  obtain ⟨w, hw⟩ : ∃ w, run (step ieee754) (v.beginPost .update) connectedMeanwhile = some w := by
    obtain rfl := Option.some.inj hv
    exact ⟨_, rfl⟩
  have hpayload : linkPayload v.client.objects ≠ none := by
    obtain rfl := Option.some.inj hv
    exact Option.some_ne_none _
  refine ⟨v, w, hv, hw, (survives_failure_iff .update v _ (by decide) ?_ hw ?_).mpr ?_⟩
  · simp [connectedMeanwhile, Action.Meanwhile]
  · simp [connectedMeanwhile, Action.Halts]
  · refine ⟨by simp [connectedMeanwhile, Action.Halts],
      fun _ => by simp [connectedMeanwhile, Action.Disconnects], Or.inr (Or.inl ?_)⟩
    refine ⟨[.event (.error none) .ok true], .ok, true, _, rfl, by simp [Action.Turns], ?_⟩
    exact ⟨⟨hpayload, rfl⟩, [], _, [], rfl, by simp, rfl, rfl, rfl⟩

/-- **A lost session is overwritten**: the session is lost while an update is in its post,
the post fails, and the client is registered again. -/
theorem disconnected_is_overwritten : ∃ v w : World Unit Unit Unit,
    run (step ieee754) (World.initial sampleClient) registerActions = some v ∧
      v.client.state = .registered ∧ v.client.regLocation ≠ [] ∧
      run (step ieee754) (v.beginPost .update) [.event .disconnected .ok true] = some w ∧
      w.client.state = .error ∧
      (w.endPost .update (updateCall v.client) .fail).client.state = .registered ∧
      ¬Survives ieee754 (v.beginPost .update) [.event .disconnected .ok true] w
        (w.endPost .update (updateCall v.client) .fail) := by
  obtain ⟨v, hv⟩ : ∃ v, run (step ieee754) (World.initial sampleClient) registerActions =
    some v := ⟨_, rfl⟩
  obtain ⟨w, hw⟩ : ∃ w, run (step ieee754) (v.beginPost .update) [.event .disconnected .ok true] =
      some w := by
    obtain rfl := Option.some.inj hv
    exact ⟨_, rfl⟩
  have hregistered : v.client.state = .registered ∧ v.client.regLocation ≠ [] := by
    obtain rfl := Option.some.inj hv
    exact ⟨rfl, List.cons_ne_nil _ _⟩
  have hlost : w.client.state = .error := by
    obtain rfl := Option.some.inj hv
    obtain rfl := Option.some.inj hw
    rfl
  refine ⟨v, w, hv, hregistered.1, hregistered.2, hw, hlost, rfl, fun h => ?_⟩
  exact h.disconnected ⟨_, List.mem_singleton.mpr rfl, trivial⟩ rfl

end WbLwm2m

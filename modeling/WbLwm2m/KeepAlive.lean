import WbLwm2m.Timers
import Mathlib.Data.List.Count

/-!
# Staying alive

A server forgets a client it has not heard of for a lifetime. The client counts on its timer:
it sends an update when the timer fires, unless the update before is still to be answered.

Here it runs against a clock. Time passes between the steps, but not beyond the moment the
timer is due, by more than `late` milliseconds; and if it is `delay` milliseconds at most
until a registration or an update is answered, the client that takes itself for registered
has made its last contact no longer ago than a period of the timer and these two. So it is
never forgotten if they fit into the lifetime, and only then (`WbLwm2m.kept_alive_iff`): of a
lifetime the timer leaves a fifth.
-/

namespace WbLwm2m

open World Transition

variable {σ κ ψ : Type} {w w' : World σ κ ψ} {a : Action σ κ} {fp : FloatOps} {late delay : ℕ}

/-! ### The clock -/

/-- Whether a request is a registration or an update that has been accepted; a notification
does not keep a registration alive. -/
def Entry.isContact : Entry ψ → Bool
  | .coapPost _ _ _ format err => format ≠ .json ∧ err = .ok
  | _ => false

/-- How many of them there have been. -/
def contacts (log : List (Entry ψ)) : ℕ := log.countP Entry.isContact

/-- **A client and a clock**, in milliseconds: the time, when the timer is due if there is one,
and when the last contact has been made. -/
structure Timed (σ κ ψ : Type) where
  world : World σ κ ψ
  now : ℕ
  due : ℕ
  contact : ℕ

/-- What happens, and for how long nothing does. -/
inductive TimedAction (σ κ : Type) where
  | wait (ms : ℕ)
  | act (a : Action σ κ)

/-- Whether the timer fires. -/
def Action.isTimer : Action σ κ → Bool
  | .timer _ _ => true
  | _ => false

/-- A client that has just been made. -/
def Timed.start (c : Client σ κ ψ) : Timed σ κ ψ := ⟨World.initial c, 0, 0, 0⟩

/-- The clock after a step of the client. A timer is started when it is created, and reloads
itself: it is next due a period after it has been due, however late it fires. -/
def Timed.next (s : Timed σ κ ψ) (a : Action σ κ) (w : World σ κ ψ) : Timed σ κ ψ where
  world := w
  now := s.now
  due :=
    let period := (updateInterval w.client.lifetime).toNat
    if w.nextTimer ≠ s.world.nextTimer then s.now + period
    else if a.isTimer then s.due + period
    else s.due
  contact := if contacts w.log ≠ contacts s.world.log then s.now else s.contact

/-- **A step**, where it is in time. -/
def Timed.step (fp : FloatOps) (late : ℕ) (s : Timed σ κ ψ) :
    TimedAction σ κ → Option (Timed σ κ ψ)
  | .wait ms =>
    if s.world.client.updateTimer = none ∨ s.now + ms ≤ s.due + late then
      some { s with now := s.now + ms }
    else none
  | .act a =>
    if a.isTimer ∧ s.now < s.due then none
    else (WbLwm2m.step fp s.world a).map (s.next a)

/-- The states in which a registration or an update is to be answered. -/
def State.Waits (s : State) : Prop := s = .registering ∨ s = .updating

instance (s : State) : Decidable s.Waits := inferInstanceAs (Decidable (_ ∨ _))

/-- The timer can be created, and what it posts is accepted. -/
def Action.Granted : Action σ κ → Prop
  | .timer _ postErr => postErr = .ok
  | a => a.TimerCreated

/-- **What the client counts on**: its requests are answered in time, and its timer works. -/
def Timed.Served (delay : ℕ) (s : Timed σ κ ψ) : TimedAction σ κ → Prop
  | .wait ms => s.world.client.state.Waits → s.now + ms ≤ s.contact + delay
  | .act a => a.Granted

/-- **The client is not forgotten** while it takes itself for registered. -/
def Timed.Remembered (s : Timed σ κ ψ) : Prop :=
  s.world.client.state.KeptAlive → s.now ≤ s.contact + 1000 * s.world.client.lifetime.toNat

/-! ### What a step means to the clock -/

section Contacts

@[simp] theorem contacts_cons (e : Entry ψ) (log : List (Entry ψ)) :
    contacts (e :: log) = contacts log + if e.isContact then 1 else 0 := by
  rw [contacts, List.countP_cons]
  rfl

variable (w : World σ κ ψ)

@[simp] theorem contacts_dispatchEvent (type : EventType) :
    contacts (w.dispatchEvent type).log = contacts w.log :=
  apply_dispatchEvent w type fun _ _ => rfl

@[simp] theorem contacts_stopUpdateTimer : contacts w.stopUpdateTimer.log = contacts w.log :=
  apply_stopUpdateTimer w (fun _ _ => rfl) fun _ _ => rfl

@[simp] theorem contacts_startUpdateTimer (created : Bool) :
    contacts (w.startUpdateTimer created).log = contacts w.log :=
  apply_startUpdateTimer w created (fun _ _ => rfl) (fun _ _ => rfl) (fun _ _ _ => rfl)
    fun _ _ => rfl

@[simp] theorem contacts_stopEnd : contacts w.stopEnd.log = contacts w.log :=
  apply_stopEnd w (fun _ _ => rfl) fun _ _ => rfl

@[simp] theorem contacts_destroyEnd : contacts w.destroyEnd.log = contacts w.log := by
  have htimer : contacts w.releaseCoap.releaseTimer.log = contacts w.releaseCoap.log :=
    apply_releaseTimer _ fun _ _ => rfl
  have hcoap : contacts w.releaseCoap.log = contacts w.log :=
    apply_releaseCoap w fun _ _ => rfl
  rw [destroyEnd, record_log, contacts_cons, htimer, hcoap]
  rfl

end Contacts

/-- **The four kinds of steps.** -/
inductive Beat (w : World σ κ ψ) (a : Action σ κ) (w' : World σ κ ψ) : Prop
  /-- A registration is posted. -/
  | registering (hstate' : w'.client.state = .registering)
      (hcontact : contacts w'.log ≠ contacts w.log)
  /-- It is accepted, and the timer started. -/
  | registered (hstate : w.client.state = .registering) (hstate' : w'.client.state = .registered)
      (hnext : w'.nextTimer ≠ w.nextTimer) (hcontact : contacts w'.log = contacts w.log)
  /-- An update is posted. -/
  | updating (hstate : w.client.state = .registered) (hstate' : w'.client.state = .updating)
      (hnext : w'.nextTimer = w.nextTimer) (hcontact : contacts w'.log ≠ contacts w.log)
  /-- There is no contact; a timer has not found the client registered. -/
  | other (hcontact : contacts w'.log = contacts w.log)
      (htimer : a.isTimer → w.client.state ≠ .registered)
      (hwaits : w'.client.state.Waits → w.client.state = w'.client.state)
      (hkept : w'.client.state.KeptAlive →
        w.client.state.KeptAlive ∧ w'.nextTimer = w.nextTimer)

/-- A step without a contact to a state in which nothing is expected. -/
theorem Beat.of_state {s : State} (hcontact : contacts w'.log = contacts w.log)
    (htimer : a.isTimer → w.client.state ≠ .registered) (h : w'.client.state = s)
    (hwaits : ¬s.Waits := by decide) (hkept : ¬s.KeptAlive := by decide) : Beat w a w' :=
  .other hcontact htimer (fun h' => absurd (h ▸ h') hwaits) fun h' => absurd (h ▸ h') hkept

/-- A step without a contact that changes neither the state nor the timer. -/
theorem Beat.of_eq (hcontact : contacts w'.log = contacts w.log)
    (htimer : a.isTimer → w.client.state ≠ .registered)
    (hstate : w'.client.state = w.client.state) (hnext : w'.nextTimer = w.nextTimer) :
    Beat w a w' :=
  .other hcontact htimer (fun _ => hstate.symm) fun h => ⟨hstate ▸ h, hnext⟩

theorem Registers.beat {v : World σ κ ψ} {err : EspErr} (h : Registers v err w')
    (hv : contacts v.log = contacts w.log) (ha : a.isTimer = false) : Beat w a w' := by
  have htimer : a.isTimer → w.client.state ≠ .registered := fun h => absurd h (by simp [ha])
  cases h with
  | posted payload hpayload =>
    by_cases herr : err = .ok
    · refine .registering (by simp [herr]) ?_
      simp [hv, herr, Entry.isContact]
    · refine .of_state (s := .error) ?_ htimer (by simp [herr])
      simp [hv, herr, Entry.isContact]
  | noPayload => exact .of_state (s := .error) hv htimer rfl

/-- **Every step is of one of these kinds.** -/
theorem beat_of_effect (h : Effect w a w') (hlocated : Located w) (ha : a.Granted) :
    Beat w a w' := by
  cases h with
  | addRefused | notifyRefused => exact .of_eq rfl nofun rfl rfl
  | added | startRefused | notified | noResponse | ignored =>
    exact .of_eq (by simp [Entry.isContact]) nofun rfl rfl
  | startNoHandle => exact .of_eq (by simp [Entry.isContact]) nofun rfl rfl
  | startFailed => exact .of_state (s := .idle) (by simp [Entry.isContact]) nofun rfl
  | started => exact .of_state (s := .connecting) (by simp [Entry.isContact]) nofun rfl
  | updateRefused hcall hrefused =>
    refine .of_eq rfl (fun _ hstate => ?_) rfl rfl
    exact hrefused.elim (fun h => h hstate) (hlocated (Or.inl hstate))
  | @updateSent a err hcall hstate hloc =>
    by_cases herr : err = .ok
    · exact .updating hstate (by simp [herr]) rfl (by simp [herr, Entry.isContact])
    · -- the timer's posts are accepted
      have hnot : a.isTimer = false := by
        rcases hcall with rfl | ⟨t, -, rfl⟩
        · rfl
        · exact absurd ha herr
      refine .of_eq (by simp [herr, Entry.isContact]) (fun h => absurd h (by simp [hnot])) ?_ rfl
      simp [herr, hstate]
  | stopWaits api inDestroy hcall =>
    have hnot : a.isTimer = false := by
      rcases hcall with ⟨rfl, -⟩ | ⟨rfl, -⟩
      · rfl
      · rfl
    exact .of_state (s := .deregistering) (by simp [Entry.isContact])
      (fun h => absurd h (by simp [hnot])) rfl
  | stopped | destroyedStopped | stopResumed | destroyResumed | deregistered =>
    exact .of_state (s := .idle) (by simp [Entry.isContact]) nofun (by simp)
  | destroyed hphase hstate =>
    exact .of_state (s := .idle) (by simp [Entry.isContact]) nofun (by simpa using hstate)
  | connected hw' => exact hw'.beat (by simp [Entry.isContact]) rfl
  | updateRejected hstate hcode hw' => exact hw'.beat (by simp [Entry.isContact]) rfl
  | disconnected | rejected | failed =>
    exact .of_state (s := .error) (by simp [Entry.isContact]) nofun (by simp)
  | registered hstate =>
    obtain rfl : _ = true := ha
    refine .registered hstate (by simp) ?_ (by simp [Entry.isContact])
    simp [startUpdateTimer]
  | updated hstate =>
    refine .other (by simp [Entry.isContact]) nofun (fun h => ?_) fun _ => ⟨Or.inr hstate, ?_⟩
    · simp [State.Waits] at h
    · simp
  | reported => exact .of_eq (by simp [Entry.isContact]) nofun (by simp) (by simp)

/-! ### Time -/

/-- **What is so at every time**: an answer that is waited for is not late, the timer has not
been due for too long, and was set when there was a contact. -/
structure Timed.InTime (late delay : ℕ) (s : Timed σ κ ψ) : Prop where
  located : Located s.world
  refreshed : Refreshed s.world
  past : s.contact ≤ s.now
  answered : s.world.client.state.Waits → s.now ≤ s.contact + delay
  fires : s.world.client.state.KeptAlive → s.now ≤ s.due + late
  set : s.world.client.state.KeptAlive →
    s.due ≤ s.contact + delay + (updateInterval s.world.client.lifetime).toNat

namespace Timed

variable {s s' : Timed σ κ ψ} {b : TimedAction σ κ}

theorem InTime.wait (h : s.InTime late delay) {ms : ℕ} (hserved : s.Served delay (.wait ms))
    (hms : s.world.client.updateTimer = none ∨ s.now + ms ≤ s.due + late) :
    InTime late delay { s with now := s.now + ms } where
  located := h.located
  refreshed := h.refreshed
  past := h.past.trans (Nat.le_add_right _ _)
  answered := hserved
  fires := fun hkept => hms.resolve_left (h.refreshed hkept)
  set := h.set

theorem lifetime_of_effect (h : Effect w a w') : w'.client.lifetime = w.client.lifetime := by
  have hsame := congrArg Client.lifetime (asMade_of_effect h)
  exact hsame

theorem contact_next_of_ne (hcontact : contacts w.log ≠ contacts s.world.log) :
    (s.next a w).contact = s.now := if_pos hcontact

theorem contact_next_of_eq (hcontact : contacts w.log = contacts s.world.log) :
    (s.next a w).contact = s.contact := if_neg (not_not.mpr hcontact)

/-- A timer that is not a new one is due as before, or a period later if it has fired. -/
theorem due_next_le (hnext : w.nextTimer = s.world.nextTimer) {d : ℕ}
    (hdue : s.due ≤ d + (updateInterval w.client.lifetime).toNat)
    (hfires : a.isTimer → s.due ≤ d) :
    (s.next a w).due ≤ d + (updateInterval w.client.lifetime).toNat := by
  rw [Timed.next]
  dsimp only
  rw [if_neg (not_not.mpr hnext)]
  split
  · next htimer => exact Nat.add_le_add_right (hfires htimer) _
  · exact hdue

/-- It is due no earlier. -/
theorem due_le_next (hnext : w.nextTimer = s.world.nextTimer) : s.due ≤ (s.next a w).due := by
  rw [Timed.next]
  dsimp only
  rw [if_neg (not_not.mpr hnext)]
  split
  · exact Nat.le_add_right _ _
  · exact le_rfl

/-- A new timer is due a period later. -/
theorem due_next_of_ne (hnext : w.nextTimer ≠ s.world.nextTimer) :
    (s.next a w).due = s.now + (updateInterval w.client.lifetime).toNat := if_pos hnext

theorem InTime.next (h : s.InTime late delay) (hbeat : Beat s.world a w) (hlocated : Located w)
    (hrefreshed : Refreshed w) (hlifetime : w.client.lifetime = s.world.client.lifetime)
    (hdue : a.isTimer → s.due ≤ s.now) : (s.next a w).InTime late delay := by
  have hset := h.set
  rw [← hlifetime] at hset
  have hpast := h.past
  cases hbeat with
  | registering hstate' hcontact =>
    have hnot : ¬w.client.state.KeptAlive := by
      rw [hstate']
      decide
    have hnow := contact_next_of_ne (a := a) hcontact
    exact ⟨hlocated, hrefreshed, hnow.le, fun _ => hnow ▸ Nat.le_add_right _ _,
      fun hkept => absurd hkept hnot, fun hkept => absurd hkept hnot⟩
  | registered hstate hstate' hnext hcontact =>
    have hanswered := h.answered (Or.inl hstate)
    have hnot : ¬w.client.state.Waits := by
      rw [hstate']
      decide
    refine ⟨hlocated, hrefreshed, ?_, fun hwaits => absurd hwaits hnot, fun _ => ?_, fun _ => ?_⟩
    · rwa [contact_next_of_eq hcontact]
    · rw [due_next_of_ne hnext]
      exact (Nat.le_add_right _ _).trans (Nat.le_add_right _ _)
    · rw [due_next_of_ne hnext, contact_next_of_eq hcontact]
      exact Nat.add_le_add_right hanswered _
  | updating hstate hstate' hnext hcontact =>
    have hfires := h.fires (Or.inl hstate)
    have hset := hset (Or.inl hstate)
    have hnow := contact_next_of_ne (a := a) hcontact
    refine ⟨hlocated, hrefreshed, hnow.le, fun _ => hnow ▸ Nat.le_add_right _ _, fun _ => ?_,
      fun _ => ?_⟩
    · exact hfires.trans (Nat.add_le_add_right (due_le_next hnext) _)
    · rw [hnow]
      refine due_next_le hnext (by omega) fun htimer => ?_
      exact (hdue htimer).trans (Nat.le_add_right _ _)
  | other hcontact htimer hwaits hkept =>
    have hsame := contact_next_of_eq (a := a) hcontact
    refine ⟨hlocated, hrefreshed, hsame ▸ hpast, fun h' => ?_, fun h' => ?_, fun h' => ?_⟩
    · have hstate := hwaits h'
      rw [hsame]
      exact h.answered (hstate ▸ h')
    · obtain ⟨hbefore, hnext⟩ := hkept h'
      exact (h.fires hbefore).trans (Nat.add_le_add_right (due_le_next hnext) _)
    · obtain ⟨hbefore, hnext⟩ := hkept h'
      rw [hsame]
      refine due_next_le hnext (hset hbefore) fun hfired => ?_
      -- the timer has found the client updating, with an answer to come
      have hupdating := hbefore.resolve_left (htimer hfired)
      exact (hdue hfired).trans (h.answered (Or.inr hupdating))

/-- **Every step is in time**, if the client is served. -/
theorem InTime.step (h : s.InTime late delay) (hserved : s.Served delay b)
    (hstep : s.step fp late b = some s') : s'.InTime late delay := by
  cases b with
  | wait ms =>
    obtain ⟨hms, hs'⟩ := Option.ite_none_right_eq_some.mp hstep
    obtain rfl := Option.some.inj hs'
    exact h.wait hserved hms
  | act a =>
    obtain ⟨hdue, hs'⟩ := Option.ite_none_left_eq_some.mp hstep
    obtain ⟨w, hw, rfl⟩ := Option.map_eq_some_iff.mp hs'
    have heffect := effect_of_step hw
    have hcreated : a.TimerCreated := by
      cases a with
      | timer => exact trivial
      | _ => exact hserved
    refine h.next (beat_of_effect heffect h.located hserved) (located_step heffect h.located)
      (refreshed_step heffect hcreated h.refreshed) (lifetime_of_effect heffect) fun htimer => ?_
    exact not_lt.mp fun hlt => hdue ⟨htimer, hlt⟩

theorem lifetime_step (hstep : s.step fp late b = some s') :
    s'.world.client.lifetime = s.world.client.lifetime := by
  cases b with
  | wait ms =>
    obtain ⟨-, hs'⟩ := Option.ite_none_right_eq_some.mp hstep
    obtain rfl := Option.some.inj hs'
    rfl
  | act a =>
    obtain ⟨-, hs'⟩ := Option.ite_none_left_eq_some.mp hstep
    obtain ⟨w, hw, rfl⟩ := Option.map_eq_some_iff.mp hs'
    exact lifetime_of_effect (effect_of_step hw)

/-- What a client that is in time has not exceeded. -/
theorem InTime.remembered (h : s.InTime late delay)
    (hfits : (updateInterval s.world.client.lifetime).toNat + late + delay ≤
      1000 * s.world.client.lifetime.toNat) : s.Remembered := by
  intro hkept
  have hfires := h.fires hkept
  have hset := h.set hkept
  omega

theorem inTime_start {config : ClientConfig ψ} {c : Client σ κ ψ} (hinit : init config = some c) :
    (start c).InTime late delay := by
  have hidle : (start c).world.client.state = .idle := (init_idle hinit).1
  refine ⟨located_of_state hidle, refreshed_of_state hidle, le_rfl, fun h => ?_, fun h => ?_,
    fun h => ?_⟩
  all_goals
    rw [hidle] at h
    exact absurd h (by decide)

/-! ### A slow network -/

/-- A registration that is answered as late as may be, and a timer that fires as late. -/
def slowly (period late delay : ℕ) : List (TimedAction σ κ) :=
  [.act (.start true .ok), .act (.event .connected .ok true), .wait delay,
    .act (.event (.response (some ⟨some (ascii "/rd"), .created, ascii "/rd/1"⟩)) .ok true),
    .wait (period + late)]

theorem exists_slowly (fp : FloatOps) (late delay : ℕ) {config : ClientConfig ψ}
    {c : Client σ κ ψ} (hinit : init config = some c) : ∃ s₁ s₂ s₃ s₄ : Timed σ κ ψ,
      (start c).step fp late (.act (.start true .ok)) = some s₁ ∧
      s₁.step fp late (.act (.event .connected .ok true)) = some s₂ ∧
      s₂.step fp late (.wait delay) = some s₃ ∧
      s₃.step fp late (.act (.event (.response
        (some ⟨some (ascii "/rd"), .created, ascii "/rd/1"⟩)) .ok true)) = some s₄ ∧
      s₂.now = s₂.contact ∧ s₄.world.client.state = .registered ∧
      s₄.world.client.lifetime = c.lifetime ∧ s₄.contact = 0 ∧ s₄.now = delay ∧
      s₄.due = delay + (updateInterval c.lifetime).toNat := by
  rw [init] at hinit
  split at hinit
  · obtain rfl := Option.some.inj hinit
    rcases config with ⟨_, _, lifetime, _, _, _, _ | _, _, _⟩
    all_goals
      exact ⟨_, _, _, _, rfl, rfl, rfl, rfl, rfl, rfl, rfl, rfl, Nat.zero_add _,
        congrArg (· + _) (Nat.zero_add _)⟩
  · cases hinit

/-- **The slow run**: the client is served, and at its end it has made its contact a period and
both delays ago. -/
theorem along_slowly (fp : FloatOps) (late delay : ℕ) {config : ClientConfig ψ}
    {c : Client σ κ ψ} (hinit : init config = some c) :
    Along (Timed.step fp late) (fun s b _ => s.Served delay b) (start c)
        (slowly (updateInterval c.lifetime).toNat late delay) ∧
    ∀ P : Timed σ κ ψ → Prop, Along (Timed.step fp late) (fun _ _ s' => P s') (start c)
        (slowly (updateInterval c.lifetime).toNat late delay) →
      ∃ s, P s ∧ s.world.client.state = .registered ∧ s.world.client.lifetime = c.lifetime ∧
        s.contact = 0 ∧ s.now = (updateInterval c.lifetime).toNat + late + delay := by
  obtain ⟨s₁, s₂, s₃, s₄, h₁, h₂, h₃, h₄, hnow₂, hstate, hlifetime, hcontact, hnow, hdue⟩ :=
    exists_slowly fp late delay hinit
  have h₅ : s₄.step fp late (.wait ((updateInterval c.lifetime).toNat + late)) =
      some { s₄ with now := s₄.now + ((updateInterval c.lifetime).toNat + late) } :=
    if_pos (Or.inr (by omega))
  rw [slowly]
  constructor
  · rw [along_cons_of_step h₁, along_cons_of_step h₂, along_cons_of_step h₃,
      along_cons_of_step h₄, along_cons_of_step h₅]
    refine ⟨trivial, rfl, fun _ => ?_, rfl, fun hwaits => ?_, trivial⟩
    · rw [hnow₂]
    · rw [hstate] at hwaits
      exact absurd hwaits (by decide)
  · intro P hP
    rw [along_cons_of_step h₁, along_cons_of_step h₂, along_cons_of_step h₃,
      along_cons_of_step h₄, along_cons_of_step h₅] at hP
    refine ⟨_, hP.2.2.2.2.1, hstate, hlifetime, hcontact, ?_⟩
    dsimp only
    omega

end Timed

/-- **A registered client is never forgotten** exactly if the period of its timer, and what
the timer and the answers may be late, fit into the lifetime. Whatever is called and whatever
happens, its last registration or update is no older than the lifetime, as long as its timers
can be created and their updates are accepted; and if they do not fit, there is a run in which
it is older. -/
theorem kept_alive_iff (fp : FloatOps) (late delay : ℕ) {config : ClientConfig ψ}
    {c : Client σ κ ψ} (hinit : init config = some c) :
    (∀ bs, Along (Timed.step fp late) (fun s b _ => s.Served delay b) (Timed.start c) bs →
      Along (Timed.step fp late) (fun _ _ s' => s'.Remembered) (Timed.start c) bs) ↔
    (updateInterval c.lifetime).toNat + late + delay ≤ 1000 * c.lifetime.toNat := by
  constructor
  · intro hall
    obtain ⟨hserved, hend⟩ := Timed.along_slowly fp late delay hinit
    obtain ⟨s, hs, hstate, hlifetime, hcontact, hnow⟩ := hend _ (hall _ hserved)
    have hle := hs (Or.inl hstate)
    rw [hlifetime, hcontact, hnow] at hle
    omega
  · intro hfits bs hserved
    have htime : Along (Timed.step fp late) (fun _ _ s' => s'.InTime late delay ∧
        s'.world.client.lifetime = c.lifetime) (Timed.start c) bs := by
      refine along_of_along (fun s b s' hs hb hstep => ⟨hs.1.step hb hstep, ?_⟩)
        ⟨Timed.inTime_start hinit, rfl⟩ hserved
      exact (Timed.lifetime_step hstep).trans hs.2
    refine htime.mono fun _ _ s' hs' => hs'.1.remembered ?_
    rw [hs'.2]
    exact hfits

/-- With a lifetime of a day, a minute for the answers and a second for the timer do not
matter. -/
theorem kept_alive_iff_day :
    Along (Timed.step ieee754 1000) (fun _ _ s' => s'.Remembered)
      (Timed.start sampleClient) (Timed.slowly 69120000 1000 60000) :=
  (kept_alive_iff ieee754 1000 60000 init_sampleConfig).mpr (by decide) _
    (Timed.along_slowly ieee754 1000 60000 init_sampleConfig).1

end WbLwm2m

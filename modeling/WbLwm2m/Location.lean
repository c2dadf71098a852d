import WbLwm2m.Log
import WbLwm2m.Registration

/-!
# The location of a registration

Updates and deregistrations should go to the location that the server has given: the
Location-Path of the answer 2.01, or `/rd/` with the endpoint name if it carries none. The
client copies it into a `char[128]` when it is registered and uses it many steps later.
What the server has given is kept in a history variable here (`WbLwm2m.granted`), so that
it can be compared with what the client sends.

The client never mixes up locations, it only cuts them:
`WbLwm2m.requests_to_location_iff`.
-/

namespace WbLwm2m

open World Transition

variable {σ κ ψ : Type} {w w' : World σ κ ψ} {a : Action σ κ} {fp : FloatOps}

/-! ### What is given and what is sent -/

/-- The location an answer gives: without a Location-Path, the endpoint name stands in. -/
def locationOf (w : World σ κ ψ) (resp : CoapResponse) : Text :=
  if resp.locationPath ≠ [] then resp.locationPath else ascii "/rd/" ++ w.client.endpointName

/-- **The location of the last registration**: the one that the answer 2.01 has given which
has last moved the client into registered. -/
def granted (loc : Option Text) (w : World σ κ ψ) (a : Action σ κ) (w' : World σ κ ψ) :
    Option Text :=
  match a with
  | .event (.response (some resp)) _ _ =>
    if resp.code = .created ∧ w.client.state ≠ .registered ∧ w'.client.state = .registered then
      some (locationOf w resp)
    else loc
  | _ => loc

/-- The path of an update or of a deregistration. -/
def Entry.locationPath : Entry ψ → Option Text
  | .coapPost _ path none _ _ => some path
  | .coapDelete _ path _ => some path
  | _ => none

/-- The updates and deregistrations of a step go to the location. -/
def ToLocation (loc : Option Text) (w w' : World σ κ ψ) : Prop :=
  ∀ es, w'.log = es ++ w.log → ∀ e ∈ es, ∀ path, e.locationPath = some path → loc = some path

/-- The location fits, if it is needed: a registered client that is to update or to
deregister has got at most 127 characters. -/
def LocationFits (loc : Option Text) (w : World σ κ ψ) (a : Action σ κ) : Prop :=
  w.client.state = .registered → a.Updating ∨ a.Stopping → ∀ l, loc = some l → l.length ≤ 127

/-! ### What the client keeps -/

/-- The client keeps what it has been given, cut to its buffer. -/
def KeepsLocation (s : World σ κ ψ × Option Text) : Prop :=
  s.1.client.state.HasLocation →
    ∃ loc, s.2 = some loc ∧ s.1.client.regLocation = printText 128 loc

theorem newLocation_eq (w : World σ κ ψ) (resp : CoapResponse) :
    w.newLocation resp.locationPath = printText 128 (locationOf w resp) := by
  rw [newLocation, locationOf]
  split <;> rfl

theorem keepsLocation_of_state {p : World σ κ ψ × Option Text} {s : State}
    (h : p.1.client.state = s) (hs : ¬s.HasLocation := by decide) : KeepsLocation p :=
  fun h' => absurd (h ▸ h') hs

theorem printText_eq_iff {size : ℕ} {text : Text} :
    printText size text = text ↔ text.length ≤ size - 1 :=
  List.take_eq_self_iff text

/-- Nothing is given by a step that does not lead to registered. -/
theorem granted_eq (loc : Option Text) (w : World σ κ ψ) (a : Action σ κ) {w' : World σ κ ψ}
    (h : w.client.state = .registered ∨ w'.client.state ≠ .registered) :
    granted loc w a w' = loc := by
  unfold granted
  split
  · refine if_neg ?_
    rintro ⟨-, hold, hnew⟩
    rcases h with h | h
    · exact hold h
    · exact h hnew
  · rfl

theorem KeepsLocation.congr {loc : Option Text} (hw : KeepsLocation (w, loc))
    (hloc : w'.client.regLocation = w.client.regLocation)
    (hstate : w'.client.state.HasLocation → w.client.state.HasLocation)
    (hgranted : granted loc w a w' = loc) : KeepsLocation (w', granted loc w a w') := by
  intro h
  obtain ⟨l, hl, hreg⟩ := hw (hstate h)
  exact ⟨l, hgranted.trans hl, hloc.trans hreg⟩

/-- **Every step keeps what has been given.** -/
theorem keepsLocation_step {loc : Option Text} (h : Effect w a w') (hw : KeepsLocation (w, loc)) :
    KeepsLocation (w', granted loc w a w') := by
  cases h with
  | addRefused | added | startRefused | notifyRefused | notified | noResponse => exact hw
  | startNoHandle cfg hphase hstate => exact keepsLocation_of_state (s := .idle) hstate
  | startFailed => exact keepsLocation_of_state (s := .idle) rfl
  | started => exact keepsLocation_of_state (s := .connecting) rfl
  | updateRefused ha => rcases ha with rfl | ⟨t, -, rfl⟩ <;> exact hw
  | updateSent ha hstate =>
    exact hw.congr rfl (fun _ => Or.inl hstate) (granted_eq _ _ _ (Or.inl hstate))
  | stopWaits api inDestroy ha hphase hstate =>
    exact hw.congr (by simp) (fun _ => Or.inl hstate) (granted_eq _ _ _ (Or.inl hstate))
  | stopped | stopResumed | destroyedStopped | destroyResumed | deregistered =>
    exact keepsLocation_of_state (s := .idle) (by simp)
  | destroyed hphase hstate => exact keepsLocation_of_state (s := .idle) (by simpa using hstate)
  | connected hw' =>
    rcases hw'.state_eq with hs | hs
    · exact keepsLocation_of_state hs
    · exact keepsLocation_of_state hs
  | updateRejected hstate hcode hw' =>
    rcases hw'.state_eq with hs | hs
    · exact keepsLocation_of_state hs
    · exact keepsLocation_of_state hs
  | disconnected | rejected | failed => exact keepsLocation_of_state (s := .error) (by simp)
  | ignored =>
    refine hw.congr rfl id (granted_eq _ _ _ ?_)
    exact em (w.client.state = .registered)
  -- the one step that gives a location
  | @registered resp err created hstate hpath hcode =>
    intro _
    have hne : w.client.state ≠ .registered := by simp [hstate]
    refine ⟨locationOf w resp, if_pos ⟨hcode, hne, by simp⟩, ?_⟩
    simpa using newLocation_eq w resp
  | updated hstate hcode =>
    refine hw.congr (by simp) (fun _ => Or.inr (Or.inl hstate)) (if_neg ?_)
    rintro ⟨hcreated, -⟩
    exact absurd (hcode.symm.trans hcreated) (by decide)
  | reported => exact hw.congr (by simp) (by simp) rfl

/-! ### What the client sends -/

/-- Only a registered client sends an update or a deregistration, and to its location. -/
theorem Made.locationPath {e : Entry ψ} {path : Text} (h : Made w a e)
    (he : e.locationPath = some path) :
    w.client.state = .registered ∧ (a.Updating ∨ a.Stopping) ∧ path = w.client.regLocation := by
  cases e with
  | coapPost handle path' payload format err =>
    cases payload with
    | none =>
      obtain ⟨⟨ha, hstate⟩, -, hpath, -⟩ := h
      obtain rfl := Option.some.inj he
      exact ⟨hstate, Or.inl ha, hpath⟩
    | some payload => cases he
  | coapDelete handle path' err =>
    obtain ⟨⟨ha, -, hstate⟩, -, hpath, -⟩ := h
    obtain rfl := Option.some.inj he
    exact ⟨hstate, Or.inr ha, hpath⟩
  | _ => cases he

/-- And a registered client that is asked to does send one. -/
theorem exists_sent (h : Effect w a w') (hstate : w.client.state = .registered)
    (hloc : w.client.regLocation ≠ []) (ha : a.Updating ∨ a.Stopping) :
    ∃ es, w'.log = es ++ w.log ∧ ∃ e ∈ es, e.locationPath = some w.client.regLocation := by
  cases h with
  | updateRefused hcall hrefused =>
    rcases hrefused with h | h
    · exact absurd hstate h
    · exact absurd h hloc
  | updateSent => exact ⟨[_], rfl, _, List.mem_singleton.mpr rfl, rfl⟩
  | @stopWaits _ err api =>
    obtain ⟨es, hes, -⟩ := adds_stopUpdateTimer (P := fun _ => True) (w.record (.called api))
      (fun _ => trivial) fun _ => trivial
    refine ⟨.delay 500 :: .coapDelete w.client.coap w.client.regLocation err ::
      (es ++ [.called api]), ?_, _, List.mem_cons_of_mem _ List.mem_cons_self, rfl⟩
    simp only [setPhase_log, record_log, setState_log, hes, List.cons_append, List.append_assoc,
      List.nil_append]
  | stopped hphase hnot | destroyedStopped hphase hidle hnot => exact absurd ⟨hstate, hloc⟩ hnot
  | destroyed hphase hidle => exact absurd (hstate.symm.trans hidle) (by decide)
  | _ => exact absurd ha (by simp [Action.Updating, Action.Stopping])

/-- **The step**: what is sent goes to the location exactly if the location fits. -/
theorem toLocation_step_iff {loc : Option Text} (h : Effect w a w') (hlocated : Located w)
    (hw : KeepsLocation (w, loc)) : ToLocation loc w w' ↔ LocationFits loc w a := by
  obtain ⟨es, hes, hmade⟩ := made_of_effect h
  constructor
  · intro hto hstate ha l hl
    have hhas : w.client.state.HasLocation := Or.inl hstate
    obtain ⟨l', hl', hreg⟩ := hw hhas
    obtain rfl := Option.some.inj (hl.symm.trans hl')
    obtain ⟨fs, hfs, e, he, hpath⟩ := exists_sent h hstate (hlocated hhas) ha
    have hsame := Option.some.inj (hl.symm.trans (hto fs hfs e he _ hpath))
    exact printText_eq_iff.mp (hreg.symm.trans hsame.symm)
  · intro hfits fs hfs e he path hpath
    obtain rfl : es = fs := List.append_cancel_right (hes.symm.trans hfs)
    obtain ⟨hstate, ha, rfl⟩ := (hmade e he).locationPath hpath
    obtain ⟨l, hl, hreg⟩ := hw (Or.inl hstate)
    have hfit : printText 128 l = l := printText_eq_iff.mpr (hfits hstate ha l hl)
    exact hl.trans (congrArg some (hfit.symm.trans hreg.symm))

/-- **Updates and deregistrations go to the location exactly if it fits.** In every run, the
path of each update and of each deregistration is the location that the server has given
with the last registration, if and only if that location has at most 127 characters
whenever a registered client sends one. -/
theorem requests_to_location_iff {config : ClientConfig ψ} {c : Client σ κ ψ}
    (hinit : init config = some c) (as : List (Action σ κ)) :
    Along (withHistory (step fp) granted) (fun s _ s' => ToLocation s.2 s.1 s'.1)
        (World.initial c, none) as ↔
      Along (withHistory (step fp) granted) (fun s a _ => LocationFits s.2 s.1 a)
        (World.initial c, none) as := by
  refine along_step_iff (J := fun s => Located s.1 ∧ KeepsLocation s)
    (fun s a s' hJ h => ?_) (fun s a s' hJ h => ?_) ⟨?_, ?_⟩ as
  · obtain ⟨hstep, hhistory⟩ := withHistory_eq_some.mp h
    refine ⟨located_step (effect_of_step hstep) hJ.1, ?_⟩
    have hkeeps := keepsLocation_step (effect_of_step hstep) hJ.2
    rwa [← hhistory] at hkeeps
  · exact toLocation_step_iff (effect_of_step (withHistory_eq_some.mp h).1) hJ.1 hJ.2
  · exact located_of_state (s := .idle) (init_idle hinit).1
  · exact keepsLocation_of_state (s := .idle) (init_idle hinit).1

/-- An update goes to the location `/rd/1`. -/
theorem requests_to_location_iff_sample :
    Along (withHistory (step ieee754) granted) (fun s _ s' => ToLocation s.2 s.1 s'.1)
      (World.initial sampleClient, none) (registerActions ++ [.timer 0 .ok]) := by
  refine (requests_to_location_iff init_sampleConfig _).mpr ?_
  intro s₁ h₁
  obtain rfl := Option.some.inj h₁
  refine ⟨fun h => absurd h (by decide), ?_⟩
  intro s₂ h₂
  obtain rfl := Option.some.inj h₂
  refine ⟨fun h => absurd h (by decide), ?_⟩
  intro s₃ h₃
  obtain rfl := Option.some.inj h₃
  refine ⟨fun h => absurd h (by decide), ?_⟩
  intro s₄ _
  refine ⟨fun _ _ l hl => ?_, trivial⟩
  obtain rfl := Option.some.inj hl
  decide

/-- A client whose endpoint name has 124 characters. -/
def longNameClient : Client Unit Unit Unit :=
  { sampleClient with endpointName := List.replicate 124 0x61 }

/-- The location that stands for it, of 128 characters. -/
def longLocation : Text := ascii "/rd/" ++ longNameClient.endpointName

/-- **A long endpoint name is cut**: the answer carries no Location-Path, and the update goes
to a location without the last character of the name. -/
theorem long_name_is_cut :
    init { sampleConfig with endpointName := some longNameClient.endpointName } =
      some longNameClient ∧ ∃ s s',
    run (withHistory (step ieee754) granted) (World.initial longNameClient, none)
        [.start true .ok, .event .connected .ok true,
          .event (.response (some ⟨some (ascii "/rd"), .created, []⟩)) .ok true] = some s ∧
      s.2 = some longLocation ∧ s.1.client.state = .registered ∧
      withHistory (step ieee754) granted s (.timer 0 .ok) = some s' ∧
      ¬ToLocation s.2 s.1 s'.1 := by
  have hinit : ∀ name, init { sampleConfig with endpointName := some name } =
      some { sampleClient with endpointName := name } := fun _ => rfl
  obtain ⟨s, hrun⟩ : ∃ s, run (withHistory (step ieee754) granted)
      (World.initial longNameClient, none) [.start true .ok, .event .connected .ok true,
        .event (.response (some ⟨some (ascii "/rd"), .created, []⟩)) .ok true] =
      some s := ⟨_, rfl⟩
  obtain ⟨s', hstep⟩ : ∃ s', withHistory (step ieee754) granted s (.timer 0 .ok) = some s' := by
    obtain rfl := Option.some.inj hrun
    exact ⟨_, rfl⟩
  have hs : s.2 = some longLocation ∧ s.1.client.state = .registered := by
    obtain rfl := Option.some.inj hrun
    exact ⟨rfl, rfl⟩
  have hlog : s'.1.log =
      [.coapPost (some 0) (printText 128 longLocation) none .zero .ok] ++ s.1.log := by
    obtain rfl := Option.some.inj hrun
    obtain rfl := Option.some.inj hstep
    rfl
  refine ⟨hinit _, s, s', hrun, hs.1, hs.2, hstep, fun hto => ?_⟩
  have hsame := hto _ hlog _ (List.mem_singleton.mpr rfl) _ rfl
  rw [hs.1] at hsame
  have hfits := printText_eq_iff.mp (Option.some.inj hsame).symm
  have hlength : longLocation.length = 128 := by
    simp [longLocation, longNameClient, ascii]
  omega

end WbLwm2m

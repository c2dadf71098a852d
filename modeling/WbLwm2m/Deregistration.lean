import WbLwm2m.Log
import WbLwm2m.Updating

/-!
# Deregistration

Does a stop release the registration at the server? It should hand one delete request for
the current location to the CoAP client, before it stops the CoAP client and forgets the
location (`WbLwm2m.Released`). `wb_lwm2m_stop` asks whether the client is registered; a
client that waits for the answer to an update has a registration too, and is not asked
about. `WbLwm2m.stop_releases_iff` says that this is the only gap, for a stop and for a
destroy, whatever happens during the wait.
-/

namespace WbLwm2m

open World Transition

variable {σ κ ψ : Type} {w w' : World σ κ ψ} {a : Action σ κ} {fp : FloatOps}

/-- A delete request. -/
def Entry.IsDelete : Entry ψ → Prop
  | .coapDelete _ _ _ => True
  | _ => False

/-- A call of `wb_coap_client_stop`. -/
def Entry.IsCoapStop : Entry ψ → Prop
  | .coapStop _ => True
  | _ => False

/-! ### A stop from its call to its return -/

/-- The client holds a registration: it is registered, or the answer to an update is
pending. -/
def LiveRegistration (w : World σ κ ψ) : Prop :=
  w.client.state = .registered ∨
    w.client.state = .updating ∧ updateOutstanding w.log = true

/-- **A stop or a destroy that is called at `w` returns at `w'`**: at once, or after a wait
in which other steps come in between. -/
inductive Stops (fp : FloatOps) (w : World σ κ ψ) : World σ κ ψ → Prop
  | atOnce {a : Action σ κ} {w' : World σ κ ψ} (ha : a.Stopping) (h : step fp w a = some w')
      (hphase : ∀ inDestroy, w'.phase ≠ .stopping inDestroy) : Stops fp w w'
  | waited {a : Action σ κ} {bs : List (Action σ κ)} {w₁ w₂ w' : World σ κ ψ} {inDestroy : Bool}
      (ha : a.Stopping) (h : step fp w a = some w₁) (hphase : w₁.phase = .stopping inDestroy)
      (hbs : ∀ b ∈ bs, b ≠ .resume) (hrun : run (step fp) w₁ bs = some w₂)
      (hend : step fp w₂ .resume = some w') : Stops fp w w'

/-- **The registration of `w` has been released at `w'`**: between the two, one delete
request has been handed over, it is for the location of `w`, it comes before the CoAP
client is stopped, and at the end the location is forgotten. -/
def Released (w w' : World σ κ ψ) : Prop :=
  (∃ later earlier err,
    w'.log = later ++ .coapDelete w.client.coap w.client.regLocation err :: (earlier ++ w.log) ∧
      (∀ e ∈ later, ¬e.IsDelete) ∧ ∀ e ∈ earlier, ¬e.IsDelete ∧ ¬e.IsCoapStop) ∧
    w'.client.regLocation = []

theorem phase_ne_running {inDestroy : Bool} (hw : w.phase = .stopping inDestroy) :
    w.phase ≠ .running := by
  rw [hw]
  exact Phase.noConfusion

/-- Nothing but its end ends a wait. -/
theorem phase_of_effect {inDestroy : Bool} (h : Effect w a w')
    (hw : w.phase = .stopping inDestroy) (ha : a ≠ .resume) : w'.phase = .stopping inDestroy := by
  have hrunning := phase_ne_running hw
  cases h with
  | addRefused | added | updateRefused | updateSent | notifyRefused | notified | noResponse
  | ignored => exact hw
  | startRefused hphase | startNoHandle _ hphase | startFailed _ hphase | started _ hphase
  | stopWaits _ _ _ hphase | stopped hphase | destroyedStopped hphase | destroyed hphase =>
    exact absurd hphase hrunning
  | stopResumed | destroyResumed => exact absurd rfl ha
  | connected hw' => rw [hw'.phase_eq, dispatchEvent_phase, record_phase, hw]
  | updateRejected hstate hcode hw' => rw [hw'.phase_eq, setLocation_phase, record_phase, hw]
  | disconnected | registered | rejected | updated | deregistered | failed | reported => simpa

/-- **The first half of a stop**: a registered client makes its delete request and waits;
any other client does not wait. -/
theorem effect_stopping (h : Effect w a w') (ha : a.Stopping) :
    (w.client.state = .registered ∧ ∃ inDestroy err earlier,
      w'.phase = .stopping inDestroy ∧
      w'.log = .delay 500 :: .coapDelete w.client.coap w.client.regLocation err ::
        (earlier ++ w.log) ∧ ∀ e ∈ earlier, ¬e.IsDelete ∧ ¬e.IsCoapStop) ∨
    ¬(w.client.state = .registered ∧ w.client.regLocation ≠ []) ∧
      ∀ inDestroy, w'.phase ≠ .stopping inDestroy := by
  cases h with
  | updateRefused hcall | updateSent hcall =>
    exact absurd ha (updating_of_call hcall).not_stopping
  | @stopWaits _ err api inDestroy hcall hphase hstate hloc =>
    refine Or.inl ⟨hstate, inDestroy, err, ?_⟩
    have hadds := adds_stopUpdateTimer (P := fun e => ¬e.IsDelete ∧ ¬e.IsCoapStop)
      (w.record (.called api)) (fun _ => ⟨not_false, not_false⟩) fun _ => ⟨not_false, not_false⟩
    obtain ⟨es, hes, hP⟩ := hadds
    -- before the request only the call itself and the end of the timer
    refine ⟨es ++ [.called api], rfl, ?_, fun e he => ?_⟩
    · rw [List.append_assoc]
      exact congrArg (fun l => Entry.delay 500 ::
        Entry.coapDelete w.client.coap w.client.regLocation err :: l) hes
    · rcases List.mem_append.mp he with he | he
      · exact hP e he
      · obtain rfl := List.mem_singleton.mp he
        exact ⟨not_false, not_false⟩
  | stopped hphase hnot | destroyedStopped hphase hidle hnot =>
    refine Or.inr ⟨hnot, fun inDestroy hc => ?_⟩
    cases hc
  | destroyed hphase hstate =>
    refine Or.inr ⟨fun h => ?_, fun inDestroy hc => ?_⟩
    · exact absurd (hstate.symm.trans h.1) (by decide)
    · cases hc
  | _ => exact ha.elim

/-- No step but the first half of a stop that waits makes a delete request. -/
theorem adds_of_effect (h : Effect w a w')
    (hw : w.phase ≠ .running ∨ ∀ inDestroy, w'.phase ≠ .stopping inDestroy) :
    Adds (fun e => ¬e.IsDelete) w.log w'.log := by
  refine (made_of_effect h).mono fun e hmade hdelete => ?_
  cases e with
  | coapDelete handle path err =>
    obtain ⟨⟨ha, hphase, hstate⟩, -, rfl, hloc⟩ := hmade
    rcases hw with hw | hw
    · exact hw hphase
    · rcases effect_stopping h ha with ⟨-, inDestroy, -, -, hstopping, -⟩ | ⟨hnot, -⟩
      · exact hw inDestroy hstopping
      · exact hnot ⟨hstate, hloc⟩
  | _ => exact hdelete

/-- During a wait no delete request is made, and the wait goes on. -/
theorem adds_of_run {inDestroy : Bool} {bs : List (Action σ κ)}
    (hrun : run (step fp) w bs = some w') (hw : w.phase = .stopping inDestroy)
    (hbs : ∀ b ∈ bs, b ≠ .resume) :
    Adds (fun e => ¬e.IsDelete) w.log w'.log ∧ w'.phase = .stopping inDestroy := by
  refine run_invariant (E := fun b => b ≠ .resume)
    (P := fun v => Adds (fun e => ¬e.IsDelete) w.log v.log ∧ v.phase = .stopping inDestroy)
    (fun v b v' hb hv h => ?_) hbs ⟨Adds.refl _, hw⟩ hrun
  have heffect := effect_of_step h
  exact ⟨hv.1.trans (adds_of_effect heffect (Or.inl (phase_ne_running hv.2))),
    phase_of_effect heffect hv.2 hb⟩

theorem exists_resume {inDestroy : Bool} (hw : w.phase = .stopping inDestroy) :
    ∃ w', step fp w .resume = some w' := by
  cases inDestroy with
  | false => exact ⟨w.finishStop, by rw [step, hw]⟩
  | true => exact ⟨w.stopEnd.finishDestroy, by rw [step, hw]⟩

/-- **A stop always returns**, at once or from any point of its wait. -/
theorem exists_stops {w₁ w₂ : World σ κ ψ} {bs : List (Action σ κ)} (ha : a.Stopping)
    (h : step fp w a = some w₁) (hbs : ∀ b ∈ bs, b ≠ .resume)
    (hrun : run (step fp) w₁ bs = some w₂) : ∃ w', Stops fp w w' := by
  cases hphase : w₁.phase with
  | stopping inDestroy =>
    obtain ⟨w', hend⟩ := exists_resume (adds_of_run hrun hphase hbs).2
    exact ⟨w', Stops.waited ha h hphase hbs hrun hend⟩
  | _ =>
    refine ⟨w₁, Stops.atOnce ha h fun inDestroy hc => ?_⟩
    rw [hphase] at hc
    cases hc

/-- The end of a wait makes no delete request, and forgets the location. -/
theorem effect_resume (h : Effect w .resume w') :
    Adds (fun e => ¬e.IsDelete) w.log w'.log ∧ w'.client.regLocation = [] := by
  have hw' : w'.phase ≠ .stopping false ∧ w'.phase ≠ .stopping true ∧
      w'.client.regLocation = [] := by
    cases h with
    | updateRefused hcall | updateSent hcall => exact (updating_of_call hcall).elim
    | stopWaits _ _ hcall => exact (stopping_of_call hcall).elim
    | stopResumed => exact ⟨Phase.noConfusion, Phase.noConfusion, by simp⟩
    | destroyResumed =>
      exact ⟨Phase.noConfusion, Phase.noConfusion, by simp⟩
  refine ⟨adds_of_effect h (Or.inr fun inDestroy => ?_), hw'.2.2⟩
  cases inDestroy with
  | false => exact hw'.1
  | true => exact hw'.2.1

/-! ### Released or not -/

/-- A registered client is released, whatever happens in the wait. -/
theorem released_of_registered (hstops : Stops fp w w') (hstate : w.client.state = .registered)
    (hloc : w.client.regLocation ≠ []) : Released w w' := by
  cases hstops with
  | atOnce ha h hphase =>
    rcases effect_stopping (effect_of_step h) ha with ⟨-, d, -, -, hd, -⟩ | ⟨hnot, -⟩
    · exact absurd hd (hphase d)
    · exact absurd ⟨hstate, hloc⟩ hnot
  | waited ha h hphase hbs hrun hend =>
    rcases effect_stopping (effect_of_step h) ha with ⟨-, -, err, earlier, -, hlog, hearlier⟩ | hnot
    · obtain ⟨⟨es, hes, hP⟩, -⟩ := adds_of_run hrun hphase hbs
      obtain ⟨⟨fs, hfs, hQ⟩, hforgotten⟩ := effect_resume (effect_of_step hend)
      -- newest first: the end of the stop, the wait, the request, the start of the stop
      refine ⟨⟨fs ++ es ++ [.delay 500], earlier, err, ?_, ?_, hearlier⟩, hforgotten⟩
      · rw [hfs, hes, hlog]
        simp only [List.append_assoc, List.singleton_append]
      · intro e he
        rcases List.mem_append.mp he with he | he
        · rcases List.mem_append.mp he with he | he
          · exact hQ e he
          · exact hP e he
        · obtain rfl := List.mem_singleton.mp he
          exact not_false
    · exact absurd ⟨hstate, hloc⟩ hnot.1

/-- A client in another state is not released. -/
theorem not_released_of_ne (hstops : Stops fp w w') (hstate : w.client.state ≠ .registered) :
    ¬Released w w' := by
  rintro ⟨⟨later, earlier, err, hlog, -⟩, -⟩
  have hadds : Adds (fun e => ¬e.IsDelete) w.log w'.log := by
    cases hstops with
    | atOnce ha h hphase => exact adds_of_effect (effect_of_step h) (Or.inr hphase)
    | waited ha h hphase hbs hrun hend =>
      rcases effect_stopping (effect_of_step h) ha with ⟨hreg, -⟩ | ⟨-, hnot⟩
      · exact absurd hreg hstate
      · exact absurd hphase (hnot _)
  obtain ⟨es, hes, hP⟩ := hadds
  have hsplit : es = later ++ .coapDelete w.client.coap w.client.regLocation err :: earlier := by
    refine List.append_cancel_right (hes.symm.trans (hlog.trans ?_))
    rw [List.append_assoc, List.cons_append]
  exact hP (.coapDelete w.client.coap w.client.regLocation err) (by simp [hsplit]) trivial

/-- **A stop releases the registration exactly when the client is registered.** In every
reachable state with a live registration, a stop or a destroy hands over one delete
request for the current location, before it stops the CoAP client and forgets the
location, if and only if no update is waiting for its answer. -/
theorem stop_releases_iff {config : ClientConfig ψ} {c : Client σ κ ψ} {as : List (Action σ κ)}
    (hinit : init config = some c) (hrun : run (step fp) (World.initial c) as = some w)
    (hlive : LiveRegistration w) (hstops : Stops fp w w') :
    Released w w' ↔ w.client.state = .registered := by
  constructor
  · intro h
    rcases hlive with hstate | ⟨hstate, -⟩
    · exact hstate
    · have hne : w.client.state ≠ .registered := by
        rw [hstate]
        decide
      exact absurd h (not_released_of_ne hstops hne)
  · intro hstate
    exact released_of_registered hstops hstate (located_run hinit hrun (Or.inl hstate))

/-- A registered client is released by a stop. -/
theorem stop_releases_iff_sample : ∃ w w',
    run (step ieee754) (World.initial sampleClient) registerActions = some w ∧
      Stops ieee754 w w' ∧ Released w w' := by
  obtain ⟨w, hrun⟩ : ∃ w, run (step ieee754) (World.initial sampleClient) registerActions =
    some w := ⟨_, rfl⟩
  obtain ⟨w', hstops⟩ : ∃ w', Stops ieee754 w w' := by
    obtain rfl := Option.some.inj hrun
    have hnothing : ∀ b ∈ ([] : List (Action Unit Unit)), b ≠ .resume := by simp
    exact ⟨_, Stops.waited (a := .stop .ok) trivial rfl rfl hnothing rfl rfl⟩
  have hstate : w.client.state = .registered := by
    obtain rfl := Option.some.inj hrun
    rfl
  exact ⟨w, w', hrun, hstops,
    (stop_releases_iff init_sampleConfig hrun (Or.inl hstate) hstops).mpr hstate⟩

/-- **A stop while an update is pending leaves the registration behind.** -/
theorem stop_while_updating_not_released : ∃ w w',
    run (step ieee754) (World.initial sampleClient) (registerActions ++ [.timer 0 .ok]) = some w ∧
      LiveRegistration w ∧ Stops ieee754 w w' ∧ ¬Released w w' := by
  obtain ⟨w, hrun⟩ : ∃ w, run (step ieee754) (World.initial sampleClient)
    (registerActions ++ [.timer 0 .ok]) = some w := ⟨_, rfl⟩
  have hupdating : w.client.state = .updating ∧ updateOutstanding w.log = true := by
    obtain rfl := Option.some.inj hrun
    exact ⟨rfl, rfl⟩
  obtain ⟨w', hstops⟩ : ∃ w', Stops ieee754 w w' := by
    obtain rfl := Option.some.inj hrun
    refine ⟨_, Stops.atOnce (a := .stop .ok) trivial rfl fun inDestroy hc => ?_⟩
    cases hc
  refine ⟨w, w', hrun, Or.inr hupdating, hstops, not_released_of_ne hstops ?_⟩
  rw [hupdating.1]
  decide

end WbLwm2m

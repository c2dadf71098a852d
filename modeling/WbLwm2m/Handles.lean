import WbLwm2m.Registration
import Mathlib.Data.List.Count
import Mathlib.Data.List.Nodup

/-!
# CoAP handles

Who owns the CoAP handles? `wb_lwm2m_start` obtains one, `wb_lwm2m_stop` keeps it, and
`wb_lwm2m_destroy` destroys the one the client then has. A handle is lost when a start
overwrites it, and `WbLwm2m.handles_accounted_iff` says that this is the only way: the
handles are accounted for in a run exactly if no start finds a handle in its client.

What holds in any case, of a leaking run too, is `WbLwm2m.HandleInvariant`: handles are
obtained once, destroyed only while they are live, and the one the client has is live.
-/

namespace WbLwm2m

open World Transition

variable {σ κ ψ : Type} {w w' : World σ κ ψ} {a : Action σ κ}

/-! ### What the log says about handles -/

/-- The handles `wb_coap_client_init` has answered. -/
def obtainedHandles : List (Entry ψ) → List ℕ
  | [] => []
  | .coapInit _ (some h) :: log => h :: obtainedHandles log
  | _ :: log => obtainedHandles log

/-- The handles passed to `wb_coap_client_destroy`. -/
def destroyedHandles : List (Entry ψ) → List ℕ
  | [] => []
  | .coapDestroy h :: log => h :: destroyedHandles log
  | _ :: log => destroyedHandles log

/-- At every moment so far at most one handle was live. -/
def AtMostOneLive : List (Entry ψ) → Prop
  | [] => True
  | e :: log => (liveHandles (e :: log)).length ≤ 1 ∧ AtMostOneLive log

theorem AtMostOneLive.length_le {log : List (Entry ψ)} (h : AtMostOneLive log) :
    (liveHandles log).length ≤ 1 := by
  cases log with
  | nil => exact Nat.zero_le 1
  | cons e log => exact h.1

/-- All of this together. -/
def handleView (log : List (Entry ψ)) : List ℕ × List ℕ × List ℕ × Prop :=
  (liveHandles log, obtainedHandles log, destroyedHandles log, AtMostOneLive log)

theorem of_handleView_eq {log log' : List (Entry ψ)} (h : handleView log = handleView log') :
    liveHandles log = liveHandles log' ∧ obtainedHandles log = obtainedHandles log' ∧
      destroyedHandles log = destroyedHandles log' ∧ AtMostOneLive log = AtMostOneLive log' := by
  obtain ⟨hlive, hrest⟩ := Prod.mk.inj h
  obtain ⟨hobtained, hrest⟩ := Prod.mk.inj hrest
  exact ⟨hlive, hobtained, Prod.mk.inj hrest⟩

theorem handleView_congr {e : Entry ψ} {log : List (Entry ψ)}
    (hlive : liveHandles (e :: log) = liveHandles log)
    (hobtained : obtainedHandles (e :: log) = obtainedHandles log)
    (hdestroyed : destroyedHandles (e :: log) = destroyedHandles log) :
    handleView (e :: log) = handleView log := by
  have hmost : AtMostOneLive (e :: log) = AtMostOneLive log := by
    refine propext ⟨And.right, fun h => ⟨?_, h⟩⟩
    rw [hlive]
    exact h.length_le
  rw [handleView, handleView, hlive, hobtained, hdestroyed, hmost]

/-- The entries about other things add nothing. -/
@[simp] theorem handleView_cons {e : Entry ψ} (he : e.topic ≠ .handle) (log : List (Entry ψ)) :
    handleView (e :: log) = handleView log := by
  refine handleView_congr ?_ ?_ ?_
  · cases e <;> first | rfl | exact absurd rfl he
  · cases e <;> first | rfl | exact absurd rfl he
  · cases e <;> first | rfl | exact absurd rfl he

/-- Neither does an initialisation that fails. -/
@[simp] theorem handleView_coapInit_none (cfg : CoapConfig ψ) (log : List (Entry ψ)) :
    handleView (.coapInit cfg none :: log) = handleView log :=
  handleView_congr rfl rfl rfl

section Frames

variable (w)

@[simp] theorem handleView_dispatchEvent (type : EventType) :
    handleView (w.dispatchEvent type).log = handleView w.log :=
  apply_dispatchEvent w type fun _ _ => by simp

@[simp] theorem handleView_stopUpdateTimer :
    handleView w.stopUpdateTimer.log = handleView w.log :=
  apply_stopUpdateTimer w (fun _ _ => by simp)
    fun _ _ => by simp

@[simp] theorem handleView_startUpdateTimer (created : Bool) :
    handleView (w.startUpdateTimer created).log = handleView w.log :=
  apply_startUpdateTimer w created (fun _ _ => by simp)
    (fun _ _ => by simp) (fun _ _ _ => by simp)
    fun _ _ => by simp

@[simp] theorem handleView_stopEnd : handleView w.stopEnd.log = handleView w.log :=
  apply_stopEnd w (fun _ _ => by simp)
    fun _ _ => by simp

@[simp] theorem handleView_destroyEnd :
    handleView w.destroyEnd.log = handleView w.releaseCoap.log := by
  have hfree : handleView w.destroyEnd.log = handleView w.releaseCoap.releaseTimer.log :=
    handleView_cons (by simp) _
  rw [hfree]
  exact apply_releaseTimer _ fun _ _ => by simp

end Frames

theorem Registers.handleView_eq {err : EspErr} (h : Registers w err w') :
    handleView w'.log = handleView w.log :=
  h.apply_eq fun _ _ _ _ _ _ => by simp

/-- The actions that obtain or destroy handles: starts, and what ends in a destroy. -/
def TouchesHandles (w : World σ κ ψ) : Action σ κ → Prop
  | .start _ _ => True
  | .destroy _ => True
  | .resume => w.phase = .stopping true
  | _ => False

/-- **The other actions do not touch the handles.** -/
theorem handles_of_effect (h : Effect w a w') (ha : ¬TouchesHandles w a) :
    handleView w'.log = handleView w.log ∧ w'.client.coap = w.client.coap ∧
      w'.nextHandle = w.nextHandle ∧ (w'.phase = .destroyed → w.phase = .destroyed) := by
  cases h with
  | startRefused | startNoHandle | startFailed | started | destroyedStopped | destroyed =>
    exact absurd trivial ha
  | destroyResumed hphase => exact absurd hphase ha
  | addRefused | added | updateRefused | notifyRefused => exact ⟨rfl, rfl, rfl, id⟩
  | connected hw' =>
    rw [hw'.handleView_eq, hw'.client_eq, hw'.nextHandle_eq, hw'.phase_eq]
    simp
  | updateRejected hstate hcode hw' =>
    rw [hw'.handleView_eq, hw'.client_eq, hw'.nextHandle_eq, hw'.phase_eq]
    simp
  | _ => simp

/-! ### What holds in any case -/

/-- **Handles are obtained once**, destroyed only while they are live, and the one the
client has is live. -/
structure HandleInvariant (w : World σ κ ψ) : Prop where
  live : ∀ h, w.client.coap = some h → h ∈ liveHandles w.log
  counted : ∀ h, (obtainedHandles w.log).count h =
    (liveHandles w.log).count h + (destroyedHandles w.log).count h
  fresh : ∀ h ∈ obtainedHandles w.log, h < w.nextHandle
  nodup : (obtainedHandles w.log).Nodup

theorem HandleInvariant.congr (hw : HandleInvariant w)
    (hview : handleView w'.log = handleView w.log) (hcoap : w'.client.coap = w.client.coap)
    (hnext : w'.nextHandle = w.nextHandle) : HandleInvariant w' := by
  obtain ⟨hlive, hobtained, hdestroyed, -⟩ := of_handleView_eq hview
  refine ⟨?_, ?_, ?_, ?_⟩
  · rw [hcoap, hlive]
    exact hw.live
  · rw [hobtained, hlive, hdestroyed]
    exact hw.counted
  · rw [hobtained, hnext]
    exact hw.fresh
  · rw [hobtained]
    exact hw.nodup

theorem HandleInvariant.setCoap_none (hw : HandleInvariant w) : HandleInvariant (w.setCoap none) :=
  ⟨fun _ hc => absurd hc (by simp), hw.counted, hw.fresh, hw.nodup⟩

theorem HandleInvariant.nextHandle_notMem (hw : HandleInvariant w) :
    w.nextHandle ∉ obtainedHandles w.log :=
  fun h => absurd (hw.fresh _ h) (lt_irrefl _)

/-- A new handle. -/
theorem HandleInvariant.coapInit (hw : HandleInvariant w) (cfg : CoapConfig ψ) :
    HandleInvariant (({ w with nextHandle := w.nextHandle + 1 }.record
      (.coapInit cfg (some w.nextHandle))).setCoap (some w.nextHandle)) := by
  refine ⟨fun h hc => ?_, fun h => ?_, fun h hmem => ?_, ?_⟩
  · obtain rfl := Option.some.inj hc
    exact List.mem_cons_self
  · change (w.nextHandle :: obtainedHandles w.log).count h =
      (w.nextHandle :: liveHandles w.log).count h + (destroyedHandles w.log).count h
    rw [List.count_cons, List.count_cons, hw.counted h]
    omega
  · rcases List.mem_cons.mp hmem with rfl | hmem
    · exact Nat.lt_succ_self _
    · exact Nat.lt_succ_of_lt (hw.fresh h hmem)
  · exact List.nodup_cons.mpr ⟨hw.nextHandle_notMem, hw.nodup⟩

/-- The handle of the client is destroyed. -/
theorem HandleInvariant.coapDestroy (hw : HandleInvariant w) {h : ℕ}
    (hcoap : w.client.coap = some h) :
    HandleInvariant ((w.record (.coapDestroy h)).setCoap none) := by
  refine ⟨fun _ hc => absurd hc (by simp), fun h' => ?_, hw.fresh, hw.nodup⟩
  change (obtainedHandles w.log).count h' =
    ((liveHandles w.log).erase h).count h' + (h :: destroyedHandles w.log).count h'
  rw [hw.counted h', List.count_cons, List.count_erase]
  -- the erasure takes one occurrence, since the handle is live
  by_cases heq : h = h'
  · subst heq
    have hpos : 0 < (liveHandles w.log).count h := List.count_pos_iff.mpr (hw.live h hcoap)
    simp only [beq_self_eq_true, if_true]
    omega
  · have hne : (h == h') = false := beq_eq_false_iff_ne.mpr heq
    simp [hne]

theorem HandleInvariant.releaseCoap (hw : HandleInvariant w) : HandleInvariant w.releaseCoap := by
  cases hcoap : w.client.coap with
  | none =>
    rw [World.releaseCoap, hcoap]
    exact hw
  | some h =>
    rw [World.releaseCoap, hcoap]
    exact hw.coapDestroy hcoap

theorem HandleInvariant.finishDestroy (hw : HandleInvariant w) :
    HandleInvariant w.finishDestroy := by
  refine hw.releaseCoap.congr ?_ ?_ ?_
  · simp
  · rw [finishDestroy_client, releaseCoap_client]
  · rw [finishDestroy_nextHandle, releaseCoap_nextHandle]

theorem handleInvariant_start (hw : HandleInvariant w) (cfg : CoapConfig ψ) (err : EspErr) :
    HandleInvariant ((({ w with nextHandle := w.nextHandle + 1 }.record (.called .start)).record
      (.coapInit cfg (some w.nextHandle))).record (.coapStart w.nextHandle err) |>.setCoap
        (some w.nextHandle)) := by
  have hcalled : HandleInvariant (w.record (.called .start)) := hw.congr (by simp) rfl rfl
  exact (hcalled.coapInit cfg).congr (by simp) rfl rfl

/-- **Every step keeps the invariant.** -/
theorem handleInvariant_step (h : Effect w a w') (hw : HandleInvariant w) :
    HandleInvariant w' := by
  by_cases ha : TouchesHandles w a
  · cases h with
    | startRefused => exact hw.congr (by simp) rfl rfl
    | startNoHandle cfg =>
      have hcalled : HandleInvariant (w.record (.called .start)) := hw.congr (by simp) rfl rfl
      exact hcalled.setCoap_none.congr (by simp) rfl rfl
    | @startFailed err cfg =>
      have hstart := handleInvariant_start hw cfg err
      exact (hstart.coapDestroy rfl).congr (by simp) rfl rfl
    | started cfg => exact (handleInvariant_start hw cfg .ok).congr (by simp) rfl rfl
    | destroyedStopped =>
      have hstop : HandleInvariant (w.record (.called .destroy)).stopUpdateTimer.stopEnd :=
        hw.congr (by simp) (by simp) (by simp)
      exact hstop.finishDestroy
    | destroyed =>
      have hcalled : HandleInvariant (w.record (.called .destroy)) := hw.congr (by simp) rfl rfl
      exact hcalled.finishDestroy
    | destroyResumed =>
      have hstop : HandleInvariant w.stopEnd := hw.congr (by simp) (by simp) (by simp)
      exact hstop.finishDestroy
    | stopWaits =>
      exact hw.congr (by simp) (by simp) (by simp)
    | updateRefused hcall => exact hw
    | updateSent hcall => exact hw.congr (by simp) rfl rfl
    | stopResumed =>
      exact hw.congr (by simp) (by simp) (by simp)
    | _ => exact ha.elim
  · obtain ⟨hview, hcoap, hnext, -⟩ := handles_of_effect h ha
    exact hw.congr hview hcoap hnext

/-! ### Accounting -/

/-- **The handles are accounted for**: at most one has been live at any moment, the live
one is the client's, and a destroy that has returned leaves every handle destroyed exactly
once. -/
structure HandlesAccounted (w : World σ κ ψ) : Prop where
  atMostOne : AtMostOneLive w.log
  current : liveHandles w.log = w.client.coap.toList
  released : w.phase = .destroyed →
    ∀ h ∈ obtainedHandles w.log, (destroyedHandles w.log).count h = 1

/-- A start does not find a handle in an idle client. -/
def StartsEmpty (w : World σ κ ψ) : Action σ κ → Prop
  | .start _ _ => w.client.state = .idle → w.client.coap = none
  | _ => True

theorem HandlesAccounted.congr (hw : HandlesAccounted w)
    (hview : handleView w'.log = handleView w.log) (hcoap : w'.client.coap = w.client.coap)
    (hphase : w'.phase = .destroyed → w.phase = .destroyed) : HandlesAccounted w' := by
  obtain ⟨hlive, hobtained, hdestroyed, hmost⟩ := of_handleView_eq hview
  refine ⟨?_, ?_, fun h => ?_⟩
  · rw [hmost]
    exact hw.atMostOne
  · rw [hlive, hcoap]
    exact hw.current
  · rw [hobtained, hdestroyed]
    exact hw.released (hphase h)

/-- **A destroy settles the accounts.** -/
theorem HandlesAccounted.finishDestroy (hw : HandlesAccounted w) (hinv : HandleInvariant w) :
    HandlesAccounted w.finishDestroy := by
  have hview : handleView w.finishDestroy.log = handleView w.releaseCoap.log := by simp
  obtain ⟨hlive, -, -, hmost⟩ := of_handleView_eq hview
  have hempty : liveHandles w.releaseCoap.log = [] ∧ AtMostOneLive w.releaseCoap.log := by
    cases hcoap : w.client.coap with
    | none =>
      rw [World.releaseCoap, hcoap]
      refine ⟨?_, hw.atMostOne⟩
      rw [hw.current, hcoap]
      rfl
    | some h =>
      rw [World.releaseCoap, hcoap]
      have herase : liveHandles (.coapDestroy h :: w.log) = [] := by
        rw [liveHandles, hw.current, hcoap]
        exact List.erase_cons_head h []
      exact ⟨herase, by simp [herase], hw.atMostOne⟩
  refine ⟨?_, ?_, fun _ h hmem => ?_⟩
  · rw [hmost]
    exact hempty.2
  · rw [hlive, hempty.1]
    simp
  · have hcount := hinv.finishDestroy.counted h
    rw [List.count_eq_one_of_mem hinv.finishDestroy.nodup hmem, hlive, hempty.1] at hcount
    simpa using hcount.symm

theorem liveHandles_eq_nil_iff (hw : HandlesAccounted w) :
    liveHandles w.log = [] ↔ w.client.coap = none := by
  rw [hw.current]
  cases w.client.coap <;> simp

/-- **The step of a start**: the accounts stay in order exactly if the client had no
handle. -/
theorem handlesAccounted_start_iff {inited : Bool} {err : EspErr}
    (h : Effect w (.start inited err) w') (hw : HandlesAccounted w) :
    HandlesAccounted w' ↔ (w.client.state = .idle → w.client.coap = none) := by
  cases h with
  | startRefused hphase hstate =>
    exact iff_of_true (hw.congr (by simp) rfl id) fun h => absurd h hstate
  | startNoHandle cfg hphase hstate =>
    constructor
    · intro h _
      exact (liveHandles_eq_nil_iff hw).mp h.current
    · intro h
      exact hw.congr (by simp) (h hstate).symm id
  -- the new handle is gone again, and the client has none: an old one would be lost
  | startFailed cfg hphase hstate =>
    have herase : (w.nextHandle :: liveHandles w.log).erase w.nextHandle = liveHandles w.log :=
      List.erase_cons_head _ _
    constructor
    · intro h _
      exact (liveHandles_eq_nil_iff hw).mp (herase.symm.trans h.current)
    · intro h
      have hnil := (liveHandles_eq_nil_iff hw).mpr (h hstate)
      refine ⟨?_, herase.trans hnil, fun hd => ?_⟩
      · simp [AtMostOneLive, liveHandles, hnil, hw.atMostOne]
      · exact absurd (hphase.symm.trans hd) (by decide)
  | started cfg hphase hstate =>
    constructor
    · intro h _
      exact (liveHandles_eq_nil_iff hw).mp (List.cons.inj h.current).2
    · intro h
      have hnil := (liveHandles_eq_nil_iff hw).mpr (h hstate)
      refine ⟨?_, congrArg (w.nextHandle :: ·) hnil, fun hd => ?_⟩
      · simp [AtMostOneLive, liveHandles, hnil, hw.atMostOne]
      · exact absurd (hphase.symm.trans hd) (by decide)
  | updateRefused hcall | updateSent hcall => exact (updating_of_call hcall).elim
  | stopWaits _ _ hcall => exact (stopping_of_call hcall).elim

/-- Ending in a destroy keeps the accounts in order. -/
theorem handlesAccounted_destroy (h : Effect w a w') (hinv : HandleInvariant w)
    (hw : HandlesAccounted w) (ha : (∃ err, a = .destroy err) ∨ a = .resume) :
    HandlesAccounted w' := by
  cases h with
  | stopWaits => exact hw.congr (by simp) (by simp) (by simp)
  | destroyedStopped hphase =>
    have hok : HandlesAccounted (w.record (.called .destroy)).stopUpdateTimer.stopEnd :=
      hw.congr (by simp) (by simp) (by simp)
    exact hok.finishDestroy (hinv.congr (by simp) (by simp) (by simp))
  | destroyed =>
    have hok : HandlesAccounted (w.record (.called .destroy)) := hw.congr (by simp) rfl id
    exact hok.finishDestroy (hinv.congr (by simp) rfl rfl)
  | stopResumed =>
    exact hw.congr (by simp) (by simp) (by simp)
  | destroyResumed =>
    have hok : HandlesAccounted w.stopEnd := hw.congr (by simp) (by simp) (by simp)
    exact hok.finishDestroy (hinv.congr (by simp) (by simp) (by simp))
  | updateRefused hcall | updateSent hcall =>
    rcases ha with ⟨err, rfl⟩ | rfl
    · exact (updating_of_call hcall).elim
    · exact (updating_of_call hcall).elim
  | _ => rcases ha with ⟨err, ha⟩ | ha <;> cases ha

/-- **The step**: from accounts in order, exactly a start that finds a handle leads to
disorder. -/
theorem handlesAccounted_step_iff (h : Effect w a w') (hinv : HandleInvariant w)
    (hw : HandlesAccounted w) : HandlesAccounted w' ↔ StartsEmpty w a := by
  cases a with
  | start inited err => exact handlesAccounted_start_iff h hw
  | destroy err =>
    exact iff_of_true (handlesAccounted_destroy h hinv hw (Or.inl ⟨err, rfl⟩)) trivial
  | resume => exact iff_of_true (handlesAccounted_destroy h hinv hw (Or.inr rfl)) trivial
  | _ =>
    obtain ⟨hview, hcoap, -, hphase⟩ := handles_of_effect h not_false
    exact iff_of_true (hw.congr hview hcoap hphase) trivial

theorem handleInvariant_initial {c : Client σ κ ψ} (hc : c.coap = none) :
    HandleInvariant (World.initial c) :=
  ⟨fun h hh => absurd (hc.symm.trans hh) (by simp), fun _ => rfl,
    fun _ hh => absurd hh List.not_mem_nil, List.nodup_nil⟩

theorem handlesAccounted_initial {c : Client σ κ ψ} (hc : c.coap = none) :
    HandlesAccounted (World.initial c) := by
  refine ⟨trivial, ?_, fun h => by cases h⟩
  rw [World.initial, hc]
  rfl

/-- **The CoAP handles are accounted for exactly when no start finds one.** In every run,
at every state reached at most one handle has ever been live at a time, it is the
client's, and after a destroy every handle has been destroyed exactly once, if and only if
the client has no handle whenever it is started while idle. -/
theorem handles_accounted_iff {fp : FloatOps} {config : ClientConfig ψ} {c : Client σ κ ψ}
    (hinit : init config = some c) (as : List (Action σ κ)) :
    Along (step fp) (fun _ _ w' => HandlesAccounted w') (World.initial c) as ↔
      Along (step fp) (fun w a _ => StartsEmpty w a) (World.initial c) as := by
  have hcoap := (init_idle hinit).2.2.1
  exact along_state_iff
    (fun w a w' hinv h => handleInvariant_step (effect_of_step h) hinv)
    (fun w a w' hinv hw h => handlesAccounted_step_iff (effect_of_step h) hinv hw)
    (handleInvariant_initial hcoap) (handlesAccounted_initial hcoap) as

/-- One start, one stop and a destroy leave the accounts in order. -/
theorem handles_accounted_iff_sample :
    Along (step ieee754) (fun _ _ w' => HandlesAccounted w') (World.initial sampleClient)
      [.start true .ok, .stop .ok, .destroy .ok] := by
  refine (handles_accounted_iff init_sampleConfig _).mpr ?_
  intro w₁ _
  refine ⟨fun _ => rfl, ?_⟩
  intro w₂ _
  refine ⟨trivial, ?_⟩
  intro w₃ _
  exact ⟨trivial, trivial⟩

/-- **A restart loses a handle**: the second start overwrites the handle that the stop has
kept. -/
theorem restart_loses_handle : ∃ w,
    run (step ieee754) (World.initial sampleClient)
      [.start true .ok, .stop .ok, .start true .ok, .destroy .ok] = some w ∧
        liveHandles w.log = [0] ∧ ¬HandlesAccounted w := by
  obtain ⟨w, hrun⟩ : ∃ w, run (step ieee754) (World.initial sampleClient)
    [.start true .ok, .stop .ok, .start true .ok, .destroy .ok] = some w := ⟨_, rfl⟩
  have hlive : liveHandles w.log = [0] ∧ w.client.coap = none := by
    obtain rfl := Option.some.inj hrun
    exact ⟨rfl, rfl⟩
  refine ⟨w, hrun, hlive.1, fun h => ?_⟩
  have hcurrent := h.current
  rw [hlive.1, hlive.2] at hcurrent
  cases hcurrent

end WbLwm2m

import WbLwm2m.Lib.Log
import WbLwm2m.Log
import WbLwm2m.Registration
import Mathlib.Data.List.Nodup

/-!
# Keep-alive timers

Who owns the timers? They are created by a successful registration and deleted when
another one is created, when the session is lost and when the client is stopped or
destroyed. A registration that is completed in the wait of a stop creates one after the
stop has deleted its own; it is the destroy, or the next start of a timer, that deletes it.

`WbLwm2m.TimerDiscipline` says what a call of the timer service found when it was made: a
timer is created when none is live, and what is started, stopped or deleted is live. That
at most one timer is live at any moment, and that none is deleted twice, follows from the
discipline alone.

The period of the timer is in the last section (`WbLwm2m.keep_alive_period`).
-/

namespace WbLwm2m

open World Transition Log

variable {σ κ ψ : Type} {w w' : World σ κ ψ} {a : Action σ κ}

/-! ### The discipline -/

/-- The timers `xTimerCreate` has answered. -/
def obtainedTimers : List (Entry ψ) → List ℕ
  | [] => []
  | .timerCreate (some t) _ :: log => t :: obtainedTimers log
  | _ :: log => obtainedTimers log

/-- The timers passed to `xTimerDelete`. -/
def deletedTimers : List (Entry ψ) → List ℕ
  | [] => []
  | .timerDelete t :: log => t :: deletedTimers log
  | _ :: log => deletedTimers log

/-- What a call of the timer service, and the release of the client, find in the log. -/
def TimerCall : Entry ψ → List (Entry ψ) → Prop
  | .timerCreate (some t) _, older => liveTimers older = [] ∧ t ∉ obtainedTimers older
  | .timerStart t, older => t ∈ liveTimers older
  | .timerStop t, older => t ∈ liveTimers older
  | .timerDelete t, older => t ∈ liveTimers older
  | .free, older => liveTimers older = []
  | _, _ => True

/-- **Each call in its turn.** -/
def TimerDiscipline (log : List (Entry ψ)) : Prop := Each TimerCall log

/-- What follows from the discipline. -/
structure TimersOwned (log : List (Entry ψ)) : Prop where
  live_le : (liveTimers log).length ≤ 1
  deleted_nodup : (deletedTimers log).Nodup
  live_obtained : ∀ t ∈ liveTimers log, t ∈ obtainedTimers log ∧ t ∉ deletedTimers log
  deleted_obtained : ∀ t ∈ deletedTimers log, t ∈ obtainedTimers log

theorem TimersOwned.congr {log log' : List (Entry ψ)} (h : TimersOwned log)
    (hlive : liveTimers log' = liveTimers log)
    (hobtained : obtainedTimers log' = obtainedTimers log)
    (hdeleted : deletedTimers log' = deletedTimers log) : TimersOwned log' := by
  obtain ⟨h₁, h₂, h₃, h₄⟩ := h
  rw [← hlive] at h₁ h₃
  rw [← hobtained] at h₃ h₄
  rw [← hdeleted] at h₂ h₃ h₄
  exact ⟨h₁, h₂, h₃, h₄⟩

/-- A new timer is live, and it is the only one. -/
theorem TimersOwned.create {log : List (Entry ψ)} (h : TimersOwned log) {t : ℕ} (ms : UInt32)
    (hlive : liveTimers log = []) (ht : t ∉ obtainedTimers log) :
    TimersOwned (.timerCreate (some t) ms :: log) := by
  have hnew : liveTimers (.timerCreate (some t) ms :: log) = [t] := by
    rw [liveTimers, hlive]
  refine ⟨?_, h.deleted_nodup, fun s hs => ?_, fun s hs => ?_⟩
  · rw [hnew]
    exact Nat.le_refl 1
  · rw [hnew] at hs
    obtain rfl := List.mem_singleton.mp hs
    exact ⟨List.mem_cons_self, fun hd => ht (h.deleted_obtained s hd)⟩
  · exact List.mem_cons_of_mem _ (h.deleted_obtained s hs)

/-- A live timer that is deleted has not been deleted before. -/
theorem TimersOwned.delete {log : List (Entry ψ)} (h : TimersOwned log) {t : ℕ}
    (ht : t ∈ liveTimers log) : TimersOwned (.timerDelete t :: log) := by
  -- the only live timer is the one deleted
  obtain ⟨s, hs⟩ := List.length_eq_one_iff.mp
    (Nat.le_antisymm h.live_le (List.length_pos_of_mem ht))
  have hone : liveTimers log = [t] := by
    rw [hs] at ht ⊢
    rw [List.mem_singleton.mp ht]
  have hnone : liveTimers (.timerDelete t :: log) = [] := by
    rw [liveTimers, hone, List.erase_cons_head]
  refine ⟨?_, ?_, fun s hs => ?_, fun s hs => ?_⟩
  · rw [hnone]
    exact Nat.zero_le 1
  · exact List.nodup_cons.mpr ⟨(h.live_obtained t ht).2, h.deleted_nodup⟩
  · rw [hnone] at hs
    exact absurd hs (List.not_mem_nil)
  · rcases List.mem_cons.mp hs with rfl | hs
    · exact (h.live_obtained s ht).1
    · exact h.deleted_obtained s hs

/-- **The discipline keeps the timers in one hand.** -/
theorem timersOwned_of_discipline {log : List (Entry ψ)} (h : TimerDiscipline log) :
    TimersOwned log := by
  induction log with
  | nil => exact ⟨Nat.zero_le 1, List.nodup_nil, by simp [liveTimers], by simp [deletedTimers]⟩
  | cons e log ih =>
    obtain ⟨hcall, hlog⟩ := h
    have hold := ih hlog
    cases e with
    | timerCreate t ms =>
      cases t with
      | none => exact hold.congr rfl rfl rfl
      | some t => exact hold.create ms hcall.1 hcall.2
    | timerDelete t => exact hold.delete hcall
    | _ => exact hold.congr rfl rfl rfl

/-! ### The functions keep the discipline -/

/-- The log keeps the discipline, the timer of the client is the live one, and the next
timer has not been given out. -/
structure TimersKept (w : World σ κ ψ) : Prop where
  accounted : TimerAccounted w
  discipline : TimerDiscipline w.log
  next : ∀ t ∈ obtainedTimers w.log, t < w.nextTimer

/-- An entry that is about neither timers nor memory. -/
def Entry.Neutral (e : Entry ψ) : Prop := e.topic ≠ .timer ∧ e.topic ≠ .memory

theorem Entry.Neutral.timerCall {e : Entry ψ} (he : e.Neutral) (log : List (Entry ψ)) :
    TimerCall e log := by
  obtain ⟨htimer, hmemory⟩ := he
  cases e <;> first | exact trivial | exact absurd rfl htimer | exact absurd rfl hmemory

theorem Entry.Neutral.obtained {e : Entry ψ} (he : e.Neutral) (log : List (Entry ψ)) :
    obtainedTimers (e :: log) = obtainedTimers log := by
  cases e <;> first | rfl | exact absurd rfl he.1

theorem Entry.Neutral.live {e : Entry ψ} (he : e.Neutral) (log : List (Entry ψ)) :
    liveTimers (e :: log) = liveTimers log := by
  cases e <;> first | rfl | exact absurd rfl he.1

/-- What adds neutral entries and leaves the timer alone keeps all of it. -/
theorem TimersKept.adds (hw : TimersKept w) (h : Adds Entry.Neutral w.log w'.log)
    (htimer : w'.client.updateTimer = w.client.updateTimer)
    (hnext : w'.nextTimer = w.nextTimer) : TimersKept w' := by
  obtain ⟨es, hlog, hes⟩ := h
  have hsame : liveTimers w'.log = liveTimers w.log ∧
      obtainedTimers w'.log = obtainedTimers w.log := by
    rw [hlog]
    clear hlog
    induction es with
    | nil => exact ⟨rfl, rfl⟩
    | cons e es ih =>
      obtain ⟨he, hes⟩ := List.forall_mem_cons.mp hes
      rw [List.cons_append, he.live, he.obtained]
      exact ih hes
  refine ⟨?_, ?_, ?_⟩
  · rw [TimerAccounted, hsame.1, htimer]
    exact hw.accounted
  · rw [TimerDiscipline, hlog]
    exact Each.append hw.discipline fun e he => (hes e he).timerCall
  · rw [hsame.2, hnext]
    exact hw.next

theorem TimersKept.setState (hw : TimersKept w) (s : State) : TimersKept (w.setState s) :=
  ⟨hw.accounted, hw.discipline, hw.next⟩

theorem TimersKept.setLocation (hw : TimersKept w) (loc : Text) : TimersKept (w.setLocation loc) :=
  ⟨hw.accounted, hw.discipline, hw.next⟩

theorem TimersKept.stopUpdateTimer (hw : TimersKept w) : TimersKept w.stopUpdateTimer := by
  refine ⟨hw.accounted.stopUpdateTimer, ?_, ?_⟩
  · cases ht : w.client.updateTimer with
    | none =>
      rw [World.stopUpdateTimer, ht]
      exact hw.discipline
    | some t =>
      have hlive : t ∈ liveTimers w.log := by
        rw [hw.accounted, ht]
        exact List.mem_singleton.mpr rfl
      rw [World.stopUpdateTimer, ht]
      exact ⟨hlive, hlive, hw.discipline⟩
  · rw [stopUpdateTimer_nextTimer,
      apply_stopUpdateTimer (g := obtainedTimers) w (fun _ _ => rfl) fun _ _ => rfl]
    exact hw.next

theorem TimersKept.startUpdateTimer (hw : TimersKept w) (created : Bool) :
    TimersKept (w.startUpdateTimer created) := by
  have hstop := hw.stopUpdateTimer
  have hnone : liveTimers w.stopUpdateTimer.log = [] := liveTimers_stopUpdateTimer hw.accounted
  have haccounted : TimerAccounted (w.startUpdateTimer created) := by
    rw [TimerAccounted, liveTimers_startUpdateTimer hw.accounted, startUpdateTimer_client]
  refine ⟨haccounted, ?_, ?_⟩
  · cases created with
    | false => exact ⟨trivial, hstop.discipline⟩
    | true =>
      have hfresh : w.stopUpdateTimer.nextTimer ∉ obtainedTimers w.stopUpdateTimer.log :=
        fun hmem => Nat.lt_irrefl _ (hstop.next _ hmem)
      have hcreated : TimerCall (.timerCreate (some w.stopUpdateTimer.nextTimer)
        (updateInterval w.stopUpdateTimer.client.lifetime)) w.stopUpdateTimer.log :=
        ⟨hnone, hfresh⟩
      refine ⟨?_, hcreated, hstop.discipline⟩
      exact List.mem_cons_self
  · cases created with
    | false => exact hstop.next
    | true =>
      intro t ht
      rcases List.mem_cons.mp ht with rfl | ht
      · exact Nat.lt_succ_self _
      · exact Nat.lt_succ_of_lt (hstop.next t ht)

theorem TimersKept.destroyEnd (hw : TimersKept w) : TimersKept w.destroyEnd := by
  have hcoap : TimersKept w.releaseCoap := by
    refine hw.adds ?_ ?_ ?_
    · rw [releaseCoap]
      split
      · exact (Adds.refl _).cons (by simp [Entry.Neutral])
      · exact Adds.refl _
    · rw [releaseCoap_client]
    · rw [releaseCoap]
      split <;> rfl
  have hnone : liveTimers w.releaseCoap.releaseTimer.log = [] := liveTimers_destroyEnd hw.accounted
  have hrest : TimerDiscipline w.releaseCoap.releaseTimer.log ∧
      ∀ t ∈ obtainedTimers w.releaseCoap.releaseTimer.log,
        t < w.releaseCoap.releaseTimer.nextTimer := by
    cases ht : w.releaseCoap.client.updateTimer with
    | none =>
      rw [releaseTimer, ht]
      exact ⟨hcoap.discipline, hcoap.next⟩
    | some t =>
      have hlive : t ∈ liveTimers w.releaseCoap.log := by
        rw [hcoap.accounted, ht]
        exact List.mem_singleton.mpr rfl
      rw [releaseTimer, ht]
      exact ⟨⟨hlive, hcoap.discipline⟩, hcoap.next⟩
  refine ⟨?_, ⟨hnone, hrest.1⟩, hrest.2⟩
  rw [TimerAccounted, liveTimers_destroyEnd hw.accounted, destroyEnd_client]
  rfl

theorem TimersKept.dispatchEvent (hw : TimersKept w) (type : EventType) :
    TimersKept (w.dispatchEvent type) :=
  hw.adds (adds_dispatchEvent w type (by simp [Entry.Neutral])) (by simp) (by simp)

theorem TimersKept.record (hw : TimersKept w) {e : Entry ψ} (he : e.Neutral) :
    TimersKept (w.record e) :=
  hw.adds ((Adds.refl _).cons he) rfl rfl

theorem TimersKept.stopEnd (hw : TimersKept w) : TimersKept w.stopEnd := by
  refine hw.adds (adds_stopEnd w (by simp [Entry.Neutral]) (by simp [Entry.Neutral])) ?_ ?_
  · rw [stopEnd_client]
  · rw [World.stopEnd, dispatchEvent_nextTimer]
    cases w.client.coap <;> rfl

theorem Registers.timersKept {err : EspErr} (h : Registers w err w') (hw : TimersKept w) :
    TimersKept w' := by
  refine hw.adds (h.adds (by simp [Entry.Neutral])) ?_ ?_
  · rw [h.client_eq]
  · cases h <;> rfl

theorem TimersKept.finishStop (hw : TimersKept w) : TimersKept w.finishStop :=
  hw.stopEnd.adds ((Adds.refl _).cons (by simp [Entry.Neutral])) rfl rfl

theorem TimersKept.finishDestroy (hw : TimersKept w) : TimersKept w.finishDestroy :=
  hw.destroyEnd.adds ((Adds.refl _).cons (by simp [Entry.Neutral])) rfl rfl

/-- **Every step keeps the discipline.** -/
theorem timersKept_step (h : Effect w a w') (hw : TimersKept w) : TimersKept w' := by
  have hrefl : Adds Entry.Neutral w.log w.log := Adds.refl _
  have hcalled (api : Api) : TimersKept (w.record (.called api)) :=
    hw.record (by simp [Entry.Neutral])
  have hhandled (event : CoapEvent) : TimersKept (w.record (.handled event)) :=
    hw.record (by simp [Entry.Neutral])
  cases h with
  | addRefused | updateRefused | notifyRefused => exact hw
  | added => exact hw.adds hrefl rfl rfl
  | startRefused => exact (hcalled .start).record (by simp [Entry.Neutral])
  | startNoHandle =>
    refine (hcalled .start).adds (((Adds.refl _).cons ?_).cons ?_) rfl rfl
      <;> simp [Entry.Neutral]
  | startFailed =>
    refine (hcalled .start).adds (((((Adds.refl _).cons ?_).cons ?_).cons ?_).cons ?_) rfl rfl
      <;> simp [Entry.Neutral]
  | started =>
    refine (hcalled .start).adds ((((Adds.refl _).cons ?_).cons ?_).cons ?_) rfl rfl
      <;> simp [Entry.Neutral]
  | updateSent | notified => exact hw.adds (hrefl.cons (by simp [Entry.Neutral])) rfl rfl
  | stopWaits api =>
    refine (hcalled api).stopUpdateTimer.adds (((Adds.refl _).cons ?_).cons ?_) rfl rfl
      <;> simp [Entry.Neutral]
  | stopped => exact (hcalled .stop).stopUpdateTimer.finishStop
  | destroyedStopped => exact (hcalled .destroy).stopUpdateTimer.stopEnd.finishDestroy
  | destroyed => exact (hcalled .destroy).finishDestroy
  | stopResumed => exact hw.finishStop
  | destroyResumed => exact hw.stopEnd.finishDestroy
  | connected hw' => exact hw'.timersKept ((hhandled .connected).dispatchEvent _)
  | updateRejected hstate hcode hw' => exact hw'.timersKept ((hhandled _).setLocation _)
  | disconnected =>
    have hlost := (hhandled .disconnected).stopUpdateTimer
    exact ((hlost.setState _).setLocation _).dispatchEvent _
  | registered =>
    exact ((((hhandled _).setLocation _).setState _).startUpdateTimer _).dispatchEvent _
  | noResponse | ignored => exact hhandled _
  | rejected | updated | failed => exact ((hhandled _).setState _).dispatchEvent _
  | deregistered => exact (((hhandled _).setState _).setLocation _).dispatchEvent _
  | reported => exact (hhandled _).dispatchEvent _

/-! ### Every reachable state -/

variable {fp : FloatOps} {config : ClientConfig ψ} {c : Client σ κ ψ} {as : List (Action σ κ)}

theorem timersKept_run (hinit : init config = some c)
    (hrun : run (step fp) (World.initial c) as = some w) : TimersKept w := by
  refine run_invariant_all (P := TimersKept) (fun s a s' hs h => ?_)
    ⟨timerAccounted_initial hinit, ?_, ?_⟩ hrun
  · exact timersKept_step (effect_of_step h) hs
  · exact trivial
  · exact fun t ht => absurd ht (List.not_mem_nil)

/-- Only a destroy ends the client. -/
theorem destroyed_of_effect (h : Effect w a w') (hw : w.phase ≠ .destroyed)
    (hw' : w'.phase = .destroyed) : ∃ v, w' = World.finishDestroy v := by
  cases h with
  | destroyedStopped | destroyed | destroyResumed => exact ⟨_, rfl⟩
  | addRefused | added | startRefused | startNoHandle | startFailed | started | updateRefused
  | updateSent | notifyRefused | notified | noResponse | ignored => exact absurd hw' hw
  | stopWaits | stopped | stopResumed => exact absurd hw' Phase.noConfusion
  | connected hr =>
    rw [hr.phase_eq, dispatchEvent_phase] at hw'
    exact absurd hw' hw
  | updateRejected hstate hcode hr =>
    rw [hr.phase_eq] at hw'
    exact absurd hw' hw
  | disconnected | registered | rejected | updated | deregistered | failed | reported =>
    exact absurd (by simpa using hw') hw

theorem updateTimer_of_destroyed (hrun : run (step fp) (World.initial c) as = some w)
    (hw : w.phase = .destroyed) : w.client.updateTimer = none := by
  have hkeep : w.phase = .destroyed → w.client.updateTimer = none := by
    refine run_invariant_all (P := fun w => w.phase = .destroyed → w.client.updateTimer = none)
      (fun s a s' hs h => ?_) (fun h => ?_) hrun
    · intro hs'
      obtain ⟨v, rfl⟩ := destroyed_of_effect (effect_of_step h) (phase_of_step h) hs'
      rw [finishDestroy_client]
    · exact absurd h Phase.noConfusion
  exact hkeep hw

/-- **The timers are accounted for.** In every run the one timer that is live is the one of
the client; at every moment of the run at most one is live; none is deleted twice; and when
the client is freed none is live, then or later. -/
theorem timers_accounted (hinit : init config = some c)
    (hrun : run (step fp) (World.initial c) as = some w) :
    liveTimers w.log = w.client.updateTimer.toList ∧
      (∀ log, log <:+ w.log → (liveTimers log).length ≤ 1) ∧ (deletedTimers w.log).Nodup ∧
      (∀ later earlier, w.log = later ++ .free :: earlier → liveTimers earlier = []) ∧
      (w.phase = .destroyed → liveTimers w.log = []) := by
  have hkept := timersKept_run hinit hrun
  refine ⟨hkept.accounted, ?_, (timersOwned_of_discipline hkept.discipline).deleted_nodup, ?_, ?_⟩
  · rintro log ⟨newer, hlog⟩
    have hdiscipline := hkept.discipline
    rw [← hlog] at hdiscipline
    exact (timersOwned_of_discipline (each_append hdiscipline)).live_le
  · intro later earlier hlog
    have hdiscipline := hkept.discipline
    rw [hlog] at hdiscipline
    exact hdiscipline.of_append_cons
  · intro hphase
    rw [hkept.accounted, updateTimer_of_destroyed hrun hphase]
    rfl

/-- The run that registers the client anew in the wait of a stop, and destroys it. -/
def registerInWait : List (Action Unit Unit) :=
  registerActions ++ [.stop .ok, .event .connected .ok true,
    .event (.response (some ⟨some (ascii "/rd"), .created, ascii "/rd/2"⟩)) .ok true, .resume,
    .destroy .ok]

/-- The timer that was created in the wait is deleted by the destroy. -/
theorem timers_accounted_sample : ∃ w,
    run (step ieee754) (World.initial sampleClient) registerInWait = some w ∧
      deletedTimers w.log = [1, 0] ∧ liveTimers w.log = [] ∧
      ∀ log, log <:+ w.log → (liveTimers log).length ≤ 1 := by
  obtain ⟨w, hrun⟩ : ∃ w, run (step ieee754) (World.initial sampleClient) registerInWait =
    some w := ⟨_, rfl⟩
  have hw : w.phase = .destroyed ∧ deletedTimers w.log = [1, 0] := by
    obtain rfl := Option.some.inj hrun
    exact ⟨rfl, rfl⟩
  obtain ⟨-, hmost, -, -, hnone⟩ := timers_accounted init_sampleConfig hrun
  exact ⟨w, hrun, hw.2, hnone hw.1, hmost⟩

/-! ### The period -/

/-- The period, computed without a bound; the product may be too large for 32 bits. -/
theorem toNat_updateInterval (lifetime : UInt32) :
    (updateInterval lifetime).toNat = max 10000 (800 * lifetime.toNat % 2 ^ 32) := by
  have hprod : (lifetime * 800).toNat = 800 * lifetime.toNat % 2 ^ 32 := by
    rw [UInt32.toNat_mul, mul_comm]
    rfl
  have hfloor : (10000 : UInt32).toNat = 10000 := rfl
  rw [updateInterval]
  split
  · next hlt =>
    rw [UInt32.lt_iff_toNat_lt, hprod, hfloor] at hlt
    rw [hfloor, max_eq_left hlt.le]
  · next hge =>
    rw [UInt32.lt_iff_toNat_lt, hprod, hfloor, not_lt] at hge
    rw [hprod, max_eq_right hge]

/-- **The keep-alive period.** The lifetime is the configured one, or one day. From ten seconds
on the timer is due before the lifetime is over; below, it waits for the ten seconds that are
the least it waits. From 13 seconds on, the period is 80% of the lifetime as long as that fits
in 32 bits. -/
theorem keep_alive_period {config : ClientConfig ψ} {c : Client σ κ ψ}
    (hinit : init config = some c) :
    c.lifetime = (if config.lifetime = 0 then 86400 else config.lifetime) ∧
      (10 ≤ c.lifetime.toNat →
        (updateInterval c.lifetime).toNat ≤ 1000 * c.lifetime.toNat) ∧
      (c.lifetime.toNat < 10 → (updateInterval c.lifetime).toNat = 10000) ∧
      (13 ≤ c.lifetime.toNat → 800 * c.lifetime.toNat < 2 ^ 32 →
        (updateInterval c.lifetime).toNat = 800 * c.lifetime.toNat) := by
  rw [toNat_updateInterval]
  refine ⟨?_, fun h => ?_, fun h => ?_, fun h hfit => ?_⟩
  · rw [init] at hinit
    split at hinit
    · obtain rfl := Option.some.inj hinit
      by_cases h0 : config.lifetime = 0
      · rw [if_pos h0, h0]
        rfl
      · rw [if_neg h0]
        exact if_pos (UInt32.pos_iff_ne_zero.mpr h0)
    · cases hinit
  · have := Nat.mod_le (800 * c.lifetime.toNat) (2 ^ 32)
    omega
  · rw [Nat.mod_eq_of_lt (by omega)]
    omega
  · rw [Nat.mod_eq_of_lt hfit]
    omega

/-- The default lifetime of a day. -/
theorem keep_alive_period_day : (updateInterval sampleClient.lifetime).toNat = 69120000 :=
  (keep_alive_period init_sampleConfig).2.2.2 (by decide) (by decide)

/-- **A lifetime of five seconds is over before the timer is due.** -/
theorem keep_alive_five_seconds :
    ∃ c : Client Unit Unit Unit, init { sampleConfig with lifetime := 5 } = some c ∧
      1000 * c.lifetime.toNat = 5000 ∧ (updateInterval c.lifetime).toNat = 10000 :=
  ⟨_, rfl, by decide, by decide⟩

end WbLwm2m

import WbLwm2m.Lib.Transition
import Mathlib.Data.List.Induction

/-!
# What can be observed of a transition system

A state of the system shows a list of observations, newest first, to which a step adds at
most one. An *acceptor* is a deterministic automaton that reads observations, `next`; a
trace is accepted if the automaton can read it, oldest observation first. What is asked of
each action of a run, or of each observation of a trace by itself, is a guard
(`Transition.guarded`).

Two rules say that the traces of a system are the words of an acceptor. Every trace is
accepted if the states of the system simulate those of the acceptor step by step
(`Transition.exists_reads_of_run`). Every accepted word is a trace if the system can be
brought to show it: here the last observation is looked at first, since what the system has
to do for it may have to be prepared before (`Transition.exists_run_of_reads`). So a state
of the acceptor stands for several *poses* of the system, and for each of those the rule asks
for a pose before, from which the observation can be reached.
-/

namespace Transition

variable {S A O Q : Type} {step : S → A → Option S}

/-! ### Guards -/

/-- The system with the actions that have `P` only; or the acceptor of these observations. -/
def guarded (P : A → Prop) [DecidablePred P] (step : S → A → Option S) (s : S) (a : A) :
    Option S :=
  if P a then step s a else none

section Guards

variable {P : A → Prop} [DecidablePred P]

theorem guarded_eq_some_iff {s t : S} {a : A} :
    guarded P step s a = some t ↔ P a ∧ step s a = some t :=
  Option.ite_none_right_eq_some

/-- **A guarded run** is a run of actions that the guard lets through. -/
theorem run_guarded_iff {s t : S} {as : List A} :
    run (guarded P step) s as = some t ↔ (∀ a ∈ as, P a) ∧ run step s as = some t := by
  induction as generalizing s with
  | nil =>
    have hnone : ∀ a ∈ ([] : List A), P a := fun a ha => absurd ha List.not_mem_nil
    exact ⟨fun h => ⟨hnone, h⟩, fun h => h.2⟩
  | cons a as ih =>
    constructor
    · intro h
      obtain ⟨u, hu, hrest⟩ := exists_step_of_run_cons h
      obtain ⟨ha, hstep⟩ := guarded_eq_some_iff.mp hu
      obtain ⟨has, hrun⟩ := ih.mp hrest
      exact ⟨List.forall_mem_cons.mpr ⟨ha, has⟩, run_cons_eq_some hstep hrun⟩
    · rintro ⟨has, h⟩
      obtain ⟨u, hu, hrest⟩ := exists_step_of_run_cons h
      obtain ⟨ha, has⟩ := List.forall_mem_cons.mp has
      exact run_cons_eq_some (guarded_eq_some_iff.mpr ⟨ha, hu⟩) (ih.mpr ⟨has, hrest⟩)

end Guards

/-! ### Acceptors -/

/-- The state of the acceptor after a word. -/
def reads (next : Q → O → Option Q) (q : Q) (trace : List O) : Option Q := trace.foldlM next q

section Rules

variable {next : Q → O → Option Q}

/-- A word is read past the guard if the guard lets all of it through. -/
theorem reads_guarded_iff {P : O → Prop} [DecidablePred P] {q q' : Q} {trace : List O} :
    reads (guarded P next) q trace = some q' ↔
      (∀ o ∈ trace, P o) ∧ reads next q trace = some q' :=
  run_guarded_iff

theorem reads_append (q : Q) (trace : List O) (o : O) :
    reads next q (trace ++ [o]) = (reads next q trace).bind fun q' => next q' o := by
  simp [reads, List.foldlM_append]

variable (obs : S → List O)

/-- **The rule of simulation**: a step that is observed is a step of the acceptor, and one
that is not leaves its state alone. -/
theorem exists_reads_of_run (R : Q → S → Prop)
    (hstep : ∀ q s a s', R q s → step s a = some s' →
      obs s' = obs s ∧ R q s' ∨ ∃ o q', obs s' = o :: obs s ∧ next q o = some q' ∧ R q' s')
    {q₀ q : Q} {s s' : S} {trace : List O} {as : List A} (hs : R q s)
    (hobs : obs s = trace.reverse) (htrace : reads next q₀ trace = some q)
    (hrun : run step s as = some s') :
    ∃ trace' q', obs s' = trace'.reverse ∧ reads next q₀ trace' = some q' := by
  induction as generalizing s q trace with
  | nil =>
    obtain rfl := Option.some.inj hrun
    exact ⟨trace, q, hobs, htrace⟩
  | cons a as ih =>
    obtain ⟨t, ht, hrest⟩ := exists_step_of_run_cons hrun
    rcases hstep q s a t hs ht with ⟨hsame, hR⟩ | ⟨o, q', hnew, hq', hR⟩
    · exact ih hR (hsame.trans hobs) htrace hrest
    · have hobs' : obs t = (trace ++ [o]).reverse := by
        rw [hnew, hobs, List.reverse_append]
        rfl
      have htrace' : reads next q₀ (trace ++ [o]) = some q' := by
        rw [reads_append, htrace]
        exact hq'
      exact ih hR hobs' htrace' hrest

/-- **The rule of realisation**, from the last observation to the first: whatever pose is
asked for after it, there is one before it from which the system gets there. -/
theorem exists_run_of_reads {I : Type} (pose : I → S → Prop) (member : Q → I → Prop)
    (hstep : ∀ q o q', next q o = some q' → ∀ i', member q' i' → ∃ i, member q i ∧
      ∀ s, pose i s → ∃ as s', run step s as = some s' ∧ pose i' s' ∧ obs s' = o :: obs s)
    {q₀ : Q} {s₀ : S}
    (hstart : ∀ i, member q₀ i → ∃ as s, run step s₀ as = some s ∧ pose i s ∧ obs s = [])
    {q : Q} {trace : List O} (htrace : reads next q₀ trace = some q) {i : I}
    (hi : member q i) : ∃ as s, run step s₀ as = some s ∧ pose i s ∧ obs s = trace.reverse := by
  induction trace using List.reverseRecOn generalizing q i with
  | nil =>
    obtain rfl := Option.some.inj htrace
    exact hstart i hi
  | append_singleton trace o ih =>
    rw [reads_append] at htrace
    obtain ⟨q', hq', hnext⟩ := Option.bind_eq_some_iff.mp htrace
    obtain ⟨j, hj, hreach⟩ := hstep q' o q hnext i hi
    obtain ⟨as, s, hrun, hpose, hseen⟩ := ih hq' hj
    obtain ⟨bs, t, hrest, hpose', hnew⟩ := hreach s hpose
    refine ⟨as ++ bs, t, run_append_eq_some hrun hrest, hpose', ?_⟩
    rw [hnew, hseen, List.reverse_append]
    rfl

end Rules

end Transition

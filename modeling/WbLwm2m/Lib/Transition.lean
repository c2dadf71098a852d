import Mathlib.Data.List.Basic

/-!
# Runs of a deterministic transition system

A transition system with labels, `step : S → A → Option S`: an action that is not enabled
has no successor. What the environment chooses is part of the action, so that a run is a
list of actions, `Transition.run`.

There are two ways to speak about a run. A state invariant is established by
`Transition.run_invariant`, step by step. A property of the run as a whole says something
about each of its steps, `Transition.Along`; when such a property is not always true, the
question is for which runs it is, and `Transition.along_iff` reduces the answer to one
step: if, where nothing has gone wrong yet, a step keeps the property exactly under a
condition on the state before it and the action, then a run has the property exactly if
all its steps meet the condition.

What a property needs to know of the past, and the state does not tell, is kept in a
history variable (`Transition.withHistory`), which every step updates and no step looks at.
-/

namespace Transition

variable {S A : Type} (step : S → A → Option S)

/-- The state after a list of actions, if each of them is enabled in its turn. -/
def run (s : S) (as : List A) : Option S := as.foldlM step s

/-- `Q` holds of every step of the run, up to the first action that is not enabled. -/
def Along (Q : S → A → S → Prop) : S → List A → Prop
  | _, [] => True
  | s, a :: as => ∀ s', step s a = some s' → Q s a s' ∧ Along Q s' as

variable {step}

@[simp] theorem run_nil (s : S) : run step s [] = some s := rfl

theorem exists_step_of_run_cons {s s'' : S} {a : A} {as : List A}
    (h : run step s (a :: as) = some s'') :
    ∃ s', step s a = some s' ∧ run step s' as = some s'' :=
  Option.bind_eq_some_iff.mp h

/-! ### Parts of a run -/

theorem run_append (step : S → A → Option S) (s : S) (as bs : List A) :
    run step s (as ++ bs) = (run step s as).bind fun t => run step t bs :=
  List.foldlM_append

theorem run_append_eq_some {s t u : S} {as bs : List A} (h : run step s as = some t)
    (h' : run step t bs = some u) : run step s (as ++ bs) = some u := by
  rw [run_append, h]
  exact h'

theorem run_cons_eq_some {s t u : S} {a : A} {as : List A} (h : step s a = some t)
    (h' : run step t as = some u) : run step s (a :: as) = some u := by
  rw [run, List.foldlM_cons, h]
  exact h'

theorem run_one {s t : S} {a : A} (h : step s a = some t) : run step s [a] = some t :=
  run_cons_eq_some h rfl

/-- The states around an action of a run. -/
theorem exists_of_run_append_cons {s s' : S} {as bs : List A} {a : A}
    (h : run step s (as ++ a :: bs) = some s') :
    ∃ t u, run step s as = some t ∧ step t a = some u ∧ run step u bs = some s' := by
  rw [run_append] at h
  obtain ⟨t, ht, hrest⟩ := Option.bind_eq_some_iff.mp h
  obtain ⟨u, hu, hrest⟩ := exists_step_of_run_cons hrest
  exact ⟨t, u, ht, hu, hrest⟩

/-- The first action with `P`, if there is one. -/
theorem exists_first (P : A → Prop) (as : List A) :
    (∀ a ∈ as, ¬P a) ∨ ∃ bs a cs, as = bs ++ a :: cs ∧ (∀ b ∈ bs, ¬P b) ∧ P a := by
  induction as with
  | nil => exact Or.inl fun a ha => absurd ha List.not_mem_nil
  | cons a as ih =>
    by_cases ha : P a
    · exact Or.inr ⟨[], a, as, rfl, fun b hb => absurd hb List.not_mem_nil, ha⟩
    · rcases ih with hnone | ⟨bs, b, cs, rfl, hbs, hb⟩
      · exact Or.inl (List.forall_mem_cons.mpr ⟨ha, hnone⟩)
      · exact Or.inr ⟨a :: bs, b, cs, rfl, List.forall_mem_cons.mpr ⟨ha, hbs⟩, hb⟩

/-- The last action with `P`, if there is one. -/
theorem exists_last (P : A → Prop) (as : List A) :
    (∀ a ∈ as, ¬P a) ∨ ∃ bs a cs, as = bs ++ a :: cs ∧ P a ∧ ∀ c ∈ cs, ¬P c := by
  induction as with
  | nil => exact Or.inl fun a ha => absurd ha List.not_mem_nil
  | cons a as ih =>
    rcases ih with hnone | ⟨bs, b, cs, rfl, hb, hcs⟩
    · by_cases ha : P a
      · exact Or.inr ⟨[], a, as, rfl, ha, hnone⟩
      · exact Or.inl (List.forall_mem_cons.mpr ⟨ha, hnone⟩)
    · exact Or.inr ⟨a :: bs, b, cs, rfl, hb, hcs⟩

/-! ### Rules -/

/-- **The invariant rule**, for runs of actions the environment may choose from. -/
theorem run_invariant {P : S → Prop} {E : A → Prop}
    (hstep : ∀ s a s', E a → P s → step s a = some s' → P s') {s s' : S} {as : List A}
    (has : ∀ a ∈ as, E a) (hs : P s) (hrun : run step s as = some s') : P s' := by
  induction as generalizing s with
  | nil => exact Option.some.inj hrun ▸ hs
  | cons a as ih =>
    obtain ⟨t, ht, hrest⟩ := exists_step_of_run_cons hrun
    refine ih (fun b hb => has b (List.mem_cons_of_mem _ hb)) ?_ hrest
    exact hstep s a t (has a List.mem_cons_self) hs ht

/-- The invariant rule, for runs of any actions. -/
theorem run_invariant_all {P : S → Prop} (hstep : ∀ s a s', P s → step s a = some s' → P s')
    {s s' : S} {as : List A} (hs : P s) (hrun : run step s as = some s') : P s' :=
  run_invariant (E := fun _ => True) (fun s a s' _ => hstep s a s') (fun _ _ => trivial) hs hrun

/-- **The exactness rule.** `J` is an invariant, `P` the state part and `Q` the step part
of a property. If a step from a state with `P` keeps the property exactly under the
condition `C`, then a run has the property exactly if its steps meet the condition. -/
theorem along_iff {J P : S → Prop} {Q : S → A → S → Prop} {C : S → A → Prop}
    (hJ : ∀ s a s', J s → step s a = some s' → J s')
    (hexact : ∀ s a s', J s → P s → step s a = some s' → (P s' ∧ Q s a s' ↔ C s a))
    {s : S} (hs : J s) (hP : P s) (as : List A) :
    Along step (fun s a s' => P s' ∧ Q s a s') s as ↔ Along step (fun s a _ => C s a) s as := by
  induction as generalizing s with
  | nil => exact Iff.rfl
  | cons a as ih =>
    constructor
    · intro h s' hstep
      obtain ⟨hQ, hrest⟩ := h s' hstep
      exact ⟨(hexact s a s' hs hP hstep).mp hQ, (ih (hJ s a s' hs hstep) hQ.1).mp hrest⟩
    · intro h s' hstep
      obtain ⟨hC, hrest⟩ := h s' hstep
      have hQ := (hexact s a s' hs hP hstep).mpr hC
      exact ⟨hQ, (ih (hJ s a s' hs hstep) hQ.1).mpr hrest⟩

theorem along_congr {Q Q' : S → A → S → Prop} (h : ∀ s a s', Q s a s' ↔ Q' s a s') (s : S)
    (as : List A) : Along step Q s as ↔ Along step Q' s as := by
  have hQ : Q = Q' := by
    funext s a s'
    exact propext (h s a s')
  rw [hQ]

/-- The exactness rule for a property of states alone. -/
theorem along_state_iff {J P : S → Prop} {C : S → A → Prop}
    (hJ : ∀ s a s', J s → step s a = some s' → J s')
    (hexact : ∀ s a s', J s → P s → step s a = some s' → (P s' ↔ C s a))
    {s : S} (hs : J s) (hP : P s) (as : List A) :
    Along step (fun _ _ s' => P s') s as ↔ Along step (fun s a _ => C s a) s as := by
  have h := along_iff (Q := fun _ _ _ => True) hJ
    (fun s a s' hs hP h => (and_iff_left trivial).trans (hexact s a s' hs hP h)) hs hP as
  rw [← h]
  exact along_congr (fun _ _ _ => (and_iff_left trivial).symm) s as

/-- The exactness rule for a property of steps alone. -/
theorem along_step_iff {J : S → Prop} {Q : S → A → S → Prop} {C : S → A → Prop}
    (hJ : ∀ s a s', J s → step s a = some s' → J s')
    (hexact : ∀ s a s', J s → step s a = some s' → (Q s a s' ↔ C s a)) {s : S} (hs : J s)
    (as : List A) : Along step Q s as ↔ Along step (fun s a _ => C s a) s as := by
  have h := along_iff (P := fun _ => True) hJ
    (fun s a s' hs _ h => (and_iff_right trivial).trans (hexact s a s' hs h)) hs trivial as
  rw [← h]
  exact along_congr (fun _ _ _ => (and_iff_right trivial).symm) s as

/-- **The rule for every run**: what each step from a state with the invariant does. -/
theorem along_of_invariant {J : S → Prop} {Q : S → A → S → Prop}
    (hJ : ∀ s a s', J s → step s a = some s' → J s')
    (hQ : ∀ s a s', J s → step s a = some s' → Q s a s') {s : S} (hs : J s) (as : List A) :
    Along step Q s as := by
  induction as generalizing s with
  | nil => exact trivial
  | cons a as ih =>
    intro s' hstep
    exact ⟨hQ s a s' hs hstep, ih (hJ s a s' hs hstep)⟩

/-- **The rule for the runs whose steps meet a condition.** -/
theorem along_of_condition {J : S → Prop} {C : S → A → Prop} {Q : S → A → S → Prop}
    (hJ : ∀ s a s', J s → C s a → step s a = some s' → J s')
    (hQ : ∀ s a s', J s → C s a → step s a = some s' → Q s a s') {s : S} (hs : J s)
    {as : List A} (h : Along step (fun s a _ => C s a) s as) : Along step Q s as := by
  induction as generalizing s with
  | nil => exact trivial
  | cons a as ih =>
    intro s' hstep
    obtain ⟨hC, hrest⟩ := h s' hstep
    exact ⟨hQ s a s' hs hC hstep, ih (hJ s a s' hs hC hstep) hrest⟩

theorem along_of_along {J : S → Prop} {C : S → A → Prop}
    (hJ : ∀ s a s', J s → C s a → step s a = some s' → J s') {s : S} (hs : J s) {as : List A}
    (h : Along step (fun s a _ => C s a) s as) : Along step (fun _ _ s' => J s') s as :=
  along_of_condition hJ hJ hs h

theorem Along.mono {Q Q' : S → A → S → Prop} (hQ : ∀ s a s', Q s a s' → Q' s a s') {s : S}
    {as : List A} (h : Along step Q s as) : Along step Q' s as := by
  induction as generalizing s with
  | nil => exact trivial
  | cons a as ih =>
    intro s' hstep
    obtain ⟨hq, hrest⟩ := h s' hstep
    exact ⟨hQ s a s' hq, ih hrest⟩

/-- Where the first action leads. -/
theorem along_cons_of_step {Q : S → A → S → Prop} {s s' : S} {a : A} {as : List A}
    (hstep : step s a = some s') :
    Along step Q s (a :: as) ↔ Q s a s' ∧ Along step Q s' as := by
  constructor
  · intro h
    exact h s' hstep
  · rintro h t ht
    obtain rfl := Option.some.inj (hstep.symm.trans ht)
    exact h

/-- A run can be watched: what holds along it is found out by running it. -/
instance decidableAlong {Q : S → A → S → Prop} [∀ s a s', Decidable (Q s a s')] :
    (s : S) → (as : List A) → Decidable (Along step Q s as)
  | _, [] => instDecidableTrue
  | s, a :: as => match h : step s a with
    | none => isTrue fun s' hs' => absurd (hs'.symm.trans h) (Option.some_ne_none s')
    | some s' =>
      have : Decidable (Along step Q s' as) := decidableAlong s' as
      decidable_of_iff (Q s a s' ∧ Along step Q s' as) (along_cons_of_step h).symm

/-- Where every action is enabled, a condition on the actions alone is one on the list. -/
theorem along_forall_iff {C : A → Prop} (htotal : ∀ s a, ∃ s', step s a = some s') (s : S)
    (as : List A) : Along step (fun _ a _ => C a) s as ↔ ∀ a ∈ as, C a := by
  induction as generalizing s with
  | nil => exact iff_of_true trivial (List.forall_mem_nil C)
  | cons a as ih =>
    obtain ⟨s', hstep⟩ := htotal s a
    rw [List.forall_mem_cons, ← ih s']
    constructor
    · intro h
      exact h s' hstep
    · rintro h t ht
      obtain rfl := Option.some.inj (hstep.symm.trans ht)
      exact h

/-! ### History variables -/

section History

variable {H : Type} {update : H → S → A → S → H}

variable (step update) in
/-- The system with a history variable, which every step updates. -/
def withHistory (s : S × H) (a : A) : Option (S × H) :=
  (step s.1 a).map fun s' => (s', update s.2 s.1 a s')

theorem withHistory_eq_some {s s' : S × H} {a : A} :
    withHistory step update s a = some s' ↔
      step s.1 a = some s'.1 ∧ s'.2 = update s.2 s.1 a s'.1 := by
  rw [withHistory, Option.map_eq_some_iff]
  constructor
  · rintro ⟨t, ht, rfl⟩
    exact ⟨ht, rfl⟩
  · rintro ⟨ht, hs'⟩
    exact ⟨s'.1, ht, Prod.ext rfl hs'.symm⟩

/-- What is said of the steps without the variable is said of the system without it. -/
theorem along_withHistory_iff (update : H → S → A → S → H) (x : H) {Q : S → A → S → Prop} {s : S}
    {as : List A} :
    Along (withHistory step update) (fun s a s' => Q s.1 a s'.1) (s, x) as ↔
      Along step Q s as := by
  induction as generalizing s x with
  | nil => exact Iff.rfl
  | cons a as ih =>
    constructor
    · intro h s' hs'
      obtain ⟨hQ, hrest⟩ := h (s', update x s a s') (withHistory_eq_some.mpr ⟨hs', rfl⟩)
      exact ⟨hQ, (ih _).mp hrest⟩
    · rintro h ⟨s', x'⟩ hs'
      obtain ⟨hQ, hrest⟩ := h s' (withHistory_eq_some.mp hs').1
      exact ⟨hQ, (ih _).mpr hrest⟩

end History

end Transition

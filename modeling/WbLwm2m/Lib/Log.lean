import Mathlib.Data.List.Basic

/-!
# Logs, and what can be said about the past

A log is a list of entries, newest first, so that what was there when an entry was made is
its tail. Two ways to speak about one, both of them recursive in the log:

* `Log.Each P log`: each entry had `P` when it was made, of what the log held then;
* `Log.Since Q P log`: some entry has `P`, and since then all have `Q`.

What is established once is kept by whatever is added later, if that does not speak
against it (`Log.Each.append`, `Log.Since.append`).
-/

namespace Log

variable {E : Type}

/-! ### Each entry in its turn -/

/-- Each entry has `P` of what was in the log before it. -/
def Each (P : E → List E → Prop) : List E → Prop
  | [] => True
  | e :: log => P e log ∧ Each P log

section Each

variable {P : E → List E → Prop} {log : List E}

theorem each_append {newer older : List E} (h : Each P (newer ++ older)) : Each P older := by
  induction newer with
  | nil => exact h
  | cons e newer ih => exact ih h.2

/-- What was said of each entry, of one of them. -/
theorem Each.of_append_cons {newer older : List E} {e : E}
    (h : Each P (newer ++ e :: older)) : P e older :=
  (each_append h).1

theorem Each.mono {Q : E → List E → Prop} (h : Each P log) (hPQ : ∀ e log, P e log → Q e log) :
    Each Q log := by
  induction log with
  | nil => exact trivial
  | cons e log ih => exact ⟨hPQ e log h.1, ih h.2⟩

/-- Entries that have `P` wherever they stand can be added. -/
theorem Each.append (h : Each P log) {es : List E} (hes : ∀ e ∈ es, ∀ l, P e l) :
    Each P (es ++ log) := by
  induction es with
  | nil => exact h
  | cons e es ih =>
    exact ⟨hes e List.mem_cons_self _, ih fun e he => hes e (List.mem_cons_of_mem _ he)⟩

end Each

/-! ### Since -/

/-- Some entry has `P`, and all entries since then have `Q`. -/
def Since (Q P : E → Prop) : List E → Prop
  | [] => False
  | e :: log => P e ∨ Q e ∧ Since Q P log

section Since

variable {Q P : E → Prop} {log : List E}

theorem since_iff : Since Q P log ↔
    ∃ newer e older, log = newer ++ e :: older ∧ P e ∧ ∀ n ∈ newer, Q n := by
  induction log with
  | nil => simp [Since]
  | cons e log ih =>
    rw [Since, ih]
    constructor
    · rintro (h | ⟨h, newer, p, older, rfl, hp, hnewer⟩)
      · exact ⟨[], e, log, rfl, h, fun _ hn => absurd hn (by simp)⟩
      · exact ⟨e :: newer, p, older, rfl, hp, List.forall_mem_cons.mpr ⟨h, hnewer⟩⟩
    · rintro ⟨newer, p, older, heq, hp, hnewer⟩
      cases newer with
      | nil =>
        obtain ⟨rfl, rfl⟩ := List.cons_eq_cons.mp heq
        exact Or.inl hp
      | cons n newer =>
        obtain ⟨rfl, rfl⟩ := List.cons_eq_cons.mp heq
        obtain ⟨hn, hnewer⟩ := List.forall_mem_cons.mp hnewer
        exact Or.inr ⟨hn, newer, p, older, rfl, hp, hnewer⟩

theorem Since.append (h : Since Q P log) {es : List E} (hes : ∀ e ∈ es, Q e) :
    Since Q P (es ++ log) := by
  obtain ⟨newer, e, older, rfl, hp, hnewer⟩ := since_iff.mp h
  refine since_iff.mpr ⟨es ++ newer, e, older, (List.append_assoc _ _ _).symm, hp, ?_⟩
  exact List.forall_mem_append.mpr ⟨hes, hnewer⟩

/-- What has held since an entry says less, the less is asked of the others. -/
theorem Since.mono {Q' P' : E → Prop} (h : Since Q P log) (hQ : ∀ e, Q e → Q' e)
    (hP : ∀ e, P e → P' e) : Since Q' P' log := by
  obtain ⟨newer, e, older, hlog, hp, hnewer⟩ := since_iff.mp h
  exact since_iff.mpr ⟨newer, e, older, hlog, hP e hp, fun n hn => hQ n (hnewer n hn)⟩

end Since

end Log

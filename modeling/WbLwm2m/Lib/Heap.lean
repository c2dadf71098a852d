import WbLwm2m.Lib.Log
import Mathlib.Data.List.Nodup

/-!
# Heaps

What a program does with its heap, as a log (newest entry first) of the blocks it is given,
gives back and looks at. A log is sound if it looks at live blocks only and gives back none
but these, so that nothing is used after it has been freed and nothing is freed twice
(`Heap.Sound`).

A program that looks at, or gives back, several blocks in a row is sound exactly if all of
them are live before (`Heap.sound_uses_iff`, `Heap.sound_frees_iff`).
-/

namespace Heap

open Log

/-- What is done with a block. -/
inductive Op (B : Type) where
  | alloc (b : B)
  | free (b : B)
  | use (b : B)

variable {B : Type} [DecidableEq B]

/-- The blocks that have been allocated and not freed since. -/
def live : List (Op B) → List B
  | [] => []
  | .alloc b :: log => b :: live log
  | .free b :: log => (live log).erase b
  | .use _ :: log => live log

/-- What may be done when the log is there: a new block is not live, any other is. -/
def Op.Permitted : Op B → List (Op B) → Prop
  | .alloc b, log => b ∉ live log
  | .free b, log | .use b, log => b ∈ live log

/-- **A sound log.** -/
def Sound (log : List (Op B)) : Prop := Each Op.Permitted log

variable {log : List (Op B)} {b : B} {bs : List B}

@[simp] theorem live_alloc (b : B) (log : List (Op B)) : live (.alloc b :: log) = b :: live log :=
  rfl

@[simp] theorem live_use (b : B) (log : List (Op B)) : live (.use b :: log) = live log := rfl

theorem sound_use_iff : Sound (.use b :: log) ↔ b ∈ live log ∧ Sound log := Iff.rfl

/-! ### Several blocks in a row -/

@[simp] theorem live_uses (bs : List B) (log : List (Op B)) :
    live (bs.map Op.use ++ log) = live log := by
  induction bs with
  | nil => rfl
  | cons b bs ih => exact ih

theorem sound_uses_iff :
    Sound (bs.map Op.use ++ log) ↔ (∀ b ∈ bs, b ∈ live log) ∧ Sound log := by
  induction bs with
  | nil => exact (and_iff_right (List.forall_mem_nil _)).symm
  | cons b bs ih =>
    rw [List.map_cons, List.cons_append, sound_use_iff, live_uses, ih, List.forall_mem_cons,
      and_assoc]

theorem nodup_live_frees (h : (live log).Nodup) : (live (bs.map Op.free ++ log)).Nodup := by
  induction bs with
  | nil => exact h
  | cons b bs ih => exact ih.erase b

/-- What is freed is live no more, and nothing else changes. -/
theorem mem_live_frees_iff (h : (live log).Nodup) {p : B} :
    p ∈ live (bs.map Op.free ++ log) ↔ p ∈ live log ∧ p ∉ bs := by
  induction bs with
  | nil => exact (and_iff_left List.not_mem_nil).symm
  | cons b bs ih =>
    have herase : p ∈ live (.free b :: (bs.map Op.free ++ log)) ↔
        p ≠ b ∧ p ∈ live (bs.map Op.free ++ log) :=
      (nodup_live_frees h).mem_erase_iff
    rw [List.map_cons, List.cons_append, herase, ih, List.mem_cons, not_or]
    exact and_left_comm

theorem sound_frees_iff (h : (live log).Nodup) (hbs : bs.Nodup) :
    Sound (bs.map Op.free ++ log) ↔ (∀ b ∈ bs, b ∈ live log) ∧ Sound log := by
  induction bs with
  | nil => exact (and_iff_right (List.forall_mem_nil _)).symm
  | cons b bs ih =>
    obtain ⟨hb, hrest⟩ := List.nodup_cons.mp hbs
    have hfree : Sound (.free b :: (bs.map Op.free ++ log)) ↔
        b ∈ live (bs.map Op.free ++ log) ∧ Sound (bs.map Op.free ++ log) := Iff.rfl
    rw [List.map_cons, List.cons_append, hfree, mem_live_frees_iff h, and_iff_left hb, ih hrest,
      List.forall_mem_cons, and_assoc]

end Heap

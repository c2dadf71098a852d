import WbLwm2m.Lib.Memory

/-!
# Programs that only write

A program that prints into a buffer need not look at the memory at all: what it writes, and
what it returns, are the same whatever the memory holds. `Memory.Writes a n f` says that of a
program `f`, together with where it writes: nowhere outside the `n` bytes from `a` on.

The bytes it writes are a partial function from addresses to bytes, laid over the memory
(`Memory.overlay`). Programs that only write are closed under sequencing
(`Memory.Writes.bind`), so that the property of a loop follows from that of its body. What it
means is in `Memory.Writes.frame`, `Memory.Writes.result_eq` and `Memory.Writes.byte_eq`.
-/

namespace Memory

variable {α β : Type}

/-- The memory under some bytes. -/
def overlay (p : ℕ → Option UInt8) (m : Mem) : Mem := fun i => (p i).getD (m i)

/-- **A program that only writes**, and only into the `n` bytes from `a` on. -/
def Writes (a n : ℕ) (f : Mem → Mem × α) : Prop :=
  ∃ p r, (∀ i, i < a ∨ a + n ≤ i → p i = none) ∧ ∀ m, f m = (overlay p m, r)

section Meaning

variable {a n : ℕ} {f : Mem → Mem × α} (h : Writes a n f)

include h

/-- Nothing outside the buffer is written. -/
theorem Writes.frame (m : Mem) {i : ℕ} (hi : i < a ∨ a + n ≤ i) : (f m).1 i = m i := by
  obtain ⟨p, r, hp, hf⟩ := h
  rw [hf]
  show (p i).getD (m i) = m i
  rw [hp i hi, Option.getD_none]

/-- The result does not depend on the memory. -/
theorem Writes.result_eq (m m' : Mem) : (f m).2 = (f m').2 := by
  obtain ⟨p, r, -, hf⟩ := h
  rw [hf, hf]

/-- A byte is written, with the same value whatever the memory holds, or it is left alone. -/
theorem Writes.byte_eq (i : ℕ) : (∃ b, ∀ m, (f m).1 i = b) ∨ ∀ m, (f m).1 i = m i := by
  obtain ⟨p, r, -, hf⟩ := h
  rcases hi : p i with _ | b
  · refine Or.inr fun m => ?_
    rw [hf]
    show (p i).getD (m i) = m i
    rw [hi, Option.getD_none]
  · refine Or.inl ⟨b, fun m => ?_⟩
    rw [hf]
    show (p i).getD (m i) = b
    rw [hi, Option.getD_some]

end Meaning

/-! ### The rules -/

theorem Writes.pure (a n : ℕ) (r : α) : Writes a n fun m => (m, r) :=
  ⟨fun _ => none, r, fun _ _ => rfl, fun _ => rfl⟩

theorem Writes.congr {a n : ℕ} {f f' : Mem → Mem × α} (h : Writes a n f)
    (heq : ∀ m, f' m = f m) : Writes a n f' := funext heq ▸ h

/-- What is left of a buffer is a part of it, also when nothing is. -/
theorem Writes.of_offset {a n k : ℕ} {f : Mem → Mem × α} (h : Writes (a + k) (n - k) f) :
    Writes a n f := by
  obtain ⟨p, r, hp, hf⟩ := h
  exact ⟨p, r, fun i hi => hp i (by omega), hf⟩

/-- **One program after another**, which may look at what the first has returned. -/
theorem Writes.bind {a n : ℕ} {f : Mem → Mem × α} {g : α → Mem → Mem × β} (hf : Writes a n f)
    (hg : ∀ r, Writes a n (g r)) : Writes a n fun m => g (f m).2 (f m).1 := by
  obtain ⟨p, r, hp, hf⟩ := hf
  obtain ⟨q, s, hq, hg⟩ := hg r
  refine ⟨fun i => (q i).or (p i), s, fun i hi => ?_, fun m => ?_⟩
  · show (q i).or (p i) = none
    rw [hp i hi, hq i hi]
    rfl
  · show g (f m).2 (f m).1 = _
    rw [hf, hg]
    refine congrArg (Prod.mk · s) (funext fun i => ?_)
    show (q i).getD ((p i).getD (m i)) = ((q i).or (p i)).getD (m i)
    rcases q i with _ | b
    · rfl
    · rfl

/-- Go on with what a program has returned, unless it has failed. -/
def next (r : Mem × Option α) (fail : β) (g : α → Mem → Mem × β) : Mem × β :=
  r.2.elim (r.1, fail) fun x => g x r.1

/-- **One program after another**, which is not run when the first has failed. -/
theorem Writes.next {a n : ℕ} {f : Mem → Mem × Option α} {g : α → Mem → Mem × β}
    (hf : Writes a n f) (fail : β) (hg : ∀ x, Writes a n (g x)) :
    Writes a n fun m => Memory.next (f m) fail g := by
  refine hf.bind (g := fun o m => o.elim (m, fail) fun x => g x m) fun o => ?_
  rcases o with _ | x
  · exact Writes.pure a n fail
  · exact hg x

/-- Bytes that fit. -/
theorem Writes.store {a n d : ℕ} {bs : List UInt8} (ha : a ≤ d) (hn : d + bs.length ≤ a + n)
    (r : α) : Writes a n fun m => (Memory.store m d bs, r) := by
  refine ⟨fun i => if i < d then none else bs[i - d]?, r, fun i hi => ?_, fun m => ?_⟩
  · by_cases hlt : i < d
    · exact if_pos hlt
    · simp only [if_neg hlt]
      exact List.getElem?_eq_none (by omega)
  · refine congrArg (Prod.mk · r) (funext fun i => ?_)
    show Memory.store m d bs i = (if i < d then none else bs[i - d]?).getD (m i)
    rw [Memory.store]
    split
    · rfl
    · rfl

/-- **A print** into what is left of the buffer: nothing, if nothing is. -/
theorem Writes.snprintf (a n k : ℕ) (text : List UInt8) :
    Writes a n fun m => Memory.snprintf m (a + k) (n - k) text := by
  refine Writes.of_offset (k := k) ?_
  by_cases hsize : n - k = 0
  · have hskip : (fun m => Memory.snprintf m (a + k) (n - k) text) = fun m => (m, text.length) := by
      funext m
      rw [Memory.snprintf, if_pos hsize]
    rw [hskip]
    exact Writes.pure _ _ _
  · have hprint : (fun m => Memory.snprintf m (a + k) (n - k) text) =
        fun m => (Memory.store m (a + k) (text.take (n - k - 1) ++ [0]), text.length) := by
      funext m
      rw [Memory.snprintf, if_neg hsize]
    rw [hprint]
    refine Writes.store le_rfl ?_ _
    rw [List.length_append, List.length_take, List.length_singleton]
    omega

end Memory

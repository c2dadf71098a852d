import Mathlib.Data.List.Basic
import Mathlib.Data.List.Range
import Mathlib.Data.Nat.Basic

/-!
# A byte memory, and what a C program does to it

A memory is a total function from addresses to bytes. A buffer is then an address
and a size that the *program* keeps: nothing in the memory stops a write past the
end, so that “nothing else is written” is a statement about
`Memory.store` and not an artefact of the model.

* `Memory.load m a n` reads the `n` bytes from `a` on;
* `Memory.store m a bs` writes the bytes `bs` from `a` on – the effect of
  consecutive assignments `p[i++] = b`, or of one `memcpy`;
* `Memory.snprintf m a size text` prints `text` into a buffer of `size` bytes:
  what does not fit is cut, a terminator is always written when there is any
  room, and the length of the *whole* text is returned.

Two stores that touch compose (`Memory.store_store`), a load of what has just been
stored gives it back (`Memory.load_store`), and everything outside is framed
(`Memory.store_of_lt`, `Memory.store_of_ge`).
-/

namespace Memory

/-- A byte memory: the byte held at each address. -/
abbrev Mem := ℕ → UInt8

/-- The `n` bytes from address `a` on. -/
def load (m : Mem) (a n : ℕ) : List UInt8 := (List.range n).map fun i => m (a + i)

/-- The memory after writing `bs` from address `a` on. -/
def store (m : Mem) (a : ℕ) (bs : List UInt8) : Mem := fun i =>
  if i < a then m i else (bs[i - a]?).getD (m i)

/-! ### Loads -/

@[simp] theorem length_load (m : Mem) (a n : ℕ) : (load m a n).length = n := by
  simp [load]

@[simp] theorem load_zero (m : Mem) (a : ℕ) : load m a 0 = [] := rfl

theorem load_succ (m : Mem) (a n : ℕ) : load m a (n + 1) = m a :: load m (a + 1) n := by
  simp only [load, List.range_succ_eq_map, List.map_cons, List.map_map, Nat.add_zero]
  refine congrArg _ (List.map_congr_left fun i _ => ?_)
  simp only [Function.comp, Nat.succ_eq_add_one]
  congr 1
  omega

/-- A load splits at any point. -/
theorem load_add (m : Mem) (a k n : ℕ) : load m a (k + n) = load m a k ++ load m (a + k) n := by
  induction k generalizing a with
  | zero => simp
  | succ k ih =>
    rw [Nat.add_right_comm, load_succ, ih, load_succ, List.cons_append]
    congr 3
    omega

/-- The bytes found at an address, one and the rest. -/
theorem load_eq_cons {m : Mem} {a : ℕ} {b : UInt8} {bs : List UInt8} :
    load m a (b :: bs).length = b :: bs ↔ m a = b ∧ load m (a + 1) bs.length = bs := by
  rw [List.length_cons, load_succ, List.cons_eq_cons]

/-- The bytes found at an address, in two parts. -/
theorem load_eq_append {m : Mem} {a : ℕ} {bs cs : List UInt8} :
    load m a (bs ++ cs).length = bs ++ cs ↔
      load m a bs.length = bs ∧ load m (a + bs.length) cs.length = cs := by
  rw [List.length_append, load_add]
  constructor
  · intro h
    exact List.append_inj h (length_load m a bs.length)
  · rintro ⟨h, h'⟩
    rw [h, h']

/-- Two loads agree when the bytes do. -/
theorem load_eq_load {m m' : Mem} {a a' n : ℕ} :
    load m' a' n = load m a n ↔ ∀ i < n, m' (a' + i) = m (a + i) := by
  rw [load, load, List.map_inj_left]
  exact forall_congr' fun i => imp_congr_left List.mem_range

/-- A byte of a load. -/
theorem getElem?_load (m : Mem) (a : ℕ) {i n : ℕ} (h : i < n) :
    (load m a n)[i]? = some (m (a + i)) := by
  rw [load, List.getElem?_map, List.getElem?_range h, Option.map_some]

/-! ### Stores -/

@[simp] theorem store_nil (m : Mem) (a : ℕ) : store m a [] = m := by
  funext i
  simp [store]

/-- A store leaves what is below it alone. -/
theorem store_of_lt (m : Mem) {a i : ℕ} (bs : List UInt8) (h : i < a) : store m a bs i = m i := by
  rw [store, if_pos h]

/-- A store leaves what is above it alone. -/
theorem store_of_ge (m : Mem) {a i : ℕ} {bs : List UInt8} (h : a + bs.length ≤ i) :
    store m a bs i = m i := by
  rw [store]
  split
  · rfl
  · rw [List.getElem?_eq_none (by omega), Option.getD_none]

/-- A store holds what was stored. -/
theorem store_add (m : Mem) (a : ℕ) {bs : List UInt8} {i : ℕ} (h : i < bs.length) :
    store m a bs (a + i) = bs[i] := by
  rw [store, if_neg (by omega), Nat.add_sub_cancel_left, List.getElem?_eq_getElem h,
    Option.getD_some]

/-- **Two stores that touch are one store.** -/
theorem store_store (m : Mem) (a : ℕ) (bs cs : List UInt8) :
    store (store m a bs) (a + bs.length) cs = store m a (bs ++ cs) := by
  funext i
  rcases Nat.lt_or_ge i (a + bs.length) with h | h
  · rw [store_of_lt _ _ h]
    rcases Nat.lt_or_ge i a with h' | h'
    · rw [store_of_lt _ _ h', store_of_lt _ _ h']
    · obtain ⟨k, rfl⟩ := Nat.exists_eq_add_of_le h'
      have hk : k < bs.length := by omega
      rw [store_add m a hk, store_add m a (by rw [List.length_append]; omega),
        List.getElem_append_left hk]
  · obtain ⟨k, rfl⟩ := Nat.exists_eq_add_of_le h
    rcases Nat.lt_or_ge k cs.length with h' | h'
    · rw [store_add _ _ h', Nat.add_assoc,
        store_add m a (i := bs.length + k) (by rw [List.length_append]; omega),
        List.getElem_append_right (by omega)]
      simp
    · rw [store_of_ge _ (by omega), store_of_ge _ (by omega),
        store_of_ge _ (by rw [List.length_append]; omega)]

/-- A store at the same place overwrites a shorter one. -/
theorem store_store_of_length_le (m : Mem) (a : ℕ) {bs cs : List UInt8}
    (h : bs.length ≤ cs.length) : store (store m a bs) a cs = store m a cs := by
  funext i
  rcases Nat.lt_or_ge i a with h' | h'
  · rw [store_of_lt _ _ h', store_of_lt _ _ h', store_of_lt _ _ h']
  · obtain ⟨k, rfl⟩ := Nat.exists_eq_add_of_le h'
    rcases Nat.lt_or_ge k cs.length with hk | hk
    · rw [store_add _ _ hk, store_add _ _ hk]
    · rw [store_of_ge _ (by omega), store_of_ge _ (by omega), store_of_ge _ (by omega)]

/-- A store that starts inside another one overwrites its tail. -/
theorem store_append_store (m : Mem) (a : ℕ) (bs : List UInt8) {zs cs : List UInt8}
    (h : zs.length ≤ cs.length) :
    store (store m a (bs ++ zs)) (a + bs.length) cs = store m a (bs ++ cs) := by
  rw [← store_store, store_store_of_length_le _ _ h, store_store]

/-- **What was stored is loaded.** -/
@[simp] theorem load_store (m : Mem) (a : ℕ) (bs : List UInt8) :
    load (store m a bs) a bs.length = bs := by
  refine List.ext_getElem (length_load _ _ _) fun i _ h => ?_
  simp only [load, List.getElem_map, List.getElem_range]
  exact store_add m a h

/-- A load of the first bytes of a store. -/
theorem load_store_append (m : Mem) (a : ℕ) (bs cs : List UInt8) :
    load (store m a (bs ++ cs)) a bs.length = bs := by
  refine List.ext_getElem (length_load _ _ _) fun i _ h => ?_
  simp only [load, List.getElem_map, List.getElem_range]
  rw [store_add m a (by rw [List.length_append]; omega), List.getElem_append_left h]

/-! ### Printing into a bounded buffer -/

/-- Print `text` into the buffer of `size` bytes at `dst`: at most `size - 1`
bytes of it and a terminator. The second component is the value returned, the
length of the whole text. -/
def snprintf (m : Mem) (dst size : ℕ) (text : List UInt8) : Mem × ℕ :=
  if size = 0 then (m, text.length) else (store m dst (text.take (size - 1) ++ [0]), text.length)

@[simp] theorem snprintf_snd (m : Mem) (dst size : ℕ) (text : List UInt8) :
    (snprintf m dst size text).2 = text.length := by
  rw [snprintf]
  split <;> rfl

/-- A text that fits is printed whole, with its terminator. -/
theorem snprintf_fst_of_lt (m : Mem) {dst size : ℕ} {text : List UInt8} (h : text.length < size) :
    (snprintf m dst size text).1 = store m dst (text ++ [0]) := by
  rw [snprintf, if_neg (by omega), List.take_of_length_le (by omega)]

/-- **Printing behind what has been written** extends it, when the text fits: the
terminator `z` of the last print, if any, is overwritten, and a new one follows. -/
theorem snprintf_store_append (m : Mem) (a : ℕ) {acc z text : List UInt8} {size : ℕ}
    (hz : z.length ≤ 1) (h : acc.length + text.length < size) :
    snprintf (store m a (acc ++ z)) (a + acc.length) (size - acc.length) text =
      (store m a (acc ++ text ++ [0]), text.length) := by
  refine Prod.ext ?_ (snprintf_snd _ _ _ _)
  rw [snprintf_fst_of_lt _ (by omega), store_append_store, List.append_assoc]
  rw [List.length_append, List.length_singleton]
  omega

end Memory

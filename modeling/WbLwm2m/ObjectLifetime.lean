import WbLwm2m.Lib.Heap
import WbLwm2m.ObjectTable
import WbLwm2m.StdObjects

/-!
# The lifetime of the standard objects

A factory allocates an object and, for three of the standard objects, a block its callbacks are
called with; `wb_lwm2m_destroy_std_object` gives both back. The client keeps pointers to the
objects it is given, and looks at them when it registers and when it notifies. Nothing in the
code counts references: an object is to be destroyed once, and, as the header says, after the
client.

A program (`WbLwm2m.Program`) makes objects, gives them to the client, lets the client do
whatever it can do, and destroys objects, in any order. In every run each object is in blocks of
its own, which are live until it is destroyed, and nothing else is live
(`WbLwm2m.Program.Accounted`). The rule of the header is what it takes, and no more
(`WbLwm2m.objects_outlive_client_iff`): the heap is used soundly, and the client has no pointer
to what has been freed, exactly if no object is destroyed twice, or while a client has it, or
given to a client after it has been destroyed.
-/

namespace WbLwm2m

open Heap Transition World

/-! ### The heap -/

/-- **A pointer**: `NULL`, one of the application's, or to a block of the heap. -/
inductive Ptr (κ : Type) where
  | null
  | app (p : κ)
  | block (b : ℕ)
deriving DecidableEq

/-- The heap: the number of the next block, and what has been done. -/
structure Allocator (κ : Type) where
  next : ℕ
  log : List (Op (Ptr κ))

namespace Allocator

variable {κ : Type} [DecidableEq κ]

/-- `calloc`; `ok` says whether it answers a block. -/
def calloc (h : Allocator κ) (ok : Bool) : Ptr κ × Allocator κ :=
  if ok then (.block h.next, ⟨h.next + 1, .alloc (.block h.next) :: h.log⟩) else (.null, h)

/-- `free` -/
def free (h : Allocator κ) (p : Ptr κ) : Allocator κ :=
  if p = .null then h else { h with log := .free p :: h.log }

/-- Blocks are looked at. -/
def uses (h : Allocator κ) (ps : List (Ptr κ)) : Allocator κ :=
  { h with log := ps.map Op.use ++ h.log }

end Allocator

/-! ### Making and destroying -/

section Held

variable {σ κ : Type} [DecidableEq κ]

/-- **An object the application holds**: the pointer to it, the context pointer in it, and
what is in it otherwise. -/
structure Held (σ κ : Type) where
  ptr : Ptr κ
  userCtx : Ptr κ
  obj : ObjectDef σ (CtxPtr κ)

/-- An object and its context, where the factory allocates one. -/
def allocWithCtx (h : Allocator κ) (objOk ctxOk : Bool) : Option (Ptr κ × Ptr κ) × Allocator κ :=
  match h.calloc objOk with
  | (.null, h) => (none, h)
  | (obj, h) => match h.calloc ctxOk with
    | (.null, h) => (none, h.free obj)
    | (ctx, h) => (some (obj, ctx), h)

/-- An object with the context of the application. -/
def allocPlain (h : Allocator κ) (objOk : Bool) (userCtx : κ) :
    Option (Ptr κ × Ptr κ) × Allocator κ :=
  match h.calloc objOk with
  | (.null, h) => (none, h)
  | (obj, h) => (some (obj, .app userCtx), h)

/-- What the factory allocates. -/
def StdObject.allocate (h : Allocator κ) (objOk ctxOk : Bool) :
    StdObject σ κ → Option (Ptr κ × Ptr κ) × Allocator κ
  | .security _ _ | .server _ _ _ _ _ | .device _ _ => allocWithCtx h objOk ctxOk
  -- these two look at the callback first
  | .connMon none _ | .location none _ => (none, h)
  | .connMon (some _) userCtx | .location (some _) userCtx | .firmware _ userCtx
  | .connStats _ _ _ userCtx => allocPlain h objOk userCtx

/-- **A call of a factory**: the object, if memory does not run out. -/
def StdObject.make (env : DeviceEnv σ) (f : StdObject σ κ) (h : Allocator κ) (objOk ctxOk : Bool) :
    Option (Held σ κ) × Allocator κ :=
  match f.create env, f.allocate h objOk ctxOk with
  | some obj, (some (ptr, userCtx), h) => (some ⟨ptr, userCtx, obj⟩, h)
  | _, (_, h) => (none, h)

/-- The context is freed with the object. -/
def Held.ownsCtx (x : Held σ κ) : Bool :=
  x.userCtx ≠ .null && (x.obj.id = 0 || x.obj.id = 1 || x.obj.id = 3)

/-- `wb_lwm2m_destroy_std_object`, of a pointer that is not `NULL` -/
def destroyStdObject (h : Allocator κ) (x : Held σ κ) : Allocator κ :=
  let h := h.uses [x.ptr]
  let h := if x.ownsCtx then h.free x.userCtx else h
  h.free x.ptr

/-- The blocks of an object. -/
def Held.blocks (x : Held σ κ) : List (Ptr κ) := x.ptr :: if x.ownsCtx then [x.userCtx] else []

end Held

/-! ### What a factory obtains -/

section Obtains

variable {σ κ : Type} [DecidableEq κ] {h h' h'' : Allocator κ} {bs bs' : List (Ptr κ)}

/-- No block to come is live. -/
def Allocator.Fresh (h : Allocator κ) : Prop := ∀ b, h.next ≤ b → Ptr.block b ∉ live h.log

/-- **Blocks have been obtained**, and nothing else has changed. -/
structure Obtains (h : Allocator κ) (bs : List (Ptr κ)) (h' : Allocator κ) : Prop where
  live_eq : live h'.log = bs.reverse ++ live h.log
  next_le : h.next ≤ h'.next
  block : ∀ p ∈ bs, ∃ b, h.next ≤ b ∧ b < h'.next ∧ p = .block b
  nodup : bs.Nodup
  sound_iff : h.Fresh → (Sound h'.log ↔ Sound h.log)

theorem Obtains.nothing (h : Allocator κ) : Obtains h [] h :=
  ⟨rfl, le_rfl, List.forall_mem_nil _, List.nodup_nil, fun _ => Iff.rfl⟩

theorem Obtains.calloc (h : Allocator κ) : Obtains h [.block h.next] (h.calloc true).2 where
  live_eq := rfl
  next_le := Nat.le_succ _
  block _ hp := ⟨h.next, le_rfl, Nat.lt_succ_self _, List.mem_singleton.mp hp⟩
  nodup := List.nodup_singleton _
  sound_iff hfresh := and_iff_right (hfresh h.next le_rfl)

theorem Obtains.fresh (hob : Obtains h bs h') (hfresh : h.Fresh) : h'.Fresh := by
  intro b hb hmem
  rw [hob.live_eq, List.mem_append, List.mem_reverse] at hmem
  rcases hmem with hmem | hmem
  · obtain ⟨b', -, hlt, heq⟩ := hob.block _ hmem
    obtain rfl := Ptr.block.inj heq
    omega
  · exact hfresh b (hob.next_le.trans hb) hmem

theorem Obtains.trans (hob : Obtains h bs h') (hob' : Obtains h' bs' h'') :
    Obtains h (bs ++ bs') h'' where
  live_eq := by rw [hob'.live_eq, hob.live_eq, List.reverse_append, List.append_assoc]
  next_le := hob.next_le.trans hob'.next_le
  block p hp := by
    rcases List.mem_append.mp hp with hp | hp
    · obtain ⟨b, hle, hlt, heq⟩ := hob.block p hp
      exact ⟨b, hle, hlt.trans_le hob'.next_le, heq⟩
    · obtain ⟨b, hle, hlt, heq⟩ := hob'.block p hp
      exact ⟨b, hob.next_le.trans hle, hlt, heq⟩
  nodup := by
    refine hob.nodup.append hob'.nodup fun p hp hp' => ?_
    obtain ⟨b, -, hlt, rfl⟩ := hob.block p hp
    obtain ⟨b', hle, -, heq⟩ := hob'.block _ hp'
    obtain rfl := Ptr.block.inj heq
    omega
  sound_iff hfresh := (hob'.sound_iff (hob.fresh hfresh)).trans (hob.sound_iff hfresh)

/-- A block that is given back at once. -/
theorem Obtains.released (h : Allocator κ) :
    Obtains h [] ((h.calloc true).2.free (.block h.next)) where
  live_eq := List.erase_cons_head _ _
  next_le := Nat.le_succ _
  block := List.forall_mem_nil _
  nodup := List.nodup_nil
  sound_iff hfresh := (and_iff_right List.mem_cons_self).trans ((Obtains.calloc h).sound_iff hfresh)

/-- **What a factory obtains**: the blocks of the object it makes, or nothing. -/
theorem obtains_make (env : DeviceEnv σ) (f : StdObject σ κ) (h : Allocator κ)
    (objOk ctxOk : Bool) :
    Obtains h ((f.make env h objOk ctxOk).1.elim [] Held.blocks) (f.make env h objOk ctxOk).2 := by
  have hpair := (Obtains.calloc h).trans (Obtains.calloc (h.calloc true).2)
  cases f with
  | security | server | device =>
    cases objOk with
    | false => exact Obtains.nothing h
    | true => cases ctxOk with
      | false => exact Obtains.released h
      | true => exact hpair
  | connMon readCb | location readCb =>
    cases readCb with
    | none => exact Obtains.nothing h
    | some => cases objOk with
      | false => exact Obtains.nothing h
      | true => exact Obtains.calloc h
  | firmware | connStats =>
    cases objOk with
    | false => exact Obtains.nothing h
    | true => exact Obtains.calloc h

end Obtains

/-! ### Programs -/

section Program

variable {σ κ ψ : Type} [DecidableEq κ]

/-- **A program**: its client, its heap, the objects it holds, those of them the client has
pointers to, and the pointers to those it has destroyed. -/
structure Program (σ κ ψ : Type) where
  world : World σ (CtxPtr κ) ψ
  heap : Allocator κ
  held : List (Held σ κ)
  table : List (Held σ κ)
  destroyed : List (Ptr κ)

/-- What a program does, with the answers of the allocator; objects are given by their place
among those it holds. -/
inductive Call (σ κ : Type) where
  | make (f : StdObject σ κ) (objOk ctxOk : Bool)
  | add (i : ℕ)
  | destroyObject (i : ℕ)
  /-- Anything else that happens to the client. -/
  | client (a : Action σ (CtxPtr κ))

/-- The steps in which the client looks at its objects: it registers, or notifies. -/
def Action.looks (w : World σ κ ψ) : Action σ κ → Bool
  | .event .connected _ _ => true
  | .event (.response (some resp)) _ _ => w.client.state = .updating && resp.code ≠ .changed
  | .notify _ _ _ _ _ => w.client.state = .registered
  | _ => false

/-- The client as it has been made, and an empty heap. -/
def Program.start (c : Client σ (CtxPtr κ) ψ) : Program σ κ ψ :=
  ⟨World.initial c, ⟨0, []⟩, [], [], []⟩

/-- **A step of a program.** -/
def Program.step (fp : FloatOps) (env : DeviceEnv σ) (s : Program σ κ ψ) :
    Call σ κ → Option (Program σ κ ψ)
  | .make f objOk ctxOk => match f.make env s.heap objOk ctxOk with
    | (some x, heap) => some { s with heap, held := s.held ++ [x] }
    | (none, heap) => some { s with heap }
  | .add i => match s.held[i]? with
    | none => none
    | some x => match WbLwm2m.step fp s.world (.addObject x.obj) with
      | none => none
      | some world =>
        -- a client that refuses an object does not look at it
        if (s.world.addObject x.obj).1 = .ok then
          some { s with world, heap := s.heap.uses [x.ptr], table := s.table ++ [x] }
        else some { s with world }
  | .destroyObject i => match s.held[i]? with
    | none => none
    | some x => some { s with
        heap := destroyStdObject s.heap x
        destroyed := x.ptr :: s.destroyed }
  | .client (.addObject _) => none
  | .client a => match WbLwm2m.step fp s.world a with
    | none => none
    | some world => some { s with
        world
        -- any of the objects may be looked at, and what they point to
        heap := s.heap.uses (if a.looks s.world then s.table.flatMap Held.blocks else []) }

/-! ### Accounting -/

/-- **The heap holds what has not been destroyed**: each object in blocks of its own, all of
them live until it is destroyed, and nothing else. -/
structure Program.Accounted (s : Program σ κ ψ) : Prop where
  fresh : ∀ x ∈ s.held, ∀ p ∈ x.blocks, ∃ b < s.heap.next, p = .block b
  apart : (s.held.flatMap Held.blocks).Nodup
  live_iff : ∀ p, p ∈ live s.heap.log ↔ ∃ x ∈ s.held, x.ptr ∉ s.destroyed ∧ p ∈ x.blocks
  once : (live s.heap.log).Nodup
  table : ∀ x ∈ s.table, x ∈ s.held
  gone : ∀ p ∈ s.destroyed, ∃ x ∈ s.held, x.ptr = p
  objects : s.world.client.objects = s.table.map Held.obj

variable {fp : FloatOps} {env : DeviceEnv σ} {s s' : Program σ κ ψ} {x y : Held σ κ}

theorem Held.ptr_mem_blocks (x : Held σ κ) : x.ptr ∈ x.blocks := List.mem_cons_self

namespace Program.Accounted

variable (h : s.Accounted)
include h

/-- A block belongs to one object. -/
theorem eq_of_mem (hx : x ∈ s.held) (hy : y ∈ s.held) {p : Ptr κ} (hpx : p ∈ x.blocks)
    (hpy : p ∈ y.blocks) : x = y := by
  by_contra hne
  have hsymm : Std.Symm (Function.onFun List.Disjoint (Held.blocks (σ := σ) (κ := κ))) :=
    ⟨fun _ _ hab => hab.symm⟩
  exact (List.nodup_flatMap.mp h.apart).2.forall hx hy hne hpx hpy

theorem nodup_blocks (hx : x ∈ s.held) : x.blocks.Nodup := (List.nodup_flatMap.mp h.apart).1 x hx

/-- The blocks of an object are live until it is destroyed. -/
theorem mem_live_iff (hx : x ∈ s.held) {p : Ptr κ} (hp : p ∈ x.blocks) :
    p ∈ live s.heap.log ↔ x.ptr ∉ s.destroyed := by
  rw [h.live_iff]
  constructor
  · rintro ⟨y, hy, hlive, hpy⟩
    rwa [h.eq_of_mem hx hy hp hpy]
  · intro hlive
    exact ⟨x, hx, hlive, hp⟩

theorem fresh_heap : s.heap.Fresh := by
  intro b hb hmem
  obtain ⟨x, hx, -, hp⟩ := (h.live_iff _).mp hmem
  obtain ⟨b', hlt, heq⟩ := h.fresh x hx _ hp
  obtain rfl := Ptr.block.inj heq
  omega

end Program.Accounted

theorem Program.accounted_start {c : Client σ (CtxPtr κ) ψ} (hc : c.objects = []) :
    (Program.start c).Accounted where
  fresh := List.forall_mem_nil _
  apart := List.nodup_nil
  live_iff _ := ⟨fun h => absurd h List.not_mem_nil, fun ⟨_, h, _⟩ => absurd h List.not_mem_nil⟩
  once := List.nodup_nil
  table := List.forall_mem_nil _
  gone := List.forall_mem_nil _
  objects := hc

/-- A factory that makes nothing changes nothing that counts. -/
theorem Program.Accounted.made_none (h : s.Accounted) {heap : Allocator κ}
    (hob : Obtains s.heap [] heap) : { s with heap }.Accounted where
  fresh x hx p hp := by
    obtain ⟨b, hlt, heq⟩ := h.fresh x hx p hp
    exact ⟨b, hlt.trans_le hob.next_le, heq⟩
  apart := h.apart
  live_iff p := by
    rw [hob.live_eq]
    exact h.live_iff p
  once := by
    rw [hob.live_eq]
    exact h.once
  table := h.table
  gone := h.gone
  objects := h.objects

/-- The blocks of a new object are live, and of no other. -/
theorem Program.Accounted.made_some (h : s.Accounted) {heap : Allocator κ}
    (hob : Obtains s.heap x.blocks heap) :
    { s with heap, held := s.held ++ [x] }.Accounted := by
  have hnew : ∀ y ∈ s.held, ∀ p ∈ y.blocks, p ∉ x.blocks := by
    intro y hy p hp hpx
    obtain ⟨b, hlt, rfl⟩ := h.fresh y hy p hp
    obtain ⟨b', hle, -, heq⟩ := hob.block _ hpx
    obtain rfl := Ptr.block.inj heq
    omega
  have hthere : x.ptr ∉ s.destroyed := by
    intro hmem
    obtain ⟨y, hy, heq⟩ := h.gone _ hmem
    exact hnew y hy _ y.ptr_mem_blocks (heq ▸ x.ptr_mem_blocks)
  refine ⟨fun y hy p hp => ?_, ?_, fun p => ?_, ?_, fun y hy => ?_, fun p hp => ?_, h.objects⟩
  · rcases List.mem_append.mp hy with hy | hy
    · obtain ⟨b, hlt, heq⟩ := h.fresh y hy p hp
      exact ⟨b, hlt.trans_le hob.next_le, heq⟩
    · obtain rfl := List.mem_singleton.mp hy
      obtain ⟨b, -, hlt, heq⟩ := hob.block p hp
      exact ⟨b, hlt, heq⟩
  · rw [List.flatMap_append, List.flatMap_singleton]
    refine h.apart.append hob.nodup fun p hp hpx => ?_
    obtain ⟨y, hy, hpy⟩ := List.mem_flatMap.mp hp
    exact hnew y hy p hpy hpx
  · rw [hob.live_eq, List.mem_append, List.mem_reverse, h.live_iff]
    constructor
    · rintro (hp | ⟨y, hy, hlive, hp⟩)
      · exact ⟨x, List.mem_append_right _ (List.mem_singleton_self x), hthere, hp⟩
      · exact ⟨y, List.mem_append_left _ hy, hlive, hp⟩
    · rintro ⟨y, hy, hlive, hp⟩
      rcases List.mem_append.mp hy with hy | hy
      · exact Or.inr ⟨y, hy, hlive, hp⟩
      · obtain rfl := List.mem_singleton.mp hy
        exact Or.inl hp
  · rw [hob.live_eq]
    refine (List.nodup_reverse.mpr hob.nodup).append h.once fun p hpx hp => ?_
    obtain ⟨y, hy, -, hpy⟩ := (h.live_iff p).mp hp
    exact hnew y hy p hpy (List.mem_reverse.mp hpx)
  · exact List.mem_append_left _ (h.table y hy)
  · obtain ⟨y, hy, heq⟩ := h.gone p hp
    exact ⟨y, List.mem_append_left _ hy, heq⟩

/-- What the heap is used for while no block is obtained or freed does not count. -/
theorem Program.Accounted.used (h : s.Accounted) (ps : List (Ptr κ))
    {world : World σ (CtxPtr κ) ψ} {table : List (Held σ κ)} (htable : ∀ x ∈ table, x ∈ s.held)
    (hobjects : world.client.objects = table.map Held.obj) :
    { s with world, heap := s.heap.uses ps, table }.Accounted where
  fresh := h.fresh
  apart := h.apart
  live_iff p := by
    rw [Allocator.uses, live_uses]
    exact h.live_iff p
  once := by
    rw [Allocator.uses, live_uses]
    exact h.once
  table := htable
  gone := h.gone
  objects := hobjects

/-! ### Destroying -/

/-- What `wb_lwm2m_destroy_std_object` does: it looks at the object and frees its blocks. -/
theorem log_destroyStdObject (heap : Allocator κ) (hptr : x.ptr ≠ .null) :
    (destroyStdObject heap x).log = x.blocks.map Op.free ++ .use x.ptr :: heap.log := by
  by_cases hown : x.ownsCtx
  · have hctx : x.userCtx ≠ .null := by
      intro hnull
      simp [Held.ownsCtx, hnull] at hown
    simp only [destroyStdObject, Held.blocks, hown, if_true, Allocator.free, if_neg hctx,
      if_neg hptr]
    rfl
  · simp only [destroyStdObject, Held.blocks, hown, Allocator.free, if_neg hptr]
    rfl

theorem next_destroyStdObject (heap : Allocator κ) :
    (destroyStdObject heap x).next = heap.next := by
  simp only [destroyStdObject, Allocator.free]
  split_ifs <;> rfl

theorem Program.Accounted.ptr_ne_null (h : s.Accounted) (hx : x ∈ s.held) : x.ptr ≠ .null := by
  obtain ⟨b, -, heq⟩ := h.fresh x hx _ x.ptr_mem_blocks
  rw [heq]
  exact fun hnull => nomatch hnull

theorem Program.Accounted.destroy (h : s.Accounted) (hx : x ∈ s.held) :
    { s with
      heap := destroyStdObject s.heap x
      destroyed := x.ptr :: s.destroyed }.Accounted where
  fresh := by
    rw [next_destroyStdObject]
    exact h.fresh
  apart := h.apart
  live_iff p := by
    have honce : (live (.use x.ptr :: s.heap.log)).Nodup := h.once
    rw [log_destroyStdObject _ (h.ptr_ne_null hx), mem_live_frees_iff honce, live_use, h.live_iff]
    constructor
    · rintro ⟨⟨y, hy, hlive, hp⟩, hpx⟩
      refine ⟨y, hy, fun hmem => ?_, hp⟩
      rcases List.mem_cons.mp hmem with heq | hmem
      · obtain rfl := h.eq_of_mem hx hy x.ptr_mem_blocks (heq ▸ y.ptr_mem_blocks)
        exact hpx hp
      · exact hlive hmem
    · rintro ⟨y, hy, hlive, hp⟩
      rw [List.mem_cons, not_or] at hlive
      refine ⟨⟨y, hy, hlive.2, hp⟩, fun hpx => ?_⟩
      obtain rfl := h.eq_of_mem hx hy hpx hp
      exact hlive.1 rfl
  once := by
    rw [log_destroyStdObject _ (h.ptr_ne_null hx)]
    exact nodup_live_frees (show (live (.use x.ptr :: s.heap.log)).Nodup from h.once)
  table := h.table
  gone p hp := by
    rcases List.mem_cons.mp hp with rfl | hp
    · exact ⟨x, hx, rfl⟩
    · exact h.gone p hp
  objects := h.objects

/-- **A sound destruction** is the first one. -/
theorem Program.Accounted.sound_destroy_iff (h : s.Accounted) (hx : x ∈ s.held) :
    Heap.Sound (destroyStdObject s.heap x).log ↔ x.ptr ∉ s.destroyed ∧ Heap.Sound s.heap.log := by
  have hblocks : (∀ p ∈ x.blocks, p ∈ live s.heap.log) ↔ x.ptr ∉ s.destroyed := by
    constructor
    · intro hall
      exact (h.mem_live_iff hx x.ptr_mem_blocks).mp (hall _ x.ptr_mem_blocks)
    · intro hlive p hp
      exact (h.mem_live_iff hx hp).mpr hlive
  have honce : (live (.use x.ptr :: s.heap.log)).Nodup := h.once
  rw [log_destroyStdObject _ (h.ptr_ne_null hx), sound_frees_iff honce (h.nodup_blocks hx),
    live_use, hblocks, sound_use_iff, h.mem_live_iff hx x.ptr_mem_blocks, ← and_assoc, and_self]

/-! ### What a step can do -/

/-- **What a step of a program can do.** -/
inductive Program.Effect (fp : FloatOps) (s : Program σ κ ψ) : Call σ κ → Program σ κ ψ → Prop
  | made {f : StdObject σ κ} {objOk ctxOk : Bool} {x : Held σ κ} {heap : Allocator κ}
      (hob : Obtains s.heap x.blocks heap) :
    Effect fp s (.make f objOk ctxOk) { s with heap, held := s.held ++ [x] }
  | notMade {f : StdObject σ κ} {objOk ctxOk : Bool} {heap : Allocator κ}
      (hob : Obtains s.heap [] heap) : Effect fp s (.make f objOk ctxOk) { s with heap }
  | added {i : ℕ} {x : Held σ κ} {world : World σ (CtxPtr κ) ψ} (hx : s.held[i]? = some x)
      (hstep : WbLwm2m.step fp s.world (.addObject x.obj) = some world)
      (hok : (s.world.addObject x.obj).1 = .ok) :
    Effect fp s (.add i)
      { s with world, heap := s.heap.uses [x.ptr], table := s.table ++ [x] }
  | addRefused {i : ℕ} {x : Held σ κ} {world : World σ (CtxPtr κ) ψ} (hx : s.held[i]? = some x)
      (hstep : WbLwm2m.step fp s.world (.addObject x.obj) = some world)
      (hno : (s.world.addObject x.obj).1 ≠ .ok) : Effect fp s (.add i) { s with world }
  | destroyed {i : ℕ} {x : Held σ κ} (hx : s.held[i]? = some x) :
    Effect fp s (.destroyObject i)
      { s with heap := destroyStdObject s.heap x, destroyed := x.ptr :: s.destroyed }
  | client {a : Action σ (CtxPtr κ)} {world : World σ (CtxPtr κ) ψ} (looks : Bool)
      (hadd : ∀ obj, a ≠ .addObject obj)
      (hstep : WbLwm2m.step fp s.world a = some world) :
    Effect fp s (.client a)
      { s with world, heap := s.heap.uses (if looks then s.table.flatMap Held.blocks else []) }

theorem Program.effect_of_step {call : Call σ κ} (h : s.step fp env call = some s') :
    s.Effect fp call s' := by
  cases call with
  | make f objOk ctxOk =>
    have hob := obtains_make env f s.heap objOk ctxOk
    rw [Program.step] at h
    rcases hmake : f.make env s.heap objOk ctxOk with ⟨_ | x, heap⟩
    · rw [hmake] at h hob
      obtain rfl := Option.some.inj h
      exact .notMade hob
    · rw [hmake] at h hob
      obtain rfl := Option.some.inj h
      exact .made hob
  | add i =>
    rw [Program.step] at h
    split at h
    · cases h
    · next x hx =>
      split at h
      · cases h
      · next world hstep =>
        split at h
        · next hok =>
          obtain rfl := Option.some.inj h
          exact .added hx hstep hok
        · next hno =>
          obtain rfl := Option.some.inj h
          exact .addRefused hx hstep hno
  | destroyObject i =>
    rw [Program.step] at h
    split at h
    · cases h
    · next x hx =>
      obtain rfl := Option.some.inj h
      exact .destroyed hx
  | client a =>
    unfold Program.step at h
    split at h
    case h_5 hadd hcall =>
      cases hcall
      split at h
      · cases h
      · next world hstep =>
        obtain rfl := Option.some.inj h
        exact .client _ hadd hstep
    case h_4 => cases h
    all_goals
      next hcall => cases hcall

theorem Program.accounted_step {call : Call σ κ} (h : s.step fp env call = some s')
    (hs : s.Accounted) : s'.Accounted := by
  cases Program.effect_of_step h with
  | made hob => exact hs.made_some hob
  | notMade hob => exact hs.made_none hob
  | @added i x world hx hstep hok =>
    refine hs.used [x.ptr] (fun y hy => ?_) ?_
    · rcases List.mem_append.mp hy with hy | hy
      · exact hs.table y hy
      · obtain rfl := List.mem_singleton.mp hy
        exact List.mem_of_getElem? hx
    · rw [objects_of_step hstep, accepted, if_pos hok, hs.objects, List.map_append,
        List.map_singleton]
  | @addRefused i x world _ hstep hno =>
    refine hs.used [] hs.table ?_
    rw [objects_of_step hstep, accepted, if_neg hno, hs.objects]
  | destroyed hx => exact hs.destroy (List.mem_of_getElem? hx)
  | @client a world looks hadd hstep =>
    refine hs.used _ hs.table ?_
    rw [objects_of_effect (WbLwm2m.effect_of_step hstep) hadd, hs.objects]

/-! ### Lifetimes -/

/-- **The heap is used soundly**, and while there is a client, all it has pointers to is
live. -/
def Program.Sound (s : Program σ κ ψ) : Prop :=
  Heap.Sound s.heap.log ∧
    (s.world.phase ≠ .destroyed → ∀ x ∈ s.table, x.ptr ∈ live s.heap.log)

/-- **The rule of the header**: an object is destroyed once, and not while a client has it; and
none is given to a client that has been destroyed. -/
def Program.Careful (s : Program σ κ ψ) : Call σ κ → Prop
  | .add i => ∀ x, s.held[i]? = some x → (s.world.addObject x.obj).1 = .ok → x.ptr ∉ s.destroyed
  | .destroyObject i => ∀ x, s.held[i]? = some x →
    x.ptr ∉ s.destroyed ∧ (s.world.phase ≠ .destroyed → x ∉ s.table)
  | _ => True

/-- Looking at live blocks is sound. -/
theorem Program.Sound.used (hs : s.Accounted) (h : s.Sound) (hphase : s.world.phase ≠ .destroyed)
    (looks : Bool) (world : World σ (CtxPtr κ) ψ) :
    { s with
      world
      heap := s.heap.uses (if looks then s.table.flatMap Held.blocks else []) }.Sound := by
  refine ⟨sound_uses_iff.mpr ⟨fun p hp => ?_, h.1⟩, fun _ x hx => ?_⟩
  · split at hp
    · obtain ⟨x, hx, hpx⟩ := List.mem_flatMap.mp hp
      have hlive := (hs.mem_live_iff (hs.table x hx) x.ptr_mem_blocks).mp (h.2 hphase x hx)
      exact (hs.mem_live_iff (hs.table x hx) hpx).mpr hlive
    · cases hp
  · rw [Allocator.uses, live_uses]
    exact h.2 hphase x hx

/-- Obtaining blocks is sound. -/
theorem Program.Sound.obtained (hs : s.Accounted) (h : s.Sound) {bs : List (Ptr κ)}
    {heap : Allocator κ} (hob : Obtains s.heap bs heap) (held : List (Held σ κ)) :
    { s with heap, held }.Sound := by
  refine ⟨(hob.sound_iff hs.fresh_heap).mpr h.1, fun hphase x hx => ?_⟩
  rw [hob.live_eq]
  exact List.mem_append_right _ (h.2 hphase x hx)

theorem Program.sound_step_iff {call : Call σ κ} (hs : s.Accounted) (hsound : s.Sound)
    (h : s.step fp env call = some s') : s'.Sound ↔ s.Careful call := by
  cases Program.effect_of_step h with
  | made hob => exact iff_of_true (hsound.obtained hs hob _) trivial
  | notMade hob => exact iff_of_true (hsound.obtained hs hob _) trivial
  | client looks _ hstep => exact iff_of_true (hsound.used hs (phase_of_step hstep) looks _) trivial
  | @addRefused i x world hx hstep hno =>
    refine iff_of_true (hsound.used hs (phase_of_step hstep) false world) fun y hy hok => ?_
    obtain rfl := Option.some.inj (hx.symm.trans hy)
    exact absurd hok hno
  | @added i x world hx hstep hok =>
    have hmem := hs.mem_live_iff (List.mem_of_getElem? hx) x.ptr_mem_blocks
    constructor
    · intro hsound' y hy _
      obtain rfl := Option.some.inj (hx.symm.trans hy)
      exact hmem.mp hsound'.1.1
    · intro hcareful
      have hlive := hmem.mpr (hcareful x hx hok)
      refine ⟨⟨hlive, hsound.1⟩, fun _ y hy => ?_⟩
      rcases List.mem_append.mp hy with hy | hy
      · exact hsound.2 (phase_of_step hstep) y hy
      · obtain rfl := List.mem_singleton.mp hy
        exact hlive
  | @destroyed i x hx =>
    have hheld := List.mem_of_getElem? hx
    have hs' := hs.destroy hheld
    have hone : s.Careful (.destroyObject i) ↔
        x.ptr ∉ s.destroyed ∧ (s.world.phase ≠ .destroyed → x ∉ s.table) := by
      constructor
      · intro hcareful
        exact hcareful x hx
      · rintro hcareful y hy
        obtain rfl := Option.some.inj (hx.symm.trans hy)
        exact hcareful
    rw [hone, Program.Sound, hs.sound_destroy_iff hheld, and_iff_left hsound.1]
    refine and_congr_right fun _ => forall_congr' fun hphase => ?_
    constructor
    · intro hlive hx'
      exact (hs'.mem_live_iff hheld x.ptr_mem_blocks).mp (hlive x hx') List.mem_cons_self
    · intro hne y hy
      have hy' := hs.table y hy
      have hlive := (hs.mem_live_iff hy' y.ptr_mem_blocks).mp (hsound.2 hphase y hy)
      refine (hs'.mem_live_iff hy' y.ptr_mem_blocks).mpr fun hmem => ?_
      rcases List.mem_cons.mp hmem with heq | hmem
      · obtain rfl := hs.eq_of_mem hheld hy' x.ptr_mem_blocks (heq ▸ y.ptr_mem_blocks)
        exact hne hy
      · exact hlive hmem

/-- **Objects and the client.** In every run of a program, whatever it does, the client looks at
the objects that have been given to it, and the live blocks are those of the objects that have
not been destroyed, so that nothing leaks in a factory that fails, and nothing is left when all
objects are destroyed. The heap is used soundly, and the client has no pointer to what has been
freed, exactly if the program keeps to the rule of the header. -/
theorem objects_outlive_client_iff {config : ClientConfig ψ} {c : Client σ (CtxPtr κ) ψ}
    (hinit : init config = some c) (fp : FloatOps) (env : DeviceEnv σ)
    (calls : List (Call σ κ)) :
    (∀ s, run (Program.step fp env) (Program.start c) calls = some s →
      s.world.client.objects = s.table.map Held.obj ∧
        ∀ p, p ∈ live s.heap.log ↔ ∃ x ∈ s.held, x.ptr ∉ s.destroyed ∧ p ∈ x.blocks) ∧
    (Along (Program.step fp env) (fun _ _ s' => s'.Sound) (Program.start c) calls ↔
      Along (Program.step fp env) (fun s call _ => s.Careful call) (Program.start c) calls) := by
  have hobjects : c.objects = [] := by
    have hmade := congrArg Client.objects (asMade_init hinit)
    exact hmade.symm
  have hstart := Program.accounted_start hobjects
  constructor
  · intro s hrun
    have hs := run_invariant_all (fun _ _ _ hs h => Program.accounted_step h hs) hstart hrun
    exact ⟨hs.objects, hs.live_iff⟩
  · refine along_state_iff (J := Program.Accounted) (fun s call s' hs h => ?_)
      (fun s call s' hs hsound h => Program.sound_step_iff hs hsound h) hstart ?_ calls
    · exact Program.accounted_step h hs
    · exact ⟨trivial, fun _ => List.forall_mem_nil _⟩

/-- A Server object that is given to a client, which registers and is destroyed before it. -/
def sampleCalls : List (Call Unit Unit) :=
  [.make (.server sampleServer 0 true false ()) true true, .add 0, .client (.start true .ok),
    .client (.event .connected .ok true), .client (.destroy .ok), .destroyObject 0]

/-- That is sound. -/
theorem objects_outlive_client_iff_sample : ∃ c : Client Unit (CtxPtr Unit) Unit,
    init sampleConfig = some c ∧
      Along (Program.step ieee754 ⟨fun _ => (0, ()), fun _ => (0, ())⟩) (fun _ _ s' => s'.Sound)
        (Program.start c) sampleCalls := by
  refine ⟨_, rfl, (@objects_outlive_client_iff _ _ _ _ sampleConfig _ rfl ieee754 _ _).2.mpr ?_⟩
  refine fun s₁ h₁ => ⟨trivial, fun s₂ h₂ => ⟨?_, fun s₃ h₃ => ⟨trivial, fun s₄ h₄ =>
    ⟨trivial, fun s₅ h₅ => ⟨trivial, fun s₆ h₆ => ⟨?_, trivial⟩⟩⟩⟩⟩⟩
  all_goals obtain rfl := Option.some.inj h₁
  · exact fun x _ _ => List.not_mem_nil
  · obtain rfl := Option.some.inj h₂
    obtain rfl := Option.some.inj h₃
    obtain rfl := Option.some.inj h₄
    obtain rfl := Option.some.inj h₅
    exact fun x _ => ⟨List.not_mem_nil, fun hphase => absurd rfl hphase⟩

end Program

end WbLwm2m

import WbLwm2m.Notify
import WbLwm2m.TlvInstance

/-!
# What is not readable

A resource has a mask of the operations a server may do, and what may not be read should not
get out: two objects that differ in the values of such resources alone should look the same
to a server (`WbLwm2m.Confidential`). None of the three functions that read a resource looks
at the mask. The encoders of an instance skip a resource of type `NONE`, all three skip one
without a read callback, and that is all a table can rely on
(`WbLwm2m.confidential_iff`): a callback that serves several resources gives the unreadable
ones away.
-/

namespace WbLwm2m

open Memory World

variable {σ κ ψ : Type} {fp : FloatOps}

/-! ### Tables -/

/-- `WB_LWM2M_OP_READ` -/
def opRead : UInt8 := 1

/-- What the table of an object says of a resource: all but what its callback does. -/
structure Slot where
  id : UInt16
  type : ResType
  operations : UInt8
  multiple : Bool
  hasReadCb : Bool
deriving DecidableEq

/-- The server may read it. -/
def Slot.Readable (slot : Slot) : Prop := slot.operations &&& opRead ≠ 0

instance : DecidablePred Slot.Readable := fun _ => inferInstanceAs (Decidable (_ ≠ _))

def ResourceDef.slot (res : ResourceDef σ κ) : Slot :=
  ⟨res.id, res.type, res.operations, res.multiple, res.readCb.isSome⟩

/-- The table of an object. -/
def ObjectDef.table (obj : ObjectDef σ κ) : List Slot := obj.resources.map ResourceDef.slot

/-- **Two definitions of a resource that differ in a secret at most**: their callbacks do the
same, and they answer the same if the server may read the resource. -/
structure SameResource (res res' : ResourceDef σ κ) : Prop where
  slot : res'.slot = res.slot
  effect : ∀ cb cb', res.readCb = some cb → res'.readCb = some cb' →
    ∀ objId instId ctx s, (cb' objId instId res.id ctx s).2 = (cb objId instId res.id ctx s).2
  answer : res.slot.Readable → ∀ cb cb', res.readCb = some cb → res'.readCb = some cb' →
    ∀ objId instId ctx s, (cb' objId instId res.id ctx s).1 = (cb objId instId res.id ctx s).1

/-- **Two objects that differ in secrets at most.** -/
structure SameObject (obj obj' : ObjectDef σ κ) : Prop where
  id : obj'.id = obj.id
  instances : obj'.instances = obj.instances
  userCtx : obj'.userCtx = obj.userCtx
  resources : List.Forall₂ SameResource obj.resources obj'.resources

/-- A client with an object among its objects. -/
def World.withObject (w : World σ κ ψ) (before : List (ObjectDef σ κ)) (obj : ObjectDef σ κ)
    (after : List (ObjectDef σ κ)) : World σ κ ψ :=
  { w with client := { w.client with objects := before ++ obj :: after } }

/-- **A table keeps its secrets**: objects with this table that differ in secrets at most are
encoded to the same bytes, and a client that has one or the other sends the same
notifications and returns the same codes. -/
def Confidential (fp : FloatOps) (table : List Slot) : Prop :=
  ∀ (σ κ ψ : Type) (obj obj' : ObjectDef σ κ), obj.table = table → SameObject obj obj' →
    (∀ instId m buf bufSize s, tlvEncodeInstance fp obj' instId m buf bufSize s =
      tlvEncodeInstance fp obj instId m buf bufSize s) ∧
    (∀ instId m buf bufSize s, encodeSenmlJsonInstance fp obj' instId m buf bufSize s =
      encodeSenmlJsonInstance fp obj instId m buf bufSize s) ∧
    ∀ (w : World σ κ ψ) before after objId instId resId app postErr,
      ((w.withObject before obj' after).notify fp objId instId resId app postErr).1 =
        ((w.withObject before obj after).notify fp objId instId resId app postErr).1 ∧
      ((w.withObject before obj' after).notify fp objId instId resId app postErr).2.log =
        ((w.withObject before obj after).notify fp objId instId resId app postErr).2.log

/-- **No callback for a secret**, except for one that no function calls: that of a resource of
type `NONE` behind another one with its identifier. -/
def Sealed (table : List Slot) : Prop :=
  ∀ before slot after, table = before ++ slot :: after → ¬slot.Readable →
    slot.hasReadCb = true → slot.type = .none ∧ ∃ slot' ∈ before, slot'.id = slot.id

/-! ### A sealed table keeps its secrets -/

/-- The callbacks of two definitions that are read alike. -/
theorem SameResource.readCb_cases {res res' : ResourceDef σ κ} (h : SameResource res res') :
    (res.readCb = none ∧ res'.readCb = none) ∨
      ∃ cb cb', res.readCb = some cb ∧ res'.readCb = some cb' ∧
        (res.slot.Readable → ∀ objId instId ctx s,
          cb' objId instId res.id ctx s = cb objId instId res.id ctx s) := by
  have hcb : res'.readCb.isSome = res.readCb.isSome := congrArg Slot.hasReadCb h.slot
  rcases hres : res.readCb with _ | cb
  · rw [hres, Option.isSome_none, Option.isSome_eq_false_iff, Option.isNone_iff_eq_none] at hcb
    exact Or.inl ⟨rfl, hcb⟩
  · rw [hres, Option.isSome_some] at hcb
    obtain ⟨cb', hres'⟩ := Option.isSome_iff_exists.mp hcb
    exact Or.inr ⟨cb, cb', rfl, hres', fun hread objId instId ctx s =>
      Prod.ext (h.answer hread cb cb' hres hres' objId instId ctx s)
        (h.effect cb cb' hres hres' objId instId ctx s)⟩

/-- **An open resource is read alike**: one that the server may read, that has no callback, or
that has no value. -/
theorem SameResource.read_eq {res res' : ResourceDef σ κ} (h : SameResource res res')
    {obj obj' : ObjectDef σ κ} (hid : obj'.id = obj.id) (hctx : obj'.userCtx = obj.userCtx)
    (hopen : ¬res.slot.Readable → res.slot.hasReadCb = true → res.type = .none) (instId : UInt16) :
    res'.read obj' instId = res.read obj instId := by
  funext s
  have hresId : res'.id = res.id := congrArg Slot.id h.slot
  have htype : res'.type = res.type := congrArg Slot.type h.slot
  rw [ResourceDef.read, ResourceDef.read, htype, hresId, hid, hctx]
  by_cases hnone : res.type = .none
  · rw [if_pos hnone, if_pos hnone]
  · rw [if_neg hnone, if_neg hnone]
    obtain ⟨hres, hres'⟩ | ⟨cb, cb', hres, hres', heq⟩ := h.readCb_cases
    · rw [hres, hres']
    · have hread : res.slot.Readable := by
        by_contra hsecret
        exact hnone (hopen hsecret (by rw [ResourceDef.slot, hres, Option.isSome_some]))
      rw [hres, hres']
      simp only [heq hread]

/-- Two tables that are read alike. -/
def SameReads (obj obj' : ObjectDef σ κ) (instId : UInt16) :
    List (ResourceDef σ κ) → List (ResourceDef σ κ) → Prop :=
  List.Forall₂ fun res res' => res'.read obj' instId = res.read obj instId

theorem tlvEncodeLoop_congr {obj obj' : ObjectDef σ κ} {instId : UInt16} {buf bufSize : ℕ}
    {ress ress' : List (ResourceDef σ κ)} (h : SameReads obj obj' instId ress ress') (m : Mem)
    (off : ℕ) (s : σ) :
    tlvEncodeLoop fp obj' instId buf bufSize ress' m off s =
      tlvEncodeLoop fp obj instId buf bufSize ress m off s := by
  induction h generalizing m off s with
  | nil => rfl
  | @cons res res' _ _ hread _ ih =>
    rw [tlvEncodeLoop, tlvEncodeLoop, hread]
    rcases res.read obj instId s with ⟨_ | ⟨resId, value⟩, s'⟩
    · exact ih m off s'
    · dsimp only
      rcases tlvEncodeResource fp resId value m (buf + off) (bufSize - off) with ⟨m', _ | written⟩
      · rfl
      · exact ih m' (off + written) s'

theorem senmlEncodeLoop_congr {obj obj' : ObjectDef σ κ} {instId : UInt16} {buf bufSize : ℕ}
    (hid : obj'.id = obj.id) {ress ress' : List (ResourceDef σ κ)}
    (h : SameReads obj obj' instId ress ress') (m : Mem) (off : ℕ) (first : Bool) (s : σ) :
    senmlEncodeLoop fp obj' instId buf bufSize ress' m off first s =
      senmlEncodeLoop fp obj instId buf bufSize ress m off first s := by
  induction h generalizing m off first s with
  | nil => rfl
  | @cons res res' _ _ hread _ ih =>
    rw [senmlEncodeLoop, senmlEncodeLoop, hread, hid]
    rcases res.read obj instId s with ⟨_ | ⟨resId, value⟩, s'⟩
    · exact ih m off first s'
    · dsimp only
      split
      · rfl
      · split
        · rfl
        · exact ih _ _ false s'

/-- **What a notification comes to**: the code, and the request if there is one. It depends on
the state, on the handle and on the object that is found. -/
def notifyOutcome (fp : FloatOps) (state : State) (coap : Option ℕ) (objId instId resId : UInt16)
    (app : σ) (postErr : EspErr) (found : Option (ObjectDef σ κ)) : EspErr × List (Entry ψ) :=
  if state ≠ .registered then (.invalidState, [])
  else match found with
    | none => (.notFound, [])
    | some obj => match obj.resources.find? fun res => res.id = resId with
      | none => (.notFound, [])
      | some res => match res.readCb with
        | none => (.notFound, [])
        | some readCb => match readCb objId instId resId obj.userCtx app with
          | ((.ok, value), _) => match senmlPayload fp objId instId resId value with
            | none => (.fail, [])
            | some payload => (postErr,
              [.coapPost coap (notifyPath objId instId resId) (some payload) .json postErr])
          | ((err, _), _) => (err, [])

theorem notify_eq_outcome (w : World σ κ ψ) (objId instId resId : UInt16) (app : σ)
    (postErr : EspErr) :
    ((w.notify fp objId instId resId app postErr).1,
        (w.notify fp objId instId resId app postErr).2.log) =
      Prod.map id (fun sent => sent ++ w.log) (notifyOutcome fp w.client.state w.client.coap objId
        instId resId app postErr (w.client.objects.find? fun obj => obj.id = objId)) := by
  rw [notify, notifyOutcome.eq_def]
  by_cases hstate : w.client.state ≠ .registered
  · rw [if_pos hstate, if_pos hstate]
    rfl
  · rw [if_neg hstate, if_neg hstate]
    rcases hobj : w.client.objects.find? fun obj => obj.id = objId with _ | obj
    · simp only [hobj]
      rfl
    · simp only [hobj]
      rcases hres : obj.resources.find? fun res => res.id = resId with _ | res
      · simp only [hres]
        rfl
      · simp only [hres]
        rcases hcb : res.readCb with _ | cb
        · rfl
        · dsimp only
          generalize cb objId instId resId obj.userCtx app = answer
          rcases answer with ⟨⟨err, value⟩, app'⟩
          rcases err
          case ok =>
            dsimp only
            rcases senmlPayload fp objId instId resId value with _ | payload
            · rfl
            · rfl
          all_goals rfl

/-- Two tables that differ in secrets at most have the same resources under an identifier. -/
theorem find_forall₂ {ress ress' : List (ResourceDef σ κ)}
    (h : List.Forall₂ SameResource ress ress') (resId : UInt16) :
    (ress.find? (fun res => res.id = resId) = none ∧
      ress'.find? (fun res => res.id = resId) = none) ∨
    ∃ res res', ress.find? (fun res => res.id = resId) = some res ∧
      ress'.find? (fun res => res.id = resId) = some res' ∧ SameResource res res' := by
  induction h with
  | nil => exact Or.inl ⟨rfl, rfl⟩
  | @cons res res' _ _ hres _ ih =>
    have hid : res'.id = res.id := congrArg Slot.id hres.slot
    rw [List.find?_cons, List.find?_cons, hid]
    by_cases heq : res.id = resId
    · rw [decide_eq_true heq]
      exact Or.inr ⟨res, res', rfl, rfl, hres⟩
    · rw [decide_eq_false heq]
      exact ih

section Sealed

variable {obj obj' : ObjectDef σ κ} (hs : Sealed obj.table)
include hs

theorem Sealed.of_split {before after : List (ResourceDef σ κ)} {res : ResourceDef σ κ}
    (hsplit : obj.resources = before ++ res :: after) (hsecret : ¬res.slot.Readable)
    (hcb : res.slot.hasReadCb = true) : res.type = .none ∧ ∃ res' ∈ before, res'.id = res.id := by
  have htable : obj.table =
      before.map ResourceDef.slot ++ res.slot :: after.map ResourceDef.slot := by
    rw [ObjectDef.table, hsplit, List.map_append, List.map_cons]
  obtain ⟨htype, slot', hslot', hid⟩ := hs _ _ _ htable hsecret hcb
  obtain ⟨res', hres', rfl⟩ := List.mem_map.mp hslot'
  exact ⟨htype, res', hres', hid⟩

variable (h : SameObject obj obj')
include h

theorem Sealed.sameReads (instId : UInt16) :
    SameReads obj obj' instId obj.resources obj'.resources := by
  have hopen : ∀ res ∈ obj.resources, ¬res.slot.Readable → res.slot.hasReadCb = true →
      res.type = .none := by
    rintro res hres hsecret hcb
    obtain ⟨before, after, hsplit⟩ := List.append_of_mem hres
    exact (hs.of_split hsplit hsecret hcb).1
  have hall := h.resources
  -- over the two tables, entry by entry
  revert hopen hall
  generalize obj.resources = ress, obj'.resources = ress'
  rintro hopen hall
  induction hall with
  | nil => exact List.Forall₂.nil
  | @cons res res' _ _ hres _ ih =>
    obtain ⟨hfirst, hrest⟩ := List.forall_mem_cons.mp hopen
    exact List.Forall₂.cons (hres.read_eq h.id h.userCtx hfirst instId) (ih hrest)

theorem Sealed.notifyOutcome_eq (state : State) (coap : Option ℕ) (objId instId resId : UInt16)
    (app : σ) (postErr : EspErr) :
    notifyOutcome (ψ := ψ) fp state coap objId instId resId app postErr (some obj') =
      notifyOutcome fp state coap objId instId resId app postErr (some obj) := by
  rw [notifyOutcome, notifyOutcome]
  obtain ⟨hnone, hnone'⟩ | ⟨res, res', hres, hres', hsame⟩ := find_forall₂ h.resources resId
  · simp only [hnone, hnone']
  · simp only [hres, hres']
    obtain ⟨hcb, hcb'⟩ | ⟨cb, cb', hcb, hcb', heq⟩ := hsame.readCb_cases
    · simp only [hcb, hcb']
    · obtain ⟨hid, before, after, hsplit, hbefore⟩ := List.find?_eq_some_iff_append.mp hres
      obtain rfl : res.id = resId := of_decide_eq_true hid
      -- the first resource with an identifier is not hidden behind another one
      have hread : res.slot.Readable := by
        by_contra hsecret
        obtain ⟨-, res₀, hres₀, hid₀⟩ := hs.of_split hsplit hsecret
          (by rw [ResourceDef.slot, hcb, Option.isSome_some])
        exact absurd hid₀ (by simpa using hbefore res₀ hres₀)
      simp only [hcb, hcb', heq hread, h.userCtx]

end Sealed

/-- **A sealed table keeps its secrets.** -/
theorem Sealed.confidential {table : List Slot} (hs : Sealed table) : Confidential fp table := by
  rintro σ κ ψ obj obj' rfl h
  refine ⟨fun instId m buf bufSize s => ?_, fun instId m buf bufSize s => ?_,
    fun w before after objId instId resId app postErr => Prod.mk.inj ?_⟩
  · rw [tlvEncodeInstance, tlvEncodeInstance, tlvEncodeLoop_congr (hs.sameReads h instId)]
  · rw [encodeSenmlJsonInstance, encodeSenmlJsonInstance,
      senmlEncodeLoop_congr h.id (hs.sameReads h instId)]
  · rw [notify_eq_outcome, notify_eq_outcome]
    refine congrArg _ ?_
    change notifyOutcome fp w.client.state w.client.coap objId instId resId app postErr
        ((before ++ obj' :: after).find? fun obj => obj.id = objId) =
      notifyOutcome fp w.client.state w.client.coap objId instId resId app postErr
        ((before ++ obj :: after).find? fun obj => obj.id = objId)
    rw [List.find?_append, List.find?_append, List.find?_cons, List.find?_cons, h.id]
    generalize before.find? _ = found
    rcases found with _ | obj₀
    · rw [Option.none_or, Option.none_or]
      split
      · exact hs.notifyOutcome_eq h _ _ objId instId resId app postErr
      · rfl
    · rfl

/-! ### A table with a callback for a secret -/

/-- A resource with the given slot, whose callback, if it has one, always gives one answer. -/
def Slot.resource (answer : EspErr × Value) (slot : Slot) : ResourceDef Unit Unit where
  id := slot.id
  type := slot.type
  operations := slot.operations
  multiple := slot.multiple
  readCb := if slot.hasReadCb then some fun _ _ _ _ _ => (answer, ()) else none

/-- An object in which all resources but one fail to be read. -/
def leakyObject (before : List Slot) (slot : Slot) (after : List Slot) (answer : EspErr × Value) :
    ObjectDef Unit Unit where
  id := 0
  instances := [0]
  resources := before.map (Slot.resource (.fail, .none)) ++ slot.resource answer ::
    after.map (Slot.resource (.fail, .none))
  userCtx := ()

theorem Slot.slot_resource (answer : EspErr × Value) (slot : Slot) :
    (slot.resource answer).slot = slot := by
  rcases slot with ⟨id, type, operations, multiple, hasReadCb⟩
  cases hasReadCb <;> rfl

theorem table_leakyObject (before : List Slot) (slot : Slot) (after : List Slot)
    (answer : EspErr × Value) :
    (leakyObject before slot after answer).table = before ++ slot :: after := by
  have hmap : ∀ slots : List Slot,
      (slots.map (Slot.resource (.fail, .none))).map ResourceDef.slot = slots := by
    intro slots
    rw [List.map_map]
    exact List.map_id'' (fun slot => slot.slot_resource _) slots
  rw [ObjectDef.table, leakyObject, List.map_append, List.map_cons, hmap, hmap,
    Slot.slot_resource]

theorem SameResource.refl (res : ResourceDef σ κ) : SameResource res res where
  slot := rfl
  effect cb cb' hcb hcb' _ _ _ _ := by rw [Option.some.inj (hcb.symm.trans hcb')]
  answer _ cb cb' hcb hcb' _ _ _ _ := by rw [Option.some.inj (hcb.symm.trans hcb')]

/-- What an unreadable resource answers is all that is different. -/
theorem sameObject_leakyObject (before : List Slot) {slot : Slot} (after : List Slot)
    (hsecret : ¬slot.Readable) (answer answer' : EspErr × Value) :
    SameObject (leakyObject before slot after answer)
      (leakyObject before slot after answer') where
  id := rfl
  instances := rfl
  userCtx := rfl
  resources := by
    refine List.rel_append (List.forall₂_same.mpr fun res _ => SameResource.refl res)
      (List.Forall₂.cons ⟨?_, ?_, ?_⟩
        (List.forall₂_same.mpr fun res _ => SameResource.refl res))
    · rw [Slot.slot_resource, Slot.slot_resource]
    · intros
      rfl
    · rw [Slot.slot_resource]
      exact fun hread => absurd hread hsecret

theorem Slot.read_silent (slot : Slot) (obj : ObjectDef Unit Unit) (instId : UInt16) :
    (slot.resource (.fail, .none)).read obj instId () = (none, ()) := by
  rw [ResourceDef.read]
  by_cases htype : slot.type = .none
  · exact if_pos htype
  · refine (if_neg htype).trans ?_
    rw [Slot.resource]
    cases slot.hasReadCb <;> rfl

theorem Slot.read_resource {slot : Slot} (htype : slot.type ≠ .none) (hcb : slot.hasReadCb = true)
    (v : Value) (obj : ObjectDef Unit Unit) (instId : UInt16) :
    (slot.resource (.ok, v)).read obj instId () = (some (slot.id, v), ()) := by
  rw [ResourceDef.read, Slot.resource, if_neg htype, hcb]
  rfl

theorem readings_silent (slots : List Slot) (rest : List (ResourceDef Unit Unit))
    (obj : ObjectDef Unit Unit) (instId : UInt16) :
    readings obj instId (slots.map (Slot.resource (.fail, .none)) ++ rest) () =
      readings obj instId rest () := by
  induction slots with
  | nil => rfl
  | cons slot slots ih =>
    rw [List.map_cons, List.cons_append, readings_cons_none (slot.read_silent obj instId), ih]

/-- **The encoder gives a secret away**, if its type is not `NONE`. -/
theorem type_of_confidential {before after : List Slot} {slot : Slot}
    (h : Confidential fp (before ++ slot :: after)) (hsecret : ¬slot.Readable)
    (hcb : slot.hasReadCb = true) : slot.type = .none := by
  by_contra htype
  have hsame := sameObject_leakyObject before after hsecret (.fail, .none) (.ok, .boolean true)
  obtain ⟨htlv, -⟩ := h Unit Unit Unit _ _ (table_leakyObject _ _ _ _) hsame
  -- the record of the secret is all that the second object is encoded to
  have hreadings : readings (leakyObject before slot after (.fail, .none)) 0
      (leakyObject before slot after (.fail, .none)).resources () = [] := by
    rw [leakyObject, readings_silent, readings_cons_none (slot.read_silent _ 0),
      ← List.append_nil (after.map _), readings_silent]
    rfl
  have hreadings' : readings (leakyObject before slot after (.ok, .boolean true)) 0
      (leakyObject before slot after (.ok, .boolean true)).resources () =
        [(slot.id, .boolean true)] := by
    rw [leakyObject, readings_silent, readings_cons_some (slot.read_resource htype hcb _ _ 0),
      ← List.append_nil (after.map _), readings_silent]
    rfl
  let r : TlvRecord := ⟨.resource, slot.id, [1], by decide⟩
  have hr : HasRecord fp (slot.id, .boolean true) r :=
    TlvRecord.ofValue_eq_some.mpr ⟨rfl, rfl, rfl⟩
  have hlen : 0 < r.bytes.length := r.two_le_length_bytes.trans_lt' Nat.zero_lt_two
  have hnil : List.Forall₂ (HasRecord fp) (readings (leakyObject before slot after (.fail, .none)) 0
      (leakyObject before slot after (.fail, .none)).resources ()) [] := by
    rw [hreadings]
    exact List.Forall₂.nil
  have hone : List.Forall₂ (HasRecord fp)
      (readings (leakyObject before slot after (.ok, .boolean true)) 0
        (leakyObject before slot after (.ok, .boolean true)).resources ()) [r] := by
    rw [hreadings']
    exact List.Forall₂.cons hr List.Forall₂.nil
  have hcode := congrArg (fun p => p.1.2) (htlv 0 (fun _ => 0) 0 r.bytes.length ())
  rw [tlvEncodeInstance, tlvEncodeInstance, if_neg hlen.ne', if_neg hlen.ne',
    tlvEncodeLoop_of_le hone (by simp), tlvEncodeLoop_of_le hnil (by simp)] at hcode
  rw [recordsBytes_cons, recordsBytes_nil, List.append_nil, List.length_nil] at hcode
  exact absurd (Option.some.inj hcode) (by omega)

/-- **A notification gives a secret away**, if it is the first resource with its identifier. -/
theorem exists_of_confidential {before after : List Slot} {slot : Slot}
    (h : Confidential fp (before ++ slot :: after)) (hsecret : ¬slot.Readable)
    (hcb : slot.hasReadCb = true) : ∃ slot' ∈ before, slot'.id = slot.id := by
  by_contra hfirst
  have hsame := sameObject_leakyObject before after hsecret (.fail, .none) (.notFound, .none)
  obtain ⟨-, -, hnotify⟩ := h Unit Unit Unit _ _ (table_leakyObject _ _ _ _) hsame
  have hfind : ∀ answer, (leakyObject before slot after answer).resources.find?
      (fun res => res.id = slot.id) = some (slot.resource answer) := by
    intro answer
    refine List.find?_eq_some_iff_append.mpr ⟨decide_eq_true rfl, _, _, rfl, fun res hres => ?_⟩
    obtain ⟨slot', hslot', rfl⟩ := List.mem_map.mp hres
    have hne : ¬(slot'.resource (.fail, .none)).id = slot.id := fun hid =>
      hfirst ⟨slot', hslot', hid⟩
    rw [decide_eq_false hne, Bool.not_false]
  -- the code of the callback is the code of the notification
  let w : World Unit Unit Unit := World.initial { sampleClient with state := .registered }
  have hcode : ∀ err : EspErr, err ≠ .ok →
      ((w.withObject [] (leakyObject before slot after (err, .none)) []).notify fp 0 0 slot.id ()
        .ok).1 = err := by
    rintro err herr
    have hobj : (leakyObject before slot after (err, .none)).id = 0 := rfl
    have hread : (slot.resource (err, .none)).readCb =
        some fun _ _ _ _ _ => ((err, .none), ()) := by
      rw [Slot.resource, hcb]
      rfl
    rw [notify]
    simp [w, World.withObject, World.initial, hobj, hfind, hread]
  have heq := (hnotify w [] [] 0 0 slot.id () .ok).1
  rw [hcode _ (by decide), hcode _ (by decide)] at heq
  cases heq

/-! ### The tables that keep their secrets -/

/-- **A table keeps its secrets exactly if it is sealed**: no resource the server may not read
has a read callback, but for those that have no value and are hidden behind another resource
with their identifier. -/
theorem confidential_iff (fp : FloatOps) (table : List Slot) :
    Confidential fp table ↔ Sealed table := by
  refine ⟨fun h => ?_, Sealed.confidential⟩
  rintro before slot after rfl hsecret hcb
  exact ⟨type_of_confidential h hsecret hcb, exists_of_confidential h hsecret hcb⟩

/-- An object with one callback for both of its resources, a manufacturer and a write-only
integer. -/
def writeOnlyObject (secret : Int64) : ObjectDef Unit Unit where
  id := 3
  instances := [0]
  resources := [⟨0, .string, opRead, false, some readCb⟩, ⟨1, .integer, 2, false, some readCb⟩]
  userCtx := ()
where
  readCb _ _ resId _ _ :=
    if resId = 0 then ((.ok, .string (ascii "Acme")), ()) else ((.ok, .integer secret), ())

/-- **A write-only integer is sent**, in the last byte of the instance. -/
theorem not_confidential_writeOnlyObject :
    SameObject (writeOnlyObject 1) (writeOnlyObject 2) ∧
      (load (tlvEncodeInstance ieee754 (writeOnlyObject 1) 0 (fun _ => 0) 0 16 ()).1.1 0 9 =
        [0xC4, 0, 65, 99, 109, 101, 0xC1, 1, 1]) ∧
      (load (tlvEncodeInstance ieee754 (writeOnlyObject 2) 0 (fun _ => 0) 0 16 ()).1.1 0 9 =
        [0xC4, 0, 65, 99, 109, 101, 0xC1, 1, 2]) ∧
      ¬Confidential ieee754 (writeOnlyObject 1).table := by
  have hsame : SameObject (writeOnlyObject 1) (writeOnlyObject 2) := by
    refine ⟨rfl, rfl, rfl, List.Forall₂.cons ⟨rfl, ?_, ?_⟩
      (List.Forall₂.cons ⟨rfl, ?_, ?_⟩ List.Forall₂.nil)⟩
    · intros
      rfl
    · rintro - _ _ ⟨⟩ ⟨⟩ _ _ _ _
      rfl
    · intros
      rfl
    · exact fun hread => absurd hread (by decide)
  have h1 : load (tlvEncodeInstance ieee754 (writeOnlyObject 1) 0 (fun _ => 0) 0 16 ()).1.1 0 9 =
      [0xC4, 0, 65, 99, 109, 101, 0xC1, 1, 1] := by decide
  have h2 : load (tlvEncodeInstance ieee754 (writeOnlyObject 2) 0 (fun _ => 0) 0 16 ()).1.1 0 9 =
      [0xC4, 0, 65, 99, 109, 101, 0xC1, 1, 2] := by decide
  refine ⟨hsame, h1, h2, fun h => ?_⟩
  obtain ⟨htlv, -⟩ := h Unit Unit Unit _ _ rfl hsame
  rw [htlv, h1] at h2
  exact absurd h2 (by decide)

end WbLwm2m

import WbLwm2m.Step

/-!
# Notifications

A notification of `/obj/inst/res` should carry a value of that instance. The objects of a
client are definitions with a list of instances each, and several definitions may have the
same identifier: those of the Security and Server objects are made one for each instance.
`wb_lwm2m_notify` looks for the identifier and takes the first definition that has it; the
instance goes into the path and to the callback, and is not looked for.
`WbLwm2m.notify_reads_instance_iff` says when that is right all the same.
-/

namespace WbLwm2m

open World Transition

variable {σ κ ψ : Type} {w : World σ κ ψ} {fp : FloatOps} {objId instId resId : UInt16} {app : σ}

/-! ### What is read -/

/-- The definition a notification reads from, and the callback it calls. -/
def readFrom (objects : List (ObjectDef σ κ)) (objId resId : UInt16) :
    Option (ObjectDef σ κ × ReadCb σ κ) :=
  match objects.find? fun obj => obj.id = objId with
  | none => none
  | some obj => match obj.resources.find? fun res => res.id = resId with
    | none => none
    | some res => res.readCb.map fun cb => (obj, cb)

theorem find_of_readFrom {objects : List (ObjectDef σ κ)} {obj : ObjectDef σ κ} {cb : ReadCb σ κ}
    (h : readFrom objects objId resId = some (obj, cb)) :
    objects.find? (fun obj => obj.id = objId) = some obj := by
  rw [readFrom] at h
  split at h
  · cases h
  · next obj' hobj =>
    split at h
    · cases h
    · obtain ⟨cb', -, heq⟩ := Option.map_eq_some_iff.mp h
      obtain ⟨rfl, -⟩ := Prod.mk.inj heq
      exact hobj

/-- The state of the application after a notification, whose callback has run. -/
def notifyApp (w : World σ κ ψ) (objId instId resId : UInt16) (app : σ) : σ :=
  if w.client.state ≠ .registered then app
  else match readFrom w.client.objects objId resId with
    | none => app
    | some (obj, cb) => (cb objId instId resId obj.userCtx app).2

/-- **A notification reads from `obj`** by `cb`, and has got `payload` to send. -/
structure ReadsFrom (fp : FloatOps) (w : World σ κ ψ) (objId instId resId : UInt16) (app : σ)
    (obj : ObjectDef σ κ) (payload : Text) : Prop where
  state : w.client.state = .registered
  read : ∃ cb value, readFrom w.client.objects objId resId = some (obj, cb) ∧
    (cb objId instId resId obj.userCtx app).1 = (.ok, value) ∧
    senmlPayload fp objId instId resId value = some payload

/-- **What a notification does**: it sends what it has read, or it reports an error and
nothing happens. -/
inductive Notifies (fp : FloatOps) (w : World σ κ ψ) (objId instId resId : UInt16) (app : σ)
    (postErr : EspErr) : EspErr × World σ κ ψ → Prop
  | sent (obj : ObjectDef σ κ) (payload : Text)
      (hread : ReadsFrom fp w objId instId resId app obj payload) :
    Notifies fp w objId instId resId app postErr (postErr, w.record
      (.coapPost w.client.coap (notifyPath objId instId resId) (some payload) .json postErr))
  | refused (err : EspErr) (herr : err ≠ .ok)
      (hread : ∀ obj payload, ¬ReadsFrom fp w objId instId resId app obj payload) :
    Notifies fp w objId instId resId app postErr (err, w)

theorem notifies_notify (fp : FloatOps) (w : World σ κ ψ) (objId instId resId : UInt16) (app : σ)
    (postErr : EspErr) :
    Notifies fp w objId instId resId app postErr
      (w.notify fp objId instId resId app postErr) := by
  rw [notify]
  split
  · next hstate =>
    exact Notifies.refused _ (by decide) fun _ _ h => hstate h.state
  · next hstate =>
    split
    · next hobj =>
      refine Notifies.refused _ (by decide) ?_
      rintro obj payload ⟨-, cb, value, hfrom, -⟩
      simp [readFrom, hobj] at hfrom
    · next obj hobj =>
      split
      · next hres =>
        refine Notifies.refused _ (by decide) ?_
        rintro obj' payload ⟨-, cb, value, hfrom, -⟩
        simp [readFrom, hobj, hres] at hfrom
      · next res hres =>
        split
        · next hcb =>
          refine Notifies.refused _ (by decide) ?_
          rintro obj' payload ⟨-, cb, value, hfrom, -⟩
          simp [readFrom, hobj, hres, hcb] at hfrom
        · next cb hcb =>
          have hfrom : readFrom w.client.objects objId resId = some (obj, cb) := by
            simp [readFrom, hobj, hres, hcb]
          have honly {obj' : ObjectDef σ κ} {payload : Text}
              (h : ReadsFrom fp w objId instId resId app obj' payload) :
              ∃ value, (cb objId instId resId obj.userCtx app).1 = (.ok, value) ∧
                senmlPayload fp objId instId resId value = some payload := by
            obtain ⟨-, cb', value, hfrom', hvalue, hpayload⟩ := h
            obtain ⟨rfl, rfl⟩ := Prod.mk.inj (Option.some.inj (hfrom.symm.trans hfrom'))
            exact ⟨value, hvalue, hpayload⟩
          split
          · next value app' hvalue =>
            split
            · next hpayload =>
              refine Notifies.refused _ (by decide) fun obj' payload h => ?_
              obtain ⟨value', hvalue', hpayload'⟩ := honly h
              rw [hvalue] at hvalue'
              obtain ⟨-, rfl⟩ := Prod.mk.inj hvalue'
              exact absurd (hpayload.symm.trans hpayload') (by simp)
            · next payload hpayload =>
              refine Notifies.sent obj payload ⟨not_not.mp hstate, cb, value, hfrom, ?_, hpayload⟩
              rw [hvalue]
          · next err value app' herr hvalue =>
            refine Notifies.refused _ ?_ fun obj' payload h => ?_
            · rintro rfl
              exact herr rfl
            · obtain ⟨value', hvalue', -⟩ := honly h
              rw [hvalue] at hvalue'
              obtain ⟨rfl, -⟩ := Prod.mk.inj hvalue'
              exact herr rfl

/-! ### Whose instance it is -/

/-- **A notification reads from the instance it names**: what it sends has been read through
a definition with the object identifier that lists the instance, and if there is none it
reports an error and sends nothing. -/
def ReadsInstance (fp : FloatOps) (w : World σ κ ψ) (objId instId resId : UInt16) (app : σ)
    (postErr : EspErr) : Prop :=
  ((w.notify fp objId instId resId app postErr).2.log ≠ w.log →
    ∃ obj ∈ w.client.objects, obj.id = objId ∧ instId ∈ obj.instances ∧
      ∃ payload, ReadsFrom fp w objId instId resId app obj payload ∧
        (w.notify fp objId instId resId app postErr).2.log = .coapPost w.client.coap
          (notifyPath objId instId resId) (some payload) .json postErr :: w.log) ∧
  ((∀ obj ∈ w.client.objects, obj.id = objId → instId ∉ obj.instances) →
    (w.notify fp objId instId resId app postErr).1 ≠ .ok ∧
      (w.notify fp objId instId resId app postErr).2 = w)

/-- The first definition with the object identifier lists the instance. -/
def FirstLists (objects : List (ObjectDef σ κ)) (objId instId : UInt16) : Prop :=
  ∀ obj, objects.find? (fun obj => obj.id = objId) = some obj → instId ∈ obj.instances

/-- **A notification reads from the instance it names exactly if the first definition with
the object identifier lists it**, or nothing can be read and sent: the client is not
registered, there is no such definition, the first one has no such resource or no callback
for it, the callback fails, or the value does not fit the payload. -/
theorem notify_reads_instance_iff (fp : FloatOps) (w : World σ κ ψ) (objId instId resId : UInt16)
    (app : σ) (postErr : EspErr) :
    ReadsInstance fp w objId instId resId app postErr ↔
      ((∃ obj payload, ReadsFrom fp w objId instId resId app obj payload) →
        FirstLists w.client.objects objId instId) := by
  rw [ReadsInstance]
  rcases hnotify : w.notify fp objId instId resId app postErr with ⟨err, w'⟩
  have hnotifies := notifies_notify fp w objId instId resId app postErr
  rw [hnotify] at hnotifies
  cases hnotifies with
  | sent obj payload hread =>
    obtain ⟨cb, value, hfrom, -⟩ := hread.read
    have hfirst := find_of_readFrom hfrom
    have hid : obj.id = objId := by simpa using List.find?_some hfirst
    have hmem : obj ∈ w.client.objects := List.mem_of_find?_eq_some hfirst
    constructor
    · rintro ⟨hsent, -⟩ - obj' hobj'
      obtain rfl := Option.some.inj (hfirst.symm.trans hobj')
      obtain ⟨obj', -, -, hinst, payload', hread', -⟩ := hsent (List.cons_ne_self _ _)
      obtain ⟨cb', value', hfrom', -⟩ := hread'.read
      obtain ⟨rfl, -⟩ := Prod.mk.inj (Option.some.inj (hfrom.symm.trans hfrom'))
      exact hinst
    · intro hlists
      have hinst := hlists ⟨obj, payload, hread⟩ obj hfirst
      exact ⟨fun _ => ⟨obj, hmem, hid, hinst, payload, hread, rfl⟩,
        fun hnone => absurd hinst (hnone obj hmem hid)⟩
  | refused _ herr hread =>
    refine iff_of_true ⟨fun h => absurd rfl h, fun _ => ⟨herr, rfl⟩⟩ ?_
    rintro ⟨obj, payload, h⟩
    exact absurd h (hread obj payload)

/-- A definition of object 1 for one instance, with a value for its resource 0. -/
def serverObject (instId : UInt16) (value : Int64) : ObjectDef Unit Unit where
  id := 1
  instances := [instId]
  resources := [⟨0, .integer, 1, false, some fun _ _ _ _ _ => ((.ok, .integer value), ())⟩]
  userCtx := ()

/-- **The value of another instance is sent**: of two definitions of object 1, one for the
instance 0 and one for the instance 1, a notification of `/1/1/0` reads from the first. -/
theorem notify_reads_other_instance : ∃ w : World Unit Unit Unit,
    run (step ieee754) (World.initial sampleClient)
      (.addObject (serverObject 0 7) :: .addObject (serverObject 1 8) :: registerActions) =
        some w ∧
      (w.notify ieee754 1 1 0 () .ok).2.log = .coapPost w.client.coap (ascii "/1/1/0")
        (some (ascii "[\x7b\"bn\":\"/1/1/\",\"n\":\"0\",\"v\":7\x7d]")) .json .ok :: w.log ∧
      ¬ReadsInstance ieee754 w 1 1 0 () .ok := by
  obtain ⟨w, hrun⟩ : ∃ w : World Unit Unit Unit, run (step ieee754) (World.initial sampleClient)
      (.addObject (serverObject 0 7) :: .addObject (serverObject 1 8) :: registerActions) =
    some w := ⟨_, rfl⟩
  have hlog : (w.notify ieee754 1 1 0 () .ok).2.log = .coapPost w.client.coap (ascii "/1/1/0")
      (some (ascii "[\x7b\"bn\":\"/1/1/\",\"n\":\"0\",\"v\":7\x7d]")) .json .ok :: w.log := by
    obtain rfl := Option.some.inj hrun
    rfl
  have hobjects : w.client.objects = [serverObject 0 7, serverObject 1 8] := by
    obtain rfl := Option.some.inj hrun
    rfl
  refine ⟨w, hrun, hlog, fun h => ?_⟩
  have hsent : (w.notify ieee754 1 1 0 () .ok).2.log ≠ w.log := by
    rw [hlog]
    exact List.cons_ne_self _ _
  obtain ⟨obj, -, -, hinst, payload, hread, -⟩ := h.1 hsent
  obtain ⟨cb, value, hfrom, -⟩ := hread.read
  have hfirst := find_of_readFrom hfrom
  rw [hobjects] at hfirst
  obtain rfl := Option.some.inj hfirst
  exact absurd hinst (by decide)

end WbLwm2m

import WbLwm2m.LinkRoundTrip
import WbLwm2m.Payload

/-!
# The Security object in the registration

A registration lists the instances of the objects of the client, but those of the Security
object (identifier `0`) are nobody's business: the payloads the comments of the code show
begin with `</1/0>`. The encoder knows nothing of this. It lists every object it is given,
and nothing between `wb_lwm2m_add_object` and the post takes one away.

So the Security object is advertised exactly if it has been added with an instance
(`WbLwm2m.security_hidden_iff`). What has been added is a history variable of the run
(`WbLwm2m.accepted`), compared with the table of the client on the way.
-/

namespace WbLwm2m

open World Transition

variable {σ κ ψ : Type} {w w' : World σ κ ψ} {a : Action σ κ} {fp : FloatOps}

/-! ### What should be listed -/

/-- `WB_LWM2M_OBJ_SECURITY` -/
def objSecurity : UInt16 := 0

/-- **The payload hides the Security object**, and nothing else: it lists all instances of
the other objects. -/
def HidesSecurity (objects : List (ObjectDef σ κ)) (payload : Text) : Prop :=
  ∃ links, readLinks payload = some links ∧
    (∀ obj ∈ objects, obj.id ≠ objSecurity → ∀ instId ∈ obj.instances,
      (obj.id.toNat, instId.toNat) ∈ links) ∧
    ∀ instId, (objSecurity.toNat, instId) ∉ links

/-- No Security object has an instance. -/
def NoSecurityInstance (objects : List (ObjectDef σ κ)) : Prop :=
  ∀ obj ∈ objects, obj.id = objSecurity → obj.instances = []

theorem mem_objectLinks {objects : List (ObjectDef σ κ)} {link : UInt16 × UInt16} :
    link ∈ objectLinks objects ↔ ∃ obj ∈ objects, obj.id = link.1 ∧ link.2 ∈ obj.instances := by
  simp only [objectLinks, List.mem_flatMap, List.mem_map]
  constructor
  · rintro ⟨obj, hobj, instId, hinst, rfl⟩
    exact ⟨obj, hobj, rfl, hinst⟩
  · rintro ⟨obj, hobj, hid, hinst⟩
    exact ⟨obj, hobj, link.2, hinst, Prod.ext hid rfl⟩

/-- **The text of all links hides the Security object exactly if there is nothing to
hide.** -/
theorem hidesSecurity_linksText_iff {objects : List (ObjectDef σ κ)} :
    HidesSecurity objects (linksText true (objectLinks objects)) ↔ NoSecurityInstance objects := by
  have hread := readLinks_linksText (objectLinks objects)
  constructor
  · rintro ⟨links, hlinks, -, hhidden⟩ obj hobj hid
    obtain rfl := Option.some.inj (hread.symm.trans hlinks)
    refine List.eq_nil_iff_forall_not_mem.mpr fun instId hinst => ?_
    refine hhidden instId.toNat (List.mem_map.mpr ⟨(obj.id, instId), ?_, ?_⟩)
    · exact mem_objectLinks.mpr ⟨obj, hobj, rfl, hinst⟩
    · rw [hid]
  · intro hnone
    refine ⟨_, hread, fun obj hobj _ instId hinst => ?_, fun n hmem => ?_⟩
    · exact List.mem_map.mpr ⟨(obj.id, instId), mem_objectLinks.mpr ⟨obj, hobj, rfl, hinst⟩, rfl⟩
    · obtain ⟨link, hlink, heq⟩ := List.mem_map.mp hmem
      obtain ⟨obj, hobj, hid, hinst⟩ := mem_objectLinks.mp hlink
      have hzero : link.1 = objSecurity := UInt16.toNat_inj.mp (Prod.mk.inj heq).1
      rw [hnone obj hobj (hid.trans hzero)] at hinst
      exact absurd hinst List.not_mem_nil

/-! ### What is posted -/

/-- The payloads of the registrations that have been posted. -/
def advertised : List (Entry ψ) → List Text
  | [] => []
  | .coapPost _ _ (some payload) .linkFormat _ :: log => payload :: advertised log
  | _ :: log => advertised log

@[simp] theorem advertised_cons {e : Entry ψ} (he : e.topic ≠ .request) (log : List (Entry ψ)) :
    advertised (e :: log) = advertised log := by
  cases e <;> first | rfl | exact absurd rfl he

@[simp] theorem advertised_dispatchEvent (w : World σ κ ψ) (type : EventType) :
    advertised (w.dispatchEvent type).log = advertised w.log :=
  apply_dispatchEvent w type fun _ _ => rfl

@[simp] theorem advertised_stopUpdateTimer (w : World σ κ ψ) :
    advertised w.stopUpdateTimer.log = advertised w.log :=
  apply_stopUpdateTimer w (fun _ _ => rfl) fun _ _ => rfl

@[simp] theorem advertised_startUpdateTimer (w : World σ κ ψ) (created : Bool) :
    advertised (w.startUpdateTimer created).log = advertised w.log :=
  apply_startUpdateTimer w created (fun _ _ => rfl) (fun _ _ => rfl) (fun _ _ _ => rfl)
    fun _ _ => rfl

@[simp] theorem advertised_stopEnd (w : World σ κ ψ) :
    advertised w.stopEnd.log = advertised w.log :=
  apply_stopEnd w (fun _ _ => rfl) fun _ _ => rfl

@[simp] theorem advertised_destroyEnd (w : World σ κ ψ) :
    advertised w.destroyEnd.log = advertised w.log :=
  (apply_releaseTimer w.releaseCoap fun _ _ => rfl).trans (apply_releaseCoap w fun _ _ => rfl)

/-- The actions after which the client calls `send_registration`: it is connected, or the
server has refused an update. -/
def Action.Registering (w : World σ κ ψ) : Action σ κ → Prop
  | .event .connected _ _ => True
  | .event (.response (some resp)) _ _ => w.client.state = .updating ∧ resp.code ≠ .changed
  | _ => False

theorem Registers.advertised_eq {err : EspErr} (h : Registers w err w') :
    advertised w'.log = (linkPayload w.client.objects).toList ++ advertised w.log := by
  cases h with
  | posted payload hpayload =>
    rw [hpayload]
    rfl
  | noPayload hpayload =>
    rw [hpayload]
    rfl

/-- **What a step posts**: the payload of the objects, in a step that registers, and
nothing in any other. -/
theorem advertised_of_effect (h : Effect w a w') :
    (a.Registering w ∧
      advertised w'.log = (linkPayload w.client.objects).toList ++ advertised w.log) ∨
      ¬a.Registering w ∧ advertised w'.log = advertised w.log := by
  cases h with
  | connected hw' =>
    refine Or.inl ⟨trivial, ?_⟩
    rw [hw'.advertised_eq]
    simp
  | updateRejected hstate hcode hw' =>
    refine Or.inl ⟨⟨hstate, hcode⟩, ?_⟩
    rw [hw'.advertised_eq]
    rfl
  | updateRefused ha =>
    rcases ha with rfl | ⟨t, -, rfl⟩
    · exact Or.inr ⟨id, rfl⟩
    · exact Or.inr ⟨id, rfl⟩
  | updateSent ha =>
    rcases ha with rfl | ⟨t, -, rfl⟩
    · exact Or.inr ⟨id, rfl⟩
    · exact Or.inr ⟨id, rfl⟩
  | stopWaits api inDestroy ha =>
    rcases ha with ⟨rfl, -⟩ | ⟨rfl, -⟩
    · exact Or.inr ⟨id, by simp [advertised]⟩
    · exact Or.inr ⟨id, by simp [advertised]⟩
  -- the other answers to a registration or to an update
  | registered hstate | rejected hstate | deregistered hstate =>
    refine Or.inr ⟨fun h => ?_, by simp⟩
    exact absurd (hstate.symm.trans h.1) (by decide)
  | ignored hreg hupd => exact Or.inr ⟨fun h => hupd h.1, by simp⟩
  | updated hstate hcode => exact Or.inr ⟨fun h => h.2 hcode, by simp⟩
  | notified => exact Or.inr ⟨id, rfl⟩
  | _ => exact Or.inr ⟨id, by simp⟩

/-! ### What has been added -/

/-- The objects that have been accepted so far, in order. -/
def accepted (objects : List (ObjectDef σ κ)) (w : World σ κ ψ) (a : Action σ κ)
    (_ : World σ κ ψ) : List (ObjectDef σ κ) :=
  match a with
  | .addObject obj => if (w.addObject obj).1 = .ok then objects ++ [obj] else objects
  | _ => objects

/-- No other step changes the table. -/
theorem objects_of_effect (h : Effect w a w') (ha : ∀ obj, a ≠ .addObject obj) :
    w'.client.objects = w.client.objects := by
  cases h with
  | addRefused => rfl
  | added => exact absurd rfl (ha _)
  | connected hw' =>
    rw [hw'.client_eq]
    simp
  | updateRejected hstate hcode hw' =>
    rw [hw'.client_eq]
    rfl
  | _ => simp

/-- **The table of the client** holds what has been accepted. -/
theorem objects_of_step (h : step fp w a = some w') :
    w'.client.objects = accepted w.client.objects w a w' := by
  cases a with
  | addObject obj =>
    rw [step] at h
    split at h
    · cases h
    · obtain rfl := Option.some.inj h
      rw [accepted, addObject]
      split
      · rfl
      · split
        · rfl
        · rfl
  | _ =>
    refine objects_of_effect (effect_of_step h) ?_
    rintro _ ⟨⟩

/-! ### Registrations along a run -/

/-- Every registration that a step posts hides the Security object among the given
objects. -/
def PostsHidden (objects : List (ObjectDef σ κ)) (w w' : World σ κ ψ) : Prop :=
  ∀ payloads, advertised w'.log = payloads ++ advertised w.log →
    ∀ payload ∈ payloads, HidesSecurity objects payload

/-- **The step**: what is posted hides the Security object exactly if, when the objects are
posted at all, none of them is a Security object with an instance. -/
theorem postsHidden_step_iff (h : Effect w a w') :
    PostsHidden w.client.objects w w' ↔
      (a.Registering w → ((objectLinks w.client.objects).map linkLength).sum ≤ 512 →
        NoSecurityInstance w.client.objects) := by
  have hpayload := linkPayload_eq w.client.objects
  rcases advertised_of_effect h with ⟨hreg, hposts⟩ | ⟨hreg, hposts⟩
  · by_cases hfits : ((objectLinks w.client.objects).map linkLength).sum ≤ 512
    · rw [if_pos hfits] at hpayload
      rw [hpayload] at hposts
      rw [← hidesSecurity_linksText_iff]
      constructor
      · intro hhidden _ _
        exact hhidden _ hposts _ List.mem_cons_self
      · intro hhidden payloads hpayloads payload hmem
        obtain rfl := List.append_cancel_right (hpayloads.symm.trans hposts)
        obtain rfl := List.mem_singleton.mp hmem
        exact hhidden hreg hfits
    · rw [if_neg hfits] at hpayload
      rw [hpayload] at hposts
      refine iff_of_true (fun payloads hpayloads payload hmem => ?_) fun _ h => absurd h hfits
      obtain rfl := List.append_cancel_right (hpayloads.symm.trans hposts)
      exact absurd hmem List.not_mem_nil
  · refine iff_of_true (fun payloads hpayloads payload hmem => ?_) fun h => absurd h hreg
    obtain rfl : payloads = [] := List.append_cancel_right (hpayloads.symm.trans hposts)
    exact absurd hmem List.not_mem_nil

/-- **The Security object is hidden exactly if it has no instance.** In every run, all
registrations list the instances of the accepted objects without those of the Security
object, if and only if, whenever the client registers and the links fit the payload, no
accepted object with identifier `0` has an instance. -/
theorem security_hidden_iff {config : ClientConfig ψ} {c : Client σ κ ψ}
    (hinit : init config = some c) (as : List (Action σ κ)) :
    Along (withHistory (step fp) accepted) (fun s _ s' => PostsHidden s.2 s.1 s'.1)
        (World.initial c, []) as ↔
      Along (withHistory (step fp) accepted)
        (fun s a _ => a.Registering s.1 → ((objectLinks s.2).map linkLength).sum ≤ 512 →
          NoSecurityInstance s.2)
        (World.initial c, []) as := by
  refine along_step_iff (J := fun s => s.1.client.objects = s.2) (fun s a s' hJ h => ?_)
    (fun s a s' hJ h => ?_) ?_ as
  · obtain ⟨hstep, hhistory⟩ := withHistory_eq_some.mp h
    rw [objects_of_step hstep, hJ, hhistory]
  · rw [← hJ]
    exact postsHidden_step_iff (effect_of_step (withHistory_eq_some.mp h).1)
  · have hmade := congrArg Client.objects (asMade_init hinit)
    exact hmade.symm

/-- A client with a Device object only has nothing to hide. -/
theorem security_hidden_iff_sample :
    Along (withHistory (step ieee754) accepted) (fun s _ s' => PostsHidden s.2 s.1 s'.1)
      (World.initial sampleClient, [])
      [.addObject sampleObject, .start true .ok, .event .connected .ok true] := by
  refine (security_hidden_iff init_sampleConfig _).mpr ?_
  intro s₁ h₁
  obtain rfl := Option.some.inj h₁
  refine ⟨fun h => h.elim, ?_⟩
  intro s₂ h₂
  obtain rfl := Option.some.inj h₂
  refine ⟨fun h => h.elim, ?_⟩
  intro s₃ _
  refine ⟨fun _ _ obj hobj hid => ?_, trivial⟩
  obtain rfl := List.mem_singleton.mp hobj
  exact absurd hid (by decide)

/-- The Security object of the example program, as far as a registration looks at it. -/
def securityObject : ObjectDef Unit Unit where
  id := objSecurity
  instances := [0]
  resources := []
  userCtx := ()

/-- **The Security object is advertised**: it is added beside the Device object, and the
registration begins with `</0/0>`. -/
theorem security_object_advertised : ∃ s s',
    run (withHistory (step ieee754) accepted) (World.initial sampleClient, [])
        [.addObject securityObject, .addObject sampleObject, .start true .ok] = some s ∧
      s.2 = [securityObject, sampleObject] ∧
      withHistory (step ieee754) accepted s (.event .connected .ok true) = some s' ∧
      advertised s'.1.log = [ascii "</0/0>,</3/0>"] ∧ ¬PostsHidden s.2 s.1 s'.1 := by
  obtain ⟨s, hrun⟩ : ∃ s, run (withHistory (step ieee754) accepted)
      (World.initial sampleClient, [])
      [.addObject securityObject, .addObject sampleObject, .start true .ok] = some s := ⟨_, rfl⟩
  obtain ⟨s', hstep⟩ : ∃ s', withHistory (step ieee754) accepted s
      (.event .connected .ok true) = some s' := by
    obtain rfl := Option.some.inj hrun
    exact ⟨_, rfl⟩
  have hs : s.2 = [securityObject, sampleObject] ∧ s.1.client.objects = s.2 := by
    obtain rfl := Option.some.inj hrun
    exact ⟨rfl, rfl⟩
  have hposts : advertised s'.1.log = [ascii "</0/0>,</3/0>"] := by
    obtain rfl := Option.some.inj hrun
    obtain rfl := Option.some.inj hstep
    rfl
  refine ⟨s, s', hrun, hs.1, hstep, hposts, fun hhidden => ?_⟩
  rw [← hs.2, postsHidden_step_iff (effect_of_step (withHistory_eq_some.mp hstep).1), hs.2,
    hs.1] at hhidden
  have hempty := hhidden trivial (by decide) securityObject List.mem_cons_self rfl
  cases hempty

end WbLwm2m

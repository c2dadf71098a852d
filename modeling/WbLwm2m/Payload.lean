import Mathlib.Algebra.Order.BigOperators.Group.List
import WbLwm2m.LinkText
import WbLwm2m.Log

/-!
# The payload of a registration

A client takes up to sixteen objects, and an object has up to four instances, but all their
links have to fit the 512 bytes of the payload of the registration request. Thirty-four
links always do (`WbLwm2m.registrable_of_length_le`); sixty-four do not if the identifiers
are long. Whether the objects of a client can be registered depends on the number of digits
of all their identifiers together, and on nothing else (`WbLwm2m.registrable_iff`).
-/

namespace WbLwm2m

open Memory Transition World

variable {σ κ ψ : Type}

/-! ### The length of the text -/

/-- The characters of a link and its comma: five, and the digits of both identifiers. -/
def linkLength (link : UInt16 × UInt16) : ℕ :=
  5 + (Nat.log 10 link.1.toNat + 1) + (Nat.log 10 link.2.toNat + 1)

theorem length_linkText (first : Bool) (link : UInt16 × UInt16) :
    (linkText first link.1 link.2).length + (if first then 1 else 0) = linkLength link := by
  have hopen : (ascii "</").length = 2 := rfl
  have hslash : (ascii "/").length = 1 := rfl
  have hclose : (ascii ">").length = 1 := rfl
  rw [linkText, linkLength]
  simp only [List.length_append, fmtU16, Decimal.length_ofNat, hopen, hslash, hclose]
  cases first with
  | false =>
    have hcomma : (ascii ",").length = 1 := rfl
    rw [if_neg Bool.false_ne_true, if_neg Bool.false_ne_true, hcomma]
    omega
  | true =>
    rw [if_pos rfl, if_pos rfl, List.length_nil]
    omega

theorem length_linksText_false (links : List (UInt16 × UInt16)) :
    (linksText false links).length = (links.map linkLength).sum := by
  induction links with
  | nil => rfl
  | cons link rest ih =>
    have hlink := length_linkText false link
    rw [if_neg Bool.false_ne_true, Nat.add_zero] at hlink
    rw [linksText, List.length_append, ih, hlink, List.map_cons, List.sum_cons]

/-- The first link has no comma. -/
theorem length_linksText (links : List (UInt16 × UInt16)) :
    (linksText true links).length = (links.map linkLength).sum - 1 := by
  cases links with
  | nil => rfl
  | cons link rest =>
    have hlink := length_linkText true link
    rw [if_pos rfl] at hlink
    rw [linksText, List.length_append, length_linksText_false, List.map_cons, List.sum_cons,
      ← hlink]
    omega

/-- An identifier has at most five digits. -/
theorem linkLength_le (link : UInt16 × UInt16) : linkLength link ≤ 15 := by
  have hdigits (v : UInt16) : Nat.log 10 v.toNat < 5 := by
    by_cases hv : v.toNat = 0
    · rw [hv, Nat.log_zero_right]
      decide
    · have hlt : v.toNat < 2 ^ 16 := v.toNat_lt
      exact Nat.log_lt_of_lt_pow hv (by omega)
  have hobj := hdigits link.1
  have hinst := hdigits link.2
  rw [linkLength]
  omega

/-! ### The payload -/

/-- The payload is the text of the links, or there is none. -/
theorem linkPayload_eq (objects : List (ObjectDef σ κ)) :
    linkPayload objects =
      if ((objectLinks objects).map linkLength).sum ≤ 512 then
        some (linksText true (objectLinks objects))
      else none := by
  have hlen := length_linksText (objectLinks objects)
  rw [linkPayload]
  split
  · next heq =>
    rw [if_neg]
    intro hle
    have hlt : (linksText true (objectLinks objects)).length < 512 := by omega
    cases heq.symm.trans (encodeLinkFormat_of_lt (fun _ => 0) hlt)
  · next linkBuf linkLen heq =>
    by_cases hle : ((objectLinks objects).map linkLength).sum ≤ 512
    · have hlt : (linksText true (objectLinks objects)).length < 512 := by omega
      obtain ⟨rfl, hl⟩ := Prod.mk.inj (heq.symm.trans (encodeLinkFormat_of_lt (fun _ => 0) hlt))
      obtain rfl := Option.some.inj hl
      rw [if_pos hle, load_store_append]
    · have hge : 512 ≤ (linksText true (objectLinks objects)).length := by omega
      have hnone : (encodeLinkFormat objects (fun _ => 0) 0 512).2 = none :=
        encodeLinkFormat_of_ge _ hge
      rw [heq] at hnone
      cases hnone

/-! ### Adding objects and registering them -/

namespace World

/-- Add some objects, all of which are accepted. -/
def addObjects (w : World σ κ ψ) : List (ObjectDef σ κ) → Option (World σ κ ψ)
  | [] => some w
  | obj :: rest => match w.addObject obj with
    | (.ok, w) => w.addObjects rest
    | _ => none

theorem addObject_eq_ok {w w' : World σ κ ψ} {obj : ObjectDef σ κ}
    (h : w.addObject obj = (.ok, w')) : w'.client.objects = w.client.objects ++ [obj] := by
  rw [addObject] at h
  split at h
  · cases h
  · split at h
    · cases h
    · obtain ⟨-, rfl⟩ := Prod.mk.inj h
      rfl

/-- What has been accepted is registered after what was there. -/
theorem objects_of_addObjects {w w' : World σ κ ψ} {objects : List (ObjectDef σ κ)}
    (h : w.addObjects objects = some w') :
    w'.client.objects = w.client.objects ++ objects := by
  induction objects generalizing w with
  | nil =>
    obtain rfl := Option.some.inj h
    exact (List.append_nil _).symm
  | cons obj rest ih =>
    rw [addObjects] at h
    split at h
    · next v hv => rw [ih h, addObject_eq_ok hv, List.append_assoc, List.singleton_append]
    · cases h

/-- **The objects of the client can be registered**: whatever else the client has come to,
the payload of a registration has all their links, and the registration fails only if its
request does. -/
def Registrable (w : World σ κ ψ) : Prop :=
  ∀ (v : World σ κ ψ) (postErr : EspErr), v.client.objects = w.client.objects →
    (v.sendRegistration postErr).1 = postErr ∧
      (v.sendRegistration postErr).2.log = .coapPost v.client.coap (regPath v.client)
        (some (linksText true (objectLinks w.client.objects))) .linkFormat postErr :: v.log

end World

theorem sendRegistration_of_none {v : World σ κ ψ} (h : linkPayload v.client.objects = none)
    (postErr : EspErr) : (v.sendRegistration postErr).1 = .fail := by
  have hsame : linkPayload (v.setState .registering).client.objects = none := h
  rw [World.sendRegistration]
  simp only [hsame]

theorem sendRegistration_of_some {v : World σ κ ψ} {payload : Text}
    (h : linkPayload v.client.objects = some payload) (postErr : EspErr) :
    (v.sendRegistration postErr).1 = postErr ∧
      (v.sendRegistration postErr).2.log =
        .coapPost v.client.coap (regPath v.client) (some payload) .linkFormat postErr :: v.log := by
  have hsame : linkPayload (v.setState .registering).client.objects = some payload := h
  rw [World.sendRegistration]
  simp only [hsame]
  split
  · exact ⟨rfl, rfl⟩
  · next hok => exact ⟨(not_not.mp hok).symm, rfl⟩

theorem registrable_iff_sum_le (w : World σ κ ψ) :
    w.Registrable ↔ ((objectLinks w.client.objects).map linkLength).sum ≤ 512 := by
  have hpayload := linkPayload_eq w.client.objects
  constructor
  · intro h
    by_contra hsum
    rw [if_neg hsum] at hpayload
    have hfail := sendRegistration_of_none hpayload .ok
    rw [(h w .ok rfl).1] at hfail
    cases hfail
  · intro hsum v postErr hv
    rw [if_pos hsum, ← hv] at hpayload
    rw [← hv]
    exact sendRegistration_of_some hpayload postErr

/-- **Thirty-four links always fit.** -/
theorem registrable_of_length_le {w : World σ κ ψ}
    (h : (objectLinks w.client.objects).length ≤ 34) : w.Registrable := by
  refine (registrable_iff_sum_le w).mpr ?_
  have hsum : ((objectLinks w.client.objects).map linkLength).sum ≤
      ((objectLinks w.client.objects).map linkLength).length • 15 := by
    refine List.sum_le_card_nsmul _ _ fun n hn => ?_
    obtain ⟨link, -, rfl⟩ := List.mem_map.mp hn
    exact linkLength_le link
  rw [List.length_map, Nat.nsmul_eq_mul] at hsum
  omega

/-- **The objects that a client has accepted can be registered exactly if the digits of all
their identifiers**, with five characters more for each instance, come to 512 at most. -/
theorem registrable_iff {w w' : World σ κ ψ} {objects : List (ObjectDef σ κ)}
    (hadd : w.addObjects objects = some w') :
    w'.Registrable ↔
      ((objectLinks (w.client.objects ++ objects)).map linkLength).sum ≤ 512 := by
  rw [registrable_iff_sum_le, World.objects_of_addObjects hadd]

/-- An object with four instances and long identifiers. -/
def largeObject (id : UInt16) : ObjectDef Unit Unit where
  id := id
  instances := [10000, 10001, 10002, 10003]
  resources := []
  userCtx := ()

/-- Two such objects can be registered. -/
theorem registrable_iff_sample : ∃ w : World Unit Unit Unit,
    (World.initial sampleClient).addObjects [largeObject 30000, largeObject 30001] = some w ∧
      w.Registrable := by
  obtain ⟨w, hadd⟩ : ∃ w : World Unit Unit Unit, (World.initial sampleClient).addObjects
    [largeObject 30000, largeObject 30001] = some w := ⟨_, rfl⟩
  exact ⟨w, hadd, (registrable_iff hadd).mpr (by decide)⟩

/-- Nine objects, with different identifiers. -/
def nineObjects : List (ObjectDef Unit Unit) :=
  [30000, 30001, 30002, 30003, 30004, 30005, 30006, 30007, 30008].map largeObject

/-- **Nine large objects are accepted and cannot be registered**: when the client connects,
it goes into the error state, without a word to the application. -/
theorem nine_objects_not_registrable : ∃ w w' : World Unit Unit Unit,
    (World.initial sampleClient).addObjects nineObjects = some w ∧
      (∀ obj ∈ nineObjects, obj.instances.length ≤ 4) ∧ ¬w.Registrable ∧
      run (step ieee754) w [.start true .ok, .event .connected .ok true] = some w' ∧
      w'.client.state = .error ∧ dispatched w'.log = [.connected] := by
  obtain ⟨w, hadd⟩ : ∃ w : World Unit Unit Unit,
    (World.initial sampleClient).addObjects nineObjects = some w := ⟨_, rfl⟩
  obtain ⟨w', hrun⟩ : ∃ w' : World Unit Unit Unit,
      run (step ieee754) w [.start true .ok, .event .connected .ok true] = some w' := by
    obtain rfl := Option.some.inj hadd
    exact ⟨_, rfl⟩
  have hnot : ¬w.Registrable := by
    rw [registrable_iff_sum_le, World.objects_of_addObjects hadd]
    decide
  have hend : w'.client.state = .error ∧ dispatched w'.log = [.connected] := by
    obtain rfl := Option.some.inj hadd
    obtain rfl := Option.some.inj hrun
    decide +kernel
  exact ⟨w, w', hadd, by decide, hnot, hrun, hend⟩

end WbLwm2m

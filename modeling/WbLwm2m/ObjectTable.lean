import WbLwm2m.Advertised

/-!
# The table of objects

What `wb_lwm2m_add_object` has accepted is what a registration lists. The table has room for
`WB_LWM2M_MAX_OBJECTS`, is added to at its end by an idle client, and never changes
otherwise; and each registration that a step posts can be read back as the links of the
objects that have been accepted up to then (`WbLwm2m.registrations_list_accepted`).
-/

namespace WbLwm2m

open World Transition

variable {σ κ ψ : Type} {w w' : World σ κ ψ} {a : Action σ κ} {fp : FloatOps}

/-- The table has room for what it holds. -/
theorem length_accepted {objects : List (ObjectDef σ κ)} (hobjects : w.client.objects = objects)
    (hlen : objects.length ≤ 16) : (accepted objects w a w').length ≤ 16 := by
  cases a with
  | addObject obj =>
    rw [accepted]
    split
    · next hok =>
      rw [addObject, hobjects] at hok
      split at hok
      · cases hok
      · next hroom =>
        rw [List.length_append, List.length_singleton]
        omega
    · exact hlen
  | _ => exact hlen

theorem prefix_accepted {objects : List (ObjectDef σ κ)} :
    objects <+: accepted objects w a w' := by
  cases a with
  | addObject obj =>
    rw [accepted]
    split
    · exact List.prefix_append _ _
    · exact List.prefix_refl _
  | _ => exact List.prefix_refl _

/-- **The registration of a step**: there is one exactly in a step that registers objects
that fit, and it lists the objects. -/
def ListsObjects (objects : List (ObjectDef σ κ)) (w : World σ κ ψ) (a : Action σ κ)
    (w' : World σ κ ψ) : Prop :=
  ∃ payloads, advertised w'.log = payloads ++ advertised w.log ∧ payloads.length ≤ 1 ∧
    (payloads ≠ [] ↔
      a.Registering w ∧ ((objectLinks objects).map linkLength).sum ≤ 512) ∧
    ∀ payload ∈ payloads, readLinks payload =
      some ((objectLinks objects).map fun link => (link.1.toNat, link.2.toNat))

theorem listsObjects_of_effect (h : Effect w a w') : ListsObjects w.client.objects w a w' := by
  have hpayload := linkPayload_eq w.client.objects
  rcases advertised_of_effect h with ⟨hreg, hposts⟩ | ⟨hreg, hposts⟩
  · by_cases hfits : ((objectLinks w.client.objects).map linkLength).sum ≤ 512
    · rw [hpayload, if_pos hfits] at hposts
      refine ⟨_, hposts, Nat.le_refl 1, ?_, fun payload hmem => ?_⟩
      · exact iff_of_true (List.cons_ne_nil _ _) ⟨hreg, hfits⟩
      · obtain rfl := List.mem_singleton.mp hmem
        exact readLinks_linksText _
    · rw [hpayload, if_neg hfits] at hposts
      refine ⟨[], hposts, Nat.zero_le 1, ?_, fun _ hmem => absurd hmem List.not_mem_nil⟩
      exact iff_of_false (fun h => h rfl) fun h => hfits h.2
  · refine ⟨[], hposts, Nat.zero_le 1, ?_, fun _ hmem => absurd hmem List.not_mem_nil⟩
    exact iff_of_false (fun h => h rfl) fun h => hreg h.1

/-- **Registrations list what has been accepted.** In every step of every run, the table of
the client holds the objects that have been accepted so far, at most sixteen, in the order
in which they were added, and only grows at its end; and a registration is posted exactly if
the client is connected or an update is refused, with objects that fit, where it lists the
identifiers of all instances of these objects in order, and of no other. -/
theorem registrations_list_accepted {config : ClientConfig ψ} {c : Client σ κ ψ}
    (hinit : init config = some c) (as : List (Action σ κ)) :
    Along (withHistory (step fp) accepted)
      (fun s a s' => s'.1.client.objects = s'.2 ∧ s'.2.length ≤ 16 ∧ s.2 <+: s'.2 ∧
        ListsObjects s.2 s.1 a s'.1)
      (World.initial c, []) as := by
  refine along_of_invariant (J := fun s => s.1.client.objects = s.2 ∧ s.2.length ≤ 16)
    (fun s a s' hs h => ?_) (fun s a s' hs h => ?_) ?_ as
  · obtain ⟨hstep, hhistory⟩ := withHistory_eq_some.mp h
    rw [hhistory]
    refine ⟨?_, length_accepted hs.1 hs.2⟩
    rw [objects_of_step hstep, hs.1]
  · obtain ⟨hstep, hhistory⟩ := withHistory_eq_some.mp h
    rw [hhistory]
    refine ⟨?_, length_accepted hs.1 hs.2, prefix_accepted, ?_⟩
    · rw [objects_of_step hstep, hs.1]
    · rw [← hs.1]
      exact listsObjects_of_effect (effect_of_step hstep)
  · have hmade := congrArg Client.objects (asMade_init hinit)
    exact ⟨hmade.symm, Nat.zero_le 16⟩

/-- The objects of a run that adds, connects, and fails to add another. -/
theorem registrations_list_accepted_sample :
    Along (withHistory (step ieee754) accepted)
      (fun s a s' => s'.1.client.objects = s'.2 ∧ s'.2.length ≤ 16 ∧ s.2 <+: s'.2 ∧
        ListsObjects s.2 s.1 a s'.1)
      (World.initial sampleClient, [])
      [.addObject sampleObject, .start true .ok, .event .connected .ok true,
        .addObject sampleObject] :=
  registrations_list_accepted init_sampleConfig _

end WbLwm2m

import WbLwm2m.LinkFormat

/-!
# What the link-format encoder prints

The two loops of `wb_lwm2m_encode_link_format` go over the links of the objects: the pairs
of an object identifier and an instance identifier, in the order of the objects and of
their instances (`WbLwm2m.objectLinks`). So they are one loop over this list
(`WbLwm2m.linkLoop`), and what it prints is one text (`WbLwm2m.linksText`), or nothing, when
the text and its terminator do not fit.
-/

namespace WbLwm2m

open Memory

variable {σ κ : Type} {buf bufSize : ℕ}

/-- The links of the objects. -/
def objectLinks (objects : List (ObjectDef σ κ)) : List (UInt16 × UInt16) :=
  objects.flatMap fun obj => obj.instances.map fun instId => (obj.id, instId)

/-- The text of some links. -/
def linksText (first : Bool) : List (UInt16 × UInt16) → List UInt8
  | [] => []
  | link :: rest => linkText first link.1 link.2 ++ linksText false rest

/-- The loop over the links. -/
def linkLoop (buf bufSize : ℕ) :
    List (UInt16 × UInt16) → Mem → ℕ → Bool → Mem × Option (ℕ × Bool)
  | [], m, offset, first => (m, some (offset, first))
  | link :: rest, m, offset, first =>
    let (m, written) :=
      snprintf m (buf + offset) (bufSize - offset) (linkText first link.1 link.2)
    if bufSize - offset ≤ written then (m, none)
    else linkLoop buf bufSize rest m (offset + written) false

/-! ### Two loops are one -/

theorem linkInstanceLoop_eq (objId : UInt16) (instances : List UInt16) (m : Mem) (offset : ℕ)
    (first : Bool) :
    linkInstanceLoop objId buf bufSize instances m offset first =
      linkLoop buf bufSize (instances.map fun instId => (objId, instId)) m offset first := by
  induction instances generalizing m offset first with
  | nil => rfl
  | cons instId rest ih =>
    rw [linkInstanceLoop, List.map_cons, linkLoop]
    simp only [snprintf_snd]
    by_cases hlink : bufSize - offset ≤ (linkText first objId instId).length
    · rw [if_pos hlink, if_pos hlink]
    · rw [if_neg hlink, if_neg hlink]
      exact ih _ _ _

/-- The loop over two lists of links is the one after the other. -/
theorem linkLoop_append (links links' : List (UInt16 × UInt16)) (m : Mem) (offset : ℕ)
    (first : Bool) :
    linkLoop buf bufSize (links ++ links') m offset first =
      match linkLoop buf bufSize links m offset first with
      | (m, none) => (m, none)
      | (m, some (offset, first)) => linkLoop buf bufSize links' m offset first := by
  induction links generalizing m offset first with
  | nil => rfl
  | cons link rest ih =>
    rw [List.cons_append, linkLoop, linkLoop]
    simp only [snprintf_snd]
    by_cases hlink : bufSize - offset ≤ (linkText first link.1 link.2).length
    · rw [if_pos hlink, if_pos hlink]
    · rw [if_neg hlink, if_neg hlink]
      exact ih _ _ _

theorem linkObjectLoop_eq (objects : List (ObjectDef σ κ)) (m : Mem) (offset : ℕ) (first : Bool) :
    linkObjectLoop buf bufSize objects m offset first =
      match linkLoop buf bufSize (objectLinks objects) m offset first with
      | (m, none) => (m, none)
      | (m, some (offset, _)) => (m, some offset) := by
  induction objects generalizing m offset first with
  | nil => rfl
  | cons obj rest ih =>
    have hlinks : objectLinks (obj :: rest) =
        (obj.instances.map fun instId => (obj.id, instId)) ++ objectLinks rest := rfl
    rw [linkObjectLoop, linkInstanceLoop_eq, hlinks, linkLoop_append]
    rcases linkLoop buf bufSize (obj.instances.map fun instId => (obj.id, instId)) m offset first
      with ⟨m', _ | ⟨offset', first'⟩⟩
    · rfl
    · exact ih _ _ _

/-! ### The text -/

/-- **What fits is printed** behind what has been written. The terminator is that of the
last print, and without links there is none. -/
theorem linkLoop_of_lt (m : Mem) {links : List (UInt16 × UInt16)} {acc z : List UInt8}
    {first : Bool} (hz : z.length ≤ 1)
    (hfit : acc.length + (linksText first links).length < bufSize) :
    ∃ first', linkLoop buf bufSize links (store m buf (acc ++ z)) acc.length first =
      (store m buf (acc ++ linksText first links ++ if links = [] then z else [0]),
        some ((acc ++ linksText first links).length, first')) := by
  induction links generalizing acc z first with
  | nil => exact ⟨first, by simp [linkLoop, linksText]⟩
  | cons link rest ih =>
    rw [linksText, List.length_append] at hfit
    have hrest : (acc ++ linkText first link.1 link.2).length + (linksText false rest).length <
        bufSize := by
      rw [List.length_append]
      omega
    have hlink : acc.length + (linkText first link.1 link.2).length < bufSize := by omega
    have hprint := snprintf_store_append m buf hz hlink
    obtain ⟨first', hloop⟩ := ih (z := [0]) le_rfl hrest
    refine ⟨first', ?_⟩
    rw [ite_self] at hloop
    rw [linkLoop, hprint, if_neg (List.cons_ne_nil _ _)]
    simp only
    rw [if_neg (by omega), ← List.length_append, hloop, linksText]
    simp only [List.append_assoc]

/-- **What does not fit is a failure.** -/
theorem linkLoop_of_ge {links : List (UInt16 × UInt16)} (m : Mem) {offset : ℕ} {first : Bool}
    (hlt : offset < bufSize) (hfit : bufSize ≤ offset + (linksText first links).length) :
    (linkLoop buf bufSize links m offset first).2 = none := by
  induction links generalizing m offset first with
  | nil =>
    simp only [linksText, List.length_nil] at hfit
    omega
  | cons link rest ih =>
    rw [linksText, List.length_append] at hfit
    rw [linkLoop]
    simp only [snprintf_snd]
    by_cases hlink : bufSize - offset ≤ (linkText first link.1 link.2).length
    · rw [if_pos hlink]
    · rw [if_neg hlink]
      exact ih _ (by omega) (by omega)

/-- **The encoder prints the text of the links, or fails.** -/
theorem encodeLinkFormat_of_lt {objects : List (ObjectDef σ κ)} (m : Mem)
    (hfit : (linksText true (objectLinks objects)).length < bufSize) :
    encodeLinkFormat objects m buf bufSize =
      (store m buf (linksText true (objectLinks objects) ++
        if objectLinks objects = [] then [] else [0]),
        some (linksText true (objectLinks objects)).length) := by
  have hstart : (([] : List UInt8).length + (linksText true (objectLinks objects)).length) <
      bufSize := by
    rw [List.length_nil, Nat.zero_add]
    exact hfit
  obtain ⟨first, hloop⟩ := linkLoop_of_lt m (z := []) (Nat.zero_le 1) hstart
  rw [List.append_nil, store_nil, List.length_nil, List.nil_append] at hloop
  rw [encodeLinkFormat, if_neg (by omega), linkObjectLoop_eq, hloop]

theorem encodeLinkFormat_of_ge {objects : List (ObjectDef σ κ)} (m : Mem)
    (hfit : bufSize ≤ (linksText true (objectLinks objects)).length) :
    (encodeLinkFormat objects m buf bufSize).2 = none := by
  rw [encodeLinkFormat]
  split
  · rfl
  · next hsize =>
    have hloop : (linkLoop buf bufSize (objectLinks objects) m 0 true).2 = none :=
      linkLoop_of_ge m (Nat.pos_of_ne_zero hsize) (by omega)
    rw [linkObjectLoop_eq]
    split
    · rfl
    · next heq =>
      rw [heq] at hloop
      cases hloop

end WbLwm2m

import WbLwm2m.LinkText

/-!
# The link-format round trip

Reading the text of `wb_lwm2m_encode_link_format` back gives the links again. The reader,
`WbLwm2m.readLinks`, knows nothing of the encoder: it splits at commas, and in every part it
expects two decimal numbers between `</`, `/` and `>`.

Decimal digits are none of the characters that separate the numbers and the links, so that
the text falls apart where it was put together (`WbLwm2m.readLinks_linksText`).
-/

namespace WbLwm2m

open Memory

variable {σ κ : Type}

/-! ### The reader -/

/-- Read `</o/i>`. -/
def readLink : List UInt8 → Option (ℕ × ℕ)
  | 0x3C :: 0x2F :: text =>
    if text.getLast? = some 0x3E then
      match text.dropLast.splitOn 0x2F with
      | [objId, instId] => do return (← Decimal.read objId, ← Decimal.read instId)
      | _ => none
    else none
  | _ => none

/-- Read links that are separated by commas. -/
def readLinks (text : List UInt8) : Option (List (ℕ × ℕ)) :=
  if text = [] then some [] else (text.splitOn 0x2C).mapM readLink

/-! ### The text of a link -/

/-- A link, without a comma. -/
def linkBody (link : UInt16 × UInt16) : List UInt8 := linkText true link.1 link.2

theorem linksText_false (links : List (UInt16 × UInt16)) :
    linksText false links = links.flatMap fun link => 0x2C :: linkBody link := by
  induction links with
  | nil => rfl
  | cons link rest ih =>
    rw [linksText, ih]
    rfl

/-- The commas are between the links. -/
theorem linksText_eq (links : List (UInt16 × UInt16)) :
    linksText true links = [0x2C].intercalate (links.map linkBody) := by
  cases links with
  | nil => rfl
  | cons link rest =>
    rw [linksText, linksText_false]
    induction rest generalizing link with
    | nil => simp [linkBody]
    | cons link' rest ih =>
      rw [List.map_cons, List.map_cons, List.intercalate_cons_cons, ← List.map_cons, ← ih,
        List.flatMap_cons, List.append_assoc (linkBody link)]
      rfl

theorem not_mem_fmtU16 {b : UInt8} (hb : b < 0x30 ∨ 0x39 < b) (v : UInt16) : b ∉ fmtU16 v :=
  Decimal.not_mem_ofNat hb v.toNat

theorem comma_not_mem_linkBody (link : UInt16 × UInt16) : (0x2C : UInt8) ∉ linkBody link := by
  have hnum := not_mem_fmtU16 (b := 0x2C) (Or.inl (by decide))
  have hopen : (0x2C : UInt8) ∉ ascii "</" := by decide
  have hslash : (0x2C : UInt8) ∉ ascii "/" := by decide
  have hclose : (0x2C : UInt8) ∉ ascii ">" := by decide
  simp only [linkBody, linkText, List.mem_append, not_or]
  exact ⟨⟨⟨⟨⟨List.not_mem_nil, hopen⟩, hnum _⟩, hslash⟩, hnum _⟩, hclose⟩

theorem readLink_linkBody (link : UInt16 × UInt16) :
    readLink (linkBody link) = some (link.1.toNat, link.2.toNat) := by
  have hnum := not_mem_fmtU16 (b := 0x2F) (Or.inl (by decide))
  have hbody : linkBody link =
      0x3C :: 0x2F :: ((fmtU16 link.1 ++ 0x2F :: fmtU16 link.2) ++ [0x3E]) := by
    simp [linkBody, linkText, ascii]
  rw [hbody, readLink, List.getLast?_concat, if_pos rfl, List.dropLast_concat,
    List.splitOn_append_cons_self_of_not_mem (hnum _), List.splitOn_eq_singleton (hnum _)]
  simp [fmtU16, Decimal.read_ofNat]

theorem mapM_readLink (links : List (UInt16 × UInt16)) :
    (links.map linkBody).mapM readLink =
      some (links.map fun link => (link.1.toNat, link.2.toNat)) := by
  induction links with
  | nil => rfl
  | cons link rest ih =>
    rw [List.map_cons, List.mapM_cons, readLink_linkBody, ih]
    rfl

/-- **Reading the text of some links** gives the links. -/
theorem readLinks_linksText (links : List (UInt16 × UInt16)) :
    readLinks (linksText true links) =
      some (links.map fun link => (link.1.toNat, link.2.toNat)) := by
  cases links with
  | nil => rfl
  | cons link rest =>
    have hne : linksText true (link :: rest) ≠ [] := by simp [linksText, linkText, ascii]
    have hcomma : ∀ part ∈ (link :: rest).map linkBody, (0x2C : UInt8) ∉ part := by
      intro part hpart
      obtain ⟨link', -, rfl⟩ := List.mem_map.mp hpart
      exact comma_not_mem_linkBody link'
    rw [readLinks, if_neg hne, linksText_eq,
      List.splitOn_intercalate 0x2C hcomma (List.cons_ne_nil _ _), mapM_readLink]

/-! ### The round trip -/

/-- **The link-format round trip.** What the encoder has printed reads back as the links of
the objects that are not `NULL`, in order; and it fails exactly when the text of these links
is not empty and does not fit the buffer with its terminator. -/
theorem link_format_round_trip (objects : List (Option (ObjectDef σ κ))) (m : Mem)
    (buf : ℕ) {bufSize : ℕ} (hsize : 0 < bufSize) :
    (∀ m' n, encodeLinkArray objects m buf bufSize = (m', some n) →
      readLinks (load m' buf n) = some ((objectLinks objects.reduceOption).map
        fun link => (link.1.toNat, link.2.toNat))) ∧
    ((encodeLinkArray objects m buf bufSize).2 = none ↔
      linksText true (objectLinks objects.reduceOption) ≠ [] ∧
        bufSize ≤ (linksText true (objectLinks objects.reduceOption)).length) := by
  rw [encodeLinkArray_eq]
  by_cases hfit : (linksText true (objectLinks objects.reduceOption)).length < bufSize
  · have henc : encodeLinkFormat objects.reduceOption m buf bufSize = (store m buf _, some _) :=
      encodeLinkFormat_of_lt m hfit
    rw [henc]
    constructor
    · rintro m' n heq
      obtain ⟨rfl, hn⟩ := Prod.mk.inj heq
      obtain rfl := Option.some.inj hn
      rw [load_store_append, readLinks_linksText]
    · exact iff_of_false (Option.some_ne_none _) fun h => absurd h.2 (not_le.mpr hfit)
  · have hge := not_lt.mp hfit
    have hnone : (encodeLinkFormat objects.reduceOption m buf bufSize).2 = none :=
      encodeLinkFormat_of_ge m hge
    constructor
    · rintro m' n heq
      rw [heq] at hnone
      cases hnone
    · refine iff_of_true hnone ⟨?_, hge⟩
      rintro hnil
      rw [hnil, List.length_nil] at hge
      omega

/-- Two instances of object `1` and one of object `3`, with `NULL`s in between. -/
theorem link_format_round_trip_sample :
    ∃ m', encodeLinkArray [none, some { sampleObject with id := 1, instances := [0, 2] }, none,
        some sampleObject] (fun _ => 0) 0 32 = (m', some 20) ∧
      readLinks (load m' 0 20) = some [(1, 0), (1, 2), (3, 0)] :=
  ⟨_, rfl, (link_format_round_trip [none, some { sampleObject with id := 1, instances := [0, 2] },
    none, some sampleObject] (fun _ => 0) 0 (show 0 < 32 by decide)).1 _ 20 rfl⟩

end WbLwm2m

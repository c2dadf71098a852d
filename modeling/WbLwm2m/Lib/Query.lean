import Mathlib.Data.List.Basic

/-!
# Paths with a query

A path with a query, such as `/rd?ep=a&lt=5`, is text over an alphabet with three
separators: `mark` between the path and the query, `amp` between the parts of the query,
and `eq` between the key and the value of a part, where only the first one counts.

`Query.write` joins and `Query.read` splits. Joining does not escape, so that what is
joined is not always what is read: `Query.read_write_iff` says when it is, and
`Query.eq_write_of_read` that nothing else is read so.
-/

namespace Query

variable {α : Type}

/-! ### Joined parts -/

theorem mem_intercalate {x sep : α} {parts : List (List α)}
    (h : x ∈ [sep].intercalate parts) : x = sep ∨ ∃ part ∈ parts, x ∈ part := by
  induction parts with
  | nil => exact absurd h (List.not_mem_nil)
  | cons part parts ih =>
    cases parts with
    | nil =>
      rw [List.intercalate_singleton] at h
      exact Or.inr ⟨part, List.mem_singleton.mpr rfl, h⟩
    | cons part' parts =>
      rw [List.intercalate_cons_cons, List.append_assoc] at h
      rcases List.mem_append.mp h with h | h
      · exact Or.inr ⟨part, List.mem_cons_self, h⟩
      · rcases List.mem_cons.mp h with h | h
        · exact Or.inl h
        · rcases ih h with h | ⟨p, hp, h⟩
          · exact Or.inl h
          · exact Or.inr ⟨p, List.mem_cons_of_mem _ hp, h⟩

theorem mem_intercalate_of_mem {x sep : α} {parts : List (List α)} {part : List α}
    (hpart : part ∈ parts) (hx : x ∈ part) : x ∈ [sep].intercalate parts := by
  induction parts with
  | nil => exact absurd hpart (List.not_mem_nil)
  | cons p parts ih =>
    cases parts with
    | nil =>
      obtain rfl := List.mem_singleton.mp hpart
      rwa [List.intercalate_singleton]
    | cons p' parts =>
      rw [List.intercalate_cons_cons, List.append_assoc]
      rcases List.mem_cons.mp hpart with rfl | hpart
      · exact List.mem_append_left _ hx
      · exact List.mem_append_right _ (List.mem_cons_of_mem _ (ih hpart))

/-! ### Writing and reading -/

variable [DecidableEq α] (mark amp eq : α)

/-- A part of a query: key and value. -/
def writePair (pair : List α × List α) : List α := pair.1 ++ eq :: pair.2

/-- A path and its query. -/
def write (path : List α) (pairs : List (List α × List α)) : List α :=
  path ++ mark :: [amp].intercalate (pairs.map (writePair eq))

/-- Split a part at its first `eq`; a part without one has no value. -/
def readPair (part : List α) : List α × Option (List α) :=
  (part.takeWhile (· ≠ eq), (part.dropWhile (· ≠ eq)).tail?)

/-- Split a text at `mark`, its query at `amp`, and each part at the first `eq`; a text
with no query, or with several, is not read. -/
def read (text : List α) : Option (List α × List (List α × Option (List α))) :=
  match text.splitOn mark with
  | [path, query] => some (path, (query.splitOn amp).map (readPair eq))
  | _ => none

/-- What should be read. -/
def readable (pairs : List (List α × List α)) : List (List α × Option (List α)) :=
  pairs.map fun pair => (pair.1, some pair.2)

variable {mark amp eq}

/-- What has been split at a separator does not contain it. -/
theorem not_mem_of_mem_splitOn {sep : α} {text part : List α} (h : part ∈ text.splitOn sep) :
    sep ∉ part := by
  induction text generalizing part with
  | nil =>
    rw [List.splitOn_nil] at h
    obtain rfl := List.mem_singleton.mp h
    exact List.not_mem_nil
  | cons x text ih =>
    rw [List.splitOn_cons_eq_if_modifyHead] at h
    split at h
    · rcases List.mem_cons.mp h with rfl | h
      · exact List.not_mem_nil
      · exact ih h
    · next hx =>
      obtain ⟨first, rest, hsplit⟩ := List.exists_cons_of_ne_nil (List.splitOn_ne_nil sep text)
      rw [hsplit] at h ih
      rcases List.mem_cons.mp h with rfl | h
      · rintro (_ | ⟨_, hmem⟩)
        · exact hx (beq_self_eq_true _)
        · exact ih List.mem_cons_self hmem
      · exact ih (List.mem_cons_of_mem _ h)

/-! ### A part -/

theorem readPair_writePair {key : List α} (hkey : eq ∉ key) (value : List α) :
    readPair eq (writePair eq (key, value)) = (key, some value) := by
  have hpos : ∀ x ∈ key, decide (x ≠ eq) = true :=
    fun x hx => decide_eq_true fun h => hkey (h ▸ hx)
  rw [readPair, writePair, List.takeWhile_append_of_pos hpos, List.dropWhile_append_of_pos hpos,
    List.takeWhile_cons_of_neg (by simp), List.dropWhile_cons_of_neg (by simp), List.append_nil]
  rfl

theorem eq_writePair_of_readPair {part key value : List α}
    (h : readPair eq part = (key, some value)) : part = writePair eq (key, value) := by
  obtain ⟨hkey, hvalue⟩ := Prod.mk.inj h
  have hdrop : part.dropWhile (· ≠ eq) = eq :: value := by
    cases hd : part.dropWhile (· ≠ eq) with
    | nil =>
      rw [hd] at hvalue
      cases hvalue
    | cons x rest =>
      rw [hd] at hvalue
      obtain rfl := Option.some.inj hvalue
      -- the rest starts where the key ends, that is, with a separator
      have hhead := List.head?_dropWhile_not (fun y => decide (y ≠ eq)) part
      rw [hd] at hhead
      rw [not_not.mp (of_decide_eq_false hhead)]
  rw [writePair, ← hkey, ← hdrop]
  exact (List.takeWhile_append_dropWhile).symm

theorem map_writePair_of_map_readPair {parts : List (List α)} {pairs : List (List α × List α)}
    (h : parts.map (readPair eq) = readable pairs) : parts = pairs.map (writePair eq) := by
  induction parts generalizing pairs with
  | nil =>
    cases pairs with
    | nil => rfl
    | cons pair pairs => cases h
  | cons part parts ih =>
    cases pairs with
    | nil => cases h
    | cons pair pairs =>
      obtain ⟨hpart, hparts⟩ := List.cons_eq_cons.mp h
      rw [List.map_cons, ih hparts, eq_writePair_of_readPair hpart]

/-! ### The whole -/

/-- **Only what was written is read so.** -/
theorem eq_write_of_read {text path : List α} {pairs : List (List α × List α)}
    (h : read mark amp eq text = some (path, readable pairs)) :
    text = write mark amp eq path pairs := by
  rw [read] at h
  split at h
  · next path' query hsplit =>
    obtain ⟨rfl, hpairs⟩ := Prod.mk.inj (Option.some.inj h)
    have htext : [mark].intercalate (text.splitOn mark) = text := List.intercalate_splitOn mark
    rw [hsplit, List.intercalate_cons_cons, List.intercalate_singleton, List.append_assoc] at htext
    have hquery : [amp].intercalate (query.splitOn amp) = query := List.intercalate_splitOn amp
    rw [map_writePair_of_map_readPair hpairs] at hquery
    rw [write, hquery]
    exact htext.symm
  · cases h

/-- The path and the keys contain no separators. -/
structure Keyed (mark amp eq : α) (path : List α) (pairs : List (List α × List α)) : Prop where
  amp_ne : amp ≠ mark
  eq_ne : eq ≠ mark ∧ eq ≠ amp
  path : mark ∉ path
  keys : ∀ pair ∈ pairs, mark ∉ pair.1 ∧ amp ∉ pair.1 ∧ eq ∉ pair.1
  ne_nil : pairs ≠ []

/-- **What is written is read back exactly if no value contains `mark` or `amp`.** -/
theorem read_write_iff {path : List α} {pairs : List (List α × List α)}
    (h : Keyed mark amp eq path pairs) :
    read mark amp eq (write mark amp eq path pairs) = some (path, readable pairs) ↔
      ∀ pair ∈ pairs, mark ∉ pair.2 ∧ amp ∉ pair.2 := by
  have hsplit : (write mark amp eq path pairs).splitOn mark =
      path :: ([amp].intercalate (pairs.map (writePair eq))).splitOn mark :=
    List.splitOn_append_cons_self_of_not_mem h.path _
  constructor
  · intro hread pair hpair
    rw [read, hsplit] at hread
    split at hread
    · next path' query hparts =>
      obtain ⟨-, hparts⟩ := List.cons_eq_cons.mp hparts
      obtain ⟨-, hpairs⟩ := Prod.mk.inj (Option.some.inj hread)
      have hwritten := map_writePair_of_map_readPair hpairs
      have hmem : writePair eq pair ∈ query.splitOn amp := by
        rw [hwritten]
        exact List.mem_map_of_mem hpair
      have hlast : query ∈ ([amp].intercalate (pairs.map (writePair eq))).splitOn mark := by
        rw [hparts]
        exact List.mem_singleton.mpr rfl
      have hquery := not_mem_of_mem_splitOn hlast
      constructor
      · intro hmark
        have hpart : mark ∈ writePair eq pair :=
          List.mem_append_right _ (List.mem_cons_of_mem _ hmark)
        have hjoined : [amp].intercalate (query.splitOn amp) = query := List.intercalate_splitOn amp
        rw [← hjoined] at hquery
        exact hquery (mem_intercalate_of_mem hmem hpart)
      · intro hamp
        exact not_mem_of_mem_splitOn hmem
          (List.mem_append_right _ (List.mem_cons_of_mem _ hamp))
    · cases hread
  · intro hvalues
    have hparts : ∀ part ∈ pairs.map (writePair eq), amp ∉ part := by
      intro part hpart
      obtain ⟨pair, hpair, rfl⟩ := List.mem_map.mp hpart
      intro hamp
      rcases List.mem_append.mp hamp with hamp | hamp
      · exact (h.keys pair hpair).2.1 hamp
      · rcases List.mem_cons.mp hamp with hamp | hamp
        · exact h.eq_ne.2 hamp.symm
        · exact (hvalues pair hpair).2 hamp
    have hquery : mark ∉ [amp].intercalate (pairs.map (writePair eq)) := by
      intro hmark
      rcases mem_intercalate hmark with hmark | ⟨part, hpart, hmark⟩
      · exact h.amp_ne hmark.symm
      · obtain ⟨pair, hpair, rfl⟩ := List.mem_map.mp hpart
        rcases List.mem_append.mp hmark with hmark | hmark
        · exact (h.keys pair hpair).1 hmark
        · rcases List.mem_cons.mp hmark with hmark | hmark
          · exact h.eq_ne.1 hmark.symm
          · exact (hvalues pair hpair).1 hmark
    have hne : pairs.map (writePair eq) ≠ [] := by
      simpa using h.ne_nil
    rw [read, hsplit, List.splitOn_eq_singleton hquery]
    simp only [List.splitOn_intercalate amp hparts hne, readable, List.map_map]
    refine congrArg (fun l => some (path, l)) (List.map_congr_left fun pair hpair => ?_)
    exact readPair_writePair (h.keys pair hpair).2.2 pair.2

end Query

import Mathlib.Data.List.Forall2
import WbLwm2m.Lib.JsonUnique

/-!
# Arrays that are printed item by item

A printer of an array knows of each item whether it is a value: it is one, the same in front of
whatever follows, or no value can be read from its text at all (`Json.Item`). The array is then
JSON exactly if all of its items are, and its value is known (`Json.text_itemArray_iff`): the
readable items in front of an unreadable one are read in the only way there is, and reading
comes to a halt there.

An object that is printed member by member cannot be read once the value of a member cannot,
`Json.not_readsMembers_member` and `Json.not_readsMembers_value`.
-/

namespace Json

/-! ### Texts that cannot be read -/

/-- A value whose name and colon have been printed is all there is to read next. -/
theorem not_readsMembers_value {p t : List UInt8} (hp : Plain p) (ht : Solid t)
    (h : ∀ v r, ¬ReadsValue t v r) (ms : List (List UInt8 × Value)) (r : List UInt8) :
    ¬ReadsMembers (0x22 :: (p ++ 0x22 :: 0x3A :: t)) ms r := by
  intro hread
  obtain ⟨t₁, k, t₂, t₃, t₄, v, t₅, t₆, h₁, hk, h₂, h₃, hv, -⟩ := hread.exists_first
  obtain ⟨-, rfl⟩ := List.cons.inj (h₁.eq_of_not_space (by decide))
  obtain ⟨rfl, rfl⟩ := hk.eq_of_plain hp
  obtain ⟨-, rfl⟩ := List.cons.inj (h₂.eq_of_not_space (by decide))
  obtain rfl := h₃.unique (ReadsWs.done _) hv.solid ht
  exact h _ _ hv

/-- A member that can be read is passed. -/
theorem not_readsMembers_member {p q t : List UInt8} (hp : Plain p) (hq : Plain q)
    (h : ∀ ms r, ¬ReadsMembers t ms r) (ms : List (List UInt8 × Value)) (r : List UInt8) :
    ¬ReadsMembers (member p q (0x2C :: t)) ms r := by
  intro hread
  obtain ⟨t₁, k, t₂, t₃, t₄, v, t₅, t₆, h₁, hk, h₂, h₃, hv, h₄, hend⟩ := hread.exists_first
  obtain ⟨-, rfl⟩ := List.cons.inj (h₁.eq_of_not_space (by decide))
  obtain ⟨rfl, rfl⟩ := hk.eq_of_plain hp
  obtain ⟨-, rfl⟩ := List.cons.inj (h₂.eq_of_not_space (by decide))
  obtain rfl := h₃.eq_of_not_space (by decide)
  obtain ⟨s, -, hs⟩ := hv.of_quote
  obtain ⟨rfl, rfl⟩ := hs.eq_of_plain hq
  obtain rfl := h₄.eq_of_not_space (by decide)
  obtain ⟨heq, -⟩ | ⟨t₇, ms', heq, -, hms⟩ := hend
  · exact absurd (List.cons.inj heq).1 (by decide)
  · obtain ⟨-, rfl⟩ := List.cons.inj heq
    exact h _ _ hms

/-- An object without readable members. -/
theorem not_readsValue_obj {t : List UInt8} (ht : ∀ r, ¬ReadsWs t (0x7D :: r))
    (h : ∀ ms r, ¬ReadsMembers t ms r) (v : Value) (r : List UInt8) :
    ¬ReadsValue (0x7B :: t) v r := by
  intro hread
  obtain ⟨b, t', heq, hb⟩ := hread.head
  obtain ⟨rfl, -⟩ := List.cons.inj heq
  rcases v with _ | _ | _ | _ | _ | ms
  case obj =>
    obtain ⟨t₀, heq', ⟨-, hws⟩ | hms⟩ := hread.of_obj
    · obtain ⟨-, rfl⟩ := List.cons.inj heq'
      exact ht _ hws
    · obtain ⟨-, rfl⟩ := List.cons.inj heq'
      exact h _ _ hms
  all_goals cases hb

/-! ### Items -/

/-- **What the text of an item is**: a value in front of everything that does not go on with a
number, or no value in front of anything. -/
def Item (t : List UInt8) : Option Value → Prop
  | some v => ∀ z, Follows z → ReadsValue (t ++ z) v z
  | none => ∃ b t', t = b :: t' ∧ ¬Space b ∧ b ≠ 0x5D ∧ ∀ z v r, ¬ReadsValue (t ++ z) v r

/-- An item starts neither with white space nor with the end of the array. -/
theorem Item.exists_cons {t : List UInt8} {o : Option Value} (h : Item t o) (z : List UInt8)
    (hz : Follows z) : ∃ b t', t ++ z = b :: t' ∧ ¬Space b ∧ b ≠ 0x5D := by
  rcases o with _ | v
  · obtain ⟨b, t', rfl, hspace, hb, -⟩ := h
    exact ⟨b, t' ++ z, rfl, hspace, hb⟩
  · obtain ⟨b, t', heq, hb⟩ := (h z hz).head
    refine ⟨b, t', heq, (heq ▸ (h z hz).solid) b rfl, ?_⟩
    rintro rfl
    cases hb

/-- The items behind the first one, each behind a comma. -/
def itemTail (ts : List (List UInt8)) : List UInt8 := ts.flatMap fun t => 0x2C :: t

/-- The text of an array. -/
def itemArray : List (List UInt8) → List UInt8
  | [] => [0x5B, 0x5D]
  | t :: ts => 0x5B :: (t ++ (itemTail ts ++ [0x5D]))

theorem itemTail_cons_append (t : List UInt8) (ts : List (List UInt8)) (z : List UInt8) :
    itemTail (t :: ts) ++ z = 0x2C :: (t ++ (itemTail ts ++ z)) := by
  simp [itemTail]

/-- What stands behind an item is a separator. -/
theorem separator_itemTail (ts : List (List UInt8)) (z : List UInt8) :
    Separator (itemTail ts ++ 0x5D :: z) := by
  rcases ts with _ | ⟨t, ts⟩
  · exact separator_bracket z
  · rw [itemTail_cons_append]
    exact separator_comma _

/-- **Readable items are read.** -/
theorem readsItems_of_items {t : List UInt8} {v : Value} (ht : Item t (some v))
    {ts : List (List UInt8)} {vs : List Value}
    (hts : List.Forall₂ (fun t v => Item t (some v)) ts vs) (z : List UInt8) :
    ReadsItems (t ++ (itemTail ts ++ 0x5D :: z)) (v :: vs) z := by
  induction hts generalizing t v with
  | nil =>
    exact ReadsItems.last (ReadsWs.done _) (ht _ (separator_itemTail [] z).2) (ReadsWs.done _)
  | @cons t' v' ts vs ht' _ ih =>
    have hhead := ht _ (separator_itemTail (t' :: ts) z).2
    rw [itemTail_cons_append] at hhead ⊢
    exact ReadsItems.cons (ReadsWs.done _) hhead (ReadsWs.done _) (ih ht')

/-- **An unreadable item stops the reader**, whatever it has read before. -/
theorem not_readsItems_of_items {t : List UInt8} {o : Option Value} (ht : Item t o)
    {ts : List (List UInt8)} {os : List (Option Value)} (hts : List.Forall₂ Item ts os)
    (hnone : none ∈ o :: os) (z : List UInt8) (vs : List Value) (r : List UInt8) :
    ¬ReadsItems (t ++ (itemTail ts ++ 0x5D :: z)) vs r := by
  induction hts generalizing t o vs with
  | nil =>
    obtain rfl := List.mem_singleton.mp hnone
    intro hread
    obtain ⟨b, t', heq, hspace, -⟩ := ht.exists_cons _ (separator_itemTail [] z).2
    obtain ⟨t₁, v, t₂, t₃, hws, hv, -⟩ := hread.exists_first
    rw [heq] at hws
    obtain rfl := hws.eq_of_not_space hspace
    obtain ⟨-, -, -, -, -, hno⟩ := ht
    exact hno _ _ _ (heq ▸ hv)
  | @cons t' o' ts os ht' hts ih =>
    intro hread
    have hsep := separator_itemTail (t' :: ts) z
    obtain ⟨b, u, heq, hspace, -⟩ := ht.exists_cons _ hsep.2
    obtain ⟨t₁, v, t₂, t₃, hws, hv, hws', hend⟩ := hread.exists_first
    rw [heq] at hws
    obtain rfl := hws.eq_of_not_space hspace
    rw [← heq] at hv
    rcases o with _ | v'
    · obtain ⟨-, -, -, -, -, hno⟩ := ht
      exact hno _ _ _ hv
    · -- the item is read as the value it is, and the comma behind it as what it is
      have hsep₃ : Separator t₃ := by
        obtain ⟨rfl, -⟩ | ⟨t₄, vs', rfl, -⟩ := hend
        · exact separator_bracket r
        · exact separator_comma t₄
      obtain ⟨rfl, rfl⟩ := hv.unique (ht _ hsep.2) (hws'.follows hsep₃.2) hsep.2
      obtain rfl := hws'.unique (ReadsWs.done _) hsep₃.1 hsep.1
      rw [itemTail_cons_append] at hend
      obtain ⟨heq', -⟩ | ⟨t₄, vs', heq', -, hitems⟩ := hend
      · exact absurd (List.cons.inj heq').1 (by decide)
      · obtain ⟨-, rfl⟩ := List.cons.inj heq'
        refine ih ht' ?_ vs' hitems
        rcases List.mem_cons.mp hnone with hno | hmem
        · cases hno
        · exact hmem

/-- A list that holds nothing missing. -/
theorem exists_map_some {α : Type} {os : List (Option α)} (h : none ∉ os) :
    ∃ vs : List α, os = vs.map some := by
  induction os with
  | nil => exact ⟨[], rfl⟩
  | cons o os ih =>
    obtain ⟨v, rfl⟩ := Option.ne_none_iff_exists'.mp fun ho => h (ho ▸ List.mem_cons_self)
    obtain ⟨vs, rfl⟩ := ih fun hmem => h (List.mem_cons_of_mem _ hmem)
    exact ⟨v :: vs, rfl⟩

/-- **An array that is printed item by item** is JSON exactly if every item is a value, and it
is the array of these. -/
theorem text_itemArray_iff {ts : List (List UInt8)} {os : List (Option Value)}
    (h : List.Forall₂ Item ts os) (j : Value) :
    Text (itemArray ts) j ↔ ∃ vs, os = vs.map some ∧ j = .arr vs := by
  have hread : ∀ vs, os = vs.map some → Text (itemArray ts) (.arr vs) := by
    rintro vs rfl
    rw [List.forall₂_map_right_iff] at h
    cases h with
    | nil => exact ⟨_, [], ReadsWs.done _, ReadsValue.emptyArr (ReadsWs.done _), ReadsWs.done _⟩
    | cons ht hts =>
      exact ⟨_, [], ReadsWs.done _, ReadsValue.arr (readsItems_of_items ht hts []),
        ReadsWs.done _⟩
  constructor
  · intro hj
    by_cases hnone : none ∈ os
    · exfalso
      cases h with
      | nil => cases hnone
      | @cons t o ts os ht hts =>
        obtain ⟨t₁, t₂, hws, hv, -⟩ := hj
        obtain rfl := hws.eq_of_not_space (by decide)
        obtain ⟨b, u, heq, hspace, hb⟩ := ht.exists_cons _ (separator_itemTail ts []).2
        have hkind := hv.head
        obtain ⟨_, _, hcons, hkind⟩ := hkind
        obtain ⟨rfl, -⟩ := List.cons.inj hcons
        rcases j with _ | _ | _ | _ | vs | _
        case arr =>
          obtain ⟨t₀, heq₀, ⟨-, hempty⟩ | hitems⟩ := hv.of_arr
          · obtain ⟨-, rfl⟩ := List.cons.inj heq₀
            rw [heq] at hempty
            exact hb (List.cons.inj (hempty.eq_of_not_space hspace)).1.symm
          · obtain ⟨-, rfl⟩ := List.cons.inj heq₀
            exact not_readsItems_of_items ht hts hnone [] vs _ hitems
        all_goals cases hkind
    · obtain ⟨vs, rfl⟩ := exists_map_some hnone
      exact ⟨vs, rfl, hj.unique (hread vs rfl)⟩
  · rintro ⟨vs, hvs, rfl⟩
    exact hread vs hvs

end Json

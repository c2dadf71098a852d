import WbLwm2m.Lib.Json

/-!
# A JSON text denotes one value

The grammar of `WbLwm2m.Lib.Json` says what can be read, and it does not say that reading is
a function. For numbers it is not: `1` can be read off `12`, and `2` is left. What decides is
what follows. Behind a value there is white space, a separator or the end of the text, none
of which goes on with a number (`Json.Follows`); then a value is read in one way
(`Json.ReadsValue.unique`), and so is a text (`Json.Text.unique`).

The first byte of a value tells its kind (`Json.kindOf`), which leaves nothing but the
recursion to compare.
-/

namespace Json

/-! ### White space -/

/-- The text does not start with white space. -/
def Solid (t : List UInt8) : Prop := ∀ b ∈ t.head?, ¬Space b

theorem solid_cons {b : UInt8} (hb : ¬Space b) (t : List UInt8) : Solid (b :: t) := by
  rintro _ ⟨⟩
  exact hb

/-- **All white space there is** is read in one way. -/
theorem ReadsWs.unique {t r r' : List UInt8} (h : ReadsWs t r) (h' : ReadsWs t r')
    (hr : Solid r) (hr' : Solid r') : r = r' := by
  induction h with
  | done t => cases h' with
    | done => rfl
    | space hb _ => exact absurd hb (hr _ rfl)
  | space hb _ ih => cases h' with
    | done => exact absurd hb (hr' _ rfl)
    | space _ h' => exact ih h' hr

/-- **A byte behind white space**, and what follows it, are read in one way. -/
theorem ReadsWs.cons_inj {t r r' : List UInt8} {b b' : UInt8} (h : ReadsWs t (b :: r))
    (h' : ReadsWs t (b' :: r')) (hb : ¬Space b) (hb' : ¬Space b') : b = b' ∧ r = r' :=
  List.cons.inj (h.unique h' (solid_cons hb r) (solid_cons hb' r'))

/-! ### Strings -/

/-- What four digits say is a character or a surrogate. -/
theorem not_surrogate_of_hex4 {a b c d : UInt8} {x : Char} {hi : ℕ}
    (hx : hex4 a b c d = some x.toNat) (hhi : hex4 a b c d = some hi) :
    ¬(0xD800 ≤ hi ∧ hi < 0xDC00) := by
  obtain rfl := Option.some.inj (hx.symm.trans hhi)
  rintro ⟨hlo, hlt⟩
  obtain h | ⟨h, -⟩ := x.valid
  · exact absurd h (by simpa using hlo)
  · have h' : 0xDFFF < x.toNat := h
    omega

/-- **A string literal** is read in one way. -/
theorem ReadsString.unique {t s s' r r' : List UInt8} (h : ReadsString t s r)
    (h' : ReadsString t s' r') : s = s' ∧ r = r' := by
  induction h generalizing s' with
  | close r => cases h' with
    | close => exact ⟨rfl, rfl⟩
    | plain hb _ => exact absurd rfl hb.2.1
  | plain hb _ ih => cases h' with
    | close => exact absurd rfl hb.2.1
    | plain _ h' =>
      obtain ⟨rfl, rfl⟩ := ih h'
      exact ⟨rfl, rfl⟩
    | _ => exact absurd rfl hb.2.2
  | escape hc _ ih => cases h' with
    | plain hb _ => exact absurd rfl hb.2.2
    | escape hc' h' =>
      obtain rfl := Option.some.inj (hc.symm.trans hc')
      obtain ⟨rfl, rfl⟩ := ih h'
      exact ⟨rfl, rfl⟩
    | _ => cases hc
  | unicode hx _ ih => cases h' with
    | plain hb _ => exact absurd rfl hb.2.2
    | escape hc' _ => cases hc'
    | unicode hx' h' =>
      obtain rfl := Char.toNat_inj.mp (Option.some.inj (hx.symm.trans hx'))
      obtain ⟨rfl, rfl⟩ := ih h'
      exact ⟨rfl, rfl⟩
    | surrogates hhi _ hhi' _ _ _ => exact absurd hhi' (not_surrogate_of_hex4 hx hhi)
  | surrogates hhi hlo hhi' hlo' hx _ ih => cases h' with
    | plain hb _ => exact absurd rfl hb.2.2
    | escape hc' _ => cases hc'
    | unicode hx' _ => exact absurd hhi' (not_surrogate_of_hex4 hx' hhi)
    | surrogates hhi₂ hlo₂ hhi₂' hlo₂' hx₂ h' =>
      obtain rfl := Option.some.inj (hhi.symm.trans hhi₂)
      obtain rfl := Option.some.inj (hlo.symm.trans hlo₂)
      obtain rfl := Char.toNat_inj.mp (hx.trans hx₂.symm)
      obtain ⟨rfl, rfl⟩ := ih h'
      exact ⟨rfl, rfl⟩

/-! ### Numbers -/

/-- A byte that can go on with a number. -/
def NumberByte (b : UInt8) : Prop :=
  0x30 ≤ b ∧ b ≤ 0x39 ∨ b = 0x2B ∨ b = 0x2D ∨ b = 0x2E ∨ b = 0x65 ∨ b = 0x45

instance : DecidablePred NumberByte := fun b =>
  inferInstanceAs (Decidable (0x30 ≤ b ∧ b ≤ 0x39 ∨ b = 0x2B ∨ b = 0x2D ∨ b = 0x2E ∨ b = 0x65 ∨
    b = 0x45))

/-- **The text does not go on with a number.** -/
def Follows (t : List UInt8) : Prop := ∀ b ∈ t.head?, ¬NumberByte b

theorem Digits.numberByte {t : List UInt8} (h : Digits t) : ∀ b ∈ t, NumberByte b :=
  fun b hb => Or.inl (h.2 b hb)

theorem Number.numberByte {t : List UInt8} (h : Number t) : ∀ b ∈ t, NumberByte b := by
  obtain ⟨sign, int, frac, exp, rfl, hsign, hint, hfrac, hexp⟩ := h
  have hnil : ∀ b ∈ ([] : List UInt8), NumberByte b := List.forall_mem_nil _
  have hone : ∀ {c}, NumberByte c → ∀ b ∈ [c], NumberByte b := List.forall_mem_singleton.mpr
  simp only [List.forall_mem_append]
  refine ⟨⟨⟨?_, ?_⟩, ?_⟩, ?_⟩
  · obtain rfl | rfl := hsign
    · exact hnil
    · exact hone (by decide)
  · obtain rfl | ⟨hdig, -⟩ := hint
    · exact hone (by decide)
    · exact hdig.numberByte
  · obtain rfl | ⟨ds, hdig, rfl⟩ := hfrac
    · exact hnil
    · exact List.forall_mem_cons.mpr ⟨by decide, hdig.numberByte⟩
  · obtain rfl | ⟨e, s, ds, he, hs, hdig, rfl⟩ := hexp
    · exact hnil
    · rw [List.cons_append]
      refine List.forall_mem_cons.mpr ⟨?_, List.forall_mem_append.mpr ⟨?_, hdig.numberByte⟩⟩
      · obtain rfl | rfl := he <;> decide
      · obtain rfl | rfl | rfl := hs
        · exact hnil
        · exact hone (by decide)
        · exact hone (by decide)

/-- A number ends where no byte goes on with it. -/
theorem Number.takeWhile {t r : List UInt8} (h : Number t) (hr : Follows r) :
    (t ++ r).takeWhile (NumberByte ·) = t := by
  have hend : r.takeWhile (NumberByte ·) = [] := by
    rcases r with _ | ⟨b, r⟩
    · rfl
    · exact List.takeWhile_cons_of_neg (by simpa using hr b rfl)
  rw [List.takeWhile_append_of_pos fun b hb => decide_eq_true (h.numberByte b hb), hend,
    List.append_nil]

/-- **A number** is read in one way, if what follows does not go on with it. -/
theorem Number.unique {t t' r r' : List UInt8} (h : Number t) (h' : Number t') (hr : Follows r)
    (hr' : Follows r') (heq : t ++ r = t' ++ r') : t = t' ∧ r = r' := by
  obtain rfl : t = t' := by rw [← h.takeWhile hr, heq, h'.takeWhile hr']
  exact ⟨rfl, List.append_cancel_left heq⟩

theorem follows_nil : Follows [] := by
  rintro _ ⟨⟩

theorem follows_cons {b : UInt8} (hb : ¬NumberByte b) (t : List UInt8) : Follows (b :: t) := by
  rintro _ ⟨⟩
  exact hb

/-- White space does not go on with a number. -/
theorem ReadsWs.follows {t r : List UInt8} (h : ReadsWs t r) (hr : Follows r) : Follows t := by
  cases h with
  | done => exact hr
  | space hb _ =>
    refine follows_cons ?_ _
    obtain rfl | rfl | rfl | rfl := hb <;> decide

/-! ### The kind of a value -/

/-- The kinds of values. -/
inductive Kind where
  | null
  | bool
  | num
  | str
  | arr
  | obj

/-- The kind of a value. -/
def Value.kind : Value → Kind
  | .null => .null
  | .bool _ => .bool
  | .num _ => .num
  | .str _ => .str
  | .arr _ => .arr
  | .obj _ => .obj

/-- The kind of the values that start with a byte. -/
def kindOf (b : UInt8) : Option Kind :=
  if b = 0x2D ∨ 0x30 ≤ b ∧ b ≤ 0x39 then some .num
  else if b = 0x6E then some .null
  else if b = 0x74 ∨ b = 0x66 then some .bool
  else if b = 0x22 then some .str
  else if b = 0x5B then some .arr
  else if b = 0x7B then some .obj
  else none

/-- **The first byte of a value** tells its kind. -/
theorem ReadsValue.head {t r : List UInt8} {v : Value} (h : ReadsValue t v r) :
    ∃ b t', t = b :: t' ∧ kindOf b = some v.kind := by
  cases h with
  | num ht r =>
    obtain ⟨b, t', rfl, hb⟩ := ht.exists_cons
    exact ⟨b, t' ++ r, rfl, if_pos hb⟩
  | _ => exact ⟨_, _, rfl, rfl⟩

theorem ReadsValue.kind_eq {t r r' : List UInt8} {v v' : Value} (h : ReadsValue t v r)
    (h' : ReadsValue t v' r') : v.kind = v'.kind := by
  obtain ⟨b, t₀, rfl, hb⟩ := h.head
  obtain ⟨b', t₀', heq, hb'⟩ := h'.head
  obtain ⟨rfl, -⟩ := List.cons.inj heq
  exact Option.some.inj (hb.symm.trans hb')

/-- No value starts with white space. -/
theorem ReadsValue.solid {t r : List UInt8} {v : Value} (h : ReadsValue t v r) : Solid t := by
  obtain ⟨b, t, rfl, hb⟩ := h.head
  refine solid_cons ?_ t
  rintro (rfl | rfl | rfl | rfl) <;> cases hb

/-! ### Values -/

theorem ReadsValue.of_null {t r : List UInt8} (h : ReadsValue t .null r) :
    t = [0x6E, 0x75, 0x6C, 0x6C] ++ r := by
  cases h with
  | null => rfl

theorem ReadsValue.of_bool {t r : List UInt8} {b : Bool} (h : ReadsValue t (.bool b) r) :
    t = (if b then [0x74, 0x72, 0x75, 0x65] else [0x66, 0x61, 0x6C, 0x73, 0x65]) ++ r := by
  cases h with
  | true => rfl
  | false => rfl

theorem ReadsValue.of_str {t s r : List UInt8} (h : ReadsValue t (.str s) r) :
    ∃ t₀, t = 0x22 :: t₀ ∧ ReadsString t₀ s r := by
  cases h with
  | str hs => exact ⟨_, rfl, hs⟩

theorem ReadsValue.of_num {t n r : List UInt8} (h : ReadsValue t (.num n) r) :
    Number n ∧ t = n ++ r := by
  cases h with
  | num hn => exact ⟨hn, rfl⟩

/-- An array, behind its bracket. -/
theorem ReadsValue.of_arr {t r : List UInt8} {vs : List Value} (h : ReadsValue t (.arr vs) r) :
    ∃ t₀, t = 0x5B :: t₀ ∧ (vs = [] ∧ ReadsWs t₀ (0x5D :: r) ∨ ReadsItems t₀ vs r) := by
  cases h with
  | emptyArr h => exact ⟨_, rfl, Or.inl ⟨rfl, h⟩⟩
  | arr h => exact ⟨_, rfl, Or.inr h⟩

/-- An object, behind its brace. -/
theorem ReadsValue.of_obj {t r : List UInt8} {ms : List (List UInt8 × Value)}
    (h : ReadsValue t (.obj ms) r) :
    ∃ t₀, t = 0x7B :: t₀ ∧ (ms = [] ∧ ReadsWs t₀ (0x7D :: r) ∨ ReadsMembers t₀ ms r) := by
  cases h with
  | emptyObj h => exact ⟨_, rfl, Or.inl ⟨rfl, h⟩⟩
  | obj h => exact ⟨_, rfl, Or.inr h⟩

/-- The first item, and what follows it. -/
theorem ReadsItems.exists_first {t r : List UInt8} {vs : List Value} (h : ReadsItems t vs r) :
    ∃ t₁ v t₂ t₃, ReadsWs t t₁ ∧ ReadsValue t₁ v t₂ ∧ ReadsWs t₂ t₃ ∧
      (t₃ = 0x5D :: r ∧ vs = [v] ∨
        ∃ t₄ vs', t₃ = 0x2C :: t₄ ∧ vs = v :: vs' ∧ ReadsItems t₄ vs' r) := by
  cases h with
  | last h₁ hv h₂ => exact ⟨_, _, _, _, h₁, hv, h₂, Or.inl ⟨rfl, rfl⟩⟩
  | cons h₁ hv h₂ hvs => exact ⟨_, _, _, _, h₁, hv, h₂, Or.inr ⟨_, _, rfl, rfl, hvs⟩⟩

/-- The first member, and what follows it. -/
theorem ReadsMembers.exists_first {t r : List UInt8} {ms : List (List UInt8 × Value)}
    (h : ReadsMembers t ms r) :
    ∃ t₁ k t₂ t₃ t₄ v t₅ t₆, ReadsWs t (0x22 :: t₁) ∧ ReadsString t₁ k t₂ ∧
      ReadsWs t₂ (0x3A :: t₃) ∧ ReadsWs t₃ t₄ ∧ ReadsValue t₄ v t₅ ∧ ReadsWs t₅ t₆ ∧
      (t₆ = 0x7D :: r ∧ ms = [(k, v)] ∨
        ∃ t₇ ms', t₆ = 0x2C :: t₇ ∧ ms = (k, v) :: ms' ∧ ReadsMembers t₇ ms' r) := by
  cases h with
  | last h₁ hk h₂ h₃ hv h₄ =>
    exact ⟨_, _, _, _, _, _, _, _, h₁, hk, h₂, h₃, hv, h₄, Or.inl ⟨rfl, rfl⟩⟩
  | cons h₁ hk h₂ h₃ hv h₄ hms =>
    exact ⟨_, _, _, _, _, _, _, _, h₁, hk, h₂, h₃, hv, h₄, Or.inr ⟨_, _, rfl, rfl, hms⟩⟩

/-- An array that goes on with an item does not end at once. -/
theorem ReadsItems.not_empty {t r r' : List UInt8} {vs : List Value} (h : ReadsItems t vs r) :
    ¬ReadsWs t (0x5D :: r') := by
  intro hempty
  obtain ⟨t₁, v, t₂, t₃, hws, hv, -⟩ := h.exists_first
  obtain rfl := hws.unique hempty hv.solid (solid_cons (by decide) _)
  obtain ⟨b, t', heq, hb⟩ := hv.head
  obtain ⟨rfl, -⟩ := List.cons.inj heq
  cases hb

/-- An object that goes on with a member does not end at once. -/
theorem ReadsMembers.not_empty {t r r' : List UInt8} {ms : List (List UInt8 × Value)}
    (h : ReadsMembers t ms r) : ¬ReadsWs t (0x7D :: r') := by
  intro hempty
  obtain ⟨t₁, k, t₂, t₃, t₄, v, t₅, t₆, hws, -⟩ := h.exists_first
  exact absurd (hws.cons_inj hempty (by decide) (by decide)).1 (by decide)

/-- What separates values: it goes on neither with white space nor with a number. -/
def Separator (t : List UInt8) : Prop := Solid t ∧ Follows t

theorem separator_cons {b : UInt8} (hws : ¬Space b) (hnum : ¬NumberByte b) (t : List UInt8) :
    Separator (b :: t) :=
  ⟨solid_cons hws t, follows_cons hnum t⟩

theorem separator_comma (t : List UInt8) : Separator (0x2C :: t) :=
  separator_cons (by decide) (by decide) t

theorem separator_bracket (t : List UInt8) : Separator (0x5D :: t) :=
  separator_cons (by decide) (by decide) t

theorem separator_brace (t : List UInt8) : Separator (0x7D :: t) :=
  separator_cons (by decide) (by decide) t

/-- **The name of a member** is read in one way. -/
theorem unique_name {t t₁ t₂ t₃ u₁ u₂ u₃ k k' : List UInt8} (h₁ : ReadsWs t (0x22 :: t₁))
    (hk : ReadsString t₁ k t₂) (h₂ : ReadsWs t₂ (0x3A :: t₃)) (hu₁ : ReadsWs t (0x22 :: u₁))
    (hk' : ReadsString u₁ k' u₂) (hu₂ : ReadsWs u₂ (0x3A :: u₃)) : k = k' ∧ t₃ = u₃ := by
  obtain ⟨-, rfl⟩ := h₁.cons_inj hu₁ (by decide) (by decide)
  obtain ⟨rfl, rfl⟩ := hk.unique hk'
  obtain ⟨-, rfl⟩ := h₂.cons_inj hu₂ (by decide) (by decide)
  exact ⟨rfl, rfl⟩

-- The induction is on the first derivation. Where a value is followed by white space, what
-- follows that, a separator, goes on neither with a number nor with white space.
mutual

/-- **A value** is read in one way, if what follows does not go on with a number. -/
theorem ReadsValue.unique {t r r' : List UInt8} {v v' : Value} (h : ReadsValue t v r)
    (h' : ReadsValue t v' r') (hr : Follows r) (hr' : Follows r') : v = v' ∧ r = r' := by
  have hkind := h.kind_eq h'
  cases h with
  | null r => cases v' with
    | null => exact ⟨rfl, by simpa using h'.of_null⟩
    | _ => cases hkind
  | true r => cases v' with
    | bool b => cases b with
      | true => exact ⟨rfl, by simpa using h'.of_bool⟩
      | false => exact absurd (List.cons.inj h'.of_bool).1 (by decide)
    | _ => cases hkind
  | false r => cases v' with
    | bool b => cases b with
      | true => exact absurd (List.cons.inj h'.of_bool).1 (by decide)
      | false => exact ⟨rfl, by simpa using h'.of_bool⟩
    | _ => cases hkind
  | num ht r => cases v' with
    | num n =>
      obtain ⟨hn, heq⟩ := h'.of_num
      obtain ⟨rfl, rfl⟩ := ht.unique hn hr hr' heq
      exact ⟨rfl, rfl⟩
    | _ => cases hkind
  | str hs => cases v' with
    | str s =>
      obtain ⟨t₀, heq, hs'⟩ := h'.of_str
      obtain ⟨-, rfl⟩ := List.cons.inj heq
      obtain ⟨rfl, rfl⟩ := hs.unique hs'
      exact ⟨rfl, rfl⟩
    | _ => cases hkind
  | emptyArr hws => cases v' with
    | arr vs =>
      obtain ⟨t₀, heq, ⟨rfl, hws'⟩ | hvs'⟩ := h'.of_arr
      all_goals obtain ⟨-, rfl⟩ := List.cons.inj heq
      · exact ⟨rfl, (hws.cons_inj hws' (by decide) (by decide)).2⟩
      · exact absurd hws hvs'.not_empty
    | _ => cases hkind
  | arr hvs => cases v' with
    | arr vs =>
      obtain ⟨t₀, heq, ⟨rfl, hws'⟩ | hvs'⟩ := h'.of_arr
      all_goals obtain ⟨-, rfl⟩ := List.cons.inj heq
      · exact absurd hws' hvs.not_empty
      · obtain ⟨rfl, rfl⟩ := hvs.unique hvs'
        exact ⟨rfl, rfl⟩
    | _ => cases hkind
  | emptyObj hws => cases v' with
    | obj ms =>
      obtain ⟨t₀, heq, ⟨rfl, hws'⟩ | hms'⟩ := h'.of_obj
      all_goals obtain ⟨-, rfl⟩ := List.cons.inj heq
      · exact ⟨rfl, (hws.cons_inj hws' (by decide) (by decide)).2⟩
      · exact absurd hws hms'.not_empty
    | _ => cases hkind
  | obj hms => cases v' with
    | obj ms =>
      obtain ⟨t₀, heq, ⟨rfl, hws'⟩ | hms'⟩ := h'.of_obj
      all_goals obtain ⟨-, rfl⟩ := List.cons.inj heq
      · exact absurd hws' hms.not_empty
      · obtain ⟨rfl, rfl⟩ := hms.unique hms'
        exact ⟨rfl, rfl⟩
    | _ => cases hkind

/-- **The items of an array** are read in one way. -/
theorem ReadsItems.unique {t r r' : List UInt8} {vs vs' : List Value} (h : ReadsItems t vs r)
    (h' : ReadsItems t vs' r') : vs = vs' ∧ r = r' := by
  obtain ⟨u₁, v', u₂, u₃, hu₁, hv', hu₂, hend⟩ := h'.exists_first
  have hsep : Separator u₃ := by
    obtain ⟨rfl, -⟩ | ⟨u₄, vs'', rfl, -⟩ := hend
    · exact separator_bracket r'
    · exact separator_comma u₄
  cases h with
  | last h₁ hv h₂ =>
    have hsep' := separator_bracket r
    obtain rfl := h₁.unique hu₁ hv.solid hv'.solid
    obtain ⟨rfl, rfl⟩ := hv.unique hv' (h₂.follows hsep'.2) (hu₂.follows hsep.2)
    have heq := h₂.unique hu₂ hsep'.1 hsep.1
    obtain ⟨rfl, rfl⟩ | ⟨u₄, vs'', rfl, -⟩ := hend
    · exact ⟨rfl, (List.cons.inj heq).2⟩
    · exact absurd (List.cons.inj heq).1 (by decide)
  | @cons _ _ _ t₃ _ _ _ h₁ hv h₂ hvs =>
    have hsep' := separator_comma t₃
    obtain rfl := h₁.unique hu₁ hv.solid hv'.solid
    obtain ⟨rfl, rfl⟩ := hv.unique hv' (h₂.follows hsep'.2) (hu₂.follows hsep.2)
    have heq := h₂.unique hu₂ hsep'.1 hsep.1
    obtain ⟨rfl, rfl⟩ | ⟨u₄, vs'', rfl, rfl, hvs'⟩ := hend
    · exact absurd (List.cons.inj heq).1 (by decide)
    · obtain ⟨-, rfl⟩ := List.cons.inj heq
      obtain ⟨rfl, rfl⟩ := hvs.unique hvs'
      exact ⟨rfl, rfl⟩

/-- **The members of an object** are read in one way. -/
theorem ReadsMembers.unique {t r r' : List UInt8} {ms ms' : List (List UInt8 × Value)}
    (h : ReadsMembers t ms r) (h' : ReadsMembers t ms' r') : ms = ms' ∧ r = r' := by
  obtain ⟨u₁, k', u₂, u₃, u₄, v', u₅, u₆, hu₁, hk', hu₂, hu₃, hv', hu₄, hend⟩ := h'.exists_first
  have hsep : Separator u₆ := by
    obtain ⟨rfl, -⟩ | ⟨u₇, ms'', rfl, -⟩ := hend
    · exact separator_brace r'
    · exact separator_comma u₇
  cases h with
  | last h₁ hk h₂ h₃ hv h₄ =>
    have hsep' := separator_brace r
    obtain ⟨rfl, rfl⟩ := unique_name h₁ hk h₂ hu₁ hk' hu₂
    obtain rfl := h₃.unique hu₃ hv.solid hv'.solid
    obtain ⟨rfl, rfl⟩ := hv.unique hv' (h₄.follows hsep'.2) (hu₄.follows hsep.2)
    have heq := h₄.unique hu₄ hsep'.1 hsep.1
    obtain ⟨rfl, rfl⟩ | ⟨u₇, ms'', rfl, -⟩ := hend
    · exact ⟨rfl, (List.cons.inj heq).2⟩
    · exact absurd (List.cons.inj heq).1 (by decide)
  | @cons _ _ _ _ _ _ t₆ _ _ _ _ h₁ hk h₂ h₃ hv h₄ hms =>
    have hsep' := separator_comma t₆
    obtain ⟨rfl, rfl⟩ := unique_name h₁ hk h₂ hu₁ hk' hu₂
    obtain rfl := h₃.unique hu₃ hv.solid hv'.solid
    obtain ⟨rfl, rfl⟩ := hv.unique hv' (h₄.follows hsep'.2) (hu₄.follows hsep.2)
    have heq := h₄.unique hu₄ hsep'.1 hsep.1
    obtain ⟨rfl, rfl⟩ | ⟨u₇, ms'', rfl, rfl, hms'⟩ := hend
    · exact absurd (List.cons.inj heq).1 (by decide)
    · obtain ⟨-, rfl⟩ := List.cons.inj heq
      obtain ⟨rfl, rfl⟩ := hms.unique hms'
      exact ⟨rfl, rfl⟩

end

/-- **A text denotes one value.** -/
theorem Text.unique {t : List UInt8} {v v' : Value} (h : Text t v) (h' : Text t v') : v = v' := by
  obtain ⟨t₁, t₂, hws, hv, hend⟩ := h
  obtain ⟨t₁', t₂', hws', hv', hend'⟩ := h'
  obtain rfl := hws.unique hws' hv.solid hv'.solid
  exact (hv.unique hv' (hend.follows follows_nil) (hend'.follows follows_nil)).1

end Json

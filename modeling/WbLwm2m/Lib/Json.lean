import Mathlib.Data.List.Basic
import Mathlib.Data.UInt

/-!
# The grammar of JSON texts

The grammar of JSON over the bytes of a text, as relations between what there is to
read, the value that is read, and what is left: `Json.ReadsString` for what stands
between quotation marks, with its escapes, and `Json.ReadsValue` for a value. A text
denotes a value when the whole of it is read, `Json.Text`. The bytes of a text are UTF-8
besides, `Json.ValidUtf8`; the grammar alone does not look beyond the ASCII bytes.

Two facts make the rest work. Read forward, a string of plain bytes denotes itself and
nothing else (`Json.readsString_plain`, `Json.ReadsString.eq_of_plain`). Read backward,
an escape always takes more bytes than the character it stands for, so that a literal
which is as short as the string it denotes has no escapes
(`Json.ReadsString.length_lt_or_plain`).
-/

namespace Json

/-- **A JSON value.** A number is kept as its text, and an object as the list of its
members, in the order of the text and with repetitions. -/
inductive Value where
  | null
  | bool (b : Bool)
  | num (text : List UInt8)
  | str (s : List UInt8)
  | arr (items : List Value)
  | obj (members : List (List UInt8 × Value))

/-! ### Characters -/

/-- The bytes are the UTF-8 encoding of a sequence of characters. -/
def ValidUtf8 (bs : List UInt8) : Prop := ∃ cs : List Char, bs = cs.flatMap String.utf8EncodeChar

theorem ValidUtf8.append {as bs : List UInt8} (ha : ValidUtf8 as) (hb : ValidUtf8 bs) :
    ValidUtf8 (as ++ bs) := by
  obtain ⟨cs, rfl⟩ := ha
  obtain ⟨ds, rfl⟩ := hb
  exact ⟨cs ++ ds, List.flatMap_append.symm⟩

theorem utf8EncodeChar_ofNat (i : Fin 128) :
    String.utf8EncodeChar (Char.ofNat i) = [UInt8.ofNat i] := by
  revert i
  decide

/-- The bytes are ASCII characters. -/
def Ascii (bs : List UInt8) : Prop := ∀ b ∈ bs, b < 0x80

instance : DecidablePred Ascii := fun bs => List.decidableBAll (· < 0x80) bs

theorem Ascii.append {as bs : List UInt8} (ha : Ascii as) (hb : Ascii bs) : Ascii (as ++ bs) :=
  List.forall_mem_append.mpr ⟨ha, hb⟩

theorem Ascii.validUtf8 {bs : List UInt8} (h : Ascii bs) : ValidUtf8 bs := by
  induction bs with
  | nil => exact ⟨[], rfl⟩
  | cons b bs ih =>
    obtain ⟨cs, rfl⟩ := ih fun c hc => h c (List.mem_cons_of_mem _ hc)
    have hb : b.toNat < 128 := UInt8.lt_iff_toNat_lt.mp (h b List.mem_cons_self)
    refine ⟨Char.ofNat b.toNat :: cs, ?_⟩
    rw [List.flatMap_cons, utf8EncodeChar_ofNat ⟨b.toNat, hb⟩, UInt8.ofNat_toNat]
    rfl

/-- A byte that may stand for itself in a string literal: no control character, no
quotation mark, no backslash. -/
def Unescaped (b : UInt8) : Prop := 0x20 ≤ b ∧ b ≠ 0x22 ∧ b ≠ 0x5C

instance : DecidablePred Unescaped := fun b =>
  inferInstanceAs (Decidable (0x20 ≤ b ∧ b ≠ 0x22 ∧ b ≠ 0x5C))

/-- A string of bytes that stand for themselves. -/
def Plain (s : List UInt8) : Prop := ∀ b ∈ s, Unescaped b

instance : DecidablePred Plain := fun s => List.decidableBAll Unescaped s

/-- The character of an escape of two bytes. -/
def shortEscape (c : UInt8) : Option UInt8 :=
  if c = 0x22 ∨ c = 0x5C ∨ c = 0x2F then some c
  else if c = 0x62 then some 0x08
  else if c = 0x66 then some 0x0C
  else if c = 0x6E then some 0x0A
  else if c = 0x72 then some 0x0D
  else if c = 0x74 then some 0x09
  else none

/-- The value of a hexadecimal digit. -/
def hexDigit (c : UInt8) : Option ℕ :=
  if 0x30 ≤ c ∧ c ≤ 0x39 then some (c.toNat - 0x30)
  else if 0x41 ≤ c ∧ c ≤ 0x46 then some (c.toNat - 0x37)
  else if 0x61 ≤ c ∧ c ≤ 0x66 then some (c.toNat - 0x57)
  else none

/-- The value of four hexadecimal digits. -/
def hex4 (a b c d : UInt8) : Option ℕ := do
  return (((← hexDigit a) * 16 + (← hexDigit b)) * 16 + (← hexDigit c)) * 16 + (← hexDigit d)

/-! ### The grammar -/

/-- A byte of white space. -/
def Space (b : UInt8) : Prop := b = 0x20 ∨ b = 0x09 ∨ b = 0x0A ∨ b = 0x0D

instance : DecidablePred Space := fun b =>
  inferInstanceAs (Decidable (b = 0x20 ∨ b = 0x09 ∨ b = 0x0A ∨ b = 0x0D))

/-- Some white space is read. -/
inductive ReadsWs : List UInt8 → List UInt8 → Prop where
  | done (t : List UInt8) : ReadsWs t t
  | space {b : UInt8} {t r : List UInt8} (hb : Space b) (h : ReadsWs t r) : ReadsWs (b :: t) r

/-- A string literal is read, from behind its opening quotation mark to behind its
closing one. -/
inductive ReadsString : List UInt8 → List UInt8 → List UInt8 → Prop where
  | close (r : List UInt8) : ReadsString (0x22 :: r) [] r
  | plain {b : UInt8} {t s r : List UInt8} (hb : Unescaped b) (h : ReadsString t s r) :
      ReadsString (b :: t) (b :: s) r
  | escape {c d : UInt8} {t s r : List UInt8} (hc : shortEscape c = some d)
      (h : ReadsString t s r) : ReadsString (0x5C :: c :: t) (d :: s) r
  | unicode {a b c d : UInt8} {x : Char} {t s r : List UInt8}
      (hx : hex4 a b c d = some x.toNat) (h : ReadsString t s r) :
      ReadsString (0x5C :: 0x75 :: a :: b :: c :: d :: t) (String.utf8EncodeChar x ++ s) r
  | surrogates {a b c d e f g h : UInt8} {hi lo : ℕ} {x : Char} {t s r : List UInt8}
      (hhi : hex4 a b c d = some hi) (hlo : hex4 e f g h = some lo)
      (hhi' : 0xD800 ≤ hi ∧ hi < 0xDC00) (hlo' : 0xDC00 ≤ lo ∧ lo < 0xE000)
      (hx : x.toNat = 0x10000 + (hi - 0xD800) * 0x400 + (lo - 0xDC00))
      (hs : ReadsString t s r) :
      ReadsString
        (0x5C :: 0x75 :: a :: b :: c :: d :: 0x5C :: 0x75 :: e :: f :: g :: h :: t)
        (String.utf8EncodeChar x ++ s) r

/-- At least one decimal digit. -/
def Digits (t : List UInt8) : Prop := t ≠ [] ∧ ∀ b ∈ t, 0x30 ≤ b ∧ b ≤ 0x39

/-- The text of a number: sign, integer without leading zeros, fraction, exponent. -/
def Number (t : List UInt8) : Prop :=
  ∃ sign int frac exp, t = sign ++ int ++ frac ++ exp ∧
    (sign = [] ∨ sign = [0x2D]) ∧
    (int = [0x30] ∨ Digits int ∧ int.head? ≠ some 0x30) ∧
    (frac = [] ∨ ∃ ds, Digits ds ∧ frac = 0x2E :: ds) ∧
    (exp = [] ∨ ∃ e s ds, (e = 0x65 ∨ e = 0x45) ∧ (s = [] ∨ s = [0x2B] ∨ s = [0x2D]) ∧
      Digits ds ∧ exp = e :: s ++ ds)

mutual

/-- **A value is read.** -/
inductive ReadsValue : List UInt8 → Value → List UInt8 → Prop where
  | null (r : List UInt8) : ReadsValue (0x6E :: 0x75 :: 0x6C :: 0x6C :: r) .null r
  | true (r : List UInt8) : ReadsValue (0x74 :: 0x72 :: 0x75 :: 0x65 :: r) (.bool true) r
  | false (r : List UInt8) :
      ReadsValue (0x66 :: 0x61 :: 0x6C :: 0x73 :: 0x65 :: r) (.bool false) r
  | num {t : List UInt8} (ht : Number t) (r : List UInt8) : ReadsValue (t ++ r) (.num t) r
  | str {t s r : List UInt8} (hs : ReadsString t s r) : ReadsValue (0x22 :: t) (.str s) r
  | emptyArr {t r : List UInt8} (h : ReadsWs t (0x5D :: r)) : ReadsValue (0x5B :: t) (.arr []) r
  | arr {t r : List UInt8} {vs : List Value} (h : ReadsItems t vs r) :
      ReadsValue (0x5B :: t) (.arr vs) r
  | emptyObj {t r : List UInt8} (h : ReadsWs t (0x7D :: r)) : ReadsValue (0x7B :: t) (.obj []) r
  | obj {t r : List UInt8} {ms : List (List UInt8 × Value)} (h : ReadsMembers t ms r) :
      ReadsValue (0x7B :: t) (.obj ms) r

/-- The items of an array are read, and its closing bracket. -/
inductive ReadsItems : List UInt8 → List Value → List UInt8 → Prop where
  | last {t t₁ t₂ r : List UInt8} {v : Value} (h₁ : ReadsWs t t₁) (hv : ReadsValue t₁ v t₂)
      (h₂ : ReadsWs t₂ (0x5D :: r)) : ReadsItems t [v] r
  | cons {t t₁ t₂ t₃ r : List UInt8} {v : Value} {vs : List Value} (h₁ : ReadsWs t t₁)
      (hv : ReadsValue t₁ v t₂) (h₂ : ReadsWs t₂ (0x2C :: t₃)) (hvs : ReadsItems t₃ vs r) :
      ReadsItems t (v :: vs) r

/-- The members of an object are read, and its closing brace. -/
inductive ReadsMembers : List UInt8 → List (List UInt8 × Value) → List UInt8 → Prop where
  | last {t t₁ t₂ t₃ t₄ t₅ r k : List UInt8} {v : Value} (h₁ : ReadsWs t (0x22 :: t₁))
      (hk : ReadsString t₁ k t₂) (h₂ : ReadsWs t₂ (0x3A :: t₃)) (h₃ : ReadsWs t₃ t₄)
      (hv : ReadsValue t₄ v t₅) (h₄ : ReadsWs t₅ (0x7D :: r)) : ReadsMembers t [(k, v)] r
  | cons {t t₁ t₂ t₃ t₄ t₅ t₆ r k : List UInt8} {v : Value} {ms : List (List UInt8 × Value)}
      (h₁ : ReadsWs t (0x22 :: t₁)) (hk : ReadsString t₁ k t₂) (h₂ : ReadsWs t₂ (0x3A :: t₃))
      (h₃ : ReadsWs t₃ t₄) (hv : ReadsValue t₄ v t₅) (h₄ : ReadsWs t₅ (0x2C :: t₆))
      (hms : ReadsMembers t₆ ms r) : ReadsMembers t ((k, v) :: ms) r

end

/-- **The text denotes the value**: it is one value, between white space. -/
def Text (t : List UInt8) (v : Value) : Prop :=
  ∃ t₁ t₂, ReadsWs t t₁ ∧ ReadsValue t₁ v t₂ ∧ ReadsWs t₂ []

/-! ### White space and strings -/

theorem ReadsWs.length_le {t r : List UInt8} (h : ReadsWs t r) : r.length ≤ t.length := by
  induction h with
  | done => exact le_rfl
  | space _ _ ih => exact Nat.le_succ_of_le ih

/-- In front of anything else there is no white space. -/
theorem ReadsWs.eq_of_not_space {c : UInt8} {t r : List UInt8} (h : ReadsWs (c :: t) r)
    (hc : ¬Space c) : r = c :: t := by
  cases h with
  | done => rfl
  | space hb => exact absurd hb hc

/-- A string of plain bytes can be read. -/
theorem readsString_plain {p : List UInt8} (hp : Plain p) (r : List UInt8) :
    ReadsString (p ++ 0x22 :: r) p r := by
  induction p with
  | nil => exact ReadsString.close r
  | cons b p ih =>
    have hrest := ih fun c hc => hp c (List.mem_cons_of_mem _ hc)
    exact ReadsString.plain (hp b List.mem_cons_self) hrest

/-- **Plain bytes denote themselves**, and their literal ends at its quotation mark. -/
theorem ReadsString.eq_of_plain {p s r r' : List UInt8} (hp : Plain p)
    (h : ReadsString (p ++ 0x22 :: r) s r') : s = p ∧ r' = r := by
  induction p generalizing s with
  | nil =>
    generalize ht : ([] : List UInt8) ++ 0x22 :: r = t at h
    cases h with
    | close => exact ⟨rfl, (List.cons.inj ht).2.symm⟩
    | plain hb =>
      obtain ⟨rfl, -⟩ := List.cons.inj ht
      exact absurd rfl hb.2.1
    | _ => exact absurd (List.cons.inj ht).1 (by decide)
  | cons b p ih =>
    have hb := hp b List.mem_cons_self
    generalize ht : b :: p ++ 0x22 :: r = t at h
    cases h with
    | close => exact absurd (List.cons.inj ht).1 hb.2.1
    | plain _ h =>
      obtain ⟨rfl, rfl⟩ := List.cons.inj ht
      obtain ⟨rfl, rfl⟩ := ih (fun c hc => hp c (List.mem_cons_of_mem _ hc)) h
      exact ⟨rfl, rfl⟩
    | _ => exact absurd (List.cons.inj ht).1 hb.2.2

theorem length_utf8EncodeChar_le (x : Char) : (String.utf8EncodeChar x).length ≤ 4 := by
  rw [String.length_utf8EncodeChar]
  exact Char.utf8Size_le_four x

/-- A literal is never shorter than what it denotes, and **one that is no longer has no
escapes**. -/
theorem ReadsString.length_lt_or_plain {t s r : List UInt8} (h : ReadsString t s r) :
    s.length + r.length + 1 < t.length ∨ Plain s ∧ t = s ++ 0x22 :: r := by
  induction h with
  | close r => exact Or.inr ⟨fun b hb => absurd hb List.not_mem_nil, rfl⟩
  | plain hb _ ih =>
    -- as long as nothing has been escaped, the literal is as long as its string
    rcases ih with hlt | ⟨hplain, rfl⟩
    · refine Or.inl ?_
      simp only [List.length_cons]
      omega
    · exact Or.inr ⟨List.forall_mem_cons.mpr ⟨hb, hplain⟩, rfl⟩
  | escape _ _ ih =>
    refine Or.inl ?_
    rcases ih with hlt | ⟨-, rfl⟩
    · simp only [List.length_cons]
      omega
    · simp only [List.length_cons, List.length_append]
      omega
  -- six bytes stand for at most four, and so do twelve
  | @unicode _ _ _ _ x _ _ _ _ _ ih =>
    refine Or.inl ?_
    have hx := length_utf8EncodeChar_le x
    rcases ih with hlt | ⟨-, rfl⟩
    · simp only [List.length_cons, List.length_append]
      omega
    · simp only [List.length_cons, List.length_append]
      omega
  | @surrogates _ _ _ _ _ _ _ _ _ _ x _ _ _ _ _ _ _ _ _ ih =>
    refine Or.inl ?_
    have hx := length_utf8EncodeChar_le x
    rcases ih with hlt | ⟨-, rfl⟩
    · simp only [List.length_cons, List.length_append]
      omega
    · simp only [List.length_cons, List.length_append]
      omega

/-! ### Values -/

/-- A number starts with a sign or a digit. -/
theorem Number.exists_cons {t : List UInt8} (h : Number t) :
    ∃ b t', t = b :: t' ∧ (b = 0x2D ∨ 0x30 ≤ b ∧ b ≤ 0x39) := by
  obtain ⟨sign, int, frac, exp, rfl, hsign, hint, -, -⟩ := h
  rcases hsign with rfl | rfl
  · rcases hint with rfl | ⟨⟨hne, hdig⟩, -⟩
    · exact ⟨0x30, _, rfl, Or.inr (by decide)⟩
    · obtain ⟨b, t', rfl⟩ := List.exists_cons_of_ne_nil hne
      exact ⟨b, _, rfl, Or.inr (hdig b List.mem_cons_self)⟩
  · exact ⟨0x2D, _, rfl, Or.inl rfl⟩

/-- The text of a number is ASCII. -/
theorem Number.ascii {t : List UInt8} (h : Number t) : Ascii t := by
  have hdigits : ∀ {ds : List UInt8}, Digits ds → Ascii ds := fun hds b hb =>
    UInt8.lt_of_le_of_lt (hds.2 b hb).2 (by decide)
  obtain ⟨sign, int, frac, exp, rfl, hsign, hint, hfrac, hexp⟩ := h
  have hsign' : Ascii sign := by
    rcases hsign with rfl | rfl <;> decide
  have hint' : Ascii int := by
    rcases hint with rfl | ⟨hds, -⟩
    · decide
    · exact hdigits hds
  have hfrac' : Ascii frac := by
    rcases hfrac with rfl | ⟨ds, hds, rfl⟩
    · decide
    · exact List.forall_mem_cons.mpr ⟨by decide, hdigits hds⟩
  have hexp' : Ascii exp := by
    rcases hexp with rfl | ⟨e, s, ds, he, hs, hds, rfl⟩
    · decide
    · have hs' : Ascii s := by
        rcases hs with rfl | rfl | rfl <;> decide
      have he' : e < 0x80 := by
        rcases he with rfl | rfl <;> decide
      exact List.forall_mem_cons.mpr ⟨he', hs'.append (hdigits hds)⟩
  exact ((hsign'.append hint').append hfrac').append hexp'

/-- A value behind a quotation mark is a string. -/
theorem ReadsValue.of_quote {t r : List UInt8} {v : Value} (h : ReadsValue (0x22 :: t) v r) :
    ∃ s, v = .str s ∧ ReadsString t s r := by
  generalize ht : 0x22 :: t = u at h
  cases h with
  | str hs =>
    obtain ⟨-, rfl⟩ := List.cons.inj ht
    exact ⟨_, rfl, hs⟩
  | num hnum =>
    obtain ⟨b, t', rfl, hb⟩ := hnum.exists_cons
    obtain ⟨rfl, -⟩ := List.cons.inj ht
    exact absurd hb (by decide)
  | _ => exact absurd (List.cons.inj ht).1 (by decide)

/-- An array of one item. -/
theorem ReadsValue.of_arr_singleton {t r : List UInt8} {v : Value}
    (h : ReadsValue t (.arr [v]) r) :
    ∃ t₀ t₁ t₂, t = 0x5B :: t₀ ∧ ReadsWs t₀ t₁ ∧ ReadsValue t₁ v t₂ ∧ ReadsWs t₂ (0x5D :: r) := by
  cases h with
  | arr h => cases h with
    | last h₁ hv h₂ => exact ⟨_, _, _, rfl, h₁, hv, h₂⟩
    | cons _ _ _ hvs => cases hvs

/-- An object with members. -/
theorem ReadsValue.of_obj_cons {t r : List UInt8} {m : List UInt8 × Value}
    {ms : List (List UInt8 × Value)} (h : ReadsValue t (.obj (m :: ms)) r) :
    ∃ t₀, t = 0x7B :: t₀ ∧ ReadsMembers t₀ (m :: ms) r := by
  cases h with
  | obj h => exact ⟨_, rfl, h⟩

/-- The text of a member whose name and value are string literals, with no white space. -/
def member (k s r : List UInt8) : List UInt8 :=
  0x22 :: (k ++ 0x22 :: 0x3A :: 0x22 :: (s ++ 0x22 :: r))

/-- What is behind the opening quotation mark of the value of a first member. -/
theorem ReadsMembers.of_member {p k q r : List UInt8} {v : Value}
    {ms : List (List UInt8 × Value)} (hp : Plain p)
    (h : ReadsMembers (0x22 :: (p ++ 0x22 :: 0x3A :: 0x22 :: q)) ((k, v) :: ms) r) :
    k = p ∧ ∃ s t, v = .str s ∧ ReadsString q s t ∧
      (ms = [] ∧ ReadsWs t (0x7D :: r) ∨
        ∃ t', ReadsWs t (0x2C :: t') ∧ ReadsMembers t' ms r) := by
  cases h with
  | last h₁ hk h₂ h₃ hv h₄ =>
    obtain ⟨-, rfl⟩ := List.cons.inj (h₁.eq_of_not_space (by decide))
    obtain ⟨rfl, rfl⟩ := hk.eq_of_plain hp
    obtain ⟨-, rfl⟩ := List.cons.inj (h₂.eq_of_not_space (by decide))
    obtain rfl := h₃.eq_of_not_space (by decide)
    obtain ⟨s, rfl, hs⟩ := hv.of_quote
    exact ⟨rfl, s, _, rfl, hs, Or.inl ⟨rfl, h₄⟩⟩
  | cons h₁ hk h₂ h₃ hv h₄ hms =>
    obtain ⟨-, rfl⟩ := List.cons.inj (h₁.eq_of_not_space (by decide))
    obtain ⟨rfl, rfl⟩ := hk.eq_of_plain hp
    obtain ⟨-, rfl⟩ := List.cons.inj (h₂.eq_of_not_space (by decide))
    obtain rfl := h₃.eq_of_not_space (by decide)
    obtain ⟨s, rfl, hs⟩ := hv.of_quote
    exact ⟨rfl, s, _, rfl, hs, Or.inr ⟨_, h₄, hms⟩⟩

/-- A first member of plain strings is read as what it says. -/
theorem ReadsMembers.of_member_plain {p q t r : List UInt8} {m m₂ : List UInt8 × Value}
    {ms : List (List UInt8 × Value)} (hp : Plain p) (hq : Plain q)
    (h : ReadsMembers (member p q (0x2C :: t)) (m :: m₂ :: ms) r) :
    m = (p, .str q) ∧ ReadsMembers t (m₂ :: ms) r := by
  obtain ⟨k, v⟩ := m
  obtain ⟨rfl, s, t', rfl, hs, ⟨hms, -⟩ | ⟨u, hws, hrest⟩⟩ := h.of_member hp
  · cases hms
  · obtain ⟨rfl, rfl⟩ := hs.eq_of_plain hq
    obtain ⟨-, rfl⟩ := List.cons.inj (hws.eq_of_not_space (by decide))
    exact ⟨rfl, hrest⟩

/-- A last member, with no white space. -/
theorem readsMembers_last {p t r : List UInt8} {v : Value} (hp : Plain p)
    (h : ReadsValue t v (0x7D :: r)) :
    ReadsMembers (0x22 :: (p ++ 0x22 :: 0x3A :: t)) [(p, v)] r :=
  ReadsMembers.last (ReadsWs.done _) (readsString_plain hp _) (ReadsWs.done _) (ReadsWs.done _) h
    (ReadsWs.done _)

theorem readsMembers_member_cons {p q t r : List UInt8} {ms : List (List UInt8 × Value)}
    (hp : Plain p) (hq : Plain q) (h : ReadsMembers t ms r) :
    ReadsMembers (member p q (0x2C :: t)) ((p, .str q) :: ms) r :=
  ReadsMembers.cons (ReadsWs.done _) (readsString_plain hp _) (ReadsWs.done _) (ReadsWs.done _)
    (ReadsValue.str (readsString_plain hq _)) (ReadsWs.done _) h

end Json

import Mathlib.Data.List.Basic
import Mathlib.InformationTheory.Coding.UniquelyDecodable

/-!
# Self-delimiting readers

A reader that looks at the front of a text and says where its first word ends, or that there
is none, is *self-delimiting* (`PrefixCode.SelfDelimiting`) when its answer depends on the word
alone, and not on what follows. The words of such a reader are a prefix code
(`PrefixCode.SelfDelimiting.eq_of_prefix`): cut anywhere, a word is none
(`PrefixCode.SelfDelimiting.take_of_lt`), and a text falls apart into words in at most one way
(`PrefixCode.SelfDelimiting.uniquelyDecodable`).
-/

namespace PrefixCode

open InformationTheory

variable {α : Type*}

/-- **A self-delimiting reader** takes a letter or more, never more than there are, and does
not look behind the word it takes. -/
structure SelfDelimiting (next : List α → Option ℕ) : Prop where
  pos : ∀ {t n}, next t = some n → 0 < n
  le : ∀ {t n}, next t = some n → n ≤ t.length
  append : ∀ {t n}, next t = some n → ∀ s, next (t.take n ++ s) = some n

/-- The words of a reader: what it takes whole. -/
def words (next : List α → Option ℕ) : Set (List α) := {w | next w = some w.length}

variable {next : List α → Option ℕ}

theorem mem_words {w : List α} : w ∈ words next ↔ next w = some w.length := Iff.rfl

namespace SelfDelimiting

/-- The reader takes a word off the front of any text. -/
theorem next_append (h : SelfDelimiting next) {w : List α} (hw : w ∈ words next) (s : List α) :
    next (w ++ s) = some w.length := by
  have happ := h.append (mem_words.mp hw) s
  rwa [List.take_length] at happ

/-- **A word that is cut is none.** -/
theorem take_of_lt (h : SelfDelimiting next) {t : List α} {n k : ℕ} (hn : next t = some n)
    (hk : k < n) : next (t.take k) = none := by
  by_contra hne
  obtain ⟨j, hj⟩ := Option.ne_none_iff_exists'.mp hne
  have hjk : j ≤ k := (h.le hj).trans (List.length_take_le _ _)
  -- what is taken off the shorter text would be taken off the longer one
  have happ := h.append hj (t.drop j)
  rw [List.take_take, min_eq_left hjk, List.take_append_drop, hn] at happ
  obtain rfl := Option.some.inj happ
  omega

/-- **No word is the beginning of another one.** -/
theorem eq_of_prefix (h : SelfDelimiting next) {w w' : List α} (hw : w ∈ words next)
    (hw' : w' ∈ words next) (hle : w <+: w') : w = w' := by
  obtain ⟨s, rfl⟩ := hle
  have heq := (h.next_append hw s).symm.trans (mem_words.mp hw')
  rw [Option.some.injEq, List.length_append] at heq
  rw [List.eq_nil_of_length_eq_zero (show s.length = 0 by omega), List.append_nil]

theorem nil_not_mem_words (h : SelfDelimiting next) : [] ∉ words next := by
  intro hnil
  exact absurd (h.pos hnil) (lt_irrefl _)

/-- **A text falls apart into words in at most one way.** -/
theorem uniquelyDecodable (h : SelfDelimiting next) : UniquelyDecodable (words next) := by
  intro ws
  induction ws with
  | nil =>
    rintro ws' - hws' heq
    rcases ws' with _ | ⟨w', ws'⟩
    · rfl
    · obtain ⟨rfl, -⟩ := List.append_eq_nil_iff.mp heq.symm
      exact absurd (hws' [] List.mem_cons_self) h.nil_not_mem_words
  | cons w ws ih =>
    rintro ws' hws hws' heq
    obtain ⟨hw, hws⟩ := List.forall_mem_cons.mp hws
    rcases ws' with _ | ⟨w', ws'⟩
    · obtain ⟨rfl, -⟩ := List.append_eq_nil_iff.mp heq
      exact absurd hw h.nil_not_mem_words
    · obtain ⟨hw', htail⟩ := List.forall_mem_cons.mp hws'
      rw [List.flatten_cons, List.flatten_cons] at heq
      -- the reader takes both first words off the same text
      have hlen := (h.next_append hw ws.flatten).symm.trans
        ((congrArg next heq).trans (h.next_append hw' ws'.flatten))
      obtain ⟨rfl, hrest⟩ := List.append_inj heq (Option.some.inj hlen)
      rw [ih ws' hws htail hrest]

end SelfDelimiting

end PrefixCode

import Mathlib.Data.List.TakeWhile
import Reckoner.Text.Blank

/-!
Trimming. It takes off the white space at both ends of a text, as much as there is, and nothing else.
-/
namespace Reckoner.Text

/-- White space, or nothing at all. -/
def Blank (cs : List Char) : Prop :=
  ∀ c ∈ cs, isBlank c = true

instance (cs : List Char) : Decidable (Blank cs) :=
  inferInstanceAs (Decidable (∀ c ∈ cs, isBlank c = true))

/-- The second characters are the first ones without the white space around them. -/
structure Trims (cs body : List Char) : Prop where
  around : ∃ before after, Blank before ∧ Blank after ∧ cs = before ++ body ++ after
  first : ∀ c ∈ body.head?, isBlank c = false
  last : ∀ c ∈ body.getLast?, isBlank c = false

variable {cs body before after : List Char}

private theorem dropWhile_of_head (first : ∀ c ∈ body.head?, isBlank c = false) : body.dropWhile isBlank = body := by
  rw [List.dropWhile_eq_self_iff]
  intro nonempty
  rw [first _ (by rw [List.head?_eq_getElem?, List.getElem?_eq_getElem nonempty]; rfl)]
  exact Bool.false_ne_true

private theorem head_dropWhile (cs : List Char) : ∀ c ∈ (cs.dropWhile isBlank).head?, isBlank c = false := by
  intro c head
  have stops := List.head?_dropWhile_not isBlank cs
  rwa [Option.mem_def.mp head] at stops

theorem trims_trimChars (cs : List Char) : Trims cs (trimChars cs) := by
  let after := ((cs.dropWhile isBlank).reverse.takeWhile isBlank).reverse
  have split : trimChars cs ++ after = cs.dropWhile isBlank := by
    rw [trimChars, ← List.reverse_append, List.takeWhile_append_dropWhile, List.reverse_reverse]
  refine ⟨⟨cs.takeWhile isBlank, after, fun c => List.mem_takeWhile_imp, fun c mem => ?_, ?_⟩, fun c head => ?_, ?_⟩
  · exact List.mem_takeWhile_imp (List.mem_reverse.mp mem)
  · rw [List.append_assoc, split, List.takeWhile_append_dropWhile]
  · -- What is taken off at the end was behind what is kept.
    refine head_dropWhile cs c ?_
    rw [← split, List.head?_append, Option.mem_def.mp head]
    rfl
  · rw [trimChars, List.getLast?_reverse]
    exact head_dropWhile _

/-- Trimming gives what stands between white space, if that neither begins nor ends with any. -/
theorem trimChars_of_trims (trims : Trims cs body) : trimChars cs = body := by
  obtain ⟨⟨before, after, blank, blank', rfl⟩, first, last⟩ := trims
  have behind : (body ++ after).dropWhile isBlank = body ++ (if body = [] then [] else after) := by
    cases body with
    | nil => exact List.dropWhile_eq_nil_iff.mpr blank'
    | cons c body => exact dropWhile_of_head first
  have blank'' : ∀ c ∈ (if body = [] then [] else after).reverse, isBlank c = true := by
    intro c mem
    split at mem
    · cases mem
    · exact blank' c (List.mem_reverse.mp mem)
  rw [trimChars, List.append_assoc, List.dropWhile_append_of_pos blank, behind, List.reverse_append,
    List.dropWhile_append_of_pos blank'', dropWhile_of_head, List.reverse_reverse]
  rwa [List.head?_reverse]

/-- There is one text without the white space around it, and trimming finds it. -/
theorem trimChars_eq_iff : trimChars cs = body ↔ Trims cs body := by
  constructor
  · rintro rfl
    exact trims_trimChars cs
  · exact trimChars_of_trims

end Reckoner.Text

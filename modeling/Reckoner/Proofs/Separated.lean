import Mathlib.Data.List.Basic

/-!
Runs of a list between marks, as the arguments of a call are between commas.
-/
namespace Reckoner

/-- The runs with a mark between each two of them make up the whole. -/
inductive Separated (isMark : α → Prop) : List (List α) → List α → Prop where
  | last (run : List α) : Separated isMark [run] run
  | next {mark : α} {runs : List (List α)} {rest : List α} (run : List α) :
      isMark mark → Separated isMark runs rest →
      Separated isMark (run :: runs) (run ++ mark :: rest)

namespace Separated

variable {isMark : α → Prop} {runs : List (List α)} {whole run : List α}

theorem mem_of_mem {a : α} (h : Separated isMark runs whole) (isRun : run ∈ runs) (mem : a ∈ run) :
    a ∈ whole := by
  induction h with
  | last run => simp_all
  | next first _ _ ih =>
    rcases List.mem_cons.mp isRun with rfl | isRun
    · simp [mem]
    · simp [ih isRun]

theorem infix_of_mem (h : Separated isMark runs whole) (isRun : run ∈ runs) : run <:+: whole := by
  induction h with
  | last first =>
    cases List.mem_singleton.mp isRun
    exact List.infix_rfl
  | @next mark runs rest first _ _ ih =>
    rcases List.mem_cons.mp isRun with rfl | isRun
    · exact (List.prefix_append _ _).isInfix
    · exact (ih isRun).trans ⟨first ++ [mark], [], by simp⟩

theorem map {isMark' : β → Prop} (f : α → β) (keeps : ∀ a, isMark a → isMark' (f a))
    (h : Separated isMark runs whole) : Separated isMark' (runs.map (List.map f)) (whole.map f) := by
  induction h with
  | last run => exact .last _
  | next run mark _ ih =>
    rw [List.map_append, List.map_cons]
    exact .next _ (keeps _ mark) ih

end Separated

end Reckoner

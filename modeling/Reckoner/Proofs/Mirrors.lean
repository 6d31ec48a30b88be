import Reckoner.CompileError

/-!
Computations that run alike: both have an answer, and the two answers belong together, or both fail with the same
code. The texts and places in their errors may differ.
-/
namespace Reckoner

variable {α β γ δ : Type}

/-- Both computations have answers that belong together, or both fail with the same code. -/
inductive Parallel (same : α → β → Prop) : Except CompileError α → Except CompileError β → Prop where
  | ok {a : α} {b : β} : same a b → Parallel same (.ok a) (.ok b)
  | error {error other : CompileError} : error.cause.code = other.cause.code →
      Parallel same (.error error) (.error other)

/-- Both computations have an answer, the second one the changed answer of the first, or both fail with the same
code. -/
abbrev Mirrors (change : α → β) : Except CompileError α → Except CompileError β → Prop :=
  Parallel fun a b => change a = b

namespace Parallel

variable {same : α → β → Prop} {same' : γ → δ → Prop} {first : Except CompileError α} {second : Except CompileError β}

theorem bind {next : α → Except CompileError γ} {next' : β → Except CompileError δ} (h : Parallel same first second)
    (rest : ∀ a b, same a b → Parallel same' (next a) (next' b)) :
    Parallel same' (first >>= next) (second >>= next') := by
  cases h with
  | ok together => exact rest _ _ together
  | error code => exact .error code

theorem ite {first' : Except CompileError α} {second' : Except CompileError β} {condition : Prop}
    [Decidable condition] (holds : condition → Parallel same first second)
    (fails : ¬ condition → Parallel same first' second') :
    Parallel same (if condition then first else first') (if condition then second else second') := by
  by_cases condition
  · next yes => rw [if_pos yes, if_pos yes]; exact holds yes
  · next no => rw [if_neg no, if_neg no]; exact fails no

/-- Where the first computation has an answer the second one has the answer that belongs to it. -/
theorem exists_ok {a : α} (h : Parallel same (.ok a) second) : ∃ b, second = .ok b ∧ same a b := by
  cases h with
  | ok together => exact ⟨_, rfl, together⟩

end Parallel

namespace Mirrors

variable {change : α → γ} {change' : β → δ} {first : Except CompileError α} {second : Except CompileError γ}

theorem bind {next : α → Except CompileError β} {next' : γ → Except CompileError δ}
    (h : Mirrors change first second) (rest : ∀ a, Mirrors change' (next a) (next' (change a))) :
    Mirrors change' (first >>= next) (second >>= next') := by
  refine Parallel.bind h ?_
  rintro a _ rfl
  exact rest a

/-- Computations with one mirror image have answers that become the same, or they fail with the same code. -/
theorem agree {change' : β → γ} {other : Except CompileError β} (h : Mirrors change first second)
    (h' : Mirrors change' other second) :
    (∃ a b, first = .ok a ∧ other = .ok b ∧ change a = change' b) ∨
      ∃ error error', first = .error error ∧ other = .error error' ∧
        error.cause.code = error'.cause.code := by
  cases h with
  | ok same =>
    cases h' with
    | ok same' => exact .inl ⟨_, _, rfl, rfl, same.trans same'.symm⟩
  | error code =>
    cases h' with
    | error code' => exact .inr ⟨_, _, rfl, rfl, code.trans code'.symm⟩

end Mirrors

end Reckoner

import Mathlib.Tactic.Basic

/-!
Computations in steps that can fail, taken apart: they have an answer where every step has one, and fail with
the error of the first step that fails.
-/
namespace Reckoner

variable {ε α β : Type} {step : Except ε α} {next : α → Except ε β} {error : ε}

theorem bind_eq_ok {answer : β} :
    step >>= next = .ok answer ↔ ∃ between, step = .ok between ∧ next between = .ok answer := by
  cases step <;> simp [bind, Except.bind]

theorem bind_eq_error :
    step >>= next = .error error ↔
      step = .error error ∨ ∃ between, step = .ok between ∧ next between = .error error := by
  cases step <;> simp [bind, Except.bind]

end Reckoner

/-!
Computations that look at an index before they use it. They give an answer or an error as before, and give
up where an index is out of range. A stage of the compiler that is written out in this way and never gives
up uses no index that is out of range.
-/
namespace Reckoner

/-- Computations with an answer or an error, which give up where an index is out of range. -/
abbrev Strict (ε α : Type) :=
  ExceptT ε Option α

namespace Strict

variable {ε α β : Type}

/-- What stands at an index; gives up where nothing does. -/
def need (found : Option α) : Strict ε α :=
  ExceptT.lift found

/-- What stands in front of an index, if that is not the first one. -/
def needBefore (items : List α) : Nat → Strict ε (Option α)
  | 0 => pure none
  | index + 1 => some <$> need items[index]?

/-- Gives up outside of a range. -/
def within (inside : Prop) [Decidable inside] : Strict ε Unit :=
  need (if inside then some () else none)

/-- A computation that uses no index. -/
def lift (result : Except ε α) : Strict ε α :=
  ExceptT.mk (some result)

@[simp] theorem need_some (a : α) : (need (some a) : Strict ε α) = pure a := rfl

@[simp] theorem lift_ok (a : α) : (lift (.ok a) : Strict ε α) = pure a := rfl

theorem within_eq {inside : Prop} [Decidable inside] (h : inside) :
    (within inside : Strict ε Unit) = pure () := by
  rw [within, if_pos h, need_some]

/-- Only what follows an answer has to agree. -/
theorem lift_bind {result : Except ε α} {next : α → Except ε β} {next' : α → Strict ε β}
    (same : ∀ a, result = .ok a → next' a = lift (next a)) :
    lift result >>= next' = lift (result >>= next) := by
  cases result with
  | error error => rfl
  | ok a => exact same a rfl

end Strict

end Reckoner

import Reckoner.Host.Function
import Reckoner.Proofs.Host.Action

/-!
Host functions that come from typed ones. Given values of the types of their parameters they always give
a value of the type of their result.
-/
namespace Reckoner

/-- Values of a scalar type have its value type, and every value of that type is one of them. -/
class LawfulScalar (α : Type) [Scalar α] : Prop where
  type_toValue : ∀ a : α, (Scalar.toValue a).type = Scalar.type α
  ofValue_isSome : ∀ value : Value, value.type = Scalar.type α →
    (Scalar.ofValue? value : Option α).isSome = true

instance : LawfulScalar Bool where
  type_toValue _ := rfl
  ofValue_isSome value h := by cases value <;> first | rfl | cases h

instance : LawfulScalar Int64 where
  type_toValue _ := rfl
  ofValue_isSome value h := by cases value <;> first | rfl | cases h

instance : LawfulScalar Float where
  type_toValue _ := rfl
  ofValue_isSome value h := by cases value <;> first | rfl | cases h

instance : LawfulScalar String where
  type_toValue _ := rfl
  ofValue_isSome value h := by cases value <;> first | rfl | cases h

/-- Outcomes turn into values of their type. -/
class LawfulOutcome (α : Type) [Outcome α] : Prop where
  type_toValue : ∀ a : α, (Outcome.toValue a).type = Outcome.type α

instance {α : Type} [Scalar α] [LawfulScalar α] : LawfulOutcome α :=
  ⟨LawfulScalar.type_toValue⟩

instance : LawfulOutcome Unit :=
  ⟨fun _ => rfl⟩

/-- Typed functions accept all values of the types in their signature. -/
class LawfulSignature (τ : Type) [Signature τ] : Prop where
  call_ok : ∀ (function : τ) (arguments : List Value) (host : Host),
    arguments.map Value.type = Signature.params τ →
      ∃ value after, (Signature.call function arguments).on host = (.ok value, after) ∧
        value.type = Signature.result τ

instance {α : Type} [Outcome α] [LawfulOutcome α] : LawfulSignature (StateM Host α) where
  call_ok step _ host _ :=
    ⟨Outcome.toValue (step host).1, (step host).2, rfl, LawfulOutcome.type_toValue _⟩

instance {α τ : Type} [Scalar α] [LawfulScalar α] [Signature τ] [LawfulSignature τ] :
    LawfulSignature (α → τ) where
  call_ok function arguments host typed := by
    cases arguments with
    | nil => cases typed
    | cons value rest =>
      obtain ⟨type, types⟩ := List.cons.inj typed
      obtain ⟨argument, isArgument⟩ :=
        Option.isSome_iff_exists.mp (@LawfulScalar.ofValue_isSome α _ _ value type)
      have call : Signature.call function (value :: rest) =
          Signature.call (function argument) rest := by
        simp only [Signature.call, isArgument]
      rw [call]
      exact LawfulSignature.call_ok (function argument) rest host types

/-- A host function made from a typed one never fails on arguments of its parameter types. -/
theorem HostFunction.ofTyped_ok {τ : Type} [Signature τ] [LawfulSignature τ] (function : τ)
    {arguments : List Value} (typed : arguments.map Value.type = (ofTyped function).params)
    (host : Host) :
    ∃ value after, ((ofTyped function).body arguments).on host = (.ok value, after) ∧
      value.type = (ofTyped function).result := by
  have count : arguments.length = (Signature.params τ).length := by
    simpa [ofTyped] using congrArg List.length typed
  obtain ⟨value, after, called, type⟩ := LawfulSignature.call_ok function arguments host typed
  refine ⟨value, after, ?_, type⟩
  simp [ofTyped, count, called]

end Reckoner

import Reckoner.Host.Action

/-!
Host functions. Each has a signature and a body that receives the argument values. A plain typed
function of up to any number of arguments becomes a host function whose body first checks that it
was given as many arguments as it takes, and then their types from left to right.
-/
namespace Reckoner

/-- A function that expressions can call. -/
structure HostFunction where
  result : ValueType
  params : List ValueType
  body : List Value → Action Value

/-- Types whose elements are the values of one value type. -/
class Scalar (α : Type) where
  type : ValueType
  toValue : α → Value
  ofValue? : Value → Option α

instance : Scalar Bool where
  type := .bool
  toValue := .bool
  ofValue? | .bool b => some b | _ => none

instance : Scalar Int64 where
  type := .int
  toValue := .int
  ofValue? | .int i => some i | _ => none

instance : Scalar Float where
  type := .float
  toValue := .float
  ofValue? | .float x => some x | _ => none

instance : Scalar String where
  type := .string
  toValue := .string
  ofValue? | .string s => some s | _ => none

/-- Types of results: the scalars, and nothing at all as void. -/
class Outcome (α : Type) where
  type : ValueType
  toValue : α → Value

instance {α : Type} [Scalar α] : Outcome α :=
  ⟨Scalar.type α, Scalar.toValue⟩

instance : Outcome Unit :=
  ⟨.void, fun _ => .void⟩

/-- Typed functions: their signature, and how they take their arguments out of values. -/
class Signature (τ : Type) where
  result : ValueType
  params : List ValueType
  call : τ → List Value → Action Value

instance {α : Type} [Outcome α] : Signature (StateM Host α) where
  result := Outcome.type α
  params := []
  call step _ := do
    let result ← (step : StateM Host α)
    return Outcome.toValue result

instance {α τ : Type} [Scalar α] [Signature τ] : Signature (α → τ) where
  result := Signature.result τ
  params := Scalar.type α :: Signature.params τ
  call function arguments :=
    match arguments with
    | [] => throw (.argumentType (Scalar.type α))
    | value :: rest =>
      match Scalar.ofValue? value with
      | none => throw (.argumentType (Scalar.type α))
      | some argument => Signature.call (function argument) rest

namespace HostFunction

/-- The host function of a typed function, whose signature the type gives. -/
def ofTyped {τ : Type} [Signature τ] (function : τ) : HostFunction where
  result := Signature.result τ
  params := Signature.params τ
  body arguments := do
    let expected := (Signature.params τ).length
    if arguments.length ≠ expected then
      throw (.argumentCount expected arguments.length)
    Signature.call function arguments

/-- The signature on one line. -/
def summary (function : HostFunction) : String :=
  let params := ", ".intercalate (function.params.map ValueType.title)
  s!"FunctionInfo \x7b return_type: {function.result.title}, params: [{params}], .. \x7d"

end HostFunction

end Reckoner

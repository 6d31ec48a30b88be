import Reckoner.Decimal.Reading
import Reckoner.RuntimeError
import Reckoner.Text.Blank

/-!
Conversions between types, as the cast operators perform them. The void value converts to nothing
but void, and anything converts to void. Texts are read as numbers without the white space around
them.
-/
namespace Reckoner.Value

/-- The integer nearest to zero's side, kept within 64 bits; zero for no number. -/
def truncate (x : Float) : Int64 :=
  x.toInt64

/-- Numbers are true unless they truncate to zero, and the only true text is `true`. -/
def toBool : Value → Except RuntimeError Bool
  | void => throw .voidValue
  | bool b => return b
  | int i => return i != 0
  | float x => return truncate x != 0
  | string s => return s == "true"

/-- Truth values count as one and zero, and floating-point numbers lose their fraction. -/
def toInt : Value → Except RuntimeError Int64
  | void => throw .voidValue
  | bool b => return if b then 1 else 0
  | int i => return i
  | float x => return truncate x
  | string s =>
    match Decimal.readInt64? (Text.trimChars s.toList) with
    | some i => return i
    | none => throw (.invalidCast s .int)

/-- Truth values count as one and zero, and integers become the nearest number. -/
def toFloat : Value → Except RuntimeError Float
  | void => throw .voidValue
  | bool b => return if b then 1.0 else 0.0
  | int i => return i.toFloat
  | float x => return x
  | string s =>
    match Decimal.readFloat? (Text.trimChars s.toList) with
    | some x => return x
    | none => throw (.invalidCast s .float)

/-- The plain text of anything but void. -/
def toText : Value → Except RuntimeError String
  | void => throw .voidValue
  | value => return value.text

/-- The value as one of the given type. -/
def convert (value : Value) : ValueType → Except RuntimeError Value
  | .bool => bool <$> value.toBool
  | .int => int <$> value.toInt
  | .float => float <$> value.toFloat
  | .string => string <$> value.toText
  | .void => return void

/-- A conversion gives a value of the type asked for. -/
theorem type_of_convert {value result : Value} {target : ValueType}
    (h : value.convert target = .ok result) : result.type = target := by
  cases target <;> simp only [convert, Functor.map, Except.map] at h
  · cases hb : value.toBool <;> simp_all; subst h; rfl
  · cases hi : value.toInt <;> simp_all; subst h; rfl
  · cases hf : value.toFloat <;> simp_all; subst h; rfl
  · cases hs : value.toText <;> simp_all; subst h; rfl
  · cases h; rfl

end Reckoner.Value

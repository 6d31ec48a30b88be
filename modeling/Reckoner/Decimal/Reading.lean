import Reckoner.Decimal.Integer

/-!
Floating-point numbers from text: an optional sign, then a word for infinity or for no number in
any case, or digits with an optional point somewhere among them and an optional power of ten. The
value is the nearest floating-point number.
-/
namespace Reckoner.Decimal

/-- Positive infinity. -/
def infinity : Float :=
  Float.ofBits 0x7FF0000000000000

/-- The number that is no number. -/
def notANumber : Float :=
  Float.ofBits 0x7FF8000000000000

/-- The number nearest to `digits * 10 ^ exponent`. Far outside the range of exponents the power is
not computed: the value is zero or infinite. -/
def nearest (digits : Nat) (exponent : Int) : Float :=
  let size := ((ofNat digits).length : Int) + exponent
  if digits == 0 || size < -400 then 0.0
  else if 400 < size then infinity
  else Float.ofScientific digits (exponent < 0) exponent.natAbs

/-- Reads the power of ten after the digits: nothing, or a mark, an optional sign and digits. -/
def exponent? : List Char → Option Int
  | [] => some 0
  | c :: cs => if c == 'e' || c == 'E' then toInt? cs else none

/-- Reads digits with an optional point, at least one digit in all, and an optional power. -/
def magnitude? (cs : List Char) : Option Float := do
  let whole := cs.takeWhile Char.isDigit
  let rest := cs.dropWhile Char.isDigit
  let (fraction, rest) := match rest with
    | '.' :: after => (after.takeWhile Char.isDigit, after.dropWhile Char.isDigit)
    | _ => ([], rest)
  if whole.isEmpty && fraction.isEmpty then none
  else
    let exponent ← exponent? rest
    return nearest (digitsValue (whole ++ fraction)) (exponent - fraction.length)

/-- Reads a floating-point number. -/
def readFloat? (cs : List Char) : Option Float :=
  let (negative, body) := splitSign cs
  let word := String.ofList (body.map Char.toLower)
  let size :=
    if word == "inf" || word == "infinity" then some infinity
    else if word == "nan" then some notANumber
    else magnitude? body
  size.map fun x => if negative then -x else x

end Reckoner.Decimal

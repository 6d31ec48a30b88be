import Reckoner.Decimal.Integer
import Reckoner.Decimal.Shortest

/-!
Floating-point numbers as text. The fewest digits that read back are laid out with a point when the
number is zero or lies between a ten-thousandth and ten to the sixteenth, and otherwise as a
leading digit, the digits after it, and a power of ten.
-/
namespace Reckoner.Decimal

/-- Digits with the point after the digit of exponent zero; at least one digit on both sides. -/
def positional (digits : List Char) (leading : Int) : List Char :=
  if leading < 0 then
    '0' :: '.' :: List.replicate (-leading - 1).toNat '0' ++ digits
  else
    let count := leading.toNat + 1
    let whole := digits.take count ++ List.replicate (count - digits.length) '0'
    let rest := digits.drop count
    whole ++ '.' :: (if rest.isEmpty then ['0'] else rest)

/-- The leading digit, a point and the other digits if there are any, and the exponent. -/
def scientific (digits : List Char) (leading : Int) : List Char :=
  let rest := digits.drop 1
  digits.take 1 ++ (if rest.isEmpty then [] else '.' :: rest) ++ 'e' :: ofInt leading

/-- A finite number without its sign. -/
def ofMagnitude (x : Binary) : List Char :=
  if x.mantissa == 0 then ['0', '.', '0']
  else
    let d := shortest x
    let digits := ofNat d.digits
    let leading := d.exponent + (digits.length : Int) - 1
    if -4 ≤ leading ∧ leading < 16 then positional digits leading else scientific digits leading

/-- The text of a floating-point number. -/
def ofFloat (x : Float) : String :=
  if x.isNaN then "NaN"
  else
    let sign := if x.toBits >>> 63 == 1 then ['-'] else []
    String.ofList (sign ++ if x.isInf then "inf".toList else ofMagnitude (Binary.ofBits x.toBits))

end Reckoner.Decimal

/-!
Whole numbers in decimal: how an integer is written, how one is read, and which ones fit into the
64 bits of an expression's integers.
-/
namespace Reckoner.Decimal

/-- The digits of a natural number, the leading one first. -/
def ofNat (n : Nat) : List Char :=
  Nat.toDigits 10 n

/-- The number that digits stand for, the leading one first. -/
def digitsValue (digits : List Char) : Nat :=
  digits.foldl (fun n c => 10 * n + (c.toNat - '0'.toNat)) 0

/-- An integer in decimal, with a minus sign when it is negative. -/
def ofInt : Int → List Char
  | .ofNat n => ofNat n
  | .negSucc n => '-' :: ofNat (n + 1)

/-- An integer of an expression in decimal. -/
def ofInt64 (i : Int64) : String :=
  String.ofList (ofInt i.toInt)

/-- The 64-bit integer of this value, if there is one. -/
def toInt64? (i : Int) : Option Int64 :=
  if Int64.minValue.toInt ≤ i ∧ i ≤ Int64.maxValue.toInt then some (Int64.ofInt i) else none

/-- Takes a leading plus or minus sign off; the first part tells whether it was a minus. -/
def splitSign : List Char → Bool × List Char
  | '-' :: cs => (true, cs)
  | '+' :: cs => (false, cs)
  | cs => (false, cs)

/-- Reads an optional sign and one or more digits. -/
def toInt? (cs : List Char) : Option Int :=
  let (negative, digits) := splitSign cs
  if !digits.isEmpty && digits.all Char.isDigit then
    some (if negative then -(digitsValue digits : Int) else digitsValue digits)
  else none

/-- Reads a 64-bit integer. -/
def readInt64? (cs : List Char) : Option Int64 :=
  toInt? cs >>= toInt64?

end Reckoner.Decimal

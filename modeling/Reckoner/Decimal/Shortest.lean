/-!
The fewest decimal digits that still single out a floating-point number. A number stands for all
reals that round to it; of the decimals with the fewest digits among these the nearest is chosen,
and of two that are equally near the greater. All arithmetic is exact.
-/
namespace Reckoner.Decimal

/-- A finite positive floating-point number, `mantissa * 2 ^ scale`. -/
structure Binary where
  mantissa : Nat
  scale : Int
  /-- The number below is only half as far away as the number above. -/
  narrowBelow : Bool

namespace Binary

/-- The magnitude that the bits of a finite number stand for. -/
def ofBits (bits : UInt64) : Binary :=
  let exponent := ((bits >>> 52) &&& 0x7FF).toNat
  let fraction := (bits &&& 0xFFFFFFFFFFFFF).toNat
  if exponent == 0 then ⟨fraction, -1074, false⟩
  else ⟨0x10000000000000 + fraction, (exponent : Int) - 1075, fraction == 0 && 1 < exponent⟩

/-- Four times the mantissa, and the ends of the interval of reals that round to the number, in
the same unit `2 ^ (scale - 2)`. -/
def quarters (x : Binary) : Nat × Nat × Nat :=
  (4 * x.mantissa, 4 * x.mantissa - (if x.narrowBelow then 1 else 2), 4 * x.mantissa + 2)

/-- The ends of the interval round to the number only when its mantissa is even. -/
def endsIncluded (x : Binary) : Bool :=
  x.mantissa % 2 == 0

end Binary

/-- The decimal `digits * 10 ^ exponent`. -/
structure Scaled where
  digits : Nat
  exponent : Int
deriving DecidableEq

/-- Factors `(a, b)` such that `n * 2 ^ (x.scale - 2)` compares with `d * 10 ^ exponent` as
`n * a` compares with `d * b`. -/
def gridFactors (x : Binary) (exponent : Int) : Nat × Nat :=
  let two := x.scale - 2
  (Nat.pow 2 two.toNat * Nat.pow 10 (-exponent).toNat, Nat.pow 2 (-two).toNat * Nat.pow 10 exponent.toNat)

/-- The decimal with this exponent that is nearest to the number among the two around it, if one of
these rounds to the number. -/
def onGrid? (x : Binary) (exponent : Int) : Option Scaled :=
  let (a, b) := gridFactors x exponent
  let (middle, low, high) := x.quarters
  let readsBack (d : Nat) : Bool :=
    if x.endsIncluded then low * a ≤ d * b && d * b ≤ high * a
    else low * a < d * b && d * b < high * a
  let below := middle * a / b
  let above := below + 1
  match readsBack below, readsBack above with
  | true, true =>
    if 2 * (middle * a) < (below + above) * b then some ⟨below, exponent⟩
    else some ⟨above, exponent⟩
  | true, false => some ⟨below, exponent⟩
  | false, true => some ⟨above, exponent⟩
  | false, false => none

/-- An estimate, never too great, of the exponent of the leading decimal digit. -/
def leadingEstimate (x : Binary) : Int :=
  (((x.mantissa.log2 : Int) + x.scale) * 30103).fdiv 100000 - 1

/-- Moves trailing zeros of the digits into the exponent. -/
def dropZeros : Nat → Scaled → Scaled
  | 0, d => d
  | fuel + 1, d =>
    if d.digits % 10 == 0 && d.digits != 0 then dropZeros fuel ⟨d.digits / 10, d.exponent + 1⟩
    else d

/-- The coarsest grid comes first: one digit, then two, and so on. Twenty grids below the estimate
cover the seventeen digits that always suffice. -/
def shortest (x : Binary) : Scaled :=
  let top := leadingEstimate x + 3
  let grids := (List.range 24).map fun (k : Nat) => top - (k : Int)
  let found := (grids.findSome? (onGrid? x)).getD ⟨x.mantissa, 0⟩
  dropZeros 24 found

end Reckoner.Decimal

/-!
Sets of code points, written as the lengths of their runs: so many outside the set, so many inside
it, and so on from zero. Everything after the last run is outside.
-/
namespace Reckoner.Text

/-- Whether the code point lies in one of the inner runs. -/
def inRuns : List Nat → Nat → Bool
  | skipped :: run :: runs, n =>
    if n < skipped then false
    else if n < skipped + run then true
    else inRuns runs (n - (skipped + run))
  | _, _ => false

end Reckoner.Text

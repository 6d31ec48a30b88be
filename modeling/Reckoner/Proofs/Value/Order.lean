import Mathlib
import Reckoner.Proofs.Operator.Perform
import Reckoner.Proofs.Text.Bytes

/-!
The order of values. Of two values of one type one is below the other or they are equal, unless one of them is no
number, and the six comparisons all say so. The order of floating-point numbers is that of a rank that puts the
infinite ones at the ends.
-/
namespace Reckoner

namespace Value

/-- The value is the floating-point number that is no number. -/
def isNaN : Value → Bool
  | float x => x.isNaN
  | _ => false

/-- The order of each type: false is below true, numbers are ordered by size, and texts by the code point of the
first character in which they differ, or by length if one is the beginning of the other. -/
inductive Below : Value → Value → Prop where
  | bool : Below (.bool false) (.bool true)
  | int {i j : Int64} : i.toInt < j.toInt → Below (.int i) (.int j)
  | float {x y : Float} : x < y → Below (.float x) (.float y)
  | string {s t : String} : s.toList.Lex (fun c d => c.toNat < d.toNat) t.toList → Below (.string s) (.string t)

/-- How one value stands to another, in the order and in the test for equal values; they may not compare at all. -/
structure Compared (left right : Value) (order : Option Ordering) : Prop where
  order_eq : left.order? right = some order
  equals_eq : left.equals right = order.any (·.isEq)
  below : order = some .lt ↔ Below left right
  above : order = some .gt ↔ Below right left

end Value

section Floats

open Float.Model

/-- Infinite numbers are at the ends, then come the signs, then the sizes. -/
private def rank : UnpackedFloat → ℤ ×ₗ ℤ ×ₗ ℤ
  | .infinity .negative => toLex (-2, toLex (0, 0))
  | .finite .negative mantissa exponent _ => toLex (-1, toLex (-exponent, -(mantissa : ℤ)))
  | .zero _ | .notANumber => toLex (0, toLex (0, 0))
  | .finite .positive mantissa exponent _ => toLex (1, toLex (exponent, (mantissa : ℤ)))
  | .infinity .positive => toLex (2, toLex (0, 0))

variable {x y z : UnpackedFloat} {a b : Float}

private theorem compare_cast (m n : ℕ) : compare (m : ℤ) (n : ℤ) = compare m n := by
  simp [Int.compare_eq_ite_lt, Nat.compare_eq_ite_lt]

private theorem compare_neg (i j : ℤ) : compare (-i) (-j) = (compare i j).swap := by
  rw [← Int.compare_swap]
  simp [Int.compare_eq_ite_lt]

private theorem compare_eq_none_iff : x.compare y = none ↔ x.isNaN = true ∨ y.isNaN = true := by
  cases x with
  | notANumber => exact ⟨fun _ => .inl rfl, fun _ => rfl⟩
  | infinity s | zero s | finite s =>
    cases y with
    | notANumber => exact ⟨fun _ => .inr rfl, fun _ => by cases s <;> rfl⟩
    | infinity s' | zero s' | finite s' =>
      constructor
      · cases s <;> cases s' <;> nofun
      · rintro (isNaN | isNaN) <;> cases isNaN

/-- Numbers compare as their ranks. -/
private theorem compare_eq_rank {order : Ordering} (comparable : x.compare y = some order) :
    order = compare (rank x) (rank y) := by
  have finite (sign e m e' m' : ℤ) : compare (toLex (sign, toLex (e, m))) (toLex (sign, toLex (e', m'))) =
      (compare e e').then (compare m m') := by
    change (compare sign sign).then _ = _
    rw [Int.compare_eq_eq.mpr rfl]
    rfl
  cases x with
  | notANumber => cases comparable
  | infinity s | zero s =>
    cases y with
    | notANumber => cases s <;> cases comparable
    | infinity s' | zero s' | finite s' => cases s <;> cases s' <;> cases comparable <;> rfl
  | finite s m e =>
    cases y with
    | notANumber => cases s <;> cases comparable
    | infinity s' | zero s' => cases s <;> cases s' <;> cases comparable <;> rfl
    | finite s' m' e' =>
      cases s <;> cases s' <;> cases comparable <;> try rfl
      · rw [rank, rank, finite, compare_neg, compare_neg, compare_cast, Ordering.swap_then]
      · rw [rank, rank, finite, compare_cast]

private theorem compare_trans (first : x.compare y = some .lt) (second : y.compare z = some .lt) :
    x.compare z = some .lt := by
  cases comparable : x.compare z with
  | none =>
    rcases compare_eq_none_iff.mp comparable with isNaN | isNaN
    · rw [compare_eq_none_iff.mpr (.inl isNaN)] at first
      cases first
    · rw [compare_eq_none_iff.mpr (.inr isNaN)] at second
      cases second
  | some order =>
    rw [compare_eq_rank comparable,
      Std.TransCmp.lt_trans (compare_eq_rank first).symm (compare_eq_rank second).symm]

private theorem compare_swap (x y : UnpackedFloat) : y.compare x = (x.compare y).map Ordering.swap := by
  cases comparable : x.compare y with
  | none => exact compare_eq_none_iff.mpr (compare_eq_none_iff.mp comparable).symm
  | some order =>
    cases comparable' : y.compare x with
    | none =>
      rw [compare_eq_none_iff.mpr (compare_eq_none_iff.mp comparable').symm] at comparable
      cases comparable
    | some order' =>
      rw [compare_eq_rank comparable, compare_eq_rank comparable',
        Std.OrientedOrd.eq_swap]
      rfl

private theorem lt_iff_compare : a < b ↔ a.toModel.unpack.compare b.toModel.unpack = some .lt := by
  change (decide (a.toModel.unpack.lt b.toModel.unpack = true)) = true ↔ _
  simp [UnpackedFloat.lt]

private theorem beq_iff_compare : (a == b) = true ↔ a.toModel.unpack.compare b.toModel.unpack = some .eq := by
  change a.toModel.unpack.beq b.toModel.unpack = true ↔ _
  simp [UnpackedFloat.beq]

/-- The order of two numbers is found by testing whether they are less or equal. -/
private theorem floatOrder?_eq (a b : Float) : floatOrder? a b = a.toModel.unpack.compare b.toModel.unpack := by
  simp only [floatOrder?, lt_iff_compare, beq_iff_compare, compare_swap a.toModel.unpack b.toModel.unpack]
  cases a.toModel.unpack.compare b.toModel.unpack with
  | none => rfl
  | some order => cases order <;> rfl

end Floats

namespace Value

variable {a b c : Value}

/-- Two values of one type compare in some way, and not at all only if one of them is no number. -/
theorem exists_compared (same : a.type = b.type) (some : a.type ≠ .void) :
    ∃ order, Compared a b order ∧ (order = none ↔ a.isNaN = true ∨ b.isNaN = true) := by
  cases a with
  | void => exact absurd rfl some
  | bool p =>
    cases b <;> cases same
    next q =>
      have below {p q : Bool} : p.toNat < q.toNat ↔ Below (.bool p) (.bool q) := by
        constructor
        · cases p <;> cases q <;> first | exact fun _ => .bool | exact fun less => absurd less (by decide)
        · rintro ⟨⟩
          decide
      refine ⟨_, ⟨rfl, ?_, ?_, ?_⟩, ?_⟩
      · cases p <;> cases q <;> rfl
      · rw [Option.some.injEq, Nat.compare_eq_lt, below]
      · rw [Option.some.injEq, Nat.compare_eq_gt, below]
      · simp [isNaN]
  | int i =>
    cases b <;> cases same
    next j =>
      have below {i j : Int64} : i.toInt < j.toInt ↔ Below (.int i) (.int j) := ⟨.int, fun | .int below => below⟩
      refine ⟨_, ⟨rfl, ?_, ?_, ?_⟩, ?_⟩
      · change (i == j) = (compare i.toInt j.toInt).isEq
        rw [Bool.eq_iff_iff, Ordering.isEq_iff_eq_eq, Int.compare_eq_eq, Int64.toInt_inj, beq_iff_eq]
      · rw [Option.some.injEq, Int.compare_eq_lt, below]
      · rw [Option.some.injEq, Int.compare_eq_gt, below]
      · simp [isNaN]
  | float x =>
    cases b <;> cases same
    next y =>
      have below {x y : Float} : x < y ↔ Below (.float x) (.float y) := ⟨.float, fun | .float below => below⟩
      refine ⟨_, ⟨congrArg Option.some (floatOrder?_eq x y), ?_, ?_, ?_⟩, compare_eq_none_iff⟩
      · change (x == y) = _
        rw [Bool.eq_iff_iff, beq_iff_compare]
        simp [Option.any_eq_true, Ordering.isEq_iff_eq_eq]
      · rw [← below, lt_iff_compare]
      · rw [← below, lt_iff_compare, compare_swap x.toModel.unpack]
        simp
  | string s =>
    cases b <;> cases same
    next t =>
      have below {s t : String} : s < t ↔ Below (.string s) (.string t) :=
        String.lt_iff.trans ⟨.string, fun | .string below => below⟩
      refine ⟨_, ⟨rfl, ?_, ?_, ?_⟩, ?_⟩
      · change (s == t) = (compareOfLessAndEq s t).isEq
        rw [Bool.eq_iff_iff, Ordering.isEq_iff_eq_eq, compareOfLessAndEq_eq_eq String.le_refl String.not_le,
          beq_iff_eq]
      · rw [Option.some.injEq, compareOfLessAndEq_eq_lt, below]
      · rw [Option.some.injEq, compareOfLessAndEq_eq_gt String.le_antisymm String.le_total String.not_le, below]
      · simp [isNaN]

theorem type_of_isNaN (isNaN : a.isNaN = true) : a.type = .float := by
  cases a with
  | float x => rfl
  | _ => cases isNaN

theorem Below.trans (first : Below a b) (second : Below b c) : Below a c := by
  cases first with
  | bool => cases second
  | int first =>
    cases second with
    | int second => exact .int (Int.lt_trans first second)
  | float first =>
    cases second with
    | float second =>
      rw [lt_iff_compare] at first second
      exact .float (lt_iff_compare.mpr (compare_trans first second))
  | string first =>
    cases second with
    | string second => exact .string (List.lex_trans (fun first second => Nat.lt_trans first second) first second)

end Value

namespace Operator

open Value

/-- Wherever operands keep the two values, the operator gives this truth value and changes nothing. -/
def Decides (op : Operator) (a b : Value) (truth : Bool) : Prop :=
  ∀ type operands host, operands.map (·.read host.heap) = [a, b] →
    (Tree.operatorSlot op .binary type operands).on host = (.ok (.owned (.bool truth)), host)

/-- The operators that compare two values. -/
def isComparison : Operator → Bool
  | lessThan | greaterThan | lessOrEqual | greaterOrEqual | equal | notEqual => true
  | _ => false

variable {op : Operator} {a b : Value} {truth : Bool} {order : Option Ordering}

/-- Comparing is computing from the two values. -/
private theorem on_comparison (compares : op.isComparison = true) (type : ValueType) {operands : List Slot}
    {host : Host} (held : operands.map (·.read host.heap) = [a, b]) :
    (Tree.operatorSlot op .binary type operands).on host = ((op.computeBinary a b).map .owned, host) := by
  have row : op.form.allows .binary = true ∧ op.form.lvalueOnly = false := by
    cases op <;> first | exact ⟨rfl, rfl⟩ | cases compares
  have count := congrArg List.length held
  rw [List.length_map] at count
  rw [Tree.operatorSlot_on row.1 count (by simp [row.2])]
  simp only [perform, compute, held, row.2]
  cases op.computeBinary a b <;> rfl

private theorem decides_iff (compares : op.isComparison = true) :
    Decides op a b truth ↔ op.computeBinary a b = .ok (.bool truth) := by
  constructor
  · intro decides
    have ran := decides .bool [.owned a, .owned b] .empty rfl
    rw [on_comparison compares .bool (a := a) (b := b) rfl] at ran
    cases computed : op.computeBinary a b with
    | error error =>
      rw [computed] at ran
      cases ran
    | ok value =>
      rw [computed] at ran
      cases ran
      rfl
  · intro computed type operands host held
    rw [on_comparison compares type held, computed]
    rfl

/-- All six comparisons follow from how the values compare. -/
private theorem decides_of_compared (compared : Compared a b order) :
    Decides lessThan a b (order.any (·.isLT)) ∧ Decides equal a b (order.any (·.isEq)) ∧
      Decides greaterThan a b (order.any (·.isGT)) ∧ Decides lessOrEqual a b (order.any (·.isLE)) ∧
      Decides greaterOrEqual a b (order.any (·.isGE)) ∧ Decides notEqual a b (!order.any (·.isEq)) := by
  refine ⟨?_, ?_, ?_, ?_, ?_, ?_⟩ <;> rw [decides_iff rfl, computeBinary]
  · rw [onOrder, compared.order_eq]
  · rw [compared.equals_eq]
  · rw [onOrder, compared.order_eq]
  · rw [onOrder, compared.order_eq]
  · rw [onOrder, compared.order_eq]
  · rw [compared.equals_eq]

/-- What is decided to be less is below, and so of the same type and a number. -/
private theorem below_of_decides (decides : Decides lessThan a b true) : Below a b := by
  have computed := (decides_iff rfl).mp decides
  rw [computeBinary, onOrder] at computed
  split at computed
  · next order ordered =>
    have sameType : a.type = b.type ∧ a.type ≠ .void := by
      cases a <;> cases b <;> first | (cases ordered; done) | simp [type]
    obtain ⟨order', compared, -⟩ := exists_compared sameType.1 sameType.2
    obtain rfl := Option.some.inj (ordered.symm.trans compared.order_eq)
    obtain ⟨result, rfl, isLess⟩ : ∃ result, order = some result ∧ result.isLT = true := by
      cases order with
      | none => cases computed
      | some result => exact ⟨result, rfl, by simpa using computed⟩
    exact compared.below.mp (congrArg some (Ordering.isLT_iff_eq_lt.mp isLess))
  · cases computed

private theorem decides_of_below (below : Below a b) : Decides lessThan a b true := by
  have sameType : a.type = b.type ∧ a.type ≠ .void := by
    cases below <;> simp [type]
  obtain ⟨order, compared, -⟩ := exists_compared sameType.1 sameType.2
  obtain rfl := compared.below.mpr below
  exact (decides_of_compared compared).1

/-- Of two texts the one with the smaller bytes is less. -/
theorem decides_lessThan_texts {s t : String} :
    Decides lessThan (.string s) (.string t) true ↔ (Text.bytes s).Lex (· < ·) (Text.bytes t) := by
  rw [Text.lex_bytes_iff]
  constructor
  · intro decides
    cases below_of_decides decides with
    | string below => exact below
  · exact fun below => decides_of_below (.string below)

/-- The six comparisons of two values of one type come from one order, in which exactly one of less, equal and greater
holds. Nothing is decided to compare to a value that is no number, except that it is not equal to it. -/
theorem comparisons_consistent :
    (∀ a b : Value, a.type = b.type → a.type ≠ .void → a.isNaN = false → b.isNaN = false →
      ∃ below same above : Bool, [below, same, above].count true = 1 ∧
        Decides lessThan a b below ∧ Decides equal a b same ∧ Decides greaterThan a b above ∧
        Decides lessOrEqual a b (!above) ∧ Decides greaterOrEqual a b (!below) ∧ Decides notEqual a b (!same) ∧
        (below = true ↔ Below a b) ∧ (above = true ↔ Below b a)) ∧
    (∀ a b c : Value, Decides lessThan a b true → Decides lessThan b c true → Decides lessThan a c true) ∧
    ∀ a b : Value, a.type = b.type → a.isNaN = true ∨ b.isNaN = true →
      Decides lessThan a b false ∧ Decides equal a b false ∧ Decides greaterThan a b false ∧
        Decides lessOrEqual a b false ∧ Decides greaterOrEqual a b false ∧ Decides notEqual a b true := by
  refine ⟨fun a b same some isNumber isNumber' => ?_, fun a b c first second => ?_, fun a b same isNaN => ?_⟩
  · obtain ⟨order, compared, comparable⟩ := exists_compared same some
    obtain ⟨result, rfl⟩ := Option.ne_none_iff_exists'.mp (show order ≠ none by simp [comparable, isNumber, isNumber'])
    have opposite : result.isLE = !result.isGT ∧ result.isGE = !result.isLT := by
      cases result <;> exact ⟨rfl, rfl⟩
    obtain ⟨less, equal, greater, lessOrEqual, greaterOrEqual, notEqual⟩ := decides_of_compared compared
    simp only [Option.any_some, opposite.1, opposite.2] at less equal greater lessOrEqual greaterOrEqual notEqual
    refine ⟨_, _, _, ?_, less, equal, greater, lessOrEqual, greaterOrEqual, notEqual, ?_, ?_⟩
    · cases result <;> rfl
    · rw [← compared.below, Option.some.injEq, Ordering.isLT_iff_eq_lt]
    · rw [← compared.above, Option.some.injEq, Ordering.isGT_iff_eq_gt]
  · exact decides_of_below ((below_of_decides first).trans (below_of_decides second))
  · have some : a.type ≠ .void := by
      rcases isNaN with isNaN | isNaN
      · rw [type_of_isNaN isNaN]
        nofun
      · rw [same, type_of_isNaN isNaN]
        nofun
    obtain ⟨order, compared, comparable⟩ := exists_compared same some
    obtain rfl := comparable.mpr isNaN
    exact decides_of_compared compared

theorem comparisons_consistent_samples :
    (∃ below same above : Bool, [below, same, above].count true = 1 ∧
      Decides lessThan (.float 0.0) (.float (-0.0)) below ∧ Decides equal (.float 0.0) (.float (-0.0)) same ∧
      Decides greaterThan (.float 0.0) (.float (-0.0)) above) ∧
    (Decides lessThan (.string "z") (.string "é") true ∧ Decides lessThan (.string "é") (.string "日本") true ∧
      Decides lessThan (.string "z") (.string "日本") true) ∧
    Decides equal (.float (0.0 / 0.0)) (.float (0.0 / 0.0)) false ∧
    Decides notEqual (.float (0.0 / 0.0)) (.float (0.0 / 0.0)) true := by
  have first : Decides lessThan (.string "z") (.string "é") true := decides_of_below (.string (by decide))
  have second : Decides lessThan (.string "é") (.string "日本") true := decides_of_below (.string (by decide))
  obtain ⟨below, same, above, one, less, equal, greater, -⟩ :=
    comparisons_consistent.1 (.float 0.0) (.float (-0.0)) rfl nofun (by decide) (by decide)
  obtain ⟨-, notSame, -, -, -, differ⟩ :=
    comparisons_consistent.2.2 (.float (0.0 / 0.0)) (.float (0.0 / 0.0)) rfl (.inl (by decide))
  exact ⟨⟨below, same, above, one, less, equal, greater⟩,
    ⟨first, second, comparisons_consistent.2.1 _ _ _ first second⟩, notSame, differ⟩

end Operator

end Reckoner

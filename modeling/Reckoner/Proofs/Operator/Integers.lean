import Mathlib
import Reckoner.Proofs.Decimal.Integer
import Reckoner.Proofs.Operator.Expansion

/-!
Integer arithmetic. An operator on integers gives the exact result if this has 64 bits, and the way in which it
fails otherwise says why. A compound assignment or a step stores the result that the operator it is short for gives.
-/
namespace Reckoner.Operator

/-- Whatever slots hold the integers, the operator gives the result and changes nothing. -/
def Gives (op : Operator) (fixity : Fixity) (integers : List Int64) (result : Except RuntimeError Int64) : Prop :=
  ∀ type operands host, operands.map (·.read host.heap) = integers.map .int →
    (Tree.operatorSlot op fixity type operands).on host = (result.map fun i => .owned (.int i), host)

/-- Whatever cell holds the first integer and whatever slots hold the others, the operator stores the result in the
cell and gives it, or what the cell held before if it stands behind its operand. Without a result nothing changes. -/
def Stores (op : Operator) (fixity : Fixity) (first : Int64) (others : List Int64)
    (result : Except RuntimeError Int64) : Prop :=
  ∀ type index operands host, host.heap.read (.int index) = .int first →
    operands.map (·.read host.heap) = others.map .int →
    (Tree.operatorSlot op fixity type (.aliased (.int index) :: operands)).on host =
      match result with
      | .ok i => (.ok (.owned (.int (if fixity = .trailing then first else i))),
          { host with heap := host.heap.write (.int index) (.int i) rfl })
      | .error error => (.error error, host)

/-- A binary operator and its compound assignment come to the same. -/
structure Computes (plain compound : Operator) (a b : Int64) (result : Except RuntimeError Int64) : Prop where
  gives : Gives plain .binary [a, b] result
  stores : Stores compound .binary a [b] result

/-- The integer itself if it has 64 bits. -/
inductive Exact (i : Int) : Except RuntimeError Int64 → Prop where
  | fits {result : Int64} : result.toInt = i → Exact i (.ok result)
  | overflow : i < -2 ^ 63 ∨ 2 ^ 63 ≤ i → Exact i (.error .integerOverflow)

/-- A quotient that is rounded towards zero, and its remainder. -/
inductive Divided (a b : Int64) : Except RuntimeError Int64 → Except RuntimeError Int64 → Prop where
  | byZero : b = 0 → Divided a b (.error .divisionByZero) (.error .divisionByZero)
  /-- Only the opposite of the least integer is no integer of 64 bits. -/
  | overflow : a.toInt = -2 ^ 63 → b.toInt = -1 →
      Divided a b (.error .integerOverflow) (.error .integerOverflow)
  | exact {quotient remainder : Int64} : b ≠ 0 → a.toInt = quotient.toInt * b.toInt + remainder.toInt →
      remainder.toInt.natAbs < b.toInt.natAbs → remainder = 0 ∨ remainder.toInt.sign = a.toInt.sign →
      Divided a b (.ok quotient) (.ok remainder)

/-- The integer with its bits shifted to the left and to the right. What is shifted out on the left is lost, and on
the right the result is rounded down. -/
inductive Shifted (a b : Int64) : Except RuntimeError Int64 → Except RuntimeError Int64 → Prop where
  | refused : b.toInt < 0 ∨ 64 ≤ b.toInt → Shifted a b (.error (.invalidShift b)) (.error (.invalidShift b))
  | shifted {amount : Nat} {left right : Int64} : b.toInt = amount → amount < 64 →
      left.toInt = (a.toInt * 2 ^ amount).bmod (2 ^ 64) → right.toInt = a.toInt.fdiv (2 ^ amount) →
      Shifted a b (.ok left) (.ok right)

variable {op plain compound : Operator} {fixity : Fixity} {integers : List Int64}
  {result : Except RuntimeError Int64} {b : Int64}

section Running

private theorem gives_of_compute (allowed : op.form.allows fixity = true)
    (count : integers.length = fixity.operandCount) (reads : op.form.lvalueOnly = false)
    (computes : ∀ type, op.compute type (integers.map .int) = Value.int <$> result) :
    Gives op fixity integers result := by
  intro type operands host held
  have length := congrArg List.length held
  rw [List.length_map, List.length_map, count] at length
  rw [Tree.operatorSlot_on allowed length (by simp [reads])]
  simp only [perform, held, computes, reads]
  cases result <;> rfl

private theorem stores_of_compute {a : Int64} (allowed : op.form.allows fixity = true)
    (count : integers.length + 1 = fixity.operandCount) (writes : op.form.lvalueOnly = true)
    (computes : ∀ type, op.compute type (.int a :: integers.map .int) = Value.int <$> result) :
    Stores op fixity a integers result := by
  intro type index operands host holds held
  have length := congrArg List.length held
  rw [List.length_map, List.length_map] at length
  rw [← length, ← List.length_cons] at count
  rw [Tree.operatorSlot_on allowed count fun _ => ⟨_, rfl⟩]
  have holds' : (Slot.aliased (.int index)).read host.heap = .int a := holds
  simp only [perform, List.map_cons, holds', held, computes, writes]
  cases result with
  | error error => rfl
  | ok i =>
    have stored : host.heap.assign (.int index) (.int i) = .ok (host.heap.write (.int index) (.int i) rfl) := rfl
    simp only [Functor.map, Except.map, List.head?_cons, Option.bind_some, Slot.cell?, stored, holds, if_true,
      settle]
    by_cases behind : fixity = .trailing
    · rw [if_pos behind, if_pos behind]
    · rw [if_neg behind, if_neg behind]

/-- On integers the plain operator and its compound assignment do the same arithmetic. -/
private theorem computes_onInts (operation : Arithmetic) (short : compound.expansion? = some plain)
    (does : plain.arithmetic? = some operation) (a b : Int64) :
    Computes plain compound a b (operation.onInts a b) := by
  obtain ⟨-, allowed, allowed', writes, reads⟩ := row_of_expansion? short
  refine ⟨gives_of_compute allowed' rfl reads fun type => ?_, stores_of_compute allowed rfl writes fun type => ?_⟩
  · cases compound <;> cases short <;> cases does <;> rfl
  · cases compound <;> cases short <;> cases does <;> rfl

end Running

section Arithmetic

private theorem toInt_bounds (a : Int64) : -2 ^ 63 ≤ a.toInt ∧ a.toInt < 2 ^ 63 :=
  ⟨a.minValue_le_toInt, a.toInt_lt⟩

private theorem exact_inRange (i : Int) : Exact i (inRange i) := by
  unfold inRange Decimal.toInt64?
  by_cases fits : Int64.minValue.toInt ≤ i ∧ i ≤ Int64.maxValue.toInt
  · rw [if_pos fits]
    exact .fits (Int64.toInt_ofInt_of_le fits.1 (Int.lt_add_one_of_le fits.2))
  · rw [if_neg fits]
    have least : Int64.minValue.toInt = -2 ^ 63 := rfl
    have most : Int64.maxValue.toInt = 2 ^ 63 - 1 := rfl
    exact .overflow (by omega)

/-- A quotient is not greater than what is divided, so that only a change of the sign can be too much. -/
private theorem quotient_cases (a : Int64) (nonzero : b ≠ 0) :
    (∃ quotient : Int64, quotient.toInt = a.toInt.tdiv b.toInt ∧
      inRange (a.toInt.tdiv b.toInt) = .ok quotient) ∨
    (a.toInt = -2 ^ 63 ∧ b.toInt = -1 ∧ inRange (a.toInt.tdiv b.toInt) = .error .integerOverflow) := by
  have bounds := toInt_bounds a
  have nonzero : b.toInt ≠ 0 := fun zero => nonzero (Int64.toInt_inj.mp zero)
  have size : (a.toInt.tdiv b.toInt).natAbs = a.toInt.natAbs / b.toInt.natAbs := Int.natAbs_tdiv ..
  have exact := exact_inRange (a.toInt.tdiv b.toInt)
  generalize inRange (a.toInt.tdiv b.toInt) = result at exact
  cases exact with
  | @fits quotient same => exact .inl ⟨quotient, same, rfl⟩
  | overflow outside =>
    -- Halves fit, so the divisor is one or minus one.
    by_cases half : b.toInt.natAbs < 2
    · rcases (by omega : b.toInt = 1 ∨ b.toInt = -1) with unit | turned
      · rw [unit, Int.tdiv_one] at outside
        omega
      · rw [turned, Int.tdiv_neg, Int.tdiv_one] at outside
        exact .inr ⟨by omega, turned, rfl⟩
    · have smaller : a.toInt.natAbs / b.toInt.natAbs ≤ a.toInt.natAbs / 2 :=
        Nat.div_le_div_left (by omega) (by decide)
      omega

private theorem sign_tmod (a b : Int) : a.tmod b = 0 ∨ (a.tmod b).sign = a.sign := by
  rcases Int.lt_trichotomy a 0 with negative | rfl | positive
  · have opposite := Int.tmod_nonneg b (Int.neg_nonneg_of_nonpos (Int.le_of_lt negative))
    rw [Int.neg_tmod] at opposite
    rw [Int.sign_eq_neg_one_of_neg negative, Int.sign_eq_neg_one_iff_neg]
    omega
  · exact .inl (Int.zero_tmod b)
  · have same := Int.tmod_nonneg b (Int.le_of_lt positive)
    rw [Int.sign_eq_one_of_pos positive, Int.sign_eq_one_iff_pos]
    omega

private theorem divided_onInts (a b : Int64) : Divided a b (Arithmetic.div.onInts a b) (Arithmetic.rem.onInts a b) := by
  simp only [Arithmetic.onInts]
  by_cases zero : b = 0
  · rw [if_pos zero, if_pos zero]
    exact .byZero zero
  rw [if_neg zero, if_neg zero]
  rcases quotient_cases a zero with ⟨quotient, same, fits⟩ | ⟨least, turned, large⟩
  · have sign := sign_tmod a.toInt b.toInt
    have division := Int.tdiv_mul_add_tmod a.toInt b.toInt
    have smaller : (a.toInt.tmod b.toInt).natAbs < b.toInt.natAbs := by
      rw [Int.natAbs_tmod]
      exact Nat.mod_lt _ (Int.natAbs_pos.mpr fun same => zero (Int64.toInt_inj.mp same))
    have bounds := toInt_bounds b
    have exact := exact_inRange (a.toInt.tmod b.toInt)
    simp only [fits, bind, Except.bind]
    generalize inRange (a.toInt.tmod b.toInt) = result at exact
    cases exact with
    | fits isRest =>
      rw [← same, ← isRest] at division
      rw [← isRest] at sign smaller
      exact .exact zero division.symm smaller (sign.imp_left fun isZero => Int64.toInt_inj.mp isZero)
    | overflow outside => omega
  · rw [large]
    exact .overflow least turned

private theorem shifted_onInts (a b : Int64) : Shifted a b (Arithmetic.shl.onInts a b) (Arithmetic.shr.onInts a b) := by
  simp only [Arithmetic.onInts, Arithmetic.shiftAmount]
  by_cases inside : 0 ≤ b.toInt ∧ b.toInt < 64
  · rw [if_pos inside]
    obtain ⟨nonnegative, small⟩ := inside
    have bounds := toInt_bounds a
    refine .shifted (Int.toNat_of_nonneg nonnegative).symm (by omega) ?_ ?_
    · have size : Int64.size = 2 ^ 64 := rfl
      rw [Int64.toInt_ofInt, Int.shiftLeft_eq, size]
    · generalize b.toInt.toNat = amount
      have divisor : (0 : Int) < 2 ^ amount := Int.pow_pos (by decide)
      have shift : a.toInt >>> amount = a.toInt / 2 ^ amount := by
        rw [Int.shiftRight_eq_div_pow, Int.natCast_pow]
        rfl
      have size : (a.toInt / 2 ^ amount).natAbs ≤ a.toInt.natAbs := Int.natAbs_ediv_le_natAbs ..
      have sign : 0 ≤ a.toInt / 2 ^ amount ↔ 0 ≤ a.toInt := Int.ediv_nonneg_iff_of_pos divisor
      rw [shift, Int.fdiv_eq_ediv_of_nonneg _ (Int.le_of_lt divisor)]
      apply Int64.toInt_ofInt_of_le <;> omega
  · rw [if_neg inside]
    exact .refused (by omega)

/-- No bit is in both of what only one of the integers has and what both have. -/
private theorem toInt_or (a b : BitVec 64) : (a ||| b).toInt = (a ^^^ b).toInt + (a &&& b).toInt := by
  have disjoint : (a ^^^ b) &&& (a &&& b) = 0#64 := by
    ext i
    cases here : a[i] <;> cases there : b[i] <;> simp [here, there]
  have union : (a ^^^ b) ||| (a &&& b) = a ||| b := by
    ext i
    cases here : a[i] <;> cases there : b[i] <;> simp [here, there]
  have sum := BitVec.toNat_add_of_and_eq_zero disjoint
  rw [BitVec.add_eq_or_of_and_eq_zero _ _ disjoint, union] at sum
  rw [BitVec.toInt_eq_msb_cond, BitVec.toInt_eq_msb_cond, BitVec.toInt_eq_msb_cond, sum, BitVec.msb_or,
    BitVec.msb_xor, BitVec.msb_and]
  cases a.msb <;> cases b.msb <;> simp <;> omega

private theorem toInt_xor (a b : Int64) : (a ^^^ b).toInt = (a ||| b).toInt - (a &&& b).toInt := by
  have sum := toInt_or a.toBitVec b.toBitVec
  rw [← Int64.toBitVec_or, ← Int64.toBitVec_xor, ← Int64.toBitVec_and, Int64.toInt_toBitVec, Int64.toInt_toBitVec,
    Int64.toInt_toBitVec] at sum
  omega

private theorem toInt_not (a : Int64) : (~~~a).toInt = -a.toInt - 1 := by
  have bounds := toInt_bounds a
  rw [Int64.toInt_not]
  apply Int.bmod_eq_of_le <;> omega

end Arithmetic

/-- Integer arithmetic is exact or says why it fails, in plain operators, compound assignments and unary operators
alike. -/
theorem integers_exact (a b : Int64) :
    (∃ sum, Computes addition addAssign a b sum ∧ Exact (a.toInt + b.toInt) sum) ∧
    (∃ difference, Computes subtraction subtractAssign a b difference ∧ Exact (a.toInt - b.toInt) difference) ∧
    (∃ product, Computes multiplication multiplyAssign a b product ∧ Exact (a.toInt * b.toInt) product) ∧
    (∃ opposite, Gives subtraction .leading [a] opposite ∧ Exact (-a.toInt) opposite) ∧
    (∃ next, Stores increment .leading a [] next ∧ Stores increment .trailing a [] next ∧
      Exact (a.toInt + 1) next) ∧
    (∃ previous, Stores decrement .leading a [] previous ∧ Stores decrement .trailing a [] previous ∧
      Exact (a.toInt - 1) previous) ∧
    (∃ quotient remainder, Computes division divideAssign a b quotient ∧
      Computes modulus modulusAssign a b remainder ∧ Divided a b quotient remainder) ∧
    (∃ left right, Computes leftShift leftShiftAssign a b left ∧ Computes rightShift rightShiftAssign a b right ∧
      Shifted a b left right) ∧
    (Computes bitwiseAnd bitwiseAndAssign a b (.ok (a &&& b)) ∧ Computes bitwiseOr bitwiseOrAssign a b (.ok (a ||| b)) ∧
      Computes bitwiseXor bitwiseXorAssign a b (.ok (a ^^^ b)) ∧
      (a ^^^ b).toInt = (a ||| b).toInt - (a &&& b).toInt) ∧
    (Gives complement .leading [a] (.ok (~~~a)) ∧ (~~~a).toInt = -a.toInt - 1) := by
  refine ⟨?_, ?_, ?_, ?_, ?_, ?_, ?_, ?_, ?_, ?_⟩
  · exact ⟨_, computes_onInts .add rfl rfl a b, exact_inRange _⟩
  · exact ⟨_, computes_onInts .sub rfl rfl a b, exact_inRange _⟩
  · exact ⟨_, computes_onInts .mul rfl rfl a b, exact_inRange _⟩
  · exact ⟨_, gives_of_compute rfl rfl rfl fun _ => rfl, exact_inRange _⟩
  · exact ⟨_, stores_of_compute rfl rfl rfl fun _ => rfl, stores_of_compute rfl rfl rfl fun _ => rfl, exact_inRange _⟩
  · exact ⟨_, stores_of_compute rfl rfl rfl fun _ => rfl, stores_of_compute rfl rfl rfl fun _ => rfl, exact_inRange _⟩
  · exact ⟨_, _, computes_onInts .div rfl rfl a b, computes_onInts .rem rfl rfl a b, divided_onInts a b⟩
  · exact ⟨_, _, computes_onInts .shl rfl rfl a b, computes_onInts .shr rfl rfl a b, shifted_onInts a b⟩
  · exact ⟨computes_onInts .and rfl rfl a b, computes_onInts .or rfl rfl a b, computes_onInts .xor rfl rfl a b,
      toInt_xor a b⟩
  · exact ⟨gives_of_compute rfl rfl rfl fun _ => rfl, toInt_not a⟩

end Reckoner.Operator

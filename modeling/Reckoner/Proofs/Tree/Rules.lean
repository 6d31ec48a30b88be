import Mathlib.Tactic.Common
import Reckoner.Proofs.Operator.Perform
import Reckoner.Tree.Check

/-!
What the checker asks of the operands of an operator and of the arguments of a call, and what it says where it does
not get it. Of several things that are wrong it names the first of a fixed order.
-/
namespace Reckoner.Tree

/-- What is said about an operator whose operands are not as it needs them. -/
inductive OperatorError (op : Operator) (span : Span) : List Operand → CompileError → Prop where
  | unsupported {first : Operand} {rest : List Operand} (refused : op.operands.accepts first.type = false) :
      OperatorError op span (first :: rest)
        ((CompileError.Cause.atSpan (.unsupportedOperandType op.symbol first.type) first.span).withRelated
          span s!"{op.symbol} operator")
  | mismatch {first second : Operand} {rest : List Operand} (accepted : op.operands.accepts first.type = true)
      (differ : second.type ≠ first.type) :
      OperatorError op span (first :: second :: rest)
        (((CompileError.Cause.atSpan (.operandTypeMismatch op.symbol first.type second.type) span).withRelated
          first.span s!"this is {first.type.name}").withRelated second.span s!"this is {second.type.name}")
  | noLvalue {first : Operand} {rest : List Operand} (accepted : op.operands.accepts first.type = true)
      (same : ∀ other ∈ rest, other.type = first.type) (writes : op.form.lvalueOnly = true)
      (noVariable : first.isVariable = false) :
      OperatorError op span (first :: rest) (CompileError.Cause.atSpan (.notAnLvalue op.symbol) first.span)

/-- What is said about a call that does not fit a function. -/
inductive CallError (registry : Registry) (name : String) (span : Span) : List Operand → CompileError → Prop where
  | unknown {arguments : List Operand} (missing : registry.function? name = none) :
      CallError registry name span arguments (CompileError.Cause.atSpan (.unknownFunction name) span)
  | arity {function : HostFunction} {arguments : List Operand} (found : registry.function? name = some function)
      (differ : function.params.length ≠ arguments.length) :
      CallError registry name span arguments
        (CompileError.Cause.atSpan (.arityMismatch name function.params.length arguments.length) span)
  /-- Arguments are counted from one, and those in front of the one that is named are as they have to be. -/
  | argument {function : HostFunction} {front back : List Operand} {argument : Operand} {param : ValueType}
      {params : List ValueType} (found : registry.function? name = some function)
      (same : function.params = front.map Operand.type ++ param :: params) (count : params.length = back.length)
      (differ : param ≠ argument.type) :
      CallError registry name span (front ++ argument :: back)
        (CompileError.Cause.atSpan (.argumentType name (front.length + 1) param argument.type) argument.span)

section Operators

variable {op : Operator} {fixity : Fixity} {span : Span} {operands rest : List Operand} {first : Operand}
  {type : ValueType} {error : CompileError}

/-- An operator that changes its operand needs a variable there. -/
private theorem target_ok (h : (if (op.form.lvalueOnly && !first.isVariable) = true then
        .error (CompileError.Cause.atSpan (.notAnLvalue op.symbol) first.span)
      else Except.ok (match op.result with
        | .sameAsOperand => first.type
        | .fixed type => type)) = Except.ok type) :
    (op.form.lvalueOnly = true → first.isVariable = true) ∧ type = op.typeFrom first.type := by
  split at h
  · cases h
  · next isTarget =>
    cases h
    refine ⟨fun writes => by simpa [writes] using isTarget, ?_⟩
    unfold Operator.typeFrom
    cases op.result <;> rfl

/-- What the checker makes sure of about an operator and its operands. -/
theorem checkOperator_ok (h : checkOperator op fixity span operands = .ok type) :
    operands.length = fixity.operandCount ∧
      ∃ first rest, operands = first :: rest ∧ op.operands.accepts first.type = true ∧
        (∀ other ∈ rest, other.type = first.type) ∧
        (op.form.lvalueOnly = true → first.isVariable = true) ∧ type = op.typeFrom first.type := by
  simp only [checkOperator] at h
  split at h
  · cases h
  next count =>
  simp only [ne_eq, not_not] at count
  refine ⟨count, ?_⟩
  cases operands with
  | nil => cases fixity <;> cases count
  | cons first rest =>
    refine ⟨first, rest, rfl, ?_⟩
    simp only at h
    split at h
    · cases h
    next accepted =>
    simp only [Bool.not_eq_true', Bool.not_eq_false] at accepted
    cases rest with
    | nil => exact ⟨accepted, by simp, target_ok h⟩
    | cons second others =>
      simp only at h
      split at h
      · cases h
      next same =>
      simp only [ne_eq, not_not] at same
      have alone : others = [] := by
        cases fixity <;> simp_all [Fixity.operandCount]
      subst alone
      exact ⟨accepted, by simpa using same, target_ok h⟩

/-- The checker gives an operation its type if the operands are as the rules ask. -/
theorem checkOperator_of (span : Span) (count : (first :: rest).length = fixity.operandCount)
    (accepted : op.operands.accepts first.type = true) (same : ∀ other ∈ rest, other.type = first.type)
    (target : op.form.lvalueOnly = true → first.isVariable = true) :
    checkOperator op fixity span (first :: rest) = .ok (op.typeFrom first.type) := by
  have isTarget : (op.form.lvalueOnly && !first.isVariable) = false := by
    by_cases writes : op.form.lvalueOnly = true
    · simp [target writes]
    · simp [writes]
  have single : ¬ fixity.operandCount ≠ fixity.operandCount := fun differ => differ rfl
  simp only [checkOperator, Operator.typeFrom, count, if_neg single, accepted, Bool.not_true,
    Bool.false_eq_true, if_false, isTarget]
  cases rest with
  | nil => cases op.result <;> rfl
  | cons second others =>
    simp only [same second List.mem_cons_self, ne_eq, not_true_eq_false, if_false]
    cases op.result <;> rfl

/-- An operator with as many operands as it takes fails for the first thing that is wrong with them. -/
theorem checkOperator_error_iff (count : operands.length = fixity.operandCount) :
    checkOperator op fixity span operands = .error error ↔ OperatorError op span operands error := by
  have counted : ¬ operands.length ≠ fixity.operandCount := not_not.mpr count
  constructor
  · intro h
    simp only [checkOperator, if_neg counted] at h
    cases operands with
    | nil => cases h
    | cons first rest =>
      simp only at h
      split at h
      · next refused =>
        cases h
        exact .unsupported (by simpa using refused)
      next accepted =>
      rw [Bool.not_eq_true', Bool.not_eq_false] at accepted
      have noLvalue {rest : List Operand} (same : ∀ other ∈ rest, other.type = first.type)
          (noTarget : (op.form.lvalueOnly && !first.isVariable) = true) :
          OperatorError op span (first :: rest) (CompileError.Cause.atSpan (.notAnLvalue op.symbol) first.span) := by
        rw [Bool.and_eq_true, Bool.not_eq_true'] at noTarget
        exact .noLvalue accepted same noTarget.1 noTarget.2
      cases rest with
      | nil =>
        simp only at h
        split at h
        · next noTarget =>
          cases h
          exact noLvalue (by simp) noTarget
        · cases h
      | cons second others =>
        simp only at h
        split at h
        · next differ =>
          cases h
          exact .mismatch accepted differ
        next same =>
        rw [ne_eq, not_not] at same
        obtain rfl : others = [] := by cases fixity <;> simp_all [Fixity.operandCount]
        split at h
        · next noTarget =>
          cases h
          exact noLvalue (by simpa using same) noTarget
        · cases h
  · intro h
    cases h with
    | unsupported refused => simp [checkOperator, count, refused]
    | mismatch accepted differ => simp [checkOperator, count, accepted, differ]
    | @noLvalue first rest accepted same writes noVariable =>
      cases rest with
      | nil => simp [checkOperator, count, accepted, writes, noVariable]
      | cons second others =>
        simp [checkOperator, count, accepted, same second List.mem_cons_self, writes, noVariable]

end Operators

section Calls

variable {registry : Registry} {name : String} {span : Span} {index : Nat} {params : List ValueType}
  {arguments operands : List Operand} {type : ValueType} {error : CompileError}

theorem checkArguments_ok (count : params.length = operands.length)
    (h : checkArguments name index params operands = .ok ()) : params = operands.map Operand.type := by
  induction params generalizing index operands with
  | nil => cases operands <;> first | rfl | cases count
  | cons param params ih =>
    cases operands with
    | nil => cases count
    | cons operand operands =>
      simp only [checkArguments] at h
      split at h
      · cases h
      · next same =>
        simp only [ne_eq, not_not] at same
        rw [same, List.map_cons, ih (Nat.succ.inj count) h]

/-- Arguments of the types of the parameters pass. -/
private theorem checkArguments_of (name : String) (index : Nat) (arguments : List Operand) :
    checkArguments name index (arguments.map Operand.type) arguments = .ok () := by
  induction arguments generalizing index with
  | nil => rfl
  | cons argument arguments ih =>
    simp only [List.map_cons, checkArguments, ne_eq, not_true_eq_false, if_false]
    exact ih (index + 1)

/-- The argument that is named is the first one of another type than its parameter. -/
private theorem checkArguments_error (h : checkArguments name index params arguments = .error error) :
    ∃ front argument back param later, arguments = front ++ argument :: back ∧
      params = front.map Operand.type ++ param :: later ∧ param ≠ argument.type ∧
      error = CompileError.Cause.atSpan (.argumentType name (front.length + index) param argument.type)
        argument.span := by
  fun_induction checkArguments name index params arguments with
  | case1 index param params argument arguments differ =>
    cases h
    exact ⟨[], argument, arguments, param, params, rfl, rfl, differ, by rw [List.length_nil, Nat.zero_add]⟩
  | case2 index param params argument arguments same ih =>
    obtain ⟨front, other, back, wanted, later, rfl, rfl, differ, rfl⟩ := ih h
    rw [ne_eq, not_not] at same
    exact ⟨argument :: front, other, back, wanted, later, rfl, by rw [same]; rfl, differ, by
      rw [List.length_cons, Nat.add_right_comm, Nat.add_assoc]⟩
  | case3 => cases h

private theorem checkArguments_of_error {front back : List Operand} {argument : Operand} {param : ValueType}
    (differ : param ≠ argument.type) :
    checkArguments name index (front.map Operand.type ++ param :: params) (front ++ argument :: back) =
      .error (CompileError.Cause.atSpan (.argumentType name (front.length + index) param argument.type)
        argument.span) := by
  induction front generalizing index with
  | nil => simp [checkArguments, differ]
  | cons first front ih =>
    simp only [List.map_cons, List.cons_append, checkArguments, ne_eq, not_true_eq_false, if_false, ih,
      List.length_cons]
    rw [Nat.add_right_comm, Nat.add_assoc]

theorem checkCall_ok (h : checkCall registry name span operands = .ok type) :
    ∃ function, registry.function? name = some function ∧
      function.params = operands.map Operand.type ∧ type = function.result := by
  simp only [checkCall] at h
  split at h
  · cases h
  next function found =>
  split at h
  · cases h
  next count =>
  simp only [ne_eq, not_not] at count
  split at h
  · cases h
  · next checked =>
    cases h
    exact ⟨function, found, checkArguments_ok count checked, rfl⟩

theorem checkCall_of (span : Span) {function : HostFunction} (found : registry.function? name = some function)
    (params : function.params = arguments.map Operand.type) :
    checkCall registry name span arguments = .ok function.result := by
  have count : function.params.length = arguments.length := by rw [params, List.length_map]
  simp only [checkCall, found, count, ne_eq, not_true_eq_false, if_false]
  rw [params, checkArguments_of]

/-- A call fails for the first thing that does not fit. -/
theorem checkCall_error_iff :
    checkCall registry name span arguments = .error error ↔ CallError registry name span arguments error := by
  constructor
  · intro h
    simp only [checkCall] at h
    split at h
    · next missing =>
      cases h
      exact .unknown missing
    next function found =>
    split at h
    · next differ =>
      cases h
      exact .arity found differ
    next count =>
    rw [ne_eq, not_not] at count
    split at h
    · next failed =>
      cases h
      obtain ⟨front, argument, back, param, later, rfl, same, differ, rfl⟩ := checkArguments_error failed
      refine .argument found same ?_ differ
      simpa [same] using count
    · cases h
  · intro h
    cases h with
    | unknown missing => simp only [checkCall, missing]
    | arity found differ => simp only [checkCall, found, if_pos differ]
    | @argument function front back argument param params found same count differ =>
      have arity : ¬ function.params.length ≠ (front ++ argument :: back).length := by simp [same, count]
      simp only [checkCall, found, if_neg arity]
      rw [same, checkArguments_of_error differ]

end Calls

end Reckoner.Tree

import Reckoner.Proofs.Host.Action
import Reckoner.Proofs.Operator.Families

/-!
Calls of operators are atomic. Whatever slots an operator is given and whatever the host holds, a call that
fails has changed nothing. A call that gives a value has changed nothing either, unless the operator is an
assignment or a step: these store a value in the cell of their first operand once nothing more can fail.
-/
namespace Reckoner

/-- A step that changes nothing, whether it fails or not. -/
def Action.Quiet {α : Type} (action : Action α) : Prop :=
  ∀ host, (action.on host).2 = host

namespace Action

variable {α β : Type}

theorem quiet_pure (a : α) : Quiet (pure a) := fun _ => rfl

theorem quiet_throw (error : RuntimeError) : Quiet (throw error : Action α) := fun _ => rfl

theorem Quiet.bind {action : Action α} {next : α → Action β} (first : action.Quiet)
    (later : ∀ a, (next a).Quiet) : Quiet (action >>= next) := by
  intro host
  have same := first host
  rw [on_bind]
  generalize action.on host = reply at same
  obtain ⟨_ | a, after⟩ := reply
  · exact same
  · exact (later a after).trans same

theorem Quiet.map {action : Action α} (quiet : action.Quiet) (f : α → β) : Quiet (f <$> action) := by
  rw [← bind_pure_comp]
  exact quiet.bind fun a => quiet_pure (f a)

theorem quiet_readSlot (slot : Slot) : Quiet (readSlot slot) := fun _ => rfl

end Action

namespace Operator

open Reckoner.Action

namespace Application

variable {application : Application} {op : Operator} {host : Host} {cell : Cell}

/-- What a call can come to. -/
inductive Effect (application : Application) (op : Operator) (host : Host) :
    Except RuntimeError Value × Host → Prop where
  | failed (error : RuntimeError) : Effect application op host (.error error, host)
  | computed (value : Value) : op.writes = false → Effect application op host (.ok value, host)
  /-- A value of the type of the cell is stored, and is the result unless a step stands behind its operand. -/
  | stored {cell : Cell} {value : Value} (fits : value.type = cell.type) : op.writes = true →
      application.operands.head? = some (.aliased cell) →
      Effect application op host
        (.ok (if op.isStep = true ∧ application.fixity = .trailing then host.heap.read cell else value),
          { host with heap := host.heap.write cell value fits })

section Quiet

variable (application) (index : Nat)

theorem quiet_pureResult {α : Type} (result : Except RuntimeError α) : Quiet (pureResult result) :=
  fun host => by rw [on_pureResult]

theorem quiet_operand : (application.operand index).Quiet := by
  unfold operand
  split
  · exact quiet_readSlot _
  · exact quiet_throw _

theorem quiet_arithmetic (operation : Arithmetic) : (application.arithmetic operation).Quiet :=
  (quiet_operand application 0).bind fun _ => (quiet_operand application 1).bind fun _ => quiet_pureResult _

theorem quiet_plus : application.plus.Quiet := by
  unfold plus
  split
  · exact quiet_arithmetic application .add
  · exact quiet_operand application 0

theorem quiet_minus : application.minus.Quiet := by
  unfold minus
  split
  · exact quiet_arithmetic application .sub
  · refine (quiet_operand application 0).bind fun value => ?_
    split
    · exact (quiet_pureResult _).map _
    · exact quiet_pure _
    · exact quiet_throw _

theorem quiet_compare (test : Ordering → Bool) : (application.compare test).Quiet := by
  refine (quiet_operand application 0).bind fun left => (quiet_operand application 1).bind fun right => ?_
  split
  · exact quiet_pure _
  · exact quiet_throw _

theorem quiet_equality (expected : Bool) : (application.equality expected).Quiet :=
  (quiet_operand application 0).bind fun _ => (quiet_operand application 1).bind fun _ => quiet_pure _

theorem quiet_logical (operation : Bool → Bool → Bool) : (application.logical operation).Quiet := by
  refine (quiet_operand application 0).bind fun left => (quiet_operand application 1).bind fun right => ?_
  split
  · exact quiet_pure _
  · exact quiet_throw _

theorem quiet_negate : application.negate.Quiet := by
  refine (quiet_operand application 0).bind fun value => ?_
  split
  · exact quiet_pure _
  · exact quiet_throw _

theorem quiet_complement : application.complement.Quiet := by
  refine (quiet_operand application 0).bind fun value => ?_
  split
  · exact quiet_pure _
  · exact quiet_throw _

theorem quiet_cast : application.cast.Quiet :=
  (quiet_operand application 0).bind fun _ => quiet_pureResult _

end Quiet

/-- A step that changes nothing is all that an operator does which stores nothing. -/
theorem Effect.of_quiet {action : Action Value} (quiet : action.Quiet) (unchanging : op.writes = false) :
    Effect application op host (action.on host) := by
  have same := quiet host
  generalize action.on host = reply at same
  obtain ⟨error | value, after⟩ := reply
  · obtain rfl : after = host := same
    exact .failed error
  · obtain rfl : after = host := same
    exact .computed value unchanging

/-- What changes nothing can go first. -/
theorem Effect.bind {α : Type} {action : Action α} {next : α → Action Value} (quiet : action.Quiet)
    (later : ∀ a, action.on host = (.ok a, host) → Effect application op host ((next a).on host)) :
    Effect application op host ((action >>= next).on host) := by
  have same := quiet host
  rw [on_bind]
  cases ran : action.on host with
  | mk result after =>
    rw [ran] at same
    obtain rfl : after = host := same
    cases result with
    | error error => exact .failed error
    | ok a => exact later a ran

/-- Without a cell to write to the call fails. -/
theorem Effect.target {next : Cell → Action Value}
    (later : ∀ cell, application.operands.head? = some (.aliased cell) →
      Effect application op host ((next cell).on host)) :
    Effect application op host ((application.target >>= next).on host) := by
  unfold Application.target
  cases first : application.operands.head? with
  | none => exact .failed _
  | some slot =>
    cases slot with
    | owned value => exact .failed _
    | aliased cell => exact later cell first

/-- A store goes through if the value has the type of the cell, and nothing fails after it. -/
theorem Effect.store {value : Value} {answer : Action Value} (writes : op.writes = true)
    (isTarget : application.operands.head? = some (.aliased cell))
    (answers : ∀ fits, answer.on { host with heap := host.heap.write cell value fits } =
      (.ok (if op.isStep = true ∧ application.fixity = .trailing then host.heap.read cell else value),
        { host with heap := host.heap.write cell value fits })) :
    Effect application op host ((Action.assign cell value >>= fun _ => answer).on host) := by
  rw [on_bind, on_assign]
  by_cases fits : value.type = cell.type
  · simp only [Heap.assign, dif_pos fits]
    rw [answers fits]
    exact .stored fits writes isTarget
  · simp only [Heap.assign, dif_neg fits]
    exact .failed _

/-- An assignment answers with what the cell holds afterwards. -/
private theorem Effect.store_and_read {value : Value} (writes : op.writes = true) (noStep : op.isStep = false)
    (isTarget : application.operands.head? = some (.aliased cell)) :
    Effect application op host ((Action.assign cell value >>= fun _ => Action.readCell cell).on host) := by
  refine .store writes isTarget fun fits => ?_
  simp [noStep, Heap.read_write_same]

private theorem effect_assign (writes : op.writes = true) (noStep : op.isStep = false) :
    Effect application op host (application.assign.on host) := by
  refine .target fun cell isTarget => .bind (quiet_operand application 1) fun value _ => ?_
  exact .store_and_read writes noStep isTarget

private theorem effect_compound (operation : Arithmetic) (writes : op.writes = true)
    (noStep : op.isStep = false) : Effect application op host ((application.compound operation).on host) := by
  refine .target fun cell isTarget => ?_
  refine .bind (fun _ => rfl) fun left _ => .bind (quiet_operand application 1) fun right _ => ?_
  refine .bind (quiet_pureResult _) fun value _ => ?_
  exact .store_and_read writes noStep isTarget

private theorem effect_step (difference : Int) (writes : op.writes = true) (isStep : op.isStep = true) :
    Effect application op host ((application.step difference).on host) := by
  refine .target fun cell isTarget => .bind (fun _ => rfl) fun held isHeld => ?_
  obtain rfl : host.heap.read cell = held := by simpa using isHeld
  split
  · next i isInt =>
    refine .bind (quiet_pureResult _) fun stepped _ => .store writes isTarget fun fits => ?_
    simp only [isStep, true_and, isInt]
    rfl
  · exact .failed _

/-- Every call has one of the effects. -/
theorem effect_of_implementation? {run : Application → Action Value} (implemented : op.implementation? = some run) :
    Effect application op host ((run application).on host) := by
  cases op with
  | addition =>
    cases implemented
    exact .of_quiet (quiet_plus application) rfl
  | subtraction =>
    cases implemented
    exact .of_quiet (quiet_minus application) rfl
  | multiplication | division | modulus | leftShift | rightShift | bitwiseAnd | bitwiseXor | bitwiseOr =>
    cases implemented
    exact .of_quiet (quiet_arithmetic application _) rfl
  | lessThan | greaterThan | lessOrEqual | greaterOrEqual =>
    cases implemented
    exact .of_quiet (quiet_compare application _) rfl
  | equal | notEqual =>
    cases implemented
    exact .of_quiet (quiet_equality application _) rfl
  | logicalAnd | logicalOr =>
    cases implemented
    exact .of_quiet (quiet_logical application _) rfl
  | assignment =>
    cases implemented
    exact effect_assign rfl rfl
  | addAssign | subtractAssign | multiplyAssign | divideAssign | modulusAssign | bitwiseAndAssign
  | bitwiseOrAssign | bitwiseXorAssign | leftShiftAssign | rightShiftAssign =>
    cases implemented
    exact effect_compound _ rfl rfl
  | logicalNot =>
    cases implemented
    exact .of_quiet (quiet_negate application) rfl
  | complement =>
    cases implemented
    exact .of_quiet (quiet_complement application) rfl
  | increment | decrement =>
    cases implemented
    exact effect_step _ rfl rfl
  | castBool | castInt | castFloat | castString =>
    cases implemented
    exact .of_quiet (quiet_cast application) rfl
  | openGroup | closeGroup | comma => cases implemented

end Application

/-- A call that fails leaves the host as it was, and so does one that succeeds, unless the operator is one of those
that write. These store a value of the type of the cell in the cell of their first operand, change nothing else, and
give the stored value, or what the cell held before if a step stands behind its operand. -/
theorem implementation_atomic {op : Operator} {run : Application → Action Value}
    (implemented : op.implementation? = some run) (application : Application) (host : Host) :
    let reply := (run application).on host
    (∀ error, reply.1 = .error error → reply.2 = host) ∧
      ∀ value, reply.1 = .ok value →
        (op.writes = false → reply.2 = host) ∧
        (op.writes = true → ∃ cell stored, ∃ fits : stored.type = cell.type,
          application.operands.head? = some (.aliased cell) ∧
          reply.2 = { host with heap := host.heap.write cell stored fits } ∧
          value = if op.isStep = true ∧ application.fixity = .trailing then host.heap.read cell
            else stored) := by
  have effect := @Application.effect_of_implementation? application op host run implemented
  intro reply
  change Application.Effect application op host reply at effect
  generalize reply = reply at effect
  cases effect with
  | failed error => exact ⟨fun _ _ => rfl, nofun⟩
  | computed value unchanging =>
    refine ⟨nofun, fun _ _ => ⟨fun _ => rfl, fun writes => ?_⟩⟩
    rw [unchanging] at writes
    cases writes
  | @stored cell stored fits writes isTarget =>
    refine ⟨nofun, fun value given => ⟨fun unchanging => ?_, fun _ => ?_⟩⟩
    · rw [unchanging] at writes
      cases writes
    · cases given
      exact ⟨cell, stored, fits, isTarget, rfl, rfl⟩

/-- A step and a compound assignment whose operands share a cell. The step gives what the cell held, and the
division by zero leaves it alone. -/
theorem implementation_atomic_shared :
    let shared : List Slot := [.aliased (.int 0), .aliased (.int 0)]
    let stepped := (Application.step ⟨"++", .trailing, .int, shared⟩ 1).on .empty
    let divided := (Application.compound ⟨"/=", .binary, .int, shared⟩ .div).on .empty
    increment.implementation? = some (·.step 1) ∧ divideAssign.implementation? = some (·.compound .div) ∧
      stepped.1 = .ok (.int 0) ∧ stepped.2.heap.read (.int 0) = .int 1 ∧
      (∃ cell stored, ∃ fits : stored.type = cell.type, shared.head? = some (.aliased cell) ∧
        stepped.2 = { Host.empty with heap := Host.empty.heap.write cell stored fits } ∧
        Value.int 0 = Host.empty.heap.read cell) ∧
      divided.1 = .error .divisionByZero ∧ divided.2 = .empty := by
  intro shared stepped divided
  have old : stepped.1 = .ok (.int 0) := rfl
  have failed : divided.1 = .error .divisionByZero := rfl
  have steps := @implementation_atomic increment _ rfl ⟨"++", .trailing, .int, shared⟩ .empty
  have divides := @implementation_atomic divideAssign _ rfl ⟨"/=", .binary, .int, shared⟩ .empty
  exact ⟨rfl, rfl, old, rfl, (steps.2 _ old).2 rfl, failed, divides.1 _ failed⟩

end Operator

end Reckoner

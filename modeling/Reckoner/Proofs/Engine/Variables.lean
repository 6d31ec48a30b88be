import Reckoner.Library
import Reckoner.Proofs.Expression.Registered

/-!
The variables of an engine and what they hold. A variable that is defined gets a new cell, which no other name stands
for, so defining it changes what this name stands for and nothing else. The standard functions are no variables.
-/
namespace Reckoner

/-- The number of the cell among those made so far. -/
def Cell.index : Cell → Nat
  | bool index | int index | float index | string index => index

/-- A new cell holds the value, and the cells made before hold what they held. -/
theorem Heap.exists_allocate (heap : Heap) {value : Value} (some : value.type ≠ .void) :
    ∃ cell heap', heap.allocate value = Option.some (cell, heap') ∧ cell.index = heap.next ∧
      heap'.next = heap.next + 1 ∧ heap'.read cell = value ∧
      ∀ other : Cell, other.index < heap.next → heap'.read other = heap.read other := by
  have fresh {cell : Cell} (isNew : Cell.ofType? heap.next value.type = Option.some cell) : cell.index = heap.next := by
    cases type : value.type <;> rw [type] at isNew <;> cases isNew <;> rfl
  unfold allocate
  split
  · next cell isNew =>
    refine ⟨cell, _, rfl, fresh isNew, rfl, heap.read_write_same cell value (Cell.type_of_ofType? isNew).symm, fun other older => ?_⟩
    refine heap.read_write_other value (Cell.type_of_ofType? isNew).symm fun same => ?_
    rw [same, fresh isNew] at older
    exact Nat.lt_irrefl _ older
  · next isVoid => cases value <;> first | exact absurd rfl some | cases isVoid

namespace Engine

/-- The value of the variable of this name, which is of the type of its cell. -/
def valueOf? (engine : Engine) (name : String) : Option Value :=
  (engine.registry.cellOf? name).map engine.host.heap.read

/-- Every variable stands for a cell that has been made. -/
def CellsMade (engine : Engine) : Prop :=
  ∀ name cell, engine.registry.cellOf? name = some cell → cell.index < engine.host.heap.next

variable {name : String} {value : Value} {engine : Engine}

/-- A name that is accepted stands for the value when it has been defined, and every other name for what it stood for
before. -/
theorem exists_define (valid : Registry.checkName name = .ok ()) (some : value.type ≠ .void)
    (made : engine.CellsMade) :
    ∃ after, engine.run (define name value) = (.ok (), after) ∧ after.CellsMade ∧
      ∀ other, after.valueOf? other = if other = name then Option.some value else engine.valueOf? other := by
  obtain ⟨cell, heap, allocated, isNew, next, holds, keeps⟩ := engine.host.heap.exists_allocate some
  let bound : Registry := { engine.registry with cells := engine.registry.cells.insert name cell }
  have accepted : engine.registry.addVariable name cell = .ok bound :=
    Registry.addVariable_ok_iff.mpr ⟨Registry.checkName_ok_iff.mp valid, rfl⟩
  have found (other : String) :
      bound.cellOf? other = if other = name then Option.some cell else engine.registry.cellOf? other :=
    Names.find?_insert ..
  refine ⟨{ engine with registry := bound, host := { engine.host with heap := heap } }, ?_, fun other held isBound => ?_,
    fun other => ?_⟩
  · simp only [define, run_bind, run_get, allocated, run_set, run_addVariable, accepted]
  · rw [found] at isBound
    change held.index < heap.next
    split at isBound
    · cases isBound
      omega
    · have := made other held isBound
      omega
  · simp only [valueOf?, found]
    split
    · rw [Option.map_some, holds]
    · cases isBound : engine.registry.cellOf? other with
      | none => rfl
      | some held => rw [Option.map_some, Option.map_some, keeps held (made other held isBound)]

/-- Functions can be registered under names that are accepted, which changes no variable. -/
theorem exists_register {functions : List (String × HostFunction)}
    (valid : ∀ function ∈ functions, Registry.checkName function.1 = .ok ()) (engine : Engine) :
    ∃ registry, engine.run (Library.register functions) = (.ok (), { engine with registry := registry }) ∧
      registry.cells = engine.registry.cells := by
  induction functions generalizing engine with
  | nil => exact ⟨engine.registry, rfl, rfl⟩
  | cons first rest ih =>
    obtain ⟨isValid, valid⟩ := List.forall_mem_cons.mp valid
    let added : Registry :=
      { engine.registry with functions := engine.registry.functions.insert first.1 first.2 }
    have accepted : engine.registry.addFunction first.1 first.2 = .ok added :=
      Registry.addFunction_ok_iff.mpr ⟨Registry.checkName_ok_iff.mp isValid, rfl⟩
    obtain ⟨registry, ran, same⟩ := ih valid { engine with registry := added }
    refine ⟨registry, ?_, same⟩
    change engine.run (addFunction first.1 first.2 >>= fun _ => Library.register rest) = _
    rw [run_bind, run_addFunction, accepted]
    exact ran

/-- The standard functions can be registered, and then there is no variable yet. -/
theorem exists_registerAll (passLimit : Nat) :
    ∃ after, (new passLimit).run Library.registerAll = (.ok (), after) ∧ after.CellsMade ∧
      ∀ name, after.valueOf? name = none := by
  have math : ∀ function ∈ Library.math, Registry.checkName function.1 = .ok () := by decide
  have text : ∀ function ∈ Library.text, Registry.checkName function.1 = .ok () := by decide
  obtain ⟨registry, ran, same⟩ := exists_register math (new passLimit)
  let between : Engine := { new passLimit with registry := registry }
  obtain ⟨registry', ran', same'⟩ := exists_register text between
  have unbound (name : String) : registry'.cellOf? name = none := by
    rw [Registry.cellOf?, same']
    change registry.cells.find? name = none
    rw [same]
    rfl
  refine ⟨{ between with registry := registry' }, ?_, fun name cell bound => ?_, fun name => ?_⟩
  · rw [Library.registerAll, run_bind, ran]
    exact ran'
  · rw [unbound] at bound
    cases bound
  · rw [valueOf?, unbound]
    rfl

end Engine

end Reckoner

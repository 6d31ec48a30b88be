import Reckoner.Expression

/-!
An engine owns a registry, the host that its names refer to, a limit on the passes of the tree builder
and the expression compiled last. Compiling forgets the last expression first, so that after a failure
there is nothing to evaluate.
-/
namespace Reckoner

/-- The state that compiling and evaluating work on. -/
structure Engine where
  registry : Registry
  host : Host
  passLimit : Nat
  current : Option Expression

/-- A step on an engine that gives a result or fails, keeping its effects. -/
abbrev EngineAction :=
  ExceptT Failure (StateM Engine)

namespace Engine

/-- The limit on passes unless another one is given. -/
def defaultPassLimit : Nat :=
  100000

/-- An engine without names and expressions. -/
def new (passLimit : Nat) : Engine :=
  ⟨.empty, .empty, passLimit, none⟩

instance : Inhabited Engine := ⟨new defaultPassLimit⟩

/-- Runs a step on an engine. -/
def run {α : Type} (engine : Engine) (action : EngineAction α) : Except Failure α × Engine :=
  (ExceptT.run action).run engine

/-- Binds a name to a cell. -/
def addVariable (name : String) (cell : Cell) : EngineAction Unit := do
  let engine ← get
  match engine.registry.addVariable name cell with
  | .ok registry => set { engine with registry := registry }
  | .error error => throw (.ofNameError error)

/-- Binds a name to a function. -/
def addFunction (name : String) (function : HostFunction) : EngineAction Unit := do
  let engine ← get
  match engine.registry.addFunction name function with
  | .ok registry => set { engine with registry := registry }
  | .error error => throw (.ofNameError error)

/-- Binds a name to a new cell with this value. There are no cells for void. -/
def define (name : String) (value : Value) : EngineAction Unit := do
  let engine ← get
  match engine.host.heap.allocate value with
  | some (cell, heap) =>
    set { engine with host := { engine.host with heap := heap } }
    addVariable name cell
  | none => throw (.usage "a variable needs a value")

/-- Compiles a source without keeping the expression. -/
def prepare (engine : Engine) (source : String) : Except Failure Expression :=
  Expression.compile engine.registry engine.passLimit source

/-- Compiles a source, with another pass limit if one is given, and keeps the expression. -/
def compileWithin (passLimit : Option Nat) (source : String) : EngineAction Expression := do
  modify ({ · with current := none })
  let engine ← get
  match Expression.compile engine.registry (passLimit.getD engine.passLimit) source with
  | .ok expression =>
    set { engine with current := some expression }
    return expression
  | .error failure => throw failure

/-- Compiles a source and keeps the expression. -/
def compile (source : String) : EngineAction Expression :=
  compileWithin none source

/-- Evaluates the expression compiled last. -/
def evaluate : EngineAction Value := do
  let engine ← get
  match engine.current with
  | none => throw (.usage "no compiled expression to evaluate")
  | some expression =>
    match expression.evaluate engine.registry engine.host with
    | (result, expression, host) =>
      set { engine with current := some expression, host := host }
      match result with
      | .ok value => return value
      | .error failure => throw failure

/-- Compiles and evaluates a source and converts the value. -/
def evaluateAs (type : ValueType) (source : String) : EngineAction Value := do
  let _ ← compile source
  let value ← evaluate
  match value.convert type with
  | .ok converted => return converted
  | .error cause => throw (.ofEvaluationError source ⟨cause, Span.whole source⟩)

/-- Evaluates an expression that is kept elsewhere. -/
def evaluateOther (engine : Engine) (expression : Expression) :
    Except Failure Value × Expression × Engine :=
  match expression.evaluate engine.registry engine.host with
  | (result, expression, host) => (result, expression, { engine with host := host })

/-- Every variable with its current value, in the order of the names. -/
def values (engine : Engine) : List (String × Value) :=
  engine.registry.values engine.host.heap

end Engine

end Reckoner

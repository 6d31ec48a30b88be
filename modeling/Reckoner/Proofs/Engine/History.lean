import Reckoner.Engine
import Reckoner.Proofs.Expression.Outcome

/-!
An engine over its whole life. Names come and go, the host writes to its cells, sources are compiled and
evaluated in any order. Whatever has happened, an evaluation answers for the last compilation: there is
nothing to evaluate if that failed or there was none, and otherwise the answer is that of an expression which
has just been compiled and was never evaluated.
-/
namespace Reckoner

/-- What can be done with an engine. -/
inductive Operation where
  | addVariable (name : String) (cell : Cell)
  | addFunction (name : String) (function : HostFunction)
  | removeVariable (name : String)
  | removeFunction (name : String)
  /-- The host program does something to its cells or prints. -/
  | changeHost (change : Host → Host)
  | prepare (source : String)
  /-- Compiles, with another pass limit if one is given. -/
  | compile (passLimit : Option Nat) (source : String)
  | evaluate
  | evaluateAs (type : ValueType) (source : String)

namespace Operation

/-- The engine afterwards. -/
def perform (engine : Engine) : Operation → Engine
  | addVariable name cell => (engine.run (Engine.addVariable name cell)).2
  | addFunction name function => (engine.run (Engine.addFunction name function)).2
  | removeVariable name => { engine with registry := engine.registry.removeVariable name }
  | removeFunction name => { engine with registry := engine.registry.removeFunction name }
  | changeHost change => { engine with host := change engine.host }
  | prepare source =>
    match engine.prepare source with
    | .ok _ | .error _ => engine
  | compile passLimit source => (engine.run (Engine.compileWithin passLimit source)).2
  | evaluate => (engine.run Engine.evaluate).2
  | evaluateAs type source => (engine.run (Engine.evaluateAs type source)).2

/-- The answer of the compilation, if the operation compiles something to be evaluated. -/
def compiled? (engine : Engine) : Operation → Option (Except Failure Expression)
  | compile passLimit source => some (engine.run (Engine.compileWithin passLimit source)).1
  | evaluateAs _ source => some (engine.run (Engine.compile source)).1
  | _ => none

end Operation

/-- The answer of the last compilation among the operations. -/
def lastCompiled? (engine : Engine) : List Operation → Option (Except Failure Expression)
  | [] => none
  | operation :: later =>
    (lastCompiled? (operation.perform engine) later).or (operation.compiled? engine)

/-- The expression is the other one, maybe with slots filled by evaluations. -/
structure Expression.Revisits (expression fresh : Expression) : Prop where
  source_eq : expression.source = fresh.source
  order_eq : expression.order = fresh.order
  agrees : fresh.tree.Agrees expression.tree

namespace Engine

/-- The engine keeps what the last compilation gave, and nothing if there was none or it failed. -/
def Keeps (engine : Engine) (last : Option (Except Failure Expression)) : Prop :=
  match last with
  | some (.ok fresh) =>
    ∃ stored, engine.current = some stored ∧ stored.Revisits fresh ∧
      ∃ registry, fresh.CompiledFor registry
  | _ => engine.current = none

end Engine

namespace Expression

variable {registry : Registry} {expression fresh : Expression}

/-- An evaluation answers with what the tree comes to. -/
theorem evaluate_eq_outcome (expression : Expression) (now : Registry) (host : Host) :
    (expression.evaluate now host).1 =
        (expression.tree.outcome now expression.order host).1.mapError
          (.ofEvaluationError expression.source) ∧
      (expression.evaluate now host).2.2 = (expression.tree.outcome now expression.order host).2 :=
  ⟨rfl, rfl⟩

theorem Revisits.refl (expression : Expression) : expression.Revisits expression :=
  ⟨rfl, rfl, .refl _⟩

/-- An expression that was evaluated before answers like one that was not. -/
theorem Revisits.evaluate_eq (revisits : expression.Revisits fresh) (compiled : fresh.CompiledFor registry)
    (now : Registry) (host : Host) :
    (expression.evaluate now host).1 = (fresh.evaluate now host).1 ∧
      (expression.evaluate now host).2.2 = (fresh.evaluate now host).2.2 := by
  obtain ⟨root, result, checked⟩ := compiled.checked
  have same := checked.outcome_agrees revisits.agrees now host
  obtain ⟨answer, after⟩ := expression.evaluate_eq_outcome now host
  obtain ⟨answer', after'⟩ := fresh.evaluate_eq_outcome now host
  rw [revisits.order_eq, same] at answer after
  rw [answer, after, answer', after', revisits.source_eq]
  exact ⟨rfl, rfl⟩

/-- Evaluating it once more makes it no other expression. -/
theorem Revisits.evaluate (revisits : expression.Revisits fresh) (now : Registry) (host : Host) :
    (expression.evaluate now host).2.1.Revisits fresh := by
  refine ⟨revisits.source_eq, revisits.order_eq, revisits.agrees.trans ?_⟩
  simp only [Expression.evaluate, Tree.evaluate]
  cases filled : Tree.fillSlots now expression.order expression.tree host with
  | mk outcome rest =>
    obtain ⟨tree, after⟩ := rest
    cases outcome <;> exact Tree.agrees_of_fillSlots filled

end Expression

namespace Engine

section Steps

variable {α β : Type} (engine : Engine)

@[simp] theorem run_pure (a : α) : engine.run (pure a) = (.ok a, engine) := rfl

@[simp] theorem run_throw (failure : Failure) :
    engine.run (throw failure : EngineAction α) = (.error failure, engine) := rfl

@[simp] theorem run_get : engine.run get = (.ok engine, engine) := rfl

@[simp] theorem run_set (other : Engine) : engine.run (set other) = (.ok (), other) := rfl

@[simp] theorem run_modify (change : Engine → Engine) :
    engine.run (modify change) = (.ok (), change engine) := rfl

@[simp] theorem run_bind (action : EngineAction α) (next : α → EngineAction β) :
    engine.run (action >>= next) =
      match engine.run action with
      | (.ok a, engine) => engine.run (next a)
      | (.error failure, engine) => (.error failure, engine) := by
  simp only [run, ExceptT.run_bind, StateT.run_bind]
  rcases StateT.run (ExceptT.run action) engine with ⟨_ | a, engine⟩ <;> rfl

/-- Compiling gives the expression of the source and keeps it, or keeps nothing. -/
theorem run_compileWithin (passLimit : Option Nat) (source : String) :
    engine.run (compileWithin passLimit source) =
      match Expression.compile engine.registry (passLimit.getD engine.passLimit) source with
      | .ok expression => (.ok expression, { engine with current := some expression })
      | .error failure => (.error failure, { engine with current := none }) := by
  simp only [compileWithin, run_bind, run_modify, run_get]
  cases Expression.compile engine.registry (passLimit.getD engine.passLimit) source with
  | ok expression => simp only [run_bind, run_set, run_pure]
  | error failure => simp only [run_throw]

/-- Evaluating answers with what the kept expression gives, and keeps it. -/
theorem run_evaluate :
    engine.run evaluate =
      match engine.current with
      | none => (.error (.usage "no compiled expression to evaluate"), engine)
      | some expression =>
        let reply := expression.evaluate engine.registry engine.host
        (reply.1, { engine with current := some reply.2.1, host := reply.2.2 }) := by
  simp only [evaluate, run_bind, run_get]
  cases engine.current with
  | none => simp
  | some expression =>
    simp only [run_bind, run_set]
    cases (expression.evaluate engine.registry engine.host).1 with
    | ok value => simp
    | error failure => simp

/-- Converting the value of a source changes nothing that evaluating it has not changed. -/
theorem run_evaluateAs (type : ValueType) (source : String) :
    (engine.run (evaluateAs type source)).2 =
      match engine.run (compile source) with
      | (.ok _, engine) => (engine.run evaluate).2
      | (.error _, engine) => engine := by
  simp only [evaluateAs, run_bind]
  rcases engine.run (compile source) with ⟨failure | expression, compiled⟩
  · rfl
  · simp only
    rcases compiled.run evaluate with ⟨failure | value, evaluated⟩
    · rfl
    · simp only
      cases value.convert type with
      | ok converted => simp
      | error cause => simp

end Steps

variable {engine : Engine} {last : Option (Except Failure Expression)}

/-- Whether the engine keeps an expression depends on that alone. -/
private theorem Keeps.congr {other : Engine} (keeps : engine.Keeps last)
    (same : other.current = engine.current) : other.Keeps last := by
  unfold Keeps at keeps ⊢
  rw [same]
  exact keeps

/-- After a compilation the engine keeps what it gave. -/
private theorem keeps_compileWithin (engine : Engine) (passLimit : Option Nat) (source : String) :
    (engine.run (compileWithin passLimit source)).2.Keeps
      (some (engine.run (compileWithin passLimit source)).1) := by
  rw [run_compileWithin]
  cases compiled : Expression.compile engine.registry (passLimit.getD engine.passLimit) source with
  | ok expression => exact ⟨expression, rfl, .refl _, engine.registry, .compile compiled⟩
  | error failure => rfl

/-- Evaluating keeps the expression. -/
private theorem Keeps.evaluate (keeps : engine.Keeps last) : (engine.run evaluate).2.Keeps last := by
  rw [run_evaluate]
  match last, keeps with
  | some (.ok fresh), ⟨stored, current, revisits, compiled⟩ =>
    rw [current]
    exact ⟨_, rfl, revisits.evaluate engine.registry engine.host, compiled⟩
  | none, current | some (.error _), current =>
    simp only [Keeps] at current
    rw [current]
    exact current

/-- After any operation the engine keeps what the last compilation gave. -/
private theorem Keeps.perform (keeps : engine.Keeps last) (operation : Operation) :
    (operation.perform engine).Keeps ((operation.compiled? engine).or last) := by
  cases operation with
  | addVariable name cell =>
    refine keeps.congr ?_
    simp only [Operation.perform, addVariable, run_bind, run_get]
    cases engine.registry.addVariable name cell with
    | ok registry => rfl
    | error error => rfl
  | addFunction name function =>
    refine keeps.congr ?_
    simp only [Operation.perform, addFunction, run_bind, run_get]
    cases engine.registry.addFunction name function with
    | ok registry => rfl
    | error error => rfl
  | removeVariable | removeFunction | changeHost => exact keeps.congr rfl
  | prepare source =>
    refine keeps.congr ?_
    simp only [Operation.perform]
    cases engine.prepare source <;> rfl
  | compile passLimit source => exact keeps_compileWithin engine passLimit source
  | evaluate => exact keeps.evaluate
  | evaluateAs type source =>
    have keeps := keeps_compileWithin engine none source
    simp only [Operation.perform, Operation.compiled?, run_evaluateAs, compile, Option.some_or]
    generalize engine.run (compileWithin none source) = reply at keeps ⊢
    obtain ⟨failure | expression, compiled⟩ := reply
    · exact keeps
    · exact keeps.evaluate

/-- After a sequence of operations the engine keeps what the last compilation gave. -/
theorem Keeps.performAll (keeps : engine.Keeps last) (history : List Operation) :
    (history.foldl Operation.perform engine).Keeps ((lastCompiled? engine history).or last) := by
  induction history generalizing engine last with
  | nil => exact keeps
  | cons operation later ih =>
    have rest := ih (keeps.perform operation)
    rw [← Option.or_assoc] at rest
    exact rest

/-- An evaluation after any history answers that there is nothing to evaluate exactly if nothing was
compiled or the last compilation failed. Otherwise its answer and the host afterwards are those of the
expression that the last compilation gave, evaluated for the first time with the names and the host that
there are now. -/
theorem evaluate_after (passLimit : Nat) (history : List Operation) :
    let engine := history.foldl Operation.perform (Engine.new passLimit)
    match lastCompiled? (Engine.new passLimit) history with
    | none | some (.error _) =>
      engine.run evaluate = (.error (.usage "no compiled expression to evaluate"), engine)
    | some (.ok fresh) =>
      let reply := fresh.evaluate engine.registry engine.host
      (engine.run evaluate).1 = reply.1 ∧ (engine.run evaluate).2.host = reply.2.2 ∧
        (engine.run evaluate).2.registry = engine.registry ∧
        (engine.run evaluate).1 ≠ .error (.usage "no compiled expression to evaluate") := by
  have start : (Engine.new passLimit).Keeps none := rfl
  have keeps := start.performAll history
  rw [Option.or_none] at keeps
  generalize history.foldl Operation.perform (Engine.new passLimit) = engine at keeps ⊢
  generalize lastCompiled? (Engine.new passLimit) history = last at keeps ⊢
  simp only [run_evaluate]
  match last, keeps with
  | some (.ok fresh), ⟨stored, current, revisits, registry, compiled⟩ =>
    obtain ⟨answer, after⟩ := revisits.evaluate_eq compiled engine.registry engine.host
    simp only [current, answer, after, true_and]
    rw [(fresh.evaluate_eq_outcome engine.registry engine.host).1]
    cases (fresh.tree.outcome engine.registry fresh.order engine.host).1 with
    | ok value => simp [Except.mapError]
    | error error => simp [Except.mapError, Failure.ofEvaluationError]
  | none, current | some (.error _), current =>
    simp only [Keeps] at current
    simp only [current]

end Engine

end Reckoner

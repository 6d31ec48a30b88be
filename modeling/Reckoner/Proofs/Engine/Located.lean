import Reckoner.Proofs.Engine.History
import Reckoner.Proofs.Tree.Located

/-!
Every diagnostic that an engine returns can be shown in the source that it belongs to. Whether the source cannot be
read, classified, built or checked, or the evaluation of what was compiled from it stops, all places of the
diagnostic lie in that source and end between characters.
-/
namespace Reckoner

/-- The diagnostics come with the source, and all their places can be read back from it. -/
structure Failure.Located (failure : Failure) (source : String) : Prop where
  origin : failure.diagnostics ≠ [] → failure.source? = some source
  span : ∀ diagnostic ∈ failure.diagnostics, ∃ text, diagnostic.span.text? source = some text
  related : ∀ diagnostic ∈ failure.diagnostics, ∀ other ∈ diagnostic.related,
    ∃ text, other.span.text? source = some text

namespace Failure

variable {source : String}

theorem located_of_nil {failure : Failure} (empty : failure.diagnostics = []) : failure.Located source := by
  constructor <;> simp [empty]

theorem located_ofCompileError {error : CompileError} (located : error.Located source) :
    (ofCompileError source error).Located source := by
  unfold ofCompileError
  split
  · exact located_of_nil rfl
  · refine ⟨fun _ => rfl, fun diagnostic mem => ?_, fun diagnostic mem other isOther => ?_⟩
    · cases List.mem_singleton.mp mem
      exact Span.fits_iff.mp located.span
    · cases List.mem_singleton.mp mem
      obtain ⟨place, isPlace, rfl⟩ := List.mem_map.mp isOther
      exact Span.fits_iff.mp (located.related place isPlace)

theorem located_ofEvaluationError {error : EvaluationError} (fits : error.span.Fits source) :
    (ofEvaluationError source error).Located source := by
  refine ⟨fun _ => rfl, fun diagnostic mem => ?_, fun diagnostic mem other isOther => ?_⟩
  · cases List.mem_singleton.mp mem
    exact Span.fits_iff.mp fits
  · cases List.mem_singleton.mp mem
    cases isOther

end Failure

namespace Expression

variable {registry now : Registry} {passLimit : Nat} {source : String} {expression fresh : Expression}
  {host : Host} {failure : Failure}

/-- Compiling goes through its stages, each of which fails at a place in the source. -/
theorem compileTree_yields (registry : Registry) (passLimit : Nat) (source : String) :
    Yields source (fun reply => ∀ id, (reply.1.node id).span.Fits source)
      (compileTree registry passLimit source) := by
  have parsed : Yields source (fun tree => ∀ id, (tree.node id).span.Fits source)
      (parse registry passLimit source) := by
    refine (Lexeme.tokenize_yields source).bind fun lexemes laid => ?_
    refine (Lexeme.classify_yields registry laid).bind fun classified laid => ?_
    exact (Tree.build_yields laid passLimit).mono fun tree nested => nested.fits
  refine parsed.bind fun tree fits => ?_
  have checks := Tree.check_yields registry fits tree.postOrder
  dsimp only
  split
  · next checked isChecked =>
    intro id
    obtain ⟨type, same⟩ := Tree.node_check isChecked id
    simp only [same]
    exact fits id
  · next stopped =>
    rw [stopped] at checks
    exact checks

theorem located_of_compile (failed : compile registry passLimit source = .error failure) :
    failure.Located source := by
  simp only [compile] at failed
  split at failed
  · cases failed
  · next error stopped =>
    cases failed
    exact Failure.located_ofCompileError ((compileTree_yields registry passLimit source).of_error stopped)

/-- The nodes of a compiled expression lie in its source. -/
theorem fits_of_compile (compiled : compile registry passLimit source = .ok fresh) :
    fresh.source = source ∧ ∀ id, (fresh.tree.node id).span.Fits source := by
  simp only [compile] at compiled
  split at compiled
  · next tree order built =>
    cases compiled
    exact ⟨rfl, (compileTree_yields registry passLimit source).of_ok built⟩
  · cases compiled

/-- An evaluation stops at a node. -/
theorem located_of_evaluate (fits : ∀ id, (expression.tree.node id).span.Fits expression.source)
    (failed : (expression.evaluate now host).1 = .error failure) : failure.Located expression.source := by
  simp only [evaluate, Tree.evaluate] at failed
  cases filled : Tree.fillSlots now expression.order expression.tree host with
  | mk outcome rest =>
    obtain ⟨tree, after⟩ := rest
    rw [filled] at failed
    cases outcome with
    | ok => cases failed
    | error error =>
      cases failed
      obtain ⟨_, id, _, _, _, _, _, place⟩ := Tree.fillSlots_error filled
      refine Failure.located_ofEvaluationError ?_
      rw [place, (Tree.agrees_of_fillSlots filled).span_eq]
      exact fits id

/-- However often the expression was evaluated before. -/
theorem Revisits.located (revisits : expression.Revisits fresh)
    (compiled : compile registry passLimit source = .ok fresh)
    (failed : (expression.evaluate now host).1 = .error failure) : failure.Located source := by
  obtain ⟨isSource, fits⟩ := fits_of_compile compiled
  have same := revisits.source_eq.trans isSource
  rw [← same]
  refine located_of_evaluate (fun id => ?_) failed
  rw [same, revisits.agrees.span_eq]
  exact fits id

end Expression

/-- The source that is compiled, if the operation compiles something to be evaluated. -/
def Operation.source? : Operation → Option String
  | compile _ source | evaluateAs _ source => some source
  | _ => none

/-- The source that the last compilation among the operations was given. -/
def lastSource? : List Operation → Option String
  | [] => none
  | operation :: later => (lastSource? later).or operation.source?

namespace Engine

variable {engine : Engine} {failure : Failure}

theorem located_of_compileWithin {limit : Option Nat} {source : String}
    (failed : (engine.run (compileWithin limit source)).1 = .error failure) : failure.Located source := by
  rw [run_compileWithin] at failed
  split at failed
  · cases failed
  · next stopped =>
    cases failed
    exact Expression.located_of_compile stopped

/-- Evaluating what was just compiled, and converting its value, fails in the source that was compiled. -/
theorem located_of_evaluateAs {type : ValueType} {source : String}
    (failed : (engine.run (evaluateAs type source)).1 = .error failure) : failure.Located source := by
  simp only [evaluateAs, compile, run_bind, run_compileWithin] at failed
  cases compiled : Expression.compile engine.registry ((none : Option Nat).getD engine.passLimit) source with
  | error stopped =>
    simp only [compiled] at failed
    cases failed
    exact Expression.located_of_compile compiled
  | ok expression =>
    simp only [compiled, run_evaluate] at failed
    cases evaluated : (expression.evaluate engine.registry engine.host).1 with
    | error stopped =>
      simp only [evaluated] at failed
      cases failed
      exact (Expression.Revisits.refl expression).located compiled evaluated
    | ok value =>
      simp only [evaluated] at failed
      cases converted : value.convert type with
      | ok result =>
        simp only [converted] at failed
        cases failed
      | error cause =>
        simp only [converted] at failed
        cases failed
        exact Failure.located_ofEvaluationError (Span.fits_whole source)

/-- There is a last source only if there is a last compilation. -/
theorem lastSource?_eq_none {history : List Operation} (unused : lastCompiled? engine history = none) :
    lastSource? history = none := by
  induction history generalizing engine with
  | nil => rfl
  | cons operation later ih =>
    obtain ⟨later, first⟩ := Option.or_eq_none_iff.mp unused
    refine Option.or_eq_none_iff.mpr ⟨ih later, ?_⟩
    cases operation with
    | compile | evaluateAs => cases first
    | addVariable | addFunction | removeVariable | removeFunction | changeHost | prepare | evaluate => rfl

/-- What was compiled last was compiled from the last source. -/
theorem compile_of_lastCompiled? {history : List Operation} {fresh : Expression}
    (last : lastCompiled? engine history = some (.ok fresh)) :
    ∃ source, lastSource? history = some source ∧
      ∃ registry limit, Expression.compile registry limit source = .ok fresh := by
  have compiled : ∀ {engine : Engine} {limit source}, (engine.run (compileWithin limit source)).1 = .ok fresh →
      ∃ registry limit, Expression.compile registry limit source = .ok fresh := by
    intro engine limit source found
    rw [run_compileWithin] at found
    split at found
    · next compiled =>
      cases found
      exact ⟨_, _, compiled⟩
    · cases found
  induction history generalizing engine with
  | nil => cases last
  | cons operation later ih =>
    rcases Option.or_eq_some_iff.mp last with found | ⟨nothing, found⟩
    · obtain ⟨source, isLast, compiles⟩ := ih found
      exact ⟨source, by simp [lastSource?, isLast], compiles⟩
    · have unsourced := lastSource?_eq_none nothing
      cases operation with
      | compile limit source | evaluateAs type source =>
        simp only [Operation.compiled?, Option.some.injEq] at found
        exact ⟨source, by simp [lastSource?, unsourced, Operation.source?], compiled found⟩
      | addVariable | addFunction | removeVariable | removeFunction | changeHost | prepare | evaluate => cases found

/-- After any history, what fails in an engine has its places in the source that was given to be compiled, and
what fails in an evaluation has them in the source that was given last. This also holds for an expression that
is kept elsewhere and was evaluated any number of times. -/
theorem failures_located (passLimit : Nat) (history : List Operation) :
    let engine := history.foldl Operation.perform (Engine.new passLimit)
    (∀ source failure, engine.prepare source = .error failure → failure.Located source) ∧
    (∀ limit source failure, (engine.run (compileWithin limit source)).1 = .error failure →
      failure.Located source) ∧
    (∀ type source failure, (engine.run (evaluateAs type source)).1 = .error failure →
      failure.Located source) ∧
    (∀ failure, (engine.run evaluate).1 = .error failure → failure.diagnostics ≠ [] →
      ∃ source, lastSource? history = some source ∧ failure.Located source) ∧
    (∀ registry limit source fresh expression failure,
      Expression.compile registry limit source = .ok fresh → expression.Revisits fresh →
      (engine.evaluateOther expression).1 = .error failure → failure.Located source) := by
  have start : (Engine.new passLimit).Keeps none := rfl
  have keeps := start.performAll history
  rw [Option.or_none] at keeps
  intro engine
  refine ⟨fun source failure => Expression.located_of_compile, fun limit source failure => located_of_compileWithin,
    fun type source failure => located_of_evaluateAs, fun failure failed shown => ?_,
    fun registry limit source fresh expression failure compiled revisits => revisits.located compiled⟩
  rw [run_evaluate] at failed
  match last : lastCompiled? (Engine.new passLimit) history, keeps with
  | some (.ok fresh), ⟨stored, current, revisits, _⟩ =>
    obtain ⟨source, isLast, registry, limit, compiled⟩ := compile_of_lastCompiled? last
    simp only [engine, current] at failed
    exact ⟨source, isLast, revisits.located compiled failed⟩
  | none, current | some (.error _), current =>
    simp only [Keeps] at current
    simp only [engine, current] at failed
    cases failed
    exact absurd rfl shown

/-- A mismatch of types has a place and two related ones, and a division by zero one. -/
theorem failures_located_operators :
    (∃ failure, (Engine.new 10).prepare "1 + true" = .error failure ∧
      failure.diagnostics.map (fun diagnostic => (diagnostic.span, diagnostic.related.map (·.span))) =
        [(⟨0, 8⟩, [⟨0, 1⟩, ⟨4, 8⟩])] ∧
      failure.Located "1 + true") ∧
    ∃ failure, ((Operation.compile none "1 / 0" |>.perform (Engine.new 10)).run evaluate).1 = .error failure ∧
      failure.diagnostics.map (·.span) = [⟨0, 5⟩] ∧ failure.Located "1 / 0" := by
  have mismatch : ∃ error, Expression.compileTree .empty 10 "1 + true" = .error error ∧
      error.cause = .operandTypeMismatch "+" .int .bool ∧ error.span = ⟨0, 8⟩ ∧
      error.related.map (·.1) = [⟨0, 1⟩, ⟨4, 8⟩] := ⟨_, by cbv, by cbv, by cbv, by cbv⟩
  have division : ∃ divided, Expression.compile .empty 10 "1 / 0" = .ok divided ∧
      divided.source = "1 / 0" ∧
      (divided.tree.evaluate .empty divided.order .empty).1 = .error ⟨.divisionByZero, ⟨0, 5⟩⟩ :=
    ⟨_, by cbv, by cbv, by cbv⟩
  constructor
  · obtain ⟨error, stopped, cause, span, related⟩ := mismatch
    have failed : (Engine.new 10).prepare "1 + true" = .error (.ofCompileError "1 + true" error) := by
      simp [prepare, new, Expression.compile, stopped]
    refine ⟨_, failed, ?_, (failures_located 10 []).1 _ _ failed⟩
    simp [Failure.ofCompileError, cause, Failure.diagnostics, CompileError.diagnostic, span, ← related]
  · obtain ⟨divided, compiled, isSource, stopped⟩ := division
    have failed : ((Operation.compile none "1 / 0" |>.perform (Engine.new 10)).run evaluate).1 =
        .error (.ofEvaluationError "1 / 0" ⟨.divisionByZero, ⟨0, 5⟩⟩) := by
      simp [Operation.perform, run_compileWithin, run_evaluate, new, compiled, Expression.evaluate, stopped, isSource,
        Except.mapError]
    obtain ⟨source, isLast, located⟩ :=
      (failures_located 10 [.compile none "1 / 0"]).2.2.2.1 _ failed
        (by simp [Failure.ofEvaluationError, Failure.diagnostics])
    cases isLast
    exact ⟨_, failed, rfl, located⟩

end Engine

end Reckoner

import Reckoner.Command.Bindings

/-!
Evaluating one expression from the command line. Values are printed the way they would be written in an
expression, each on a line; void prints nothing.
-/
namespace Reckoner.Command

/-- The text that is printed for a value. -/
def printed? : Value → Option String
  | .void => none
  | .string s => some s!"\"{s}\""
  | value => some value.text

/-- Prints a line. -/
def printLine (line : String) : EngineAction Unit :=
  modify fun engine => { engine with host := engine.host.printLine line }

/-- Prints a value. -/
def printValue (value : Value) : EngineAction Unit :=
  (printed? value).forM printLine

/-- Compiles and evaluates an expression, and prints its tree before evaluating if asked to. -/
def interpret (source : String) (showTree : Bool) : EngineAction Value := do
  let expression ← Engine.compile source
  if showTree then printLine expression.sexpr
  Engine.evaluate

/-- What to evaluate, and what to print besides the value. -/
structure EvaluateOptions where
  expression : String
  bindings : Bindings
  showVariables : Bool
  showTree : Bool

/-- Evaluates an expression and prints the value, and all variables afterwards if asked to. -/
def evaluateAndPrint (options : EvaluateOptions) : EngineAction Unit := do
  printValue (← interpret options.expression options.showTree)
  if options.showVariables then
    let engine ← get
    engine.values.forM fun (name, value) =>
      printLine (name ++ " = " ++ (printed? value).getD "")

/-- What a command printed, and how it ended. -/
structure Outcome where
  printed : String
  result : Except Failure Unit

/-- The evaluation command. -/
def EvaluateOptions.run (options : EvaluateOptions) : Outcome :=
  match options.bindings.engine with
  | .error failure => ⟨"", .error failure⟩
  | .ok engine =>
    let (result, engine) := engine.run (evaluateAndPrint options)
    ⟨engine.host.printed, result⟩

end Reckoner.Command

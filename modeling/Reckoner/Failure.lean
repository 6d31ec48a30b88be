import Reckoner.CompileError
import Reckoner.Registry
import Reckoner.Tree.Evaluate

/-!
Failures as a user of the library sees them. A failure to compile or to evaluate comes with a diagnostic
and the source that it points into; a wrong use of the library and an exhausted limit have a message
only.
-/
namespace Reckoner

/-- How serious a diagnostic is. -/
inductive Severity where
  | error
  | warning
  | info
deriving DecidableEq, Inhabited

/-- The name of a severity. -/
def Severity.name : Severity → String
  | error => "error"
  | warning => "warning"
  | info => "info"

/-- A note on another place. -/
structure Related where
  span : Span
  message : String
deriving DecidableEq

/-- A message about a place in a source. -/
structure Diagnostic where
  severity : Severity
  message : String
  span : Span
  related : List Related
  help : List String
  code : Option String
deriving DecidableEq

/-- A failure of any operation. -/
inductive Failure where
  | usage (message : String)
  | compilation (diagnostics : List Diagnostic) (source : String) (filename : Option String)
  | runtime (diagnostic : Diagnostic) (source : String) (filename : Option String)
  | resourceExceeded (message : String)
deriving DecidableEq

/-- What a compile error says. -/
def CompileError.diagnostic (error : CompileError) : Diagnostic where
  severity := .error
  message := error.cause.message
  span := error.span
  related := error.related.map fun (span, message) => ⟨span, message⟩
  help := error.cause.help
  code := some error.cause.code

/-- What an evaluation error says. -/
def EvaluationError.diagnostic (error : EvaluationError) : Diagnostic where
  severity := .error
  message := error.cause.message
  span := error.span
  related := []
  help := error.cause.help
  code := none

namespace Failure

/-- A compile error in a source. Running out of passes is no fault of the source. -/
def ofCompileError (source : String) (error : CompileError) : Failure :=
  match error.cause with
  | .passLimitExceeded _ => resourceExceeded error.cause.message
  | _ => compilation [error.diagnostic] source none

/-- An evaluation error in a source. -/
def ofEvaluationError (source : String) (error : EvaluationError) : Failure :=
  runtime error.diagnostic source none

/-- A name that cannot be registered. -/
def ofNameError (error : NameError) : Failure :=
  usage error.message

/-- The failure with the name of the file that its source came from, if it has a source. -/
def withFilename (failure : Failure) (filename : String) : Failure :=
  match failure with
  | compilation diagnostics source _ => compilation diagnostics source (some filename)
  | runtime diagnostic source _ => runtime diagnostic source (some filename)
  | other => other

/-- The name of the file that the source came from. -/
def filename? : Failure → Option String
  | compilation _ _ filename | runtime _ _ filename => filename
  | _ => none

/-- The first diagnostic. -/
def diagnostic? : Failure → Option Diagnostic
  | compilation diagnostics _ _ => diagnostics.head?
  | runtime diagnostic _ _ => some diagnostic
  | _ => none

/-- All diagnostics. -/
def diagnostics : Failure → List Diagnostic
  | compilation diagnostics _ _ => diagnostics
  | runtime diagnostic _ _ => [diagnostic]
  | _ => []

/-- The source that the diagnostics point into. -/
def source? : Failure → Option String
  | compilation _ source _ | runtime _ source _ => some source
  | _ => none

/-- The failure in one sentence. -/
def message : Failure → String
  | usage message => s!"API error: {message}"
  | compilation diagnostics _ _ =>
    match diagnostics.head? with
    | some diagnostic => s!"Compilation failed: {diagnostic.message}"
    | none => "Compilation failed"
  | runtime diagnostic _ _ => s!"Runtime error: {diagnostic.message}"
  | resourceExceeded message => s!"Resource limit exceeded: {message}"

end Failure

end Reckoner

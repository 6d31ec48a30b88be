import Reckoner.Library
import Reckoner.Text.Blank

/-!
Variables from the command line. Each is given as a name, an equals sign and a value; all integers are
bound first, then floating-point numbers, truth values and texts, so that a later kind replaces an
earlier one of the same name.
-/
namespace Reckoner.Command

/-- The bindings of each kind, as they were given. -/
structure Bindings where
  ints : List String
  floats : List String
  bools : List String
  strings : List String

/-- No bindings. -/
def Bindings.none : Bindings :=
  ⟨[], [], [], []⟩

/-- The name and the value of a binding, which the first equals sign separates. -/
def splitBinding (binding : String) : Except Failure (String × String) :=
  let cs := binding.toList
  let name := cs.takeWhile (· != '=')
  match cs.drop name.length with
  | [] => .error (.usage s!"expected NAME=VALUE, got `{binding}`")
  | _ :: value => .ok (String.ofList (Text.trimChars name), String.ofList value)

/-- A truth value as it is written. -/
def readBool? (cs : List Char) : Option Bool :=
  if cs = "true".toList then some true
  else if cs = "false".toList then some false
  else none

/-- The value of a binding, read without the white space around it. -/
def readValue {α : Type} (read : List Char → Option α) (kind name value : String) :
    Except Failure α :=
  match read (Text.trimChars value.toList) with
  | some result => .ok result
  | none => .error (.usage s!"value for `{name}` must be {kind}, got `{value}`")

/-- Binds each name to a new cell with its value. -/
def bindEach (read : String → String → Except Failure Value) (bindings : List String) :
    EngineAction Unit :=
  bindings.forM fun binding => do
    let (name, text) ← liftExcept (splitBinding binding)
    Engine.define name (← liftExcept (read name text))
where
  liftExcept {α : Type} (result : Except Failure α) : EngineAction α :=
    match result with
    | .ok value => return value
    | .error failure => throw failure

/-- Binds all variables. -/
def Bindings.apply (bindings : Bindings) : EngineAction Unit := do
  bindEach (fun name text => Value.int <$> readValue Decimal.readInt64? "an integer" name text)
    bindings.ints
  bindEach (fun name text => Value.float <$> readValue Decimal.readFloat? "a float" name text)
    bindings.floats
  bindEach (fun name text => Value.bool <$> readValue readBool? "`true` or `false`" name text)
    bindings.bools
  bindEach (fun _ text => .ok (.string text)) bindings.strings

/-- An engine with the standard functions and the bindings. -/
def Bindings.engine (bindings : Bindings) : Except Failure Engine :=
  match (Engine.new Engine.defaultPassLimit).run (do Library.registerAll; bindings.apply) with
  | (.ok _, engine) => .ok engine
  | (.error failure, _) => .error failure

end Reckoner.Command

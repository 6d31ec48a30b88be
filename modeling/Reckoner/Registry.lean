import Reckoner.Host.Function
import Reckoner.Identifier
import Reckoner.Names
import Reckoner.Operator

/-!
The names that an expression can use: variables, each bound to a cell, and host functions. A name
has to be an identifier and neither of the words for the truth values; one name may stand for a
variable and for a function.
-/
namespace Reckoner

/-- Why a name cannot be registered. -/
inductive NameError where
  | invalid (name : String)
  | reserved (name : String)
deriving DecidableEq

namespace NameError

/-- The message of the error. -/
def message : NameError → String
  | invalid name => s!"'{name}' is not a valid identifier"
  | reserved name => s!"'{name}' is reserved"

end NameError

/-- The registered variables and functions. -/
structure Registry where
  cells : Names Cell
  functions : Names HostFunction

namespace Registry

/-- The registry without names. -/
def empty : Registry :=
  ⟨.empty, .empty⟩

instance : Inhabited Registry := ⟨empty⟩

/-- Refuses what cannot be a name of a variable or a function. -/
def checkName (name : String) : Except NameError Unit :=
  if !Identifier.isIdentifier name then throw (.invalid name)
  else if name == "true" || name == "false" then throw (.reserved name)
  else return ()

/-- Binds the name to a cell, instead of an earlier binding. -/
def addVariable (registry : Registry) (name : String) (cell : Cell) :
    Except NameError Registry := do
  checkName name
  return { registry with cells := registry.cells.insert name cell }

/-- Binds the name to a function, instead of an earlier binding. -/
def addFunction (registry : Registry) (name : String) (function : HostFunction) :
    Except NameError Registry := do
  checkName name
  return { registry with functions := registry.functions.insert name function }

/-- Forgets the variable of this name. -/
def removeVariable (registry : Registry) (name : String) : Registry :=
  { registry with cells := registry.cells.erase name }

/-- Forgets the function of this name. -/
def removeFunction (registry : Registry) (name : String) : Registry :=
  { registry with functions := registry.functions.erase name }

/-- The cell of a variable. -/
def cellOf? (registry : Registry) (name : String) : Option Cell :=
  registry.cells.find? name

/-- The function of a name. -/
def function? (registry : Registry) (name : String) : Option HostFunction :=
  registry.functions.find? name

/-- Every variable with its current value, in the order of the names. -/
def values (registry : Registry) (heap : Heap) : List (String × Value) :=
  registry.cells.entries.map fun (name, cell) => (name, heap.read cell)

/-- Calls the function of this name. -/
def call (registry : Registry) (name : String) (arguments : List Value) : Action Value :=
  match registry.function? name with
  | some function => function.body arguments
  | none => throw (.unknownFunction name)

/-- The numbers of operators, variables and functions on one line. -/
def summary (registry : Registry) : String :=
  s!"Registry \x7b operators: {Operator.all.length}, variables: {registry.cells.size}, " ++
    s!"functions: {registry.functions.size} \x7d"

end Registry

end Reckoner

import Reckoner.Host.Heap

/-!
What the outside world of an expression consists of, and steps that may change it. A step that fails
keeps the changes made before the failure.
-/
namespace Reckoner

/-- The cells, and the text printed so far. -/
structure Host where
  heap : Heap
  printed : String

namespace Host

/-- The host before anything is registered or printed. -/
def empty : Host :=
  ⟨Heap.empty, ""⟩

instance : Inhabited Host := ⟨empty⟩

/-- Prints a line. -/
def printLine (host : Host) (line : String) : Host :=
  { host with printed := host.printed ++ line ++ "\n" }

end Host

/-- A step on the host that gives a result or fails. -/
abbrev Action :=
  ExceptT RuntimeError (StateM Host)

namespace Action

/-- The value in a slot. -/
def readSlot (slot : Slot) : Action Value := do
  return slot.read (← get).heap

/-- The value in a cell. -/
def readCell (cell : Cell) : Action Value := do
  return (← get).heap.read cell

/-- Stores a value in a cell of the same type. -/
def assign (cell : Cell) (value : Value) : Action Unit := do
  let host ← get
  match host.heap.assign cell value with
  | .ok heap => set { host with heap := heap }
  | .error error => throw error

/-- Runs the step on a host. -/
def on {α : Type} (action : Action α) (host : Host) : Except RuntimeError α × Host :=
  action.run.run host

end Action

end Reckoner

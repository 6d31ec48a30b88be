import Reckoner.RuntimeError

/-!
Storage that the host program and its expressions share. A cell has a type for good and always holds
a value of it; several names may stand for one cell. Only an assignment of a value of another type
is refused, and it changes nothing.
-/
namespace Reckoner

/-- A cell of the heap, told apart by its type and its number. -/
inductive Cell where
  | bool (index : Nat)
  | int (index : Nat)
  | float (index : Nat)
  | string (index : Nat)
deriving DecidableEq

namespace Cell

/-- The type of the values in the cell. -/
def type : Cell → ValueType
  | bool _ => .bool
  | int _ => .int
  | float _ => .float
  | string _ => .string

/-- The cell of the given type and number; there are no void cells. -/
def ofType? (index : Nat) : ValueType → Option Cell
  | .bool => some (bool index)
  | .int => some (int index)
  | .float => some (float index)
  | .string => some (string index)
  | .void => none

/-- What a cell holds that nobody has written yet. -/
def blank : Cell → Value
  | bool _ => .bool false
  | int _ => .int 0
  | float _ => .float 0.0
  | string _ => .string ""

theorem type_blank (cell : Cell) : cell.blank.type = cell.type := by
  cases cell <;> rfl

theorem type_of_ofType? {index : Nat} {type : ValueType} {cell : Cell}
    (h : ofType? index type = some cell) : cell.type = type := by
  cases type <;> simp [ofType?] at h <;> subst h <;> rfl

end Cell

/-- The contents of all cells, and the number of the next new cell. -/
structure Heap where
  read : Cell → Value
  next : Nat
  type_read : ∀ cell, (read cell).type = cell.type

namespace Heap

/-- The heap before any cell is made. -/
def empty : Heap where
  read := Cell.blank
  next := 0
  type_read := Cell.type_blank

instance : Inhabited Heap := ⟨empty⟩

/-- The heap in which one cell holds another value of its type. -/
def write (heap : Heap) (cell : Cell) (value : Value) (fits : value.type = cell.type) : Heap where
  read other := if other = cell then value else heap.read other
  next := heap.next
  type_read other := by
    by_cases h : other = cell
    · simp [h, fits]
    · simp [h, heap.type_read]

/-- Stores a value in a cell of the same type. -/
def assign (heap : Heap) (cell : Cell) (value : Value) : Except RuntimeError Heap :=
  if fits : value.type = cell.type then .ok (heap.write cell value fits)
  else .error (.assignmentType cell.type value.type)

/-- Makes a new cell that holds the value; void cannot be held. -/
def allocate (heap : Heap) (value : Value) : Option (Cell × Heap) :=
  match h : Cell.ofType? heap.next value.type with
  | some cell =>
    let written := heap.write cell value (Cell.type_of_ofType? h).symm
    some (cell, { written with next := heap.next + 1 })
  | none => none

@[ext] theorem ext {a b : Heap} (read : ∀ cell, a.read cell = b.read cell)
    (next : a.next = b.next) : a = b := by
  cases a
  cases b
  simp_all [funext_iff]

theorem read_write_same (heap : Heap) (cell : Cell) (value : Value)
    (fits : value.type = cell.type) : (heap.write cell value fits).read cell = value := by
  simp [write]

theorem read_write_other (heap : Heap) {cell other : Cell} (value : Value)
    (fits : value.type = cell.type) (ne : other ≠ cell) :
    (heap.write cell value fits).read other = heap.read other := by
  simp [write, ne]

end Heap

/-- Where a part of an expression keeps its value: in a place of its own, or, for a variable, in the
cell that the variable stands for. -/
inductive Slot where
  | owned (value : Value)
  | aliased (cell : Cell)

namespace Slot

instance : Inhabited Slot := ⟨owned .void⟩

/-- The value in the slot; that of a cell is read now. -/
def read (slot : Slot) (heap : Heap) : Value :=
  match slot with
  | owned value => value
  | aliased cell => heap.read cell

/-- The type of the value in the slot, which no write can change. -/
def type : Slot → ValueType
  | owned value => value.type
  | aliased cell => cell.type

/-- The cell that the slot stands for, if it stands for one. -/
def cell? : Slot → Option Cell
  | owned _ => none
  | aliased cell => some cell

theorem type_read (slot : Slot) (heap : Heap) : (slot.read heap).type = slot.type := by
  cases slot with
  | owned value => rfl
  | aliased cell => exact heap.type_read cell

end Slot

end Reckoner

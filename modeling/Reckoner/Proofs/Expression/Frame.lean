import Reckoner.Proofs.Engine.History
import Reckoner.Proofs.Expression.Operands
import Reckoner.Proofs.Operator.Expansion
import Reckoner.Proofs.Operator.Families

/-!
What an evaluation leaves alone. Only the step operators and the assignments write, and only to the cell of
their first operand, which is a variable. So without calls, an evaluation changes at most the cells that the
names in these places stand for now, wherever it stops; with no such operator it changes nothing at all.
-/
namespace Reckoner

namespace Node

/-- The name of a variable. -/
def variableName? (node : Node) : Option String :=
  match node.kind with
  | .variable name => some name
  | _ => none

/-- Whether the node is a call. -/
def isCall (node : Node) : Bool :=
  match node.kind with
  | .call _ => true
  | _ => false

/-- Whether the node is an operator that writes. -/
def isWriter (node : Node) : Bool :=
  match node.kind with
  | .operator op _ => op.writes
  | _ => false

end Node

namespace Tree

/-- Whether there is a call in the tree. -/
def hasCalls (tree : Tree) : Bool :=
  tree.nodes.any (·.isCall)

/-- Whether there is an operator that writes in the tree. -/
def hasWriters (tree : Tree) : Bool :=
  tree.nodes.any (·.isWriter)

/-- The names that stand as the operand of a step operator or to the left of an assignment. -/
def targets (tree : Tree) : List String :=
  (tree.nodes.toList.filter (·.isWriter)).filterMap fun node =>
    node.children.head?.bind fun child => (tree.node child).variableName?

/-- The cells that a node may give as its slot: that of its name, if it is a variable. -/
def Gives (now : Registry) (tree : Tree) (id : NodeId) (slot : Slot) : Prop :=
  ∀ cell, slot.cell? = some cell →
    ∃ name, (tree.node id).kind = .variable name ∧ now.cellOf? name = some cell

end Tree

/-- The hosts differ in the contents of these cells at most. -/
structure Host.Framed (written : Cell → Prop) (before after : Host) : Prop where
  read_eq : ∀ cell, ¬ written cell → after.heap.read cell = before.heap.read cell
  next_eq : after.heap.next = before.heap.next
  printed_eq : after.printed = before.printed

namespace Host.Framed

variable {written more : Cell → Prop} {first second third : Host}

theorem refl (host : Host) : Framed written host host :=
  ⟨fun _ _ => rfl, rfl, rfl⟩

theorem trans (one : Framed written first second) (two : Framed written second third) :
    Framed written first third :=
  ⟨fun cell kept => (two.read_eq cell kept).trans (one.read_eq cell kept), two.next_eq.trans one.next_eq,
    two.printed_eq.trans one.printed_eq⟩

theorem weaken (h : Framed written first second) (covers : ∀ cell, written cell → more cell) :
    Framed more first second :=
  ⟨fun cell kept => h.read_eq cell fun isWritten => kept (covers cell isWritten), h.next_eq, h.printed_eq⟩

/-- Where no cell is written the hosts are the same. -/
theorem eq (h : Framed written first second) (none : ∀ cell, ¬ written cell) : second = first := by
  obtain ⟨⟨heap, printed⟩, heap', printed'⟩ := first, second
  obtain rfl : printed' = printed := h.printed_eq
  obtain rfl : heap' = heap := Heap.ext (fun cell => h.read_eq cell (none cell)) h.next_eq
  rfl

/-- Writing to a cell changes that cell at most. -/
theorem write (host : Host) {cell : Cell} {value : Value} (fits : value.type = cell.type)
    (isWritten : written cell) : Framed written host { host with heap := host.heap.write cell value fits } :=
  ⟨fun _ kept => Heap.read_write_other _ _ fits fun same => kept (same ▸ isWritten), rfl, rfl⟩

end Host.Framed

/-- An operator changes at most the cell of its first operand, and only if it is one of those that write. -/
theorem Operator.framed_perform {op : Operator} {fixity : Fixity} {type : ValueType} {operands : List Slot}
    {host : Host} {value : Value} {heap : Heap}
    (ran : op.perform fixity type operands host.heap = .ok (value, heap)) :
    Host.Framed (fun cell => op.writes = true ∧ operands.head?.bind Slot.cell? = some cell) host
      { host with heap := heap } := by
  cases writes : op.writes with
  | false =>
    rw [Operator.heap_of_perform (op.lvalueOnly_eq.trans writes) ran]
    exact .refl host
  | true =>
    simp only [perform, op.lvalueOnly_eq, writes, if_true] at ran
    split at ran
    · cases ran
    split at ran
    · cases ran
    next cell target =>
    split at ran
    · cases ran
    next stored assigned =>
    cases ran
    unfold Heap.assign at assigned
    split at assigned <;> cases assigned
    next fits => exact .write host fits ⟨rfl, target⟩

namespace Tree

variable {registry now : Registry} {tree : Tree} {order : List NodeId} {root result id : Nat} {host after : Host}

/-- A node that is no call changes at most the cell of its first operand. -/
private theorem framed_combine (now : Registry) {node : Node} (noCall : node.isCall = false)
    (operands : List Slot) (host : Host) :
    Host.Framed (fun cell => node.isWriter = true ∧ operands.head?.bind Slot.cell? = some cell) host
      (combine now node operands host).2 := by
  cases kind : node.kind with
  | root | constant =>
    simp only [combine, kind]
    exact .refl host
  | «variable» name =>
    simp only [combine, kind]
    split
    · exact .refl host
    · split <;> exact .refl host
  | call name => simp [Node.isCall, kind] at noCall
  | operator op fixity =>
    simp only [combine, kind, Node.isWriter]
    split
    · next ran => exact Operator.framed_perform ran
    · exact .refl host

theorem isCall_of_hasCalls (none : tree.hasCalls = false) (id : NodeId) :
    (tree.node id).isCall = false := by
  by_cases inside : id < tree.nodes.size
  · have found : tree.node id = tree.nodes[id] := by simp [node, inside]
    rw [found]
    exact Bool.eq_false_iff.mpr (Array.any_eq_false.mp none id inside)
  · rw [node_of_size_le (Nat.le_of_not_lt inside)]
    rfl

/-- A variable that is the first operand of an operator that writes is a target. -/
theorem mem_targets {first : NodeId} {name : String} (writer : (tree.node id).isWriter = true)
    (isFirst : (tree.node id).children.head? = some first) (isName : (tree.node first).variableName? = some name) :
    name ∈ tree.targets := by
  have inside : id < tree.nodes.size := by
    by_contra outside
    rw [node_of_size_le (Nat.le_of_not_lt outside)] at writer
    cases writer
  have found : tree.node id = tree.nodes[id] := by simp [node, inside]
  refine List.mem_filterMap.mpr ⟨tree.node id, List.mem_filter.mpr ⟨?_, writer⟩, by simp [isFirst, isName]⟩
  rw [found]
  exact Array.getElem_mem_toList inside

/-- Without operators that write there are no targets. -/
theorem targets_eq_nil (none : tree.hasWriters = false) : tree.targets = [] := by
  have empty : tree.nodes.toList.filter (·.isWriter) = [] := by
    refine List.filter_eq_nil_iff.mpr fun node mem => ?_
    obtain ⟨index, inside, rfl⟩ := List.getElem_of_mem mem
    exact Array.any_eq_false.mp none index (by simpa using inside)
  simp [targets, empty]

/-- The cells that the targets stand for now. -/
def Writable (now : Registry) (tree : Tree) (cell : Cell) : Prop :=
  ∃ name ∈ tree.targets, now.cellOf? name = some cell

/-- What evaluating a part without calls changes, and the slot it gives. -/
private def FramedPart (now : Registry) (tree : Tree) (id : NodeId) (host : Host)
    (reply : Except (NodeId × RuntimeError) Slot × Host) : Prop :=
  Host.Framed (tree.Writable now) host reply.2 ∧ ∀ slot, reply.1 = .ok slot → tree.Gives now id slot

/-- What evaluating several parts changes, and the first slot that they give. -/
private theorem framed_parts {parts : List (Rose NodeId)}
    (each : ∀ part ∈ parts, ∀ host,
      FramedPart now tree part.label host (evaluatePart now (part.map tree.labelled) host)) (host : Host) :
    Host.Framed (tree.Writable now) host (evaluateParts now (parts.map (Rose.map tree.labelled)) host).2 ∧
      ∀ slots, (evaluateParts now (parts.map (Rose.map tree.labelled)) host).1 = .ok slots →
        ∀ cell, slots.head?.bind Slot.cell? = some cell →
          ∃ first, (parts.map Rose.label).head? = some first ∧
            ∃ name, (tree.node first).variableName? = some name ∧ now.cellOf? name = some cell := by
  induction parts generalizing host with
  | nil =>
    refine ⟨.refl host, fun slots ran cell isFirst => ?_⟩
    cases ran
    cases isFirst
  | cons part parts ih =>
    obtain ⟨framed, gives⟩ := each part List.mem_cons_self host
    simp only [List.map_cons, evaluateParts]
    generalize evaluatePart now (part.map tree.labelled) host = reply at framed gives ⊢
    obtain ⟨failure | slot, between⟩ := reply
    · exact ⟨framed, fun slots ran => by cases ran⟩
    obtain ⟨later, -⟩ := ih (fun part mem => each part (List.mem_cons_of_mem _ mem)) between
    simp only
    generalize evaluateParts now (parts.map (Rose.map tree.labelled)) between = rest at later ⊢
    obtain ⟨failure | slots, last⟩ := rest
    · exact ⟨framed.trans later, fun slots ran => by cases ran⟩
    refine ⟨framed.trans later, fun all ran cell isFirst => ⟨part.label, rfl, ?_⟩⟩
    cases ran
    obtain ⟨name, isVariable, bound⟩ := gives slot rfl cell isFirst
    exact ⟨name, by simp [Node.variableName?, isVariable], bound⟩

/-- Evaluating a part of a tree without calls changes at most the cells of the targets, and gives a cell only
at a variable. -/
private theorem framed_part (h : tree.Checked registry order root result) (noCalls : tree.hasCalls = false)
    (now : Registry) {part : Rose NodeId} (shows : tree.Shows part) (inner : part.label < root) (host : Host) :
    FramedPart now tree part.label host (evaluatePart now (part.map tree.labelled) host) := by
  induction shows generalizing host with
  | node id parts children _ ih =>
    have below : ∀ part ∈ parts, part.label < root := fun part mem =>
      Nat.lt_trans (h.formed.descending.label_lt children mem) inner
    obtain ⟨framed, gives⟩ := framed_parts (fun part mem => ih part mem (below part mem)) host
    simp only [Rose.map_node, labelled, evaluatePart]
    generalize evaluateParts now (parts.map (Rose.map tree.labelled)) host = reply at framed gives ⊢
    obtain ⟨failure | operands, between⟩ := reply
    · exact ⟨framed, fun slot ran => by cases ran⟩
    have step := framed_combine now (isCall_of_hasCalls noCalls id) operands between
    have step : Host.Framed (tree.Writable now) between _ := step.weaken fun cell written => by
      obtain ⟨writer, isTarget⟩ := written
      obtain ⟨first, isFirst, name, isName, bound⟩ := gives operands rfl cell isTarget
      exact ⟨name, mem_targets writer (children ▸ isFirst) isName, bound⟩
    simp only
    rcases combined : combine now (tree.node id) operands between with ⟨cause | slot, last⟩
    · rw [combined] at step
      exact ⟨framed.trans step, fun slot ran => by cases ran⟩
    rw [combined] at step
    refine ⟨framed.trans step, fun slot' ran cell isCell => ?_⟩
    cases ran
    exact h.cell_of_combine inner combined isCell

/-- Evaluating a checked tree without calls changes at most the cells of its targets. -/
theorem Checked.framed_outcome (h : tree.Checked registry order root result) (noCalls : tree.hasCalls = false)
    (now : Registry) (host : Host) :
    Host.Framed (tree.Writable now) host (tree.outcome now order host).2 := by
  rw [h.outcome_eq]
  have shows := shows_below h.formed.descending h.formed.result_lt
  have framed := framed_part h noCalls now shows (by simpa using h.formed.result_lt) host
  exact framed.1

end Tree

namespace Expression

variable {registry : Registry} {expression : Expression}

/-- Whether an evaluation without calls gives a value or fails on the way, it changes at most the cells that
names in front of an assignment or beside a step operator stand for now. Without such operators the host stays
as it was, and evaluating the evaluated expression again gives the same result. -/
theorem evaluate_frame (compiled : expression.CompiledFor registry)
    (noCalls : expression.tree.hasCalls = false) (now : Registry) (host : Host) :
    let reply := expression.evaluate now host
    (∀ cell, (∀ name ∈ expression.tree.targets, now.cellOf? name ≠ some cell) →
        reply.2.2.heap.read cell = host.heap.read cell) ∧
      reply.2.2.heap.next = host.heap.next ∧ reply.2.2.printed = host.printed ∧
      (expression.tree.hasWriters = false →
        reply.2.2 = host ∧
          let again := reply.2.1.evaluate now reply.2.2
          again.1 = reply.1 ∧ again.2.2 = host) := by
  obtain ⟨root, result, checked⟩ := compiled.checked
  have framed := checked.framed_outcome noCalls now host
  rw [← (expression.evaluate_eq_outcome now host).2] at framed
  refine ⟨fun cell untouched => framed.read_eq cell ?_, framed.next_eq, framed.printed_eq, fun noWriters => ?_⟩
  · rintro ⟨name, isTarget, bound⟩
    exact untouched name isTarget bound
  · have same : (expression.evaluate now host).2.2 = host := by
      refine framed.eq fun cell ⟨name, isTarget, _⟩ => ?_
      rw [Tree.targets_eq_nil noWriters] at isTarget
      cases isTarget
    have revisits := (Revisits.refl expression).evaluate now host
    obtain ⟨answer, after⟩ := revisits.evaluate_eq compiled now host
    simp only [same]
    exact ⟨trivial, answer, after.trans same⟩

/-- A division by zero fails after the assignment in front of it, and the divisor keeps its value. Without the
assignment nothing changes, and the division fails in the same way again. -/
theorem evaluate_frame_division :
    ∃ writing reading,
      compile ⟨(Names.empty.insert "x" (.int 0)).insert "y" (.int 1), .empty⟩ 100 "(x = 5) / y" =
        .ok writing ∧
      compile ⟨(Names.empty.insert "x" (.int 0)).insert "y" (.int 1), .empty⟩ 100 "x / y" = .ok reading ∧
      let now : Registry := ⟨(Names.empty.insert "x" (.int 0)).insert "y" (.int 1), .empty⟩
      (writing.tree.evaluate now writing.order .empty).1 = .error ⟨.divisionByZero, ⟨0, 11⟩⟩ ∧
        (writing.tree.evaluate now writing.order .empty).2.2.heap.read (.int 0) = .int 5 ∧
        (writing.evaluate now .empty).2.2.heap.read (.int 1) = .int 0 ∧
        (reading.evaluate now .empty).2.2 = .empty ∧
        ((reading.evaluate now .empty).2.1.evaluate now .empty).1 = (reading.evaluate now .empty).1 := by
  have compiled : ∃ writing reading,
      compile ⟨(Names.empty.insert "x" (.int 0)).insert "y" (.int 1), .empty⟩ 100 "(x = 5) / y" =
        .ok writing ∧
      compile ⟨(Names.empty.insert "x" (.int 0)).insert "y" (.int 1), .empty⟩ 100 "x / y" = .ok reading ∧
      writing.tree.hasCalls = false ∧ writing.tree.targets = ["x"] ∧ reading.tree.hasCalls = false ∧
      reading.tree.hasWriters = false ∧
      (writing.tree.evaluate ⟨(Names.empty.insert "x" (.int 0)).insert "y" (.int 1), .empty⟩ writing.order
        .empty).1 = .error ⟨.divisionByZero, ⟨0, 11⟩⟩ ∧
      (writing.tree.evaluate ⟨(Names.empty.insert "x" (.int 0)).insert "y" (.int 1), .empty⟩ writing.order
        .empty).2.2.heap.read (.int 0) = .int 5 :=
    ⟨_, _, by cbv, by cbv, by cbv, by cbv, by cbv, by cbv, by cbv, by cbv⟩
  obtain ⟨writing, reading, isWriting, isReading, noCalls, targets, noCalls', noWriters, failed, written⟩ :=
    compiled
  obtain ⟨kept, -, -, -⟩ := evaluate_frame (.compile isWriting) noCalls
    ⟨(Names.empty.insert "x" (.int 0)).insert "y" (.int 1), .empty⟩ .empty
  obtain ⟨-, -, -, still⟩ := evaluate_frame (.compile isReading) noCalls'
    ⟨(Names.empty.insert "x" (.int 0)).insert "y" (.int 1), .empty⟩ .empty
  obtain ⟨same, again, -⟩ := still noWriters
  rw [same] at again
  refine ⟨writing, reading, isWriting, isReading, failed, written, kept (.int 1) fun name isTarget => ?_, same,
    again⟩
  rw [targets, List.mem_singleton] at isTarget
  rw [isTarget]
  decide

end Expression

end Reckoner

import Reckoner.Proofs.Builder.Arrangement
import Reckoner.Proofs.Engine.History
import Reckoner.Proofs.Expression.Operands
import Reckoner.Proofs.Lexeme.Names

/-!
Only the names that an expression uses matter. Compiling and evaluating ask a registry for the names in the
source and for nothing else, and evaluating reads no cells but those that the variables stand for, apart from
what the functions read that are called. So what else is registered can neither break an expression nor change
what it comes to.
-/
namespace Reckoner

namespace Tree

/-- The variables and the calls of the tree have these names. -/
structure Mentions (plain called : List String) (tree : Tree) : Prop where
  cell : ∀ id name, (tree.node id).kind = .variable name → name ∈ plain
  call : ∀ id name, (tree.node id).kind = .call name → name ∈ called

variable {plain called : List String} {first second : Registry} {tree other : Tree}

theorem Mentions.congr (mentions : tree.Mentions plain called)
    (same : ∀ id, (other.node id).kind = (tree.node id).kind) : other.Mentions plain called :=
  ⟨fun id name kind => mentions.cell id name (same id ▸ kind),
    fun id name kind => mentions.call id name (same id ▸ kind)⟩

/-- Names in a built tree are names of the source. -/
theorem mentions_of_build {source : String} {lexemes classified : List Lexeme} {limit : Nat}
    (read : Lexeme.tokenize source = .ok lexemes) (known : Lexeme.classify first lexemes = .ok classified)
    (built : Tree.build source classified limit = .ok tree) :
    tree.Mentions (Lexeme.names false lexemes) (Lexeme.names true lexemes) := by
  constructor
  · intro id name kind
    obtain ⟨lexeme, mem, becomes⟩ := exists_becomes_of_build read known built (by rw [kind]; rintro ⟨⟩)
    have named := Lexeme.mem_names_of_classify read known mem
    cases becomes with
    | «variable» cell isVariable kind' =>
      cases kind.symm.trans kind'
      exact named.2 cell isVariable
    | constant _ _ kind' | call _ kind' | operator _ _ _ kind' => cases kind.symm.trans kind'
  · intro id name kind
    obtain ⟨lexeme, mem, becomes⟩ := exists_becomes_of_build read known built (by rw [kind]; rintro ⟨⟩)
    have named := Lexeme.mem_names_of_classify read known mem
    cases becomes with
    | call isFunction kind' =>
      cases kind.symm.trans kind'
      exact named.1 isFunction
    | constant _ _ kind' | «variable» _ _ kind' | operator _ _ _ kind' => cases kind.symm.trans kind'

/-- Checking a tree asks for the functions that it calls. -/
theorem check_congr (same : Registry.Shares plain called first second) (mentions : tree.Mentions plain called)
    (order : List NodeId) : tree.check second order = tree.check first order := by
  induction order generalizing tree with
  | nil => rfl
  | cons id rest ih =>
    have here : tree.checkNode second id = tree.checkNode first id := by
      cases kind : (tree.node id).kind with
      | root | constant | «variable» | operator => simp only [checkNode, kind]
      | call name => simp only [checkNode, kind, checkCall, same.function?_eq name (mentions.call id name kind)]
    rw [check, check, here]
    cases tree.checkNode first id with
    | error error => rfl
    | ok type => exact ih (mentions.congr fun other => kind_setType tree id other type)

/-- Filling slots asks for the variables and the functions of the tree. -/
theorem fillSlots_congr (same : Registry.Shares plain called first second) (mentions : tree.Mentions plain called)
    (order : List NodeId) (host : Host) : fillSlots second order tree host = fillSlots first order tree host := by
  induction order generalizing tree host with
  | nil => rfl
  | cons id rest ih =>
    have here : slotOf second tree id = slotOf first tree id := by
      cases kind : (tree.node id).kind with
      | root | constant | operator => simp only [slotOf, kind]
      | «variable» name =>
        simp only [slotOf, kind, variableSlot, same.cellOf?_eq name (mentions.cell id name kind)]
      | call name =>
        simp only [slotOf, kind, callSlot, Registry.call, same.function?_eq name (mentions.call id name kind)]
    rw [fillSlots, fillSlots, here]
    rcases (slotOf first tree id).on host with ⟨cause | slot, after⟩
    · rfl
    · exact ih (mentions.congr fun other => kind_setSlot tree id other slot) after

end Tree

/-- The hosts hold the same in these cells. -/
def Host.Alike (cells : Cell → Prop) (host other : Host) : Prop :=
  ∀ cell, cells cell → other.heap.read cell = host.heap.read cell

/-- What the function gives, and what it leaves in these cells, depends on its arguments and on these cells only.
What it does to other cells does not matter. -/
structure HostFunction.DependsOn (cells : Cell → Prop) (function : HostFunction) : Prop where
  result_eq : ∀ arguments host other, Host.Alike cells host other →
    ((function.body arguments).on other).1 = ((function.body arguments).on host).1
  alike : ∀ arguments host other, Host.Alike cells host other →
    Host.Alike cells ((function.body arguments).on host).2 ((function.body arguments).on other).2

/-- A slot that stands for a cell stands for one of these. -/
def Slot.Within (cells : Cell → Prop) (slot : Slot) : Prop :=
  ∀ cell, slot.cell? = some cell → cells cell

/-- The variables of these names stand for these cells, and the functions depend on them only. -/
structure Registry.Within (plain called : List String) (cells : Cell → Prop) (registry : Registry) : Prop where
  cell : ∀ name ∈ plain, ∀ cell, registry.cellOf? name = some cell → cells cell
  call : ∀ name ∈ called, ∀ function, registry.function? name = some function → function.DependsOn cells

/-- The replies are the same, and so are the cells afterwards. -/
structure AlikeReplies {ε α : Type} (cells : Cell → Prop) (reply other : Except ε α × Host) : Prop where
  result_eq : other.1 = reply.1
  alike : Host.Alike cells reply.2 other.2

section TwoHosts

variable {cells : Cell → Prop} {plain called : List String} {first second registry : Registry} {tree : Tree}
  {order : List NodeId} {root result id : Nat} {host other : Host} {operands : List Slot}

private theorem Slot.Within.read_eq {slot : Slot} (within : slot.Within cells) (alike : Host.Alike cells host other) :
    slot.read other.heap = slot.read host.heap := by
  cases slot with
  | owned value => rfl
  | aliased cell => exact alike cell (within cell rfl)

private theorem map_read_eq (within : ∀ slot ∈ operands, slot.Within cells) (alike : Host.Alike cells host other) :
    operands.map (·.read other.heap) = operands.map (·.read host.heap) :=
  List.map_congr_left fun slot mem => (within slot mem).read_eq alike

/-- Writing the same to a cell of both. -/
private theorem Host.Alike.write (alike : Host.Alike cells host other) {target : Cell} {value : Value}
    (fits : value.type = target.type) :
    Host.Alike cells { host with heap := host.heap.write target value fits }
      { other with heap := other.heap.write target value fits } := by
  intro cell inside
  by_cases same : cell = target
  · rw [same]
    exact (other.heap.read_write_same target value fits).trans (host.heap.read_write_same target value fits).symm
  · exact ((Heap.read_write_other _ _ fits same).trans (alike cell inside)).trans
      (Heap.read_write_other _ _ fits same).symm

/-- An operator does the same where its operands hold the same. -/
private theorem alikeReplies_perform (within : ∀ slot ∈ operands, slot.Within cells)
    (alike : Host.Alike cells host other) (op : Operator) (fixity : Fixity) (type : ValueType) :
    AlikeReplies cells (Operator.settle host (op.perform fixity type operands host.heap))
      (Operator.settle other (op.perform fixity type operands other.heap)) := by
  simp only [Operator.perform, map_read_eq within alike]
  cases op.compute (op.typeFrom type) (operands.map (·.read host.heap)) with
  | error error => exact ⟨rfl, alike⟩
  | ok value =>
    simp only
    split
    swap
    · exact ⟨rfl, alike⟩
    split
    · exact ⟨rfl, alike⟩
    next cell target =>
    obtain ⟨slot, isFirst, isCell⟩ := Option.bind_eq_some_iff.mp target
    have inside : cells cell := within slot (List.mem_of_mem_head? isFirst) cell isCell
    by_cases fits : value.type = cell.type
    · simp only [Heap.assign, dif_pos fits, alike cell inside]
      exact ⟨rfl, alike.write fits⟩
    · simp only [Heap.assign, dif_neg fits]
      exact ⟨rfl, alike⟩

/-- A node does the same with the same operands where the cells hold the same. -/
private theorem alikeReplies_combine (same : Registry.Shares plain called first second)
    (known : first.Within plain called cells) (mentions : tree.Mentions plain called)
    (within : ∀ slot ∈ operands, slot.Within cells) (alike : Host.Alike cells host other) (id : NodeId) :
    AlikeReplies cells (Tree.combine first (tree.node id) operands host)
      (Tree.combine second (tree.node id) operands other) := by
  cases kind : (tree.node id).kind with
  | root | constant =>
    simp only [Tree.combine, kind]
    exact ⟨rfl, alike⟩
  | «variable» name =>
    simp only [Tree.combine, kind, same.cellOf?_eq name (mentions.cell id name kind)]
    split
    · exact ⟨rfl, alike⟩
    · split <;> exact ⟨rfl, alike⟩
  | operator op fixity =>
    obtain ⟨result, after⟩ := alikeReplies_perform within alike op fixity (tree.node id).type
    simp only [Tree.combine, kind]
    generalize op.perform fixity (tree.node id).type operands host.heap = reply at result after ⊢
    generalize op.perform fixity (tree.node id).type operands other.heap = reply' at result after ⊢
    obtain _ | ⟨value, heap⟩ := reply <;> obtain _ | ⟨value', heap'⟩ := reply' <;> cases result <;>
      exact ⟨rfl, after⟩
  | call name =>
    have mem := mentions.call id name kind
    simp only [Tree.combine, kind, same.function?_eq name mem, map_read_eq within alike]
    split
    · exact ⟨rfl, alike⟩
    next function found =>
    have dependent := known.call name mem function found
    have result := dependent.result_eq (operands.map (·.read host.heap)) host other alike
    have after := dependent.alike (operands.map (·.read host.heap)) host other alike
    generalize (function.body (operands.map (·.read host.heap))).on host = reply at result after ⊢
    generalize (function.body (operands.map (·.read host.heap))).on other = reply' at result after ⊢
    obtain ⟨_ | value, host⟩ := reply <;> obtain ⟨_ | value', other⟩ := reply' <;> cases result
    · exact ⟨rfl, after⟩
    · simp only
      split <;> exact ⟨rfl, after⟩

/-- A part gives the same with both, and a cell only if it is one of those known. -/
private def AlikeParts (cells : Cell → Prop) (reply other : Except (NodeId × RuntimeError) Slot × Host) : Prop :=
  AlikeReplies cells reply other ∧ ∀ slot, reply.1 = .ok slot → slot.Within cells

private theorem alike_parts {parts : List (Rose NodeId)}
    (each : ∀ part ∈ parts, ∀ host other, Host.Alike cells host other →
      AlikeParts cells (Tree.evaluatePart first (part.map tree.labelled) host)
        (Tree.evaluatePart second (part.map tree.labelled) other))
    (alike : Host.Alike cells host other) :
    AlikeReplies cells (Tree.evaluateParts first (parts.map (Rose.map tree.labelled)) host)
        (Tree.evaluateParts second (parts.map (Rose.map tree.labelled)) other) ∧
      ∀ slots, (Tree.evaluateParts first (parts.map (Rose.map tree.labelled)) host).1 = .ok slots →
        ∀ slot ∈ slots, slot.Within cells := by
  induction parts generalizing host other with
  | nil =>
    refine ⟨⟨rfl, alike⟩, fun slots ran slot mem => ?_⟩
    cases ran
    cases mem
  | cons part parts ih =>
    obtain ⟨⟨result, between⟩, within⟩ := each part List.mem_cons_self host other alike
    simp only [List.map_cons, Tree.evaluateParts]
    generalize Tree.evaluatePart first (part.map tree.labelled) host = reply at result between within ⊢
    generalize Tree.evaluatePart second (part.map tree.labelled) other = reply' at result between ⊢
    obtain ⟨failure | slot, host⟩ := reply <;> obtain ⟨failure' | slot', other⟩ := reply' <;> cases result
    · exact ⟨⟨rfl, between⟩, fun slots ran => by cases ran⟩
    obtain ⟨⟨result, after⟩, later⟩ := ih (fun part mem => each part (List.mem_cons_of_mem _ mem)) between
    simp only
    generalize Tree.evaluateParts first (parts.map (Rose.map tree.labelled)) host = reply at result after later ⊢
    generalize Tree.evaluateParts second (parts.map (Rose.map tree.labelled)) other = reply' at result after ⊢
    obtain ⟨failure | slots, host⟩ := reply <;> obtain ⟨failure' | slots', other⟩ := reply' <;> cases result
    · exact ⟨⟨rfl, after⟩, fun slots ran => by cases ran⟩
    · refine ⟨⟨rfl, after⟩, fun all ran => ?_⟩
      cases ran
      exact List.forall_mem_cons.mpr ⟨within slot rfl, later slots rfl⟩

/-- A part of a checked tree gives the same with both. -/
private theorem alike_part (h : tree.Checked registry order root result)
    (same : Registry.Shares plain called first second) (known : first.Within plain called cells)
    (mentions : tree.Mentions plain called) {part : Rose NodeId} (shows : tree.Shows part)
    (inner : part.label < root) (alike : Host.Alike cells host other) :
    AlikeParts cells (Tree.evaluatePart first (part.map tree.labelled) host)
      (Tree.evaluatePart second (part.map tree.labelled) other) := by
  induction shows generalizing host other with
  | node id parts children _ ih =>
    have below : ∀ part ∈ parts, part.label < root := fun part mem =>
      Nat.lt_trans (h.formed.descending.label_lt children mem) inner
    obtain ⟨⟨result, between⟩, within⟩ :=
      alike_parts (fun part mem host other => ih part mem (below part mem)) alike
    simp only [Rose.map_node, Tree.labelled, Tree.evaluatePart]
    generalize Tree.evaluateParts first (parts.map (Rose.map tree.labelled)) host = reply at result between within ⊢
    generalize Tree.evaluateParts second (parts.map (Rose.map tree.labelled)) other = reply' at result between ⊢
    obtain ⟨failure | operands, host⟩ := reply <;> obtain ⟨failure' | operands', other⟩ := reply' <;>
      cases result
    · exact ⟨⟨rfl, between⟩, fun slot ran => by cases ran⟩
    obtain ⟨result, after⟩ := alikeReplies_combine same known mentions (within operands rfl) between id
    simp only
    rcases combined : Tree.combine first (tree.node id) operands host with ⟨cause | slot, last⟩ <;>
      rw [combined] at result after <;>
      generalize Tree.combine second (tree.node id) operands other = reply' at result after ⊢ <;>
      obtain ⟨cause' | slot', last'⟩ := reply' <;> cases result
    · exact ⟨⟨rfl, after⟩, fun slot ran => by cases ran⟩
    refine ⟨⟨rfl, after⟩, fun slot' ran cell isCell => ?_⟩
    cases ran
    obtain ⟨name, kind, bound⟩ := h.cell_of_combine inner combined isCell
    exact known.cell name (mentions.cell id name kind) cell bound

/-- A checked tree comes to the same with both. -/
private theorem alikeReplies_outcome (h : tree.Checked registry order root result)
    (same : Registry.Shares plain called first second) (known : first.Within plain called cells)
    (mentions : tree.Mentions plain called) (alike : Host.Alike cells host other) :
    AlikeReplies cells (tree.outcome first order host) (tree.outcome second order other) := by
  rw [h.outcome_eq, h.outcome_eq]
  have shows := Tree.shows_below h.formed.descending h.formed.result_lt
  obtain ⟨⟨result, after⟩, within⟩ :=
    alike_part h same known mentions shows (by simpa using h.formed.result_lt) alike
  generalize Tree.evaluatePart first _ host = reply at result after within ⊢
  generalize Tree.evaluatePart second _ other = reply' at result after ⊢
  obtain ⟨failure | slot, host⟩ := reply <;> obtain ⟨failure' | slot', other⟩ := reply' <;> cases result
  · exact ⟨rfl, after⟩
  · refine ⟨?_, after⟩
    simp only [Tree.settled, Tree.located, Except.mapError, Except.map, (within slot rfl).read_eq after]

end TwoHosts

namespace Registry

/-- The cells that the variables of a source stand for. -/
def Uses (registry : Registry) (source : String) (cell : Cell) : Prop :=
  ∃ name ∈ variablesIn source, registry.cellOf? name = some cell

/-- With either registry, the source compiles to the same or fails in the same way, and what it compiles to does
the same on every host, however often it was evaluated before. -/
def SameAnswers (source : String) (first second : Registry) : Prop :=
  ∀ passLimit, Expression.compile second passLimit source = Expression.compile first passLimit source ∧
    ∀ fresh, Expression.compile first passLimit source = .ok fresh →
      ∀ expression : Expression, expression.Revisits fresh → ∀ host,
        expression.evaluate second host = expression.evaluate first host

end Registry

namespace Expression

variable {source : String} {first second : Registry}

/-- A tree that is checked has the names of its source. -/
private theorem mentions_of_compile {passLimit : Nat} {fresh : Expression}
    (h : compile first passLimit source = .ok fresh) :
    fresh.tree.Mentions (variablesIn source) (functionsIn source) := by
  obtain ⟨lexemes, classified, tree, stages⟩ := exists_stages h
  have mentions := Tree.mentions_of_build stages.read stages.known stages.built
  simp only [variablesIn, functionsIn, stages.read]
  refine mentions.congr fun id => ?_
  obtain ⟨type, same⟩ := Tree.node_check stages.checked id
  rw [same]

/-- Compiling asks for the names of the source only. -/
private theorem compile_congr (same : Registry.Shares (variablesIn source) (functionsIn source) first second)
    (passLimit : Nat) : compile second passLimit source = compile first passLimit source := by
  have compiled : compileTree second passLimit source = compileTree first passLimit source := by
    simp only [compileTree, parse, bind, Except.bind]
    cases read : Lexeme.tokenize source with
    | error error => rfl
    | ok lexemes =>
      simp only [variablesIn, functionsIn, read] at same
      simp only [Lexeme.classify_congr same]
      cases known : Lexeme.classify first lexemes with
      | error error => rfl
      | ok classified =>
        simp only
        cases built : Tree.build source classified passLimit with
        | error error => rfl
        | ok tree => simp only [Tree.check_congr same (Tree.mentions_of_build read known built)]
  simp only [compile, compiled]

private theorem sameAnswers (same : Registry.Shares (variablesIn source) (functionsIn source) first second) :
    Registry.SameAnswers source first second := by
  refine fun passLimit => ⟨compile_congr same passLimit, fun fresh compiled expression revisits host => ?_⟩
  have mentions := (mentions_of_compile compiled).congr revisits.agrees.kind_eq
  simp only [evaluate, Tree.evaluate, Tree.fillSlots_congr same mentions]

/-- Only the names in a source matter. Registries with the same variables and functions for these names compile
it to the same and evaluate it to the same. If the functions that are called depend on the cells of the variables
only, this also holds on hosts that agree on no other cells, and these cells hold the same afterwards. In
particular, binding further names to cells or functions changes nothing. -/
theorem determined_by_names (same : Registry.Shares (variablesIn source) (functionsIn source) first second) :
    Registry.SameAnswers source first second ∧
      (∀ passLimit fresh, compile first passLimit source = .ok fresh →
        (∀ name ∈ functionsIn source, ∀ function, first.function? name = some function →
          function.DependsOn (first.Uses source)) →
        ∀ expression : Expression, expression.Revisits fresh →
          ∀ host other, Host.Alike (first.Uses source) host other →
          (expression.evaluate second other).1 = (expression.evaluate first host).1 ∧
            Host.Alike (first.Uses source) (expression.evaluate first host).2.2
              (expression.evaluate second other).2.2) ∧
      (∀ name cell extended, name ∉ variablesIn source → first.addVariable name cell = .ok extended →
        Registry.SameAnswers source first extended) ∧
      ∀ name function extended, name ∉ functionsIn source → first.addFunction name function = .ok extended →
        Registry.SameAnswers source first extended := by
  refine ⟨sameAnswers same, fun passLimit fresh compiled dependent expression revisits host other alike => ?_,
    fun name cell extended further added => sameAnswers (Registry.shares_addVariable further added),
    fun name function extended further added => sameAnswers (Registry.shares_addFunction further added)⟩
  obtain ⟨root, result, checked⟩ := (CompiledFor.compile compiled).checked
  have known : first.Within (variablesIn source) (functionsIn source) (first.Uses source) :=
    ⟨fun name mem cell bound => ⟨name, mem, bound⟩, dependent⟩
  have mentions := (mentions_of_compile compiled).congr revisits.agrees.kind_eq
  obtain ⟨answer, after⟩ := alikeReplies_outcome (revisits.agrees.checked checked) same known mentions alike
  rw [← revisits.order_eq] at answer after
  obtain ⟨one, oneAfter⟩ := expression.evaluate_eq_outcome first host
  obtain ⟨two, twoAfter⟩ := expression.evaluate_eq_outcome second other
  rw [one, two, oneAfter, twoAfter, answer]
  exact ⟨rfl, after⟩

/-- A call that reads a variable, with another variable and another function around, and on a host where the
other variable holds something else. -/
theorem determined_by_names_call :
    ∃ fresh,
      compile ⟨Names.empty.insert "x" (.int 0),
          Names.empty.insert "f" ⟨.int, [], fun _ => Action.readCell (.int 0)⟩⟩ 100 "f() + x" = .ok fresh ∧
        compile ⟨(Names.empty.insert "x" (.int 0)).insert "y" (.int 1),
          (Names.empty.insert "f" ⟨.int, [], fun _ => Action.readCell (.int 0)⟩).insert "x"
            ⟨.void, [], fun _ => pure .void⟩⟩ 100 "f() + x" = .ok fresh ∧
        (fresh.evaluate ⟨(Names.empty.insert "x" (.int 0)).insert "y" (.int 1),
            (Names.empty.insert "f" ⟨.int, [], fun _ => Action.readCell (.int 0)⟩).insert "x"
              ⟨.void, [], fun _ => pure .void⟩⟩ ⟨Heap.empty.write (.int 1) (.int 7) rfl, ""⟩).1 =
          (fresh.evaluate ⟨Names.empty.insert "x" (.int 0),
            Names.empty.insert "f" ⟨.int, [], fun _ => Action.readCell (.int 0)⟩⟩ .empty).1 := by
  have compiled : ∃ fresh, compile ⟨Names.empty.insert "x" (.int 0),
      Names.empty.insert "f" ⟨.int, [], fun _ => Action.readCell (.int 0)⟩⟩ 100 "f() + x" = .ok fresh :=
    ⟨_, by cbv⟩
  obtain ⟨fresh, compiled⟩ := compiled
  have plain : variablesIn "f() + x" = ["x"] := by cbv
  have called : functionsIn "f() + x" = ["f"] := by cbv
  have uses : Registry.Uses ⟨Names.empty.insert "x" (.int 0),
      Names.empty.insert "f" ⟨.int, [], fun _ => Action.readCell (.int 0)⟩⟩ "f() + x" = (· = .int 0) := by
    funext cell
    simp [Registry.Uses, plain, Registry.cellOf?, Names.find?_insert, eq_comm]
  obtain ⟨sameAnswers, alike, -⟩ := @determined_by_names "f() + x"
    ⟨Names.empty.insert "x" (.int 0), Names.empty.insert "f" ⟨.int, [], fun _ => Action.readCell (.int 0)⟩⟩
    ⟨(Names.empty.insert "x" (.int 0)).insert "y" (.int 1),
      (Names.empty.insert "f" ⟨.int, [], fun _ => Action.readCell (.int 0)⟩).insert "x"
        ⟨.void, [], fun _ => pure .void⟩⟩
    ⟨by simp [plain, Registry.cellOf?, Names.find?_insert],
      by simp [called, Registry.function?, Names.find?_insert]⟩
  refine ⟨fresh, compiled, (sameAnswers 100).1.trans compiled, ?_⟩
  refine (alike 100 fresh compiled ?_ fresh (.refl fresh) .empty _ ?_).1
  · rw [uses, called]
    intro name mem function found
    simp only [List.mem_singleton.mp mem, Registry.function?, Names.find?_insert, if_true, Option.some.injEq] at found
    subst found
    exact ⟨fun _ host other alike => congrArg Except.ok (alike _ rfl), fun _ _ _ alike => alike⟩
  · rw [uses]
    rintro _ rfl
    rfl

end Expression

end Reckoner

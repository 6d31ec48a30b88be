import Reckoner.Proofs.Builder.Complete
import Reckoner.Proofs.Strict.Linking

/-!
Building with every index looked at. An operator finds the items that its form takes beside it, the lists
that are named in a list are there, and the run over the lists keeps it so.
-/
namespace Reckoner.Strict

open Builder Item

/-- The form in which an operator takes the items beside it. -/
def fixity? (occurrence : Occurrence) (items : List Item) (index : Nat) :
    Strict CompileError (Option Fixity) := do
  let before ← needBefore items index
  return occurrence.fixityBetween (before.any isEvaluable) ((items[index + 1]?).any isEvaluable)

/-- The first and the last index of an operator with its operands, neither of them below zero. -/
def operandRange (index : Nat) (fixity : Fixity) : Strict CompileError (Nat × Nat) := do
  within (fixity = .leading ∨ 0 < index)
  return Item.operandRange index fixity

/-- A list without operators has to be one operand. -/
def reduceOperand (builder : Builder) (list : ListId) : Strict CompileError (Step × Builder) := do
  match ← itemsOf builder list with
  | [] =>
    let span ← spanOf builder list
    throw (CompileError.Cause.emptyExpression.atSpan span)
  | [item] =>
    if ← areReady builder [item] then
      let (node, builder) ← linkOperand builder item
      let builder ← finish builder list node
      return (.done, builder)
    else return (.waiting, builder)
  | _ :: extra :: _ => throw extra.unexpected

/-- A list with one operator has to be that operator with its operands. -/
def reduceOperation (builder : Builder) (list : ListId) (index : Nat) :
    Strict CompileError (Step × Builder) := do
  let items ← itemsOf builder list
  if ← areReady builder items then
    let item ← need items[index]?
    match item.occurrence? with
    | none => throw item.unexpected
    | some occurrence =>
      match ← fixity? occurrence items index with
      | none => throw (CompileError.Cause.atSpan (.missingOperand item.text) item.span)
      | some fixity =>
        let (first, last) ← operandRange index fixity
        match ← needBefore items first, items[last + 1]? with
        | some extra, _ => throw extra.unexpected
        | none, some extra => throw extra.unexpected
        | none, none =>
          let (node, builder) ← linkOperator builder items occurrence.operator fixity
          let builder ← finish builder list node
          return (.done, builder)
  else return (.waiting, builder)

/-- Cuts the operator at a position out with its operands, unless it has to be left. -/
def cut (state : Cutting) (position : Nat) : Strict CompileError Cutting :=
  match state.items.findIdx? fun item => item.position == position && item.isOperator with
  | none => return state
  | some index => do
    let op ← need state.items[index]?
    match op.occurrence? with
    | none => return state
    | some occurrence =>
      match ← fixity? occurrence state.items index with
      | none =>
        return { state with
          deferred := state.deferred <|> some index
          blocked := state.blocked <|> some occurrence.precedence }
      | some fixity =>
        if fixity == .binary && state.blocked.any (occurrence.precedence < ·) then return state
        else
          let (first, last) ← operandRange index fixity
          within (first ≤ last ∧ last < state.items.length)
          let run := (state.items.take (last + 1)).drop first
          let left := state.items.take first ++ state.items.drop (last + 1)
          within (first ≤ left.length)
          let span := Item.spanOf run
          let group := state.builder.groupItem state.builder.lists.size span position
          return { state with
            items := left.take first ++ group :: left.drop first
            count := state.count + 1
            builder := state.builder.addList run span }

/-- The item to blame when no operator could be cut out: the first that was left, or else the first. -/
def culprit (cutting : Cutting) : Strict CompileError (Option Item) :=
  match cutting.deferred with
  | some index => some <$> need cutting.items[index]?
  | none => return cutting.items.head?

/-- Goes through the operators of a list from the tightest to the loosest and cuts them out. -/
def reduceOperators (builder : Builder) (list : ListId) : Strict CompileError (Step × Builder) := do
  let items ← itemsOf builder list
  let cutting ← (ranksOf items).foldlM (fun state rank => cut state rank.position)
    (Cutting.begin builder items)
  if cutting.count = 0 then
    match ← culprit cutting with
    | some item => throw (CompileError.Cause.atSpan (.unresolvedOperator item.text) item.span)
    | none =>
      let span ← spanOf builder list
      throw (CompileError.Cause.emptyExpression.atSpan span)
  else
    let builder ← setItems cutting.builder list cutting.items
    return (.progress, builder)

/-- Reduces a list that is free of groups. -/
def reduce (builder : Builder) (list : ListId) : Strict CompileError (Step × Builder) := do
  match operatorIndices (← itemsOf builder list) with
  | [] => reduceOperand builder list
  | [index] => reduceOperation builder list index
  | _ => reduceOperators builder list

/-- One pass over a list. -/
def process (builder : Builder) (list : ListId) : Strict CompileError (Step × Builder) := do
  let items ← itemsOf builder list
  if hasGroups items then
    let (items, builder) ← lift (builder.regroup items)
    let builder ← setItems builder list items
    let (step, builder) ← reduce builder list
    return (if step = .waiting then .progress else step, builder)
  else reduce builder list

/-- One pass over the list in front of the queue. -/
def pass (schedule : Schedule) (list : ListId) (rest : List ListId) :
    Strict CompileError Schedule := do
  let known := schedule.builder.lists.size
  let (step, builder) ← process schedule.builder list
  let made := List.range' known (builder.lists.size - known)
  match step with
  | .done => return ⟨builder, made ++ rest, 0⟩
  | .progress => return ⟨builder, made ++ list :: rest, 0⟩
  | .waiting =>
    if rest.length < schedule.stalled + 1 then
      let span ← spanOf builder list
      throw (CompileError.Cause.unresolvedReference.atSpan span)
    return ⟨builder, made ++ rest ++ [list], schedule.stalled + 1⟩

/-- Looks at lists until none is left, with at most so many passes. -/
def run (limit : Nat) : Nat → Schedule → Strict CompileError Builder
  | left, schedule =>
    match schedule.queue with
    | [] => return schedule.builder
    | list :: rest =>
      match left with
      | 0 =>
        let whole := Span.whole schedule.builder.source
        throw (CompileError.Cause.atSpan (.passLimitExceeded limit) whole)
      | left + 1 => do
        let next ← pass schedule list rest
        run limit left next

/-- Puts the root above the node of the whole expression. -/
def complete (builder : Builder) (top : ListId) : Strict CompileError Tree := do
  let whole := Span.whole builder.source
  let (result, builder) ← takeNode builder top whole
  let left := builder.lists.toList.countP (·.node.isSome)
  if left ≠ 0 then
    throw (CompileError.Cause.atSpan (.danglingNodes left) whole)
  let node ← need builder.tree.nodes[result]?
  let (root, builder) ← addNode builder (.alone .root node.span (.owned .void)) [result]
  return { builder.tree with root := some root }

/-- The tree of an expression, given its classified lexemes and the limit on passes. -/
def build (source : String) (lexemes : List Lexeme) (passLimit : Nat) : Strict CompileError Tree := do
  let builder ← run passLimit passLimit ⟨start source lexemes, [0], 0⟩
  complete builder 0

variable {items : List Item} {index : Nat} {occurrence : Occurrence} {fixity : Fixity}

theorem needBefore_eq {ε : Type} (inside : index ≤ items.length) :
    (needBefore items index : Strict ε (Option Item)) = pure (items.take index).getLast? := by
  cases index with
  | zero => rfl
  | succ index =>
    have lt : index < items.length := inside
    simp [needBefore, List.getLast?_take, lt]

theorem fixity?_eq (occurrence : Occurrence) (inside : index < items.length) :
    fixity? occurrence items index = pure (Item.fixity? occurrence items index) := by
  rw [fixity?, needBefore_eq (Nat.le_of_lt inside), pure_bind]
  cases index with
  | zero => rfl
  | succ index =>
    have lt : index < items.length := Nat.lt_of_succ_lt inside
    simp [Item.fixity?, Occurrence.fixityBetween, List.getLast?_take, lt]

/-- An operator in a form that its neighbours allow has them beside it. -/
theorem range_of_fixity? (inside : index < items.length)
    (allowed : Item.fixity? occurrence items index = some fixity) :
    (fixity = .leading ∨ 0 < index) ∧
      (Item.operandRange index fixity).1 ≤ (Item.operandRange index fixity).2 ∧
      (Item.operandRange index fixity).2 < items.length := by
  have after : (items[index + 1]?).any isEvaluable = true → index + 1 < items.length := by
    intro some
    by_contra large
    rw [List.getElem?_eq_none (Nat.not_lt.mp large)] at some
    cases some
  simp only [Item.fixity?] at allowed
  split at allowed
  · next both =>
    cases allowed
    simp only [Bool.and_eq_true, decide_eq_true_eq] at both
    refine ⟨.inr both.1.2.1, ?_, after both.2⟩
    exact Nat.le_trans (Nat.sub_le ..) (Nat.le_succ _)
  split at allowed
  · next can =>
    cases allowed
    simp only [Bool.and_eq_true] at can
    exact ⟨.inl rfl, Nat.le_succ _, after can.2⟩
  split at allowed
  · next can =>
    cases allowed
    simp only [Bool.and_eq_true, decide_eq_true_eq] at can
    exact ⟨.inr can.2.1, Nat.sub_le .., inside⟩
  · cases allowed

theorem operandRange_eq (inside : index < items.length)
    (allowed : Item.fixity? occurrence items index = some fixity) :
    operandRange index fixity = pure (Item.operandRange index fixity) := by
  rw [operandRange, within_eq (range_of_fixity? inside allowed).1, pure_bind]

example : ExceptT.run (operandRange 0 .trailing) = none := rfl

/-- Cutting an operator out finds everything that it takes. -/
theorem cut_eq (state : Cutting) (position : Nat) : cut state position = pure (state.cut position) := by
  rw [cut, Cutting.cut]
  simp only
  cases found : state.items.findIdx? fun item => item.position == position && item.isOperator with
  | none => rfl
  | some index =>
    have inside := (List.findIdx?_eq_some_iff_getElem.mp found).1
    have atIndex : state.items[index]? = some state.items[index] := List.getElem?_eq_getElem inside
    simp only [atIndex, need_some, pure_bind, Option.bind_some]
    cases (state.items[index]).occurrence? with
    | none => rfl
    | some occurrence =>
      simp only [fixity?_eq occurrence inside, pure_bind]
      cases allowed : Item.fixity? occurrence state.items index with
      | none => rfl
      | some fixity =>
        simp only
        split
        · rfl
        obtain ⟨-, ordered, last⟩ := range_of_fixity? inside allowed
        rw [operandRange_eq inside allowed, pure_bind]
        generalize Item.operandRange index fixity = range at ordered last ⊢
        obtain ⟨first, last⟩ := range
        simp only at ordered last ⊢
        have front : first ≤ state.items.length := Nat.le_trans ordered (Nat.le_of_lt last)
        have length : (state.items.take first).length = first := List.length_take_of_le front
        rw [within_eq ⟨ordered, last⟩, pure_bind, within_eq (by simp [length]), pure_bind,
          List.take_left' length, List.drop_left' length]

variable {builder : Builder} {list : Nat} {loose : List NodeId}

theorem reduceOperand_eq (there : list < builder.lists.size) (grown : Grown builder loose)
    (bound : ∀ other ∈ references (builder.itemsOf list), (other : Nat) < builder.lists.size) :
    reduceOperand builder list = lift (builder.reduceOperand list) := by
  rw [reduceOperand, itemsOf_eq there, pure_bind, Builder.reduceOperand]
  cases members : builder.itemsOf list with
  | nil =>
    simp only
    rw [spanOf_eq there, pure_bind]
    rfl
  | cons item rest =>
    cases rest with
    | cons extra rest => rfl
    | nil =>
      rw [members] at bound
      simp only
      rw [areReady_eq bound, pure_bind, List.all_cons, List.all_nil, Bool.and_true]
      split
      · rw [linkOperand_eq grown fun other mem => bound other (by simpa using mem)]
        refine lift_bind fun reply isLinked => ?_
        obtain ⟨node, linked⟩ := reply
        simp only
        rw [finish_eq ((linkOperand_ok isLinked).size_eq ▸ there), pure_bind]
        rfl
      · rfl

theorem reduceOperation_eq (there : list < builder.lists.size) (grown : Grown builder loose)
    (bound : ∀ other ∈ references (builder.itemsOf list), (other : Nat) < builder.lists.size)
    (inside : index < (builder.itemsOf list).length) :
    reduceOperation builder list index = lift (builder.reduceOperation list index) := by
  rw [reduceOperation, itemsOf_eq there, pure_bind, areReady_eq bound, pure_bind, Builder.reduceOperation]
  have atIndex := List.getElem?_eq_getElem inside
  cases ready : (builder.itemsOf list).all builder.isReady with
  | false => rfl
  | true =>
    simp only [if_true, Bool.not_true, Bool.false_eq_true, if_false, atIndex, need_some, pure_bind]
    cases ((builder.itemsOf list)[index]).occurrence? with
    | none => rfl
    | some occurrence =>
      simp only [fixity?_eq occurrence inside, pure_bind]
      cases allowed : Item.fixity? occurrence (builder.itemsOf list) index with
      | none => rfl
      | some fixity =>
        obtain ⟨-, ordered, last⟩ := range_of_fixity? inside allowed
        simp only [operandRange_eq inside allowed, pure_bind]
        rw [needBefore_eq (Nat.le_trans ordered (Nat.le_of_lt last)), pure_bind]
        cases ((builder.itemsOf list).take (Item.operandRange index fixity).1).getLast? with
        | some extra => rfl
        | none =>
          cases (builder.itemsOf list)[(Item.operandRange index fixity).2 + 1]? with
          | some extra => rfl
          | none =>
            simp only
            rw [linkOperator_eq grown bound]
            refine lift_bind fun reply isLinked => ?_
            obtain ⟨node, linked⟩ := reply
            simp only
            rw [finish_eq (size_of_linkOperator isLinked ▸ there), pure_bind]
            rfl

/-- As long as nothing was cut out, the first operator that was left is where it was. -/
private theorem deferred_lt (state : Cutting) (ranks : List Rank)
    (start : state.count = 0 → ∀ index ∈ state.deferred, index < state.items.length) :
    (state.cutAll ranks).count = 0 →
      ∀ index ∈ (state.cutAll ranks).deferred, index < (state.cutAll ranks).items.length := by
  induction ranks generalizing state with
  | nil => exact start
  | cons rank rest ih =>
    refine ih (state.cut rank.position) ?_
    rcases state.cut_cases rank.position with
      ⟨-, same⟩ | ⟨before, op, after, _, whole, -, -, -, -, visit⟩
    · rwa [same]
    generalize state.cut rank.position = next at visit ⊢
    cases visit with
    | deferred =>
      intro none index mem
      cases first : state.deferred with
      | some earlier =>
        rw [first] at mem
        exact start none index (first ▸ mem)
      | none =>
        rw [first] at mem
        cases mem
        rw [whole, List.length_append, List.length_cons]
        omega
    | blocked => exact start
    | taken => exact fun none => absurd none (Nat.succ_ne_zero _)

private theorem cutAll_eq (state : Cutting) (ranks : List Rank) :
    ranks.foldlM (fun state rank => cut state rank.position) state = pure (state.cutAll ranks) := by
  simp only [cut_eq, List.foldlM_pure]
  rfl

theorem culprit_eq {cutting : Cutting}
    (bound : ∀ index ∈ cutting.deferred, index < cutting.items.length) :
    culprit cutting = pure ((cutting.deferred.bind (cutting.items[·]?)) <|> cutting.items.head?) := by
  unfold culprit
  cases first : cutting.deferred with
  | some index => simp [List.getElem?_eq_getElem (bound index first)]
  | none => rfl

theorem reduceOperators_eq (there : list < builder.lists.size) :
    reduceOperators builder list = lift (builder.reduceOperators list) := by
  obtain ⟨cutting, ran⟩ : ∃ cutting,
      (Cutting.begin builder (builder.itemsOf list)).cutAll (ranksOf (builder.itemsOf list)) =
        cutting := ⟨_, rfl⟩
  have bound := deferred_lt (Cutting.begin builder (builder.itemsOf list))
    (ranksOf (builder.itemsOf list)) (by simp [Cutting.begin])
  obtain ⟨news, made, -⟩ := (Cutting.begin builder (builder.itemsOf list)).cutAll_division
    (ranksOf (builder.itemsOf list))
  rw [ran] at bound made
  rw [reduceOperators, itemsOf_eq there, pure_bind, cutAll_eq, pure_bind, ran,
    reduceOperators_of_cutAll ran]
  by_cases stuck : cutting.count = 0
  · rw [if_pos stuck, if_pos stuck, culprit_eq (bound stuck), pure_bind]
    cases (cutting.deferred.bind (cutting.items[·]?)) <|> cutting.items.head? with
    | some item => rfl
    | none =>
      simp only
      rw [spanOf_eq there, pure_bind]
      rfl
  · have size : builder.lists.size ≤ cutting.builder.lists.size := by
      rw [made, size_append]
      exact Nat.le_add_right ..
    rw [if_neg stuck, if_neg stuck, setItems_eq (Nat.lt_of_lt_of_le there size), pure_bind]
    rfl

/-- Reducing a list finds the lists that are named in it. -/
theorem reduce_eq (there : list < builder.lists.size) (grown : Grown builder loose)
    (bound : ∀ other ∈ references (builder.itemsOf list), (other : Nat) < builder.lists.size) :
    reduce builder list = lift (builder.reduce list) := by
  rw [reduce, itemsOf_eq there, pure_bind, Builder.reduce]
  cases indices : operatorIndices (builder.itemsOf list) with
  | nil => exact reduceOperand_eq there grown bound
  | cons index others =>
    cases others with
    | cons => exact reduceOperators_eq there
    | nil =>
      obtain ⟨before, op, after, whole, rfl, -⟩ := operatorIndices_eq_singleton indices
      refine reduceOperation_eq there grown bound ?_
      rw [whole, List.length_append, List.length_cons]
      omega

theorem process_eq {rest : List ListId} (scheduled : Scheduled builder (list :: rest))
    (grown : Grown builder loose) : process builder list = lift (builder.process list) := by
  obtain ⟨there, -⟩ := scheduled.pending list List.mem_cons_self
  rw [process, itemsOf_eq there, pure_bind, Builder.process]
  simp only
  split
  · refine lift_bind fun reply isGrouped => ?_
    obtain ⟨left, grouped⟩ := reply
    obtain ⟨news, rfl, grouping⟩ := regroup_ok isGrouped
    have size : builder.lists.size ≤ (builder.append news).lists.size := by
      rw [size_append]
      exact Nat.le_add_right ..
    have there' := Nat.lt_of_lt_of_le there size
    simp only
    rw [setItems_eq there', pure_bind,
      reduce_eq (by rwa [size_setItems]) ((grown.append news).setItems list left)]
    · exact lift_bind fun _ _ => rfl
    · intro other mem
      rw [itemsOf_setItems _ there', if_pos rfl] at mem
      rw [size_setItems]
      rcases List.mem_append.mp (grouping.division.perm.subset (List.mem_append_left _ mem)) with old | new
      · exact Nat.lt_of_lt_of_le (scheduled.bound_references old) size
      · rw [size_append]
        exact (List.mem_range'_1.mp new).2
  · exact reduce_eq there grown fun other mem => scheduled.bound_references mem

theorem pass_eq {schedule : Schedule} {rest : List ListId}
    (scheduled : Scheduled schedule.builder (list :: rest)) (grown : Grown schedule.builder loose) :
    pass schedule list rest = lift (schedule.pass list rest) := by
  rw [pass, process_eq scheduled grown, Schedule.pass]
  refine lift_bind fun reply processed => ?_
  obtain ⟨step, after⟩ := reply
  cases step with
  | done => rfl
  | progress => rfl
  | waiting => exact ((process_ok processed).not_waiting scheduled).elim

/-- A run over lists whose queue is in order finds whatever it names. -/
theorem run_eq {limit left : Nat} {schedule : Schedule}
    (scheduled : Scheduled schedule.builder schedule.queue) (grown : Grown schedule.builder []) :
    run limit left schedule = lift (Schedule.run limit left schedule) := by
  induction left generalizing schedule with
  | zero =>
    rw [run.eq_def, Schedule.run.eq_def]
    simp only
    cases schedule.queue <;> rfl
  | succ left ih =>
    rw [run.eq_def]
    cases queued : schedule.queue with
    | nil =>
      rw [run_nil queued]
      simp only [queued]
      rfl
    | cons list rest =>
      rw [queued] at scheduled
      rw [run_succ queued]
      simp only [queued]
      rw [pass_eq scheduled grown]
      refine lift_bind fun next passed => ?_
      have pass := pass_ok scheduled passed
      exact ih (pass.scheduled scheduled) (pass.grown scheduled grown)

theorem complete_eq (scheduled : Scheduled builder []) (grown : Grown builder []) :
    complete builder 0 = lift (builder.complete 0) := by
  obtain ⟨result, found, -⟩ := scheduled.complete_ok
  have there := lt_size_of_nodeOf builder found
  rw [complete, takeNode_eq there, Builder.complete]
  simp only
  refine lift_bind fun reply taken => ?_
  obtain ⟨node, released⟩ := reply
  have inside : node < released.tree.size := by
    simp only [Builder.takeNode] at taken
    split at taken <;> cases taken
    next found => exact (grown.release found).bound List.mem_cons_self
  have atNode : released.tree.nodes[node]? = some (released.tree.node node) := by
    rw [Tree.node, Array.getElem?_eq_getElem inside]
    rfl
  simp only
  split
  · rfl
  · rw [atNode, need_some, pure_bind, addNode_eq _ (by simpa using inside), pure_bind]
    rfl

/-- Building a tree uses no index that is out of range. -/
theorem build_eq (source : String) (lexemes : List Lexeme) (passLimit : Nat) :
    build source lexemes passLimit = lift (Tree.build source lexemes passLimit) := by
  rw [build, run_eq (scheduled_start source lexemes) (grown_start source lexemes), Tree.build]
  refine lift_bind fun built ran => ?_
  exact complete_eq (scheduled_of_run (scheduled_start source lexemes) ran) (grown_of_run ran)

end Reckoner.Strict

import Reckoner.Tree
import Reckoner.Tree.Item

/-!
From classified lexemes to a tree, list by list. A pass over a list first turns each group and each
call in it into lists of their own. Then a list without operators becomes the node of its one operand,
a list with one operator the node of that operator, and from a list with several operators those that
can take the items beside them are cut out, the tightest first. An operator that cannot, because an
operand of it is not yet in one piece, is left for a later pass, and looser binary operators with it.
A list that was changed is looked at again after the lists made from it. The number of passes has a
limit.
-/
namespace Reckoner

/-- A list that is being reduced, and the node it has become once it is finished, until that node is
taken. -/
structure WorkList where
  items : List Item
  span : Span
  node : Option NodeId

/-- All lists made so far, and the tree as far as it is built. -/
structure Builder where
  source : String
  lists : Array WorkList
  tree : Tree

namespace Builder

/-- What a pass did to its list. -/
inductive Step where
  /-- The list has become a node. -/
  | done
  /-- The list was changed and has to be looked at again. -/
  | progress
  /-- The list needs others to be finished first. -/
  | waiting
deriving DecidableEq

/-- Adds a list. -/
def addList (builder : Builder) (items : List Item) (span : Span) : Builder :=
  { builder with lists := builder.lists.push ⟨items, span, none⟩ }

/-- Adds one list for each of several runs of items. -/
def addLists (builder : Builder) (runs : List (List Item)) : Builder :=
  runs.foldl (fun builder run => builder.addList run (Item.spanOf run)) builder

/-- The members of a list. -/
def itemsOf (builder : Builder) (list : ListId) : List Item :=
  (builder.lists[list]?).elim [] (·.items)

/-- The place of a list as a whole. -/
def spanOf (builder : Builder) (list : ListId) : Span :=
  (builder.lists[list]?).elim default (·.span)

/-- Puts other members into a list. -/
def setItems (builder : Builder) (list : ListId) (items : List Item) : Builder :=
  { builder with lists := builder.lists.modify list fun l => { l with items := items } }

/-- Records that a list has become a node. -/
def finish (builder : Builder) (list : ListId) (node : NodeId) : Builder :=
  { builder with
    lists := builder.lists.modify list fun l => { l with items := [], node := some node } }

/-- The item that stands for a list, with the text of the source that it covers. -/
def groupItem (builder : Builder) (list : ListId) (span : Span) (position : Nat) : Item :=
  .group list ((span.text? builder.source).getD "(...)") span position

/-- Cuts the items of a call at the commas outside of inner parentheses, where none of the parts may
be empty. `current` holds the part so far in reverse, and `separator` is the place before it. -/
def splitArguments (name : String) (separator : Span) (depth : Nat) (current : List Item) :
    List Item → Except CompileError (List (List Item))
  | [] =>
    if current.isEmpty then .error (CompileError.Cause.atSpan (.emptyArgument name) separator)
    else .ok [current.reverse]
  | item :: rest =>
    if item.isComma && depth == 0 then
      if current.isEmpty then .error (CompileError.Cause.atSpan (.emptyArgument name) item.span)
      else (current.reverse :: ·) <$> splitArguments name item.span 0 [] rest
    else
      let depth :=
        if item.opensGroup then depth + 1
        else if item.closesGroup then depth - 1
        else depth
      splitArguments name separator depth (item :: current) rest

/-- The runs of items that are the arguments of a call. -/
def argumentRuns (name : String) (opening : Span) (inner : List Item) :
    Except CompileError (List (List Item)) :=
  if inner.isEmpty then .ok [] else splitArguments name opening 0 [] inner

/-- Replaces each group and each call by an item for the lists made from it. -/
def regroup (builder : Builder) : List Item → Except CompileError (List Item × Builder)
  | [] => .ok ([], builder)
  | item :: rest =>
    if item.opensGroup then
      match _h : Item.takeGroup? 0 rest with
      | none => .error (CompileError.Cause.bracketBalance.atSpan item.span)
      | some (inner, close, after) =>
        let span := item.span.cover close
        let group := builder.groupItem builder.lists.size span item.position
        match regroup (builder.addList inner span) after with
        | .ok (items, builder) => .ok (group :: items, builder)
        | .error error => .error error
    else if item.isFunction && rest.head?.any Item.opensGroup then
      let opening := rest.head?.elim default Item.span
      match _h : Item.takeGroup? 0 rest.tail with
      | none => .error (CompileError.Cause.bracketBalance.atSpan opening)
      | some (inner, close, after) =>
        match argumentRuns item.text opening inner with
        | .error error => .error error
        | .ok runs =>
          let arguments := List.range' builder.lists.size runs.length
          let call := Item.call item.text arguments (item.span.cover close) item.position
          match regroup (builder.addLists runs) after with
          | .ok (items, builder) => .ok (call :: items, builder)
          | .error error => .error error
    else if item.isComma then .error (CompileError.Cause.unexpectedComma.atSpan item.span)
    else if item.closesGroup then .error (CompileError.Cause.bracketOrder.atSpan item.span)
    else
      match regroup builder rest with
      | .ok (items, builder) => .ok (item :: items, builder)
      | .error error => .error error
termination_by items => items.length
decreasing_by
  · have := Item.length_of_takeGroup? _h
    simp only [List.length_cons]
    omega
  · have := Item.length_of_takeGroup? _h
    simp only [List.length_tail, List.length_cons] at this ⊢
    omega
  · simp

/-- Whether the lists that an item needs are finished. -/
def isReady (builder : Builder) (item : Item) : Bool :=
  item.lists.all fun list => (builder.lists[list]?).any (·.node.isSome)

/-- Takes the node that a list has become. -/
def takeNode (builder : Builder) (list : ListId) (span : Span) :
    Except CompileError (NodeId × Builder) :=
  match (builder.lists[list]?).bind (·.node) with
  | none => .error (CompileError.Cause.unresolvedReference.atSpan span)
  | some node =>
    .ok (node, { builder with lists := builder.lists.modify list fun l => { l with node := none } })

/-- Takes the nodes that several lists have become. -/
def takeNodes (builder : Builder) (span : Span) :
    List ListId → Except CompileError (List NodeId × Builder)
  | [] => .ok ([], builder)
  | list :: rest => do
    let (node, builder) ← builder.takeNode list span
    let (nodes, builder) ← builder.takeNodes span rest
    return (node :: nodes, builder)

/-- Adds a node above others. -/
def addNode (builder : Builder) (node : Node) (children : List NodeId) : NodeId × Builder :=
  let id := builder.tree.size
  (id, { builder with
    tree := children.foldl (fun tree child => tree.attach id child) (builder.tree.push node) })

/-- The node of an operand. -/
def linkOperand (builder : Builder) : Item → Except CompileError (NodeId × Builder)
  | .lexeme lexeme =>
    match lexeme.kind with
    | .constant value => .ok (builder.addNode (.alone .constant lexeme.span (.owned value)) [])
    | .variable cell =>
      .ok (builder.addNode (.alone (.variable lexeme.text) lexeme.span (.aliased cell)) [])
    | _ => .error (Item.lexeme lexeme).unexpected
  | .group list _ span _ => builder.takeNode list span
  | .call name arguments span _ => do
    let (children, builder) ← builder.takeNodes span arguments
    return builder.addNode (.alone (.call name) span (.owned .void)) children

/-- The nodes of the items that are no operators. -/
def linkOperands (builder : Builder) : List Item → Except CompileError (List NodeId × Builder)
  | [] => .ok ([], builder)
  | item :: rest =>
    if item.isOperator then builder.linkOperands rest
    else do
      let (node, builder) ← builder.linkOperand item
      let (nodes, builder) ← builder.linkOperands rest
      return (node :: nodes, builder)

/-- The place that covers all items. -/
def coverOf : List Item → Span
  | [] => default
  | item :: rest => rest.foldl (fun span item => span.cover item.span) item.span

/-- The node of an operator and the operands beside it. -/
def linkOperator (builder : Builder) (items : List Item) (op : Operator) (fixity : Fixity) :
    Except CompileError (NodeId × Builder) := do
  let (children, builder) ← builder.linkOperands items
  return builder.addNode (.alone (.operator op fixity) (coverOf items) (.owned .void)) children

/-- A list without operators has to be one operand. -/
def reduceOperand (builder : Builder) (list : ListId) : Except CompileError (Step × Builder) :=
  match builder.itemsOf list with
  | [] => .error (CompileError.Cause.emptyExpression.atSpan (builder.spanOf list))
  | [item] =>
    if builder.isReady item then do
      let (node, builder) ← builder.linkOperand item
      return (.done, builder.finish list node)
    else .ok (.waiting, builder)
  | _ :: extra :: _ => .error extra.unexpected

/-- A list with one operator has to be that operator with its operands. -/
def reduceOperation (builder : Builder) (list : ListId) (index : Nat) :
    Except CompileError (Step × Builder) :=
  let items := builder.itemsOf list
  if !items.all builder.isReady then .ok (.waiting, builder)
  else
    match items[index]? with
    | none => .ok (.waiting, builder)
    | some item =>
      match item.occurrence? with
      | none => .error item.unexpected
      | some occurrence =>
        match Item.fixity? occurrence items index with
        | none => .error (CompileError.Cause.atSpan (.missingOperand item.text) item.span)
        | some fixity =>
          let (first, last) := Item.operandRange index fixity
          match (items.take first).getLast?, items[last + 1]? with
          | some extra, _ => .error extra.unexpected
          | none, some extra => .error extra.unexpected
          | none, none => do
            let (node, builder) ← builder.linkOperator items occurrence.operator fixity
            return (.done, builder.finish list node)

/-- What decides when an operator is cut out. -/
structure Rank where
  precedence : Nat
  associativity : Associativity
  position : Nat
deriving DecidableEq

/-- The rank of an operator. -/
def Rank.of? (item : Item) : Option Rank :=
  if item.isOperator then
    item.occurrence?.map fun o => ⟨o.precedence, o.associativity, item.position⟩
  else none

/-- Tighter operators come first, and those of one precedence in the order in which they group. -/
def Rank.notAfter (a b : Rank) : Bool :=
  if a.precedence = b.precedence then
    match a.associativity with
    | .left => a.position ≤ b.position
    | .right => b.position ≤ a.position
  else b.precedence < a.precedence

/-- A list while operators are cut out of it. -/
structure Cutting where
  items : List Item
  /-- The index of the first operator that could not be cut out. -/
  deferred : Option Nat
  /-- The precedence of that operator, below which binary operators are left alone. -/
  blocked : Option Nat
  /-- How many operators were cut out. -/
  count : Nat
  builder : Builder

/-- Cuts the operator at a position out with its operands, unless it has to be left. -/
def Cutting.cut (state : Cutting) (position : Nat) : Cutting :=
  let isIt (item : Item) : Bool := item.position == position && item.isOperator
  match state.items.findIdx? isIt with
  | none => state
  | some index =>
    match (state.items[index]?).bind Item.occurrence? with
    | none => state
    | some occurrence =>
      match Item.fixity? occurrence state.items index with
      | none =>
        { state with
          deferred := state.deferred <|> some index
          blocked := state.blocked <|> some occurrence.precedence }
      | some fixity =>
        if fixity == .binary && state.blocked.any (occurrence.precedence < ·) then state
        else
          let (first, last) := Item.operandRange index fixity
          let run := (state.items.take (last + 1)).drop first
          let span := Item.spanOf run
          let group := state.builder.groupItem state.builder.lists.size span position
          { state with
            items := state.items.take first ++ group :: state.items.drop (last + 1)
            count := state.count + 1
            builder := state.builder.addList run span }

/-- Goes through the operators of a list from the tightest to the loosest and cuts them out. -/
def reduceOperators (builder : Builder) (list : ListId) : Except CompileError (Step × Builder) :=
  let items := builder.itemsOf list
  let ranks := (items.filterMap Rank.of?).mergeSort Rank.notAfter
  let start : Cutting := ⟨items, none, none, 0, builder⟩
  let cutting := ranks.foldl (fun state rank => state.cut rank.position) start
  if cutting.count = 0 then
    match (cutting.deferred.bind (cutting.items[·]?)) <|> cutting.items.head? with
    | some item => .error (CompileError.Cause.atSpan (.unresolvedOperator item.text) item.span)
    | none => .error (CompileError.Cause.emptyExpression.atSpan (builder.spanOf list))
  else .ok (.progress, cutting.builder.setItems list cutting.items)

/-- The indices of the operators among the items. -/
def operatorIndices (items : List Item) : List Nat :=
  (items.zipIdx.filter fun (item, _) => item.isOperator).map (·.2)

/-- Reduces a list that is free of groups. -/
def reduce (builder : Builder) (list : ListId) : Except CompileError (Step × Builder) :=
  match operatorIndices (builder.itemsOf list) with
  | [] => builder.reduceOperand list
  | [index] => builder.reduceOperation list index
  | _ => builder.reduceOperators list

/-- Whether a list still has groups or calls in it. -/
def hasGroups (items : List Item) : Bool :=
  items.any fun item => item.opensGroup || item.closesGroup || item.isComma

/-- One pass over a list. -/
def process (builder : Builder) (list : ListId) : Except CompileError (Step × Builder) :=
  let items := builder.itemsOf list
  if hasGroups items then do
    let (items, builder) ← builder.regroup items
    let (step, builder) ← (builder.setItems list items).reduce list
    return (if step = .waiting then .progress else step, builder)
  else builder.reduce list

/-- The builder with the lists still to be looked at, and how many of them in a row had to wait. -/
structure Schedule where
  builder : Builder
  queue : List ListId
  stalled : Nat

/-- One pass over the list in front of the queue. The lists made by it go in front of the queue. -/
def Schedule.pass (schedule : Schedule) (list : ListId) (rest : List ListId) :
    Except CompileError Schedule := do
  let known := schedule.builder.lists.size
  let (step, builder) ← schedule.builder.process list
  let made := List.range' known (builder.lists.size - known)
  match step with
  | .done => return ⟨builder, made ++ rest, 0⟩
  | .progress => return ⟨builder, made ++ list :: rest, 0⟩
  | .waiting =>
    if rest.length < schedule.stalled + 1 then
      throw (CompileError.Cause.unresolvedReference.atSpan (builder.spanOf list))
    return ⟨builder, made ++ rest ++ [list], schedule.stalled + 1⟩

/-- Looks at lists until none is left, with at most so many passes. -/
def Schedule.run (limit : Nat) : Nat → Schedule → Except CompileError Builder
  | left, schedule =>
    match schedule.queue with
    | [] => .ok schedule.builder
    | list :: rest =>
      match left with
      | 0 =>
        let whole := Span.whole schedule.builder.source
        .error (CompileError.Cause.atSpan (.passLimitExceeded limit) whole)
      | left + 1 =>
        match schedule.pass list rest with
        | .ok next => Schedule.run limit left next
        | .error error => .error error

/-- Puts the root above the node of the whole expression. -/
def complete (builder : Builder) (top : ListId) : Except CompileError Tree := do
  let whole := Span.whole builder.source
  let (result, builder) ← builder.takeNode top whole
  let left := builder.lists.toList.countP (·.node.isSome)
  if left ≠ 0 then
    throw (CompileError.Cause.atSpan (.danglingNodes left) whole)
  let span := (builder.tree.node result).span
  let (root, builder) := builder.addNode (.alone .root span (.owned .void)) [result]
  return { builder.tree with root := some root }

/-- The builder with all lexemes in one list. -/
def start (source : String) (lexemes : List Lexeme) : Builder :=
  addList ⟨source, #[], .empty⟩ (lexemes.map .lexeme) (Span.whole source)

end Builder

/-- The tree of an expression, given its classified lexemes and the limit on passes. -/
def Tree.build (source : String) (lexemes : List Lexeme) (passLimit : Nat) :
    Except CompileError Tree := do
  let builder ← Builder.Schedule.run passLimit passLimit ⟨Builder.start source lexemes, [0], 0⟩
  builder.complete 0

end Reckoner

import Reckoner.Proofs.Builder.Pass
import Reckoner.Proofs.Lexeme.Viewed

/-!
Building a tree as it is seen from elsewhere. The builder looks at places and at the text of the source only to report
an error and to label what it makes, it compares ranks only with each other, it finds lists by their numbers only, and
it does not look at the values of constants. So it does the same with lexemes that are seen from elsewhere, behind
other lists, and gives the same tree as it is seen from there.
-/
namespace Reckoner

/-- The number of a list behind the lists that are there before. -/
def View.list (view : View) (list : Nat) : Nat :=
  view.lists + list

/-- The item as it is seen. A group has the text that its place has there. -/
def Item.viewed (view : View) : Item → Item
  | lexeme l => .lexeme (l.viewed view)
  | group list _ span position =>
    .group (view.list list) (((view.place span).text? view.source).getD "(...)") (view.place span)
      (position + view.rank)
  | call name arguments span position =>
    .call name (arguments.map view.list) (view.place span) (position + view.rank)

/-- The node as it is seen. -/
def Node.viewed (view : View) (node : Node) : Node :=
  match node.kind, node.slot with
  | .constant, .owned value =>
    { node with
      span := view.place node.span
      type := (view.label node.span value).type
      slot := .owned (view.label node.span value) }
  | _, _ => { node with span := view.place node.span }

/-- The tree as it is seen. -/
def Tree.viewed (view : View) (tree : Tree) : Tree :=
  ⟨tree.nodes.map (Node.viewed view), tree.root⟩

variable {view : View}

namespace Item

section Views

variable (view) (item : Item)

@[simp] theorem span_viewed : (item.viewed view).span = view.place item.span := by
  cases item <;> rfl

@[simp] theorem position_viewed : (item.viewed view).position = item.position + view.rank := by
  cases item <;> rfl

@[simp] theorem occurrence?_viewed : (item.viewed view).occurrence? = item.occurrence? := by
  cases item <;> simp [viewed, occurrence?]

@[simp] theorem opensGroup_viewed : (item.viewed view).opensGroup = item.opensGroup := by
  cases item <;> simp [viewed, opensGroup]

@[simp] theorem closesGroup_viewed : (item.viewed view).closesGroup = item.closesGroup := by
  cases item <;> simp [viewed, closesGroup]

@[simp] theorem isComma_viewed : (item.viewed view).isComma = item.isComma := by
  cases item <;> simp [viewed, isComma]

@[simp] theorem isOperator_viewed : (item.viewed view).isOperator = item.isOperator := by
  cases item <;> simp [viewed, isOperator]

@[simp] theorem isEvaluable_viewed : (item.viewed view).isEvaluable = item.isEvaluable := by
  cases item <;> simp [viewed, isEvaluable]

@[simp] theorem isFunction_viewed : (item.viewed view).isFunction = item.isFunction := by
  cases item with
  | lexeme lexeme =>
    obtain ⟨text, span, position, kind⟩ := lexeme
    cases kind <;> rfl
  | group | call => rfl

@[simp] theorem lists_viewed : (item.viewed view).lists = item.lists.map view.list := by
  cases item <;> rfl

/-- Only the text of a group is that of the source. -/
theorem text_viewed (isFunction : item.isFunction = true) : (item.viewed view).text = item.text := by
  cases item with
  | lexeme lexeme => rfl
  | group | call => cases isFunction

end Views

theorem spanOf_viewed {items : List Item} (nonempty : items ≠ []) :
    spanOf (items.map (viewed view)) = view.place (spanOf items) := by
  obtain ⟨first, rest, rfl⟩ := List.exists_cons_of_ne_nil nonempty
  simp only [spanOf, List.head?_map, List.getLast?_map, List.head?_cons]
  cases last : (first :: rest).getLast? with
  | none => exact absurd (List.getLast?_eq_none_iff.mp last) nonempty
  | some item => simp only [Option.map_some, span_viewed, view.place_cover]

theorem coverOf_viewed {items : List Item} (nonempty : items ≠ []) :
    Builder.coverOf (items.map (viewed view)) = view.place (Builder.coverOf items) := by
  obtain ⟨first, rest, rfl⟩ := List.exists_cons_of_ne_nil nonempty
  rw [List.map_cons, Builder.coverOf, Builder.coverOf, List.foldl_map, span_viewed]
  refine List.foldl_hom view.place fun span item => ?_
  rw [view.place_cover, span_viewed]

@[simp] theorem fixity?_viewed (occurrence : Occurrence) (items : List Item) (index : Nat) :
    fixity? occurrence (items.map (viewed view)) index = fixity? occurrence items index := by
  have evaluable (i : Nat) : ((items.map (viewed view))[i]?).any isEvaluable =
      (items[i]?).any isEvaluable := by
    rw [List.getElem?_map]
    cases items[i]? <;> simp
  simp only [fixity?, evaluable]

theorem takeGroup?_viewed (depth : Nat) (items : List Item) :
    takeGroup? depth (items.map (viewed view)) =
      (takeGroup? depth items).map fun (inner, close, after) =>
        (inner.map (viewed view), view.place close, after.map (viewed view)) := by
  induction items generalizing depth with
  | nil => rfl
  | cons item rest ih =>
    simp only [List.map_cons, takeGroup?, opensGroup_viewed, closesGroup_viewed, span_viewed]
    by_cases opens : item.opensGroup = true
    · simp only [if_pos opens, ih, Option.map_map]
      rfl
    rw [if_neg opens, if_neg opens]
    by_cases closes : item.closesGroup = true
    · rw [if_pos closes, if_pos closes]
      cases depth with
      | zero => rfl
      | succ depth =>
        simp only [ih, Option.map_map]
        rfl
    · simp only [if_neg closes, ih, Option.map_map]
      rfl

end Item

namespace Node

variable (view) (node : Node)

@[simp] theorem kind_viewed : (node.viewed view).kind = node.kind := by
  unfold viewed
  split <;> rfl

@[simp] theorem children_viewed : (node.viewed view).children = node.children := by
  unfold viewed
  split <;> rfl

@[simp] theorem span_viewed : (node.viewed view).span = view.place node.span := by
  unfold viewed
  split <;> rfl

private theorem viewed_setParent (parent : Option NodeId) :
    Node.viewed view { node with parent := parent } = { node.viewed view with parent := parent } := by
  obtain ⟨kind, children, _, span, type, slot⟩ := node
  cases kind <;> cases slot <;> rfl

private theorem viewed_setChildren (children : List NodeId) :
    Node.viewed view { node with children := children } = { node.viewed view with children := children } := by
  obtain ⟨kind, _, parent, span, type, slot⟩ := node
  cases kind <;> cases slot <;> rfl

end Node

namespace Tree

variable (view) (tree : Tree)

@[simp] theorem size_viewed : (tree.viewed view).size = tree.size := by
  simp [viewed, size]

theorem node_viewed {id : Nat} (lt : id < tree.size) : (tree.viewed view).node id = (tree.node id).viewed view := by
  simp only [size] at lt
  simp [node, viewed, lt]

private theorem push_viewed (node : Node) :
    (tree.push node).viewed view = (tree.viewed view).push (node.viewed view) := by
  simp [viewed, push]

/-- Changing one node and then all is changing all and then that one. -/
private theorem modify_viewed (id : NodeId) {change change' : Node → Node}
    (same : ∀ node, (change node).viewed view = change' (node.viewed view)) :
    (tree.modify id change).viewed view = (tree.viewed view).modify id change' := by
  simp only [viewed, modify, Tree.mk.injEq, and_true]
  apply Array.ext_getElem?
  intro i
  simp only [Array.getElem?_map, Array.getElem?_modify]
  split
  · cases tree.nodes[i]? <;> simp [same]
  · rfl

private theorem attach_viewed (parent child : NodeId) :
    (tree.attach parent child).viewed view = (tree.viewed view).attach parent child := by
  rw [attach, attach, modify_viewed, modify_viewed]
  · intro node
    rw [Node.viewed_setParent]
  · intro node
    rw [Node.viewed_setChildren, Node.children_viewed]

end Tree

namespace Builder

theorem splitArguments_viewed (name : String) (separator separator' : Span) (depth : Nat)
    (current items : List Item) :
    Mirrors (List.map (List.map (Item.viewed view))) (splitArguments name separator depth current items)
      (splitArguments name separator' depth (current.map (Item.viewed view)) (items.map (Item.viewed view))) := by
  induction items generalizing separator separator' depth current with
  | nil =>
    simp only [List.map_nil, splitArguments, List.isEmpty_map]
    apply Parallel.ite
    · intro _
      exact .error rfl
    · intro _
      exact .ok (by simp)
  | cons item rest ih =>
    simp only [List.map_cons, splitArguments, Item.isComma_viewed, Item.opensGroup_viewed,
      Item.closesGroup_viewed, List.isEmpty_map]
    apply Parallel.ite
    · intro _
      apply Parallel.ite
      · intro _
        exact .error rfl
      · intro _
        have later := ih item.span (item.viewed view).span 0 []
        apply later.bind
        intro runs
        exact .ok (by simp)
    · intro _
      exact ih ..

theorem argumentRuns_viewed (name : String) (opening opening' : Span) (inner : List Item) :
    Mirrors (List.map (List.map (Item.viewed view))) (argumentRuns name opening inner)
      (argumentRuns name opening' (inner.map (Item.viewed view))) := by
  simp only [argumentRuns, List.isEmpty_map]
  apply Parallel.ite
  · intro _
    exact .ok rfl
  · intro _
    exact splitArguments_viewed name opening opening' 0 [] inner

/-- What grouping does with the first item. -/
theorem regroup_cons (builder : Builder) (item : Item) (rest : List Item) :
    builder.regroup (item :: rest) =
      if item.opensGroup then
        match Item.takeGroup? 0 rest with
        | none => .error (CompileError.Cause.bracketBalance.atSpan item.span)
        | some (inner, close, after) => do
          let (items, later) ← (builder.addList inner (item.span.cover close)).regroup after
          return (builder.groupItem builder.lists.size (item.span.cover close) item.position :: items, later)
      else if item.isFunction && rest.head?.any Item.opensGroup then
        match Item.takeGroup? 0 rest.tail with
        | none => .error (CompileError.Cause.bracketBalance.atSpan (rest.head?.elim default Item.span))
        | some (inner, close, after) => do
          let runs ← argumentRuns item.text (rest.head?.elim default Item.span) inner
          let (items, later) ← (builder.addLists runs).regroup after
          return (.call item.text (List.range' builder.lists.size runs.length) (item.span.cover close)
            item.position :: items, later)
      else if item.isComma then .error (CompileError.Cause.unexpectedComma.atSpan item.span)
      else if item.closesGroup then .error (CompileError.Cause.bracketOrder.atSpan item.span)
      else do
        let (items, later) ← builder.regroup rest
        return (item :: items, later) := by
  rw [regroup]
  split
  · split
    · next none => rw [none]
    · next inner close after some =>
      rw [some]
      simp only
      cases (builder.addList inner (item.span.cover close)).regroup after <;> rfl
  split
  · split
    · next none => rw [none]
    · next inner close after some =>
      rw [some]
      simp only
      cases argumentRuns item.text (rest.head?.elim default Item.span) inner with
      | error error => rfl
      | ok runs =>
        simp only [bind, Except.bind]
        cases (builder.addLists runs).regroup after <;> rfl
  split
  · rfl
  split
  · rfl
  · cases builder.regroup rest <;> rfl

/-- The second builder has the lists and the tree of the first one as they are seen, behind the lists `front`. Only
the places of lists may differ. -/
structure Sees (view : View) (front : Array WorkList) (builder image : Builder) : Prop where
  source : image.source = view.source
  size : image.lists.size = view.lists + builder.lists.size
  front : ∀ list : Nat, list < view.lists → image.lists[list]? = front[list]?
  lists : ∀ list : Nat, (image.lists[view.list list]?).map (fun l => (l.items, l.node)) =
    (builder.lists[list]?).map fun l => (l.items.map (Item.viewed view), l.node)
  tree : image.tree = builder.tree.viewed view

/-- What comes with the first builder is changed to what comes with the second one. -/
def Hands {α β : Type} (view : View) (front : Array WorkList) (change : α → β) (reply : α × Builder)
    (reply' : β × Builder) : Prop :=
  change reply.1 = reply'.1 ∧ Sees view front reply.2 reply'.2

namespace Sees

variable {front : Array WorkList} {builder image : Builder}

theorem itemsOf (sees : Sees view front builder image) (list : ListId) :
    image.itemsOf (view.list list) = (builder.itemsOf list).map (Item.viewed view) := by
  have same := sees.lists list
  unfold Builder.itemsOf
  cases found : builder.lists[list]? <;> cases found' : image.lists[view.list list]? <;> simp_all

theorem nodeOf (sees : Sees view front builder image) (list : ListId) :
    image.nodeOf (view.list list) = builder.nodeOf list := by
  have same := sees.lists list
  unfold Builder.nodeOf
  cases found : builder.lists[list]? <;> cases found' : image.lists[view.list list]? <;> simp_all

theorem isReady (sees : Sees view front builder image) (item : Item) :
    image.isReady (item.viewed view) = builder.isReady item := by
  have ready (list : ListId) : (image.lists[view.list list]?).any (·.node.isSome) =
      (builder.lists[list]?).any (·.node.isSome) := by
    have same := sees.lists list
    cases found : builder.lists[list]? <;> cases found' : image.lists[view.list list]? <;> simp_all
  simp only [Builder.isReady, Item.lists_viewed, List.all_map, Function.comp_def, ready]

theorem addList (sees : Sees view front builder image) (items : List Item) (span span' : Span) :
    Sees view front (builder.addList items span) (image.addList (items.map (Item.viewed view)) span') := by
  have size := sees.size
  refine ⟨sees.source, ?_, fun list lt => ?_, fun list => ?_, sees.tree⟩
  · simp [Builder.addList, size, Nat.add_assoc]
  · have old : list ≠ image.lists.size := by omega
    simp only [Builder.addList, Array.getElem?_push, if_neg old]
    exact sees.front list lt
  · have last : view.list list = image.lists.size ↔ list = builder.lists.size := by
      rw [View.list, size]
      omega
    simp only [Builder.addList, Array.getElem?_push, last]
    split
    · rfl
    · exact sees.lists list

theorem addLists (sees : Sees view front builder image) (runs : List (List Item)) :
    Sees view front (builder.addLists runs) (image.addLists (runs.map (List.map (Item.viewed view)))) := by
  induction runs generalizing builder image with
  | nil => exact sees
  | cons run runs ih => exact ih (sees.addList run _ _)

/-- One list may be changed on both sides. -/
private theorem modify (sees : Sees view front builder image) (list : ListId) {change change' : WorkList → WorkList}
    (same : ∀ l l', l'.items = l.items.map (Item.viewed view) → l'.node = l.node →
      (change' l').items = (change l).items.map (Item.viewed view) ∧ (change' l').node = (change l).node) :
    Sees view front { builder with lists := builder.lists.modify list change }
      { image with lists := image.lists.modify (view.list list) change' } := by
  refine ⟨sees.source, by simp [sees.size], fun other lt => ?_, fun other => ?_, sees.tree⟩
  · have ne : view.list list ≠ other := by
      rw [View.list]
      omega
    simp only [Array.getElem?_modify, if_neg ne]
    exact sees.front other lt
  · have here : view.list list = view.list other ↔ list = other := Nat.add_left_cancel_iff
    have contents := sees.lists other
    simp only [Array.getElem?_modify, here]
    split
    · cases found : builder.lists[other]? with
      | none => cases found' : image.lists[view.list other]? <;> simp_all
      | some l =>
        cases found' : image.lists[view.list other]? with
        | none => simp_all
        | some l' =>
          simp only [found, found', Option.map_some, Option.some.injEq, Prod.mk.injEq] at contents ⊢
          exact same l l' contents.1 contents.2
    · exact contents

theorem setItems (sees : Sees view front builder image) (list : ListId) (items : List Item) :
    Sees view front (builder.setItems list items)
      (image.setItems (view.list list) (items.map (Item.viewed view))) :=
  sees.modify list fun _ _ _ node => ⟨rfl, node⟩

theorem finish (sees : Sees view front builder image) (list : ListId) (node : NodeId) :
    Sees view front (builder.finish list node) (image.finish (view.list list) node) :=
  sees.modify list fun _ _ _ _ => ⟨rfl, rfl⟩

/-- A group has the text that its place has in the source around. -/
theorem groupItem (sees : Sees view front builder image) (list : ListId) (span : Span) (position : Nat) :
    (builder.groupItem list span position).viewed view =
      image.groupItem (view.list list) (view.place span) (position + view.rank) := by
  rw [Builder.groupItem, Builder.groupItem, Item.viewed, sees.source]

theorem addNode (sees : Sees view front builder image) (node : Node) (children : List NodeId) :
    Hands view front id (builder.addNode node children) (image.addNode (node.viewed view) children) := by
  have attached : ∀ (children : List NodeId) (tree : Tree) (id : NodeId),
      (children.foldl (fun tree child => tree.attach id child) tree).viewed view =
        children.foldl (fun tree child => tree.attach id child) (tree.viewed view) := by
    intro children tree id
    induction children generalizing tree with
    | nil => rfl
    | cons child rest ih => rw [List.foldl_cons, List.foldl_cons, ih, Tree.attach_viewed]
  have size : image.tree.size = builder.tree.size := by rw [sees.tree, Tree.size_viewed]
  refine ⟨size.symm, sees.source, sees.size, sees.front, sees.lists, ?_⟩
  simp only [Builder.addNode, attached, Tree.push_viewed, size]
  rw [sees.tree]

theorem takeNode (sees : Sees view front builder image) (list : ListId) (span span' : Span) :
    Parallel (Hands view front id) (builder.takeNode list span) (image.takeNode (view.list list) span') := by
  have node := sees.nodeOf list
  simp only [Builder.nodeOf] at node
  rw [Builder.takeNode, Builder.takeNode, node]
  cases (builder.lists[list]?).bind (·.node) with
  | none => exact .error rfl
  | some node => exact .ok ⟨rfl, sees.modify list fun _ _ items _ => ⟨items, rfl⟩⟩

theorem takeNodes (sees : Sees view front builder image) (lists : List ListId) (span span' : Span) :
    Parallel (Hands view front id) (builder.takeNodes span lists)
      (image.takeNodes span' (lists.map view.list)) := by
  induction lists generalizing builder image with
  | nil => exact .ok ⟨rfl, sees⟩
  | cons list rest ih =>
    apply (sees.takeNode list span span').bind
    rintro ⟨node, builder⟩ ⟨_, image⟩ ⟨rfl, sees⟩
    apply (ih sees).bind
    rintro ⟨nodes, builder⟩ ⟨_, image⟩ ⟨rfl, sees⟩
    exact .ok ⟨rfl, sees⟩

theorem linkOperand (sees : Sees view front builder image) (item : Item) :
    Parallel (Hands view front id) (builder.linkOperand item) (image.linkOperand (item.viewed view)) := by
  cases item with
  | lexeme lexeme =>
    obtain ⟨text, span, position, kind⟩ := lexeme
    cases kind with
    | constant value => exact .ok (sees.addNode (.alone .constant span (.owned value)) [])
    | «variable» cell => exact .ok (sees.addNode (.alone (.variable text) span (.aliased cell)) [])
    | unresolved | operator | function => exact .error rfl
  | group list text span position => exact sees.takeNode list span (view.place span)
  | call name arguments span position =>
    apply (sees.takeNodes arguments span (view.place span)).bind
    rintro ⟨children, builder⟩ ⟨_, image⟩ ⟨rfl, sees⟩
    exact .ok (sees.addNode (.alone (.call name) span (.owned .void)) children)

theorem linkOperands (sees : Sees view front builder image) (items : List Item) :
    Parallel (Hands view front id) (builder.linkOperands items)
      (image.linkOperands (items.map (Item.viewed view))) := by
  induction items generalizing builder image with
  | nil => exact .ok ⟨rfl, sees⟩
  | cons item rest ih =>
    simp only [List.map_cons, Builder.linkOperands, Item.isOperator_viewed]
    apply Parallel.ite
    · intro _
      exact ih sees
    · intro _
      apply (sees.linkOperand item).bind
      rintro ⟨node, builder⟩ ⟨_, image⟩ ⟨rfl, sees⟩
      apply (ih sees).bind
      rintro ⟨nodes, builder⟩ ⟨_, image⟩ ⟨rfl, sees⟩
      exact .ok ⟨rfl, sees⟩

theorem linkOperator (sees : Sees view front builder image) {items : List Item} (nonempty : items ≠ []) (op : Operator)
    (fixity : Fixity) :
    Parallel (Hands view front id) (builder.linkOperator items op fixity)
      (image.linkOperator (items.map (Item.viewed view)) op fixity) := by
  apply (sees.linkOperands items).bind
  rintro ⟨children, builder⟩ ⟨_, image⟩ ⟨rfl, sees⟩
  rw [Item.coverOf_viewed nonempty]
  exact .ok (sees.addNode (.alone (.operator op fixity) (coverOf items) (.owned .void)) children)

theorem reduceOperand (sees : Sees view front builder image) (list : ListId) :
    Parallel (Hands view front id) (builder.reduceOperand list) (image.reduceOperand (view.list list)) := by
  rw [Builder.reduceOperand, Builder.reduceOperand, sees.itemsOf]
  cases builder.itemsOf list with
  | nil => exact .error rfl
  | cons item rest =>
    cases rest with
    | nil =>
      simp only [List.map_cons, List.map_nil, sees.isReady]
      apply Parallel.ite
      · intro _
        apply (sees.linkOperand item).bind
        rintro ⟨node, builder⟩ ⟨_, image⟩ ⟨rfl, sees⟩
        exact .ok ⟨rfl, sees.finish list node⟩
      · intro _
        exact .ok ⟨rfl, sees⟩
    | cons extra others => exact .error rfl

theorem reduceOperation (sees : Sees view front builder image) (list : ListId) (index : Nat) :
    Parallel (Hands view front id) (builder.reduceOperation list index)
      (image.reduceOperation (view.list list) index) := by
  have ready : ∀ items : List Item, (items.map (Item.viewed view)).all image.isReady =
      items.all builder.isReady := by
    intro items
    simp only [List.all_map, Function.comp_def, sees.isReady]
  simp only [Builder.reduceOperation, sees.itemsOf, ready]
  generalize builder.itemsOf list = items
  apply Parallel.ite
  · intro _
    exact .ok ⟨rfl, sees⟩
  intro _
  rw [List.getElem?_map]
  cases found : items[index]? with
  | none => exact .ok ⟨rfl, sees⟩
  | some item =>
    have nonempty : items ≠ [] := by
      rintro rfl
      cases found
    simp only [Option.map_some, Item.occurrence?_viewed, Item.fixity?_viewed]
    cases item.occurrence? with
    | none => exact .error rfl
    | some occurrence =>
      simp only
      cases Item.fixity? occurrence items index with
      | none => exact .error rfl
      | some fixity =>
        simp only [← List.map_take, List.getLast?_map, List.getElem?_map]
        cases (items.take (Item.operandRange index fixity).1).getLast? with
        | some extra => exact .error rfl
        | none =>
          cases items[(Item.operandRange index fixity).2 + 1]? with
          | some extra => exact .error rfl
          | none =>
            apply (sees.linkOperator nonempty occurrence.operator fixity).bind
            rintro ⟨node, builder⟩ ⟨_, image⟩ ⟨rfl, sees⟩
            exact .ok ⟨rfl, sees.finish list node⟩

theorem regroup (sees : Sees view front builder image) (items : List Item) :
    Parallel (Hands view front (List.map (Item.viewed view))) (builder.regroup items)
      (image.regroup (items.map (Item.viewed view))) := by
  -- A group is skipped as a whole, so the length of what is left decides.
  induction count : items.length using Nat.strongRecOn generalizing builder image items with
  | ind count ih =>
    subst count
    cases items with
    | nil =>
      rw [List.map_nil, Builder.regroup, Builder.regroup]
      exact .ok ⟨rfl, sees⟩
    | cons item rest =>
      have brackets : (rest.map (Item.viewed view)).head?.any Item.opensGroup =
          rest.head?.any Item.opensGroup := by
        cases rest <;> simp
      simp only [List.map_cons, regroup_cons, Item.opensGroup_viewed, Item.isFunction_viewed,
        Item.isComma_viewed, Item.closesGroup_viewed, brackets, ← List.map_tail, Item.takeGroup?_viewed]
      apply Parallel.ite
      · intro _
        cases taken : Item.takeGroup? 0 rest with
        | none => exact .error rfl
        | some found =>
          obtain ⟨inner, close, after⟩ := found
          have shorter := Item.length_of_takeGroup? taken
          simp only [Option.map_some, Item.span_viewed, Item.position_viewed, ← view.place_cover]
          apply (ih after.length (Nat.lt_succ_of_lt shorter)
            (sees.addList inner (item.span.cover close) _) after rfl).bind
          rintro ⟨items, builder'⟩ ⟨_, image'⟩ ⟨rfl, sees'⟩
          have group := sees.groupItem builder.lists.size (item.span.cover close) item.position
          rw [View.list, ← sees.size] at group
          exact .ok ⟨congrArg (· :: items.map (Item.viewed view)) group, sees'⟩
      intro _
      apply Parallel.ite
      · intro isCall
        rw [Bool.and_eq_true] at isCall
        cases taken : Item.takeGroup? 0 rest.tail with
        | none => exact .error rfl
        | some found =>
          obtain ⟨inner, close, after⟩ := found
          have shorter := Item.length_of_takeGroup? taken
          simp only [Option.map_some, Item.span_viewed, Item.position_viewed, Item.text_viewed view item isCall.1]
          apply Parallel.bind (argumentRuns_viewed item.text _ _ inner)
          rintro runs _ rfl
          apply (ih after.length (by rw [List.length_tail] at shorter; rw [List.length_cons]; omega)
            (sees.addLists runs) after rfl).bind
          rintro ⟨items, builder'⟩ ⟨_, image'⟩ ⟨rfl, sees'⟩
          have numbers : (List.range' builder.lists.size runs.length).map view.list =
              List.range' image.lists.size runs.length := by
            rw [sees.size]
            exact List.map_add_range' ..
          refine .ok ⟨?_, sees'⟩
          simp only [List.map_cons, Item.viewed, numbers, List.length_map, view.place_cover]
      intro _
      apply Parallel.ite
      · intro _
        exact .error rfl
      intro _
      apply Parallel.ite
      · intro _
        exact .error rfl
      intro _
      apply (ih rest.length (Nat.lt_succ_self _) sees rest rfl).bind
      rintro ⟨items, builder'⟩ ⟨_, image'⟩ ⟨rfl, sees'⟩
      exact .ok ⟨rfl, sees'⟩

end Sees

/-- The rank as it is seen. -/
def Rank.viewed (view : View) (rank : Rank) : Rank :=
  { rank with position := rank.position + view.rank }

theorem Rank.of?_viewed (item : Item) : Rank.of? (item.viewed view) = (Rank.of? item).map (Rank.viewed view) := by
  simp only [Rank.of?, Item.isOperator_viewed, Item.occurrence?_viewed, Item.position_viewed]
  split
  · cases item.occurrence? <;> rfl
  · rfl

theorem Rank.notAfter_viewed (a b : Rank) : notAfter (a.viewed view) (b.viewed view) = notAfter a b := by
  simp only [notAfter, viewed]
  cases a.associativity <;> simp only [Nat.add_le_add_iff_right] <;> rfl

/-- An operator is among the items that are cut out with it. -/
private theorem run_ne_nil {items : List Item} {index : Nat} (inside : index < items.length) (fixity : Fixity) :
    (items.take ((Item.operandRange index fixity).2 + 1)).drop (Item.operandRange index fixity).1 ≠ [] := by
  have around : (Item.operandRange index fixity).1 ≤ index ∧ index ≤ (Item.operandRange index fixity).2 := by
    cases fixity <;> simp [Item.operandRange]
  rw [ne_eq, List.drop_eq_nil_iff, List.length_take]
  omega

/-- The second cutting has got as far as the first one. -/
structure Cutting.Sees (view : View) (front : Array WorkList) (cutting image : Cutting) : Prop where
  items : image.items = cutting.items.map (Item.viewed view)
  deferred : image.deferred = cutting.deferred
  blocked : image.blocked = cutting.blocked
  count : image.count = cutting.count
  builder : Builder.Sees view front cutting.builder image.builder

namespace Cutting.Sees

variable {front : Array WorkList} {cutting image : Cutting}

theorem cut (sees : Cutting.Sees view front cutting image) (position : Nat) :
    Cutting.Sees view front (cutting.cut position) (image.cut (position + view.rank)) := by
  obtain ⟨items, deferred, blocked, count, builder⟩ := cutting
  obtain ⟨items', deferred', blocked', count', image⟩ := image
  obtain ⟨sameItems, sameDeferred, sameBlocked, sameCount, sees⟩ := sees
  dsimp only at sameItems sameDeferred sameBlocked sameCount sees
  subst sameItems sameDeferred sameBlocked sameCount
  have found : (items.map (Item.viewed view)).findIdx?
      (fun item => item.position == position + view.rank && item.isOperator) =
        items.findIdx? (fun item => item.position == position && item.isOperator) := by
    have same (item : Item) : (item.position + view.rank == position + view.rank) = (item.position == position) := by
      rw [Bool.eq_iff_iff, beq_iff_eq, beq_iff_eq, Nat.add_right_cancel_iff]
    simp only [List.findIdx?_map, Function.comp_def, Item.position_viewed, Item.isOperator_viewed, same]
  have occurrence (index : Nat) : ((items.map (Item.viewed view))[index]?).bind Item.occurrence? =
      (items[index]?).bind Item.occurrence? := by
    rw [List.getElem?_map]
    cases items[index]? <;> simp
  simp only [Cutting.cut, found, occurrence, Item.fixity?_viewed]
  cases isIt : items.findIdx? (fun item => item.position == position && item.isOperator) with
  | none => exact ⟨rfl, rfl, rfl, rfl, sees⟩
  | some index =>
    simp only
    cases (items[index]?).bind Item.occurrence? with
    | none => exact ⟨rfl, rfl, rfl, rfl, sees⟩
    | some occurrence =>
      simp only
      cases Item.fixity? occurrence items index with
      | none => exact ⟨rfl, rfl, rfl, rfl, sees⟩
      | some fixity =>
        simp only
        by_cases left : (fixity == .binary && blocked'.any (occurrence.precedence < ·)) = true
        · rw [if_pos left, if_pos left]
          exact ⟨rfl, rfl, rfl, rfl, sees⟩
        · rw [if_neg left, if_neg left]
          have nonempty := run_ne_nil (List.findIdx?_eq_some_iff_getElem.mp isIt).1 fixity
          simp only [← List.map_take, ← List.map_drop, Item.spanOf_viewed nonempty]
          refine ⟨?_, rfl, rfl, rfl, sees.addList _ _ _⟩
          simp only [List.map_append, List.map_cons, sees.groupItem, View.list, ← sees.size]

theorem cutAll (sees : Cutting.Sees view front cutting image) (ranks : List Rank) :
    Cutting.Sees view front (ranks.foldl (fun state rank => state.cut rank.position) cutting)
      ((ranks.map (Rank.viewed view)).foldl (fun state rank => state.cut rank.position) image) := by
  induction ranks generalizing cutting image with
  | nil => exact sees
  | cons rank ranks ih => exact ih (sees.cut rank.position)

end Cutting.Sees

namespace Sees

variable {front : Array WorkList} {builder image : Builder}

theorem reduceOperators (sees : Sees view front builder image) (list : ListId) :
    Parallel (Hands view front id) (builder.reduceOperators list) (image.reduceOperators (view.list list)) := by
  have ranks : (((builder.itemsOf list).map (Item.viewed view)).filterMap Rank.of?).mergeSort Rank.notAfter =
      (((builder.itemsOf list).filterMap Rank.of?).mergeSort Rank.notAfter).map (Rank.viewed view) := by
    rw [List.map_mergeSort fun a _ b _ => (Rank.notAfter_viewed a b).symm, List.map_filterMap, List.filterMap_map]
    exact congrArg (fun f => List.mergeSort (List.filterMap f _) _) (funext Rank.of?_viewed)
  simp only [Builder.reduceOperators, sees.itemsOf, ranks]
  generalize ((builder.itemsOf list).filterMap Rank.of?).mergeSort Rank.notAfter = ranks
  have start : Cutting.Sees view front ⟨builder.itemsOf list, none, none, 0, builder⟩
      ⟨(builder.itemsOf list).map (Item.viewed view), none, none, 0, image⟩ := ⟨rfl, rfl, rfl, rfl, sees⟩
  have done := start.cutAll ranks
  generalize ranks.foldl _ _ = cutting at done ⊢
  generalize (ranks.map (Rank.viewed view)).foldl _ _ = cutting' at done ⊢
  obtain ⟨sameItems, sameDeferred, -, sameCount, sees⟩ := done
  rw [sameItems, sameDeferred, sameCount]
  apply Parallel.ite
  · intro _
    have culprit : ((cutting.deferred.bind ((cutting.items.map (Item.viewed view))[·]?)) <|>
        (cutting.items.map (Item.viewed view)).head?) =
          ((cutting.deferred.bind (cutting.items[·]?)) <|> cutting.items.head?).map (Item.viewed view) := by
      cases cutting.deferred with
      | none => simp
      | some index =>
        simp only [Option.bind_some, List.getElem?_map, List.head?_map]
        cases cutting.items[index]? <;> rfl
    rw [culprit]
    cases ((cutting.deferred.bind (cutting.items[·]?)) <|> cutting.items.head?) <;> exact .error rfl
  · intro _
    exact .ok ⟨rfl, sees.setItems list cutting.items⟩

theorem reduce (sees : Sees view front builder image) (list : ListId) :
    Parallel (Hands view front id) (builder.reduce list) (image.reduce (view.list list)) := by
  have indices : operatorIndices ((builder.itemsOf list).map (Item.viewed view)) =
      operatorIndices (builder.itemsOf list) := by
    simp [operatorIndices, List.zipIdx_map, List.filter_map, Function.comp_def]
  simp only [Builder.reduce, sees.itemsOf, indices]
  cases operatorIndices (builder.itemsOf list) with
  | nil => exact sees.reduceOperand list
  | cons index others =>
    cases others with
    | nil => exact sees.reduceOperation list index
    | cons => exact sees.reduceOperators list

theorem process (sees : Sees view front builder image) (list : ListId) :
    Parallel (Hands view front id) (builder.process list) (image.process (view.list list)) := by
  have groups : hasGroups ((builder.itemsOf list).map (Item.viewed view)) = hasGroups (builder.itemsOf list) := by
    simp [hasGroups, Function.comp_def]
  simp only [Builder.process, sees.itemsOf, groups]
  apply Parallel.ite
  · intro _
    apply (sees.regroup (builder.itemsOf list)).bind
    rintro ⟨items, builder⟩ ⟨_, image⟩ ⟨rfl, sees⟩
    apply ((sees.setItems list items).reduce list).bind
    rintro ⟨step, builder⟩ ⟨_, image⟩ ⟨rfl, sees⟩
    exact .ok ⟨rfl, sees⟩
  · intro _
    exact sees.reduce list

/-- New lists have the same numbers but for the lists that were there before. -/
theorem numbers (sees : Sees view front builder image) {after : Builder} {image' : Builder}
    (sees' : Sees view front after image') :
    List.range' image.lists.size (image'.lists.size - image.lists.size) =
      (List.range' builder.lists.size (after.lists.size - builder.lists.size)).map view.list := by
  rw [sees.size, sees'.size, Nat.add_sub_add_left]
  exact (List.map_add_range' ..).symm

end Sees

namespace Schedule

variable {front : Array WorkList}

/-- The second schedule has the lists of the first one to look at, as they are seen. -/
structure Sees (view : View) (front : Array WorkList) (schedule image : Schedule) : Prop where
  builder : Builder.Sees view front schedule.builder image.builder
  queue : image.queue = schedule.queue.map view.list
  stalled : image.stalled = schedule.stalled

theorem Sees.pass {schedule image : Schedule} (sees : Sees view front schedule image) (list : ListId)
    (rest : List ListId) :
    Parallel (Sees view front) (schedule.pass list rest) (image.pass (view.list list) (rest.map view.list)) := by
  apply (sees.builder.process list).bind
  rintro ⟨step, after⟩ ⟨_, image'⟩ ⟨rfl, sees'⟩
  simp only [id, sees.builder.numbers sees', List.length_map, sees.stalled]
  cases step with
  | done => exact .ok ⟨sees', (List.map_append ..).symm, rfl⟩
  | progress => exact .ok ⟨sees', by simp, rfl⟩
  | waiting =>
    apply Parallel.ite
    · intro _
      exact .error rfl
    · intro _
      exact .ok ⟨sees', by simp, rfl⟩

/-- However many passes there may be, the same number is needed. -/
theorem Sees.run {schedule image : Schedule} (sees : Sees view front schedule image) (limit left : Nat) :
    Parallel (Builder.Sees view front) (schedule.run limit left) (image.run limit left) := by
  induction left generalizing schedule image with
  | zero =>
    cases queued : schedule.queue with
    | nil =>
      rw [run_nil queued, run_nil (by rw [sees.queue, queued, List.map_nil])]
      exact .ok sees.builder
    | cons list rest =>
      rw [run_zero queued, run_zero (by rw [sees.queue, queued, List.map_cons])]
      exact .error rfl
  | succ left ih =>
    cases queued : schedule.queue with
    | nil =>
      rw [run_nil queued, run_nil (by rw [sees.queue, queued, List.map_nil])]
      exact .ok sees.builder
    | cons list rest =>
      rw [run_succ queued, run_succ (by rw [sees.queue, queued, List.map_cons])]
      apply (sees.pass list rest).bind
      intro next next' sees'
      exact ih sees'

end Schedule

/-- Building a tree ends alike where no lists were there before. -/
theorem Sees.complete {front : Array WorkList} {builder image : Builder} (sees : Sees view front builder image)
    (alone : view.lists = 0) (unplaced : view.place default = default) (top : ListId) :
    Mirrors (Tree.viewed view) (builder.complete top) (image.complete top) := by
  have same (list : ListId) : view.list list = list := by rw [View.list, alone, Nat.zero_add]
  have taken := sees.takeNode top (Span.whole builder.source) (Span.whole image.source)
  rw [same] at taken
  apply taken.bind
  rintro ⟨result, builder⟩ ⟨_, image⟩ ⟨rfl, sees⟩
  have nodes : image.lists.toList.map (·.node) = builder.lists.toList.map (·.node) := by
    apply List.ext_getElem?
    intro list
    have contents := congrArg (Option.map Prod.snd) (sees.lists list)
    simpa [same, Option.map_map, Function.comp_def] using contents
  have left : image.lists.toList.countP (·.node.isSome) = builder.lists.toList.countP (·.node.isSome) := by
    have counts := congrArg (List.countP Option.isSome) nodes
    rwa [List.countP_map, List.countP_map] at counts
  have span : (image.tree.node result).span = view.place (builder.tree.node result).span := by
    rw [sees.tree]
    by_cases lt : (result : Nat) < builder.tree.size
    · rw [Tree.node_viewed view builder.tree lt, Node.span_viewed]
    · simp only [Tree.size] at lt
      simp only [Tree.node, Tree.viewed, Array.getElem?_map, Array.getElem?_eq_none (Nat.not_lt.mp lt)]
      exact unplaced.symm
  simp only [id, left, span]
  apply Parallel.ite
  · intro _
    exact .error rfl
  · intro _
    obtain ⟨root, added⟩ := sees.addNode (.alone .root (builder.tree.node result).span (.owned .void)) [result]
    apply Parallel.ok
    exact Tree.mk.injEq .. ▸ ⟨congrArg Tree.nodes added.tree.symm, congrArg some root⟩

end Builder

/-- Building a tree looks neither at places nor at the values of constants. -/
theorem Tree.build_viewed (label : Labelling) (source : String) (lexemes : List Lexeme) (passLimit : Nat) :
    Mirrors (Tree.viewed (.blank label)) (Tree.build source lexemes passLimit)
      (Tree.build "" (lexemes.map (Lexeme.viewed (.blank label))) passLimit) := by
  have start : Builder.Sees (.blank label) #[] (Builder.start source lexemes)
      (Builder.start "" (lexemes.map (Lexeme.viewed (.blank label)))) := by
    have empty : Builder.Sees (.blank label) #[] ⟨source, #[], .empty⟩ ⟨"", #[], .empty⟩ :=
      ⟨rfl, rfl, fun _ lt => absurd lt (Nat.not_lt_zero _), fun _ => by simp, by simp [viewed, empty]⟩
    have added := empty.addList (lexemes.map .lexeme) (Span.whole source) (Span.whole "")
    rw [List.map_map] at added
    rw [Builder.start, Builder.start, List.map_map]
    exact added
  have schedule : Builder.Schedule.Sees (.blank label) #[] ⟨Builder.start source lexemes, [0], 0⟩
      ⟨Builder.start "" (lexemes.map (Lexeme.viewed (.blank label))), [0], 0⟩ := ⟨start, rfl, rfl⟩
  apply (schedule.run passLimit passLimit).bind
  intro builder image sees
  exact sees.complete rfl rfl 0

end Reckoner

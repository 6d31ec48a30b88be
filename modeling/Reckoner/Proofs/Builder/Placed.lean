import Reckoner.Proofs.Builder.Growth
import Reckoner.Proofs.Lexeme.Laid

/-!
Where the lists, the items and the nodes of a builder lie in the source. The members of a list are in a row in the
place of the list, and so are the children of a node in that of the node. A group lies where its list does, and a
call from its name to its closing parenthesis. Places of what has been made do not change any more, so that each
operation has to be looked at only for what it makes.
-/
namespace Reckoner

open Reckoner.Span

/-- The place of a call, from the name of the function to the parenthesis that closes the one after the name. -/
inductive Lexeme.CallAt : List Lexeme → String → Span → Prop where
  | intro (front : List Lexeme) {function opening closing : Lexeme} {inner : List Lexeme} (back : List Lexeme) :
      function.kind = .function → opening.opensGroup = true → closing.closesGroup = true →
      Token.Balanced 0 (inner.map Lexeme.token) →
      CallAt (front ++ function :: opening :: (inner ++ closing :: back)) function.text
        ⟨function.span.start, closing.span.stop⟩

/-- A node with something in it lies around its children, which are in a row, and the node of a call where the
call is. -/
structure Tree.Encloses (tree : Tree) (source : String) (lexemes : List Lexeme) (id : Nat) : Prop where
  before : ∀ child : Nat, child ∈ (tree.node id).children → child < id
  fits : (tree.node id).span.Fits source
  nonempty : (tree.node id).span.start < (tree.node id).span.stop
  children : Row (tree.node id).span.start (tree.node id).span.stop
    ((tree.node id).children.map fun child => (tree.node child).span)
  call : ∀ name, (tree.node id).kind = .call name → Lexeme.CallAt lexemes name (tree.node id).span

/-- All nodes lie where they belong. -/
def Tree.Nested (tree : Tree) (source : String) (lexemes : List Lexeme) : Prop :=
  ∀ id : Nat, id < tree.size → tree.Encloses source lexemes id

/-- Where a node lies depends on its kind and on the places of the node and of its children alone. -/
theorem Tree.Encloses.congr {tree other : Tree} {source : String} {lexemes : List Lexeme} {id : Nat}
    (h : tree.Encloses source lexemes id) (kind : (other.node id).kind = (tree.node id).kind)
    (children : (other.node id).children = (tree.node id).children)
    (spans : ∀ node : Nat, node ≤ id → (other.node node).span = (tree.node node).span) :
    other.Encloses source lexemes id := by
  have here := spans id (Nat.le_refl id)
  have below : (other.node id).children.map (fun child => (other.node child).span) =
      (tree.node id).children.map fun child => (tree.node child).span := by
    rw [children]
    exact List.map_congr_left fun child mem => spans child (Nat.le_of_lt (h.before child mem))
  constructor
  · rw [children]
    exact h.before
  · rw [here]
    exact h.fits
  · rw [here]
    exact h.nonempty
  · rw [here, below]
    exact h.children
  · rw [kind, here]
    exact h.call

/-- A group lies where its list does, with the text that it covers there. The arguments of a call are in a row
where the call is. -/
inductive Item.Placed (source : String) (lexemes : List Lexeme) (builder : Builder) : Item → Prop where
  | lexeme {lexeme : Lexeme} : lexeme ∈ lexemes → Placed source lexemes builder (.lexeme lexeme)
  | group {list : Nat} {text : String} (position : Nat) : list < builder.lists.size →
      (builder.spanOf list).text? source = some text →
      Placed source lexemes builder (.group list text (builder.spanOf list) position)
  | call {name : String} {arguments : List ListId} {span : Span} (position : Nat) :
      (∀ list : Nat, list ∈ arguments → list < builder.lists.size) →
      Row span.start span.stop (arguments.map builder.spanOf) → Lexeme.CallAt lexemes name span →
      Placed source lexemes builder (.call name arguments span position)

namespace Builder

/-- Members that are in a row in a place. They are lexemes as they follow each other in the source until groups
and calls are taken out. -/
structure Laid (source : String) (lexemes : List Lexeme) (builder : Builder) (outer : Span) (items : List Item) :
    Prop where
  fits : outer.Fits source
  row : Row outer.start outer.stop (items.map Item.span)
  placed : ∀ item ∈ items, item.Placed source lexemes builder
  raw : hasGroups items = true → ∃ run, run <:+: lexemes ∧ items = run.map .lexeme

/-- All lists and nodes lie where they belong, and the nodes of finished lists in the places of the lists. -/
structure Placed (source : String) (lexemes : List Lexeme) (builder : Builder) : Prop where
  source_eq : builder.source = source
  origin : Lexeme.Laid source lexemes
  lists : ∀ list, builder.Laid source lexemes (builder.spanOf list) (builder.itemsOf list)
  finished : ∀ list node, builder.nodeOf list = some node →
    node < builder.tree.size ∧ (builder.tree.node node).span.Inside (builder.spanOf list)
  nodes : builder.tree.Nested source lexemes

/-- What was made before is still there, and where it was. -/
structure Extends (builder after : Builder) : Prop where
  size_le : builder.lists.size ≤ after.lists.size
  spanOf_eq : ∀ list : Nat, list < builder.lists.size → after.spanOf list = builder.spanOf list
  tree_size_le : builder.tree.size ≤ after.tree.size
  span_eq : ∀ id : Nat, id < builder.tree.size → (after.tree.node id).span = (builder.tree.node id).span

/-- All lies where it belongs afterwards, and nothing was moved. -/
structure Advances (source : String) (lexemes : List Lexeme) (builder after : Builder) : Prop where
  placed : after.Placed source lexemes
  kept : builder.Extends after

variable {source : String} {lexemes : List Lexeme} {builder between after : Builder} {outer span : Span}
  {items : List Item}

namespace Extends

theorem refl (builder : Builder) : builder.Extends builder :=
  ⟨Nat.le_refl _, fun _ _ => rfl, Nat.le_refl _, fun _ _ => rfl⟩

theorem trans (first : builder.Extends between) (second : between.Extends after) : builder.Extends after where
  size_le := Nat.le_trans first.size_le second.size_le
  spanOf_eq list small := (second.spanOf_eq list (Nat.lt_of_lt_of_le small first.size_le)).trans
    (first.spanOf_eq list small)
  tree_size_le := Nat.le_trans first.tree_size_le second.tree_size_le
  span_eq id small := (second.span_eq id (Nat.lt_of_lt_of_le small first.tree_size_le)).trans
    (first.span_eq id small)

theorem spans_eq (kept : builder.Extends after) {nodes : List NodeId}
    (small : ∀ node : Nat, node ∈ nodes → node < builder.tree.size) :
    nodes.map (fun node => (after.tree.node node).span) =
      nodes.map fun node => (builder.tree.node node).span :=
  List.map_congr_left fun node mem => kept.span_eq node (small node mem)

theorem item (kept : builder.Extends after) {item : Item} (placed : item.Placed source lexemes builder) :
    item.Placed source lexemes after := by
  cases placed with
  | lexeme mem => exact .lexeme mem
  | @group list text position small read =>
    rw [← kept.spanOf_eq list small] at read ⊢
    exact .group position (Nat.lt_of_lt_of_le small kept.size_le) read
  | @call name arguments span position small row isCall =>
    refine .call position (fun list mem => Nat.lt_of_lt_of_le (small list mem) kept.size_le) ?_ isCall
    rwa [List.map_congr_left fun list mem => kept.spanOf_eq list (small list mem)]

theorem laid (kept : builder.Extends after) (laid : builder.Laid source lexemes outer items) :
    after.Laid source lexemes outer items where
  fits := laid.fits
  row := laid.row
  placed item mem := kept.item (laid.placed item mem)
  raw := laid.raw

end Extends

theorem Advances.refl (placed : builder.Placed source lexemes) : builder.Advances source lexemes builder :=
  ⟨placed, .refl builder⟩

theorem Advances.trans (first : builder.Advances source lexemes between)
    (second : between.Advances source lexemes after) : builder.Advances source lexemes after :=
  ⟨second.placed, first.kept.trans second.kept⟩

theorem laid_nil (fits : outer.Fits source) : builder.Laid source lexemes outer [] :=
  ⟨fits, fits.ordered, by simp, by simp [hasGroups]⟩

namespace Placed

/-- A list that lies where it belongs can be added. -/
theorem addList (placed : builder.Placed source lexemes) (laid : builder.Laid source lexemes span items) :
    builder.Advances source lexemes (builder.addList items span) := by
  have kept : builder.Extends (builder.addList items span) := by
    refine ⟨by simp [Builder.addList], fun list small => ?_, Nat.le_refl _, fun _ _ => rfl⟩
    rw [spanOf_addList, if_neg (Nat.ne_of_lt small)]
  refine ⟨⟨placed.source_eq, placed.origin, fun list => ?_, fun list node found => ?_, placed.nodes⟩, kept⟩
  · rw [spanOf_addList, itemsOf_addList]
    split
    · exact kept.laid laid
    · exact kept.laid (placed.lists list)
  · rw [nodeOf_addList] at found
    rw [spanOf_addList, if_neg (Nat.ne_of_lt (lt_size_of_nodeOf builder found))]
    exact placed.finished list node found

/-- The members of a list can be replaced by others that lie where the list does. -/
theorem setItems (placed : builder.Placed source lexemes) {list : ListId}
    (laid : builder.Laid source lexemes (builder.spanOf list) items) :
    builder.Advances source lexemes (builder.setItems list items) := by
  have kept : builder.Extends (builder.setItems list items) := by
    refine ⟨by simp, fun other _ => by simp, Nat.le_refl _, fun _ _ => rfl⟩
  refine ⟨⟨placed.source_eq, placed.origin, fun other => ?_, fun other node found => ?_, placed.nodes⟩, kept⟩
  · rw [spanOf_setItems]
    by_cases inside : list < builder.lists.size
    · rw [itemsOf_setItems builder inside]
      split
      · next same => exact same ▸ kept.laid laid
      · exact kept.laid (placed.lists other)
    · rw [setItems_of_size_le builder (Nat.not_lt.mp inside)]
      exact placed.lists other
  · rw [nodeOf_setItems] at found
    rw [spanOf_setItems]
    exact placed.finished other node found

/-- The node of a list can be taken. -/
theorem release (placed : builder.Placed source lexemes) (list : ListId) :
    builder.Advances source lexemes (builder.release list) := by
  have kept : builder.Extends (builder.release list) := by
    refine ⟨by simp [Builder.release], fun other _ => by simp, Nat.le_refl _, fun _ _ => rfl⟩
  refine ⟨⟨placed.source_eq, placed.origin, fun other => ?_, fun other node found => ?_, placed.nodes⟩, kept⟩
  · have same : (builder.release list).itemsOf other = builder.itemsOf other :=
      itemsOf_releaseAll builder [list] other
    rw [spanOf_release, same]
    exact kept.laid (placed.lists other)
  · rw [nodeOf_release] at found
    split at found
    · cases found
    · rw [spanOf_release]
      exact placed.finished other node found

/-- A list can become a node that lies in its place. -/
theorem finish (placed : builder.Placed source lexemes) {list node : Nat} (made : node < builder.tree.size)
    (inside : (builder.tree.node node).span.Inside (builder.spanOf list)) :
    builder.Advances source lexemes (builder.finish list node) := by
  have kept : builder.Extends (builder.finish list node) := by
    refine ⟨by simp, fun other _ => by simp, Nat.le_refl _, fun _ _ => rfl⟩
  refine ⟨⟨placed.source_eq, placed.origin, fun other => ?_, fun other found isNode => ?_, placed.nodes⟩, kept⟩
  · rw [spanOf_finish, itemsOf_finish]
    split
    · exact laid_nil (placed.lists other).fits
    · exact kept.laid (placed.lists other)
  · rw [spanOf_finish]
    by_cases known : list < builder.lists.size
    · rw [nodeOf_finish builder known] at isNode
      split at isNode
      · next same =>
        subst same
        cases isNode
        exact ⟨made, inside⟩
      · exact placed.finished other found isNode
    · rw [finish_of_size_le builder (Nat.not_lt.mp known)] at isNode
      exact placed.finished other found isNode

end Placed

/-- The reply is a node in the given place, and otherwise the builder only went on. -/
structure Made (source : String) (lexemes : List Lexeme) (builder : Builder) (outer : Span)
    (reply : NodeId × Builder) : Prop extends Advances source lexemes builder reply.2 where
  made : reply.1 < reply.2.tree.size
  inside : (reply.2.tree.node reply.1).span.Inside outer

theorem Made.widen {reply : NodeId × Builder} (made : builder.Made source lexemes span reply)
    (inside : span.Inside outer) : builder.Made source lexemes outer reply :=
  ⟨made.toAdvances, made.made, made.inside.trans inside⟩

/-- The reply are nodes in a row between two places. -/
structure MadeRow (source : String) (lexemes : List Lexeme) (builder : Builder) (start stop : Nat)
    (reply : List NodeId × Builder) : Prop extends Advances source lexemes builder reply.2 where
  made : ∀ node : Nat, node ∈ reply.1 → node < reply.2.tree.size
  row : Row start stop (reply.1.map fun node => (reply.2.tree.node node).span)

namespace MadeRow

variable {start stop : Nat} {node : NodeId} {nodes : List NodeId}

theorem nil (placed : builder.Placed source lexemes) (ordered : start ≤ stop) :
    builder.MadeRow source lexemes start stop ([], builder) :=
  ⟨.refl placed, by simp, ordered⟩

/-- One more node in front of a row. -/
theorem cons (first : builder.Made source lexemes outer (node, between)) (starts : start ≤ outer.start)
    (others : between.MadeRow source lexemes outer.stop stop (nodes, after)) :
    builder.MadeRow source lexemes start stop (node :: nodes, after) := by
  have same := others.kept.span_eq node first.made
  obtain ⟨behind, ahead⟩ := first.inside
  refine ⟨first.toAdvances.trans others.toAdvances, ?_, ?_⟩
  · exact List.forall_mem_cons.mpr ⟨Nat.lt_of_lt_of_le first.made others.kept.tree_size_le, others.made⟩
  · rw [List.map_cons, same]
    refine ⟨Nat.le_trans starts behind, (first.placed.nodes node first.made).nonempty, ?_⟩
    exact others.row.mono ahead (Nat.le_refl _)

/-- A node can be put above a row of nodes in its place. -/
theorem addNode (children : builder.MadeRow source lexemes span.start span.stop (nodes, after))
    (fits : span.Fits source) (nonempty : span.start < span.stop) {kind : Node.Kind} (slot : Slot)
    (call : ∀ name, kind = .call name → Lexeme.CallAt lexemes name span) :
    builder.Made source lexemes span (after.addNode (.alone kind span slot) nodes) := by
  have small := children.made
  have size : (after.addNode (.alone kind span slot) nodes).2.tree.size = after.tree.size + 1 :=
    size_addNode after (.alone kind span slot) nodes
  have new : (after.addNode (.alone kind span slot) nodes).2.tree.node after.tree.size =
      { Node.alone kind span slot with children := nodes } := by
    rw [node_addNode _ small (Nat.lt_succ_self _), if_pos rfl]
    rfl
  have old := fun (id : Nat) (lt : id < after.tree.size) =>
    (node_addNode (.alone kind span slot) small (Nat.lt_succ_of_lt lt)).trans (if_neg (Nat.ne_of_lt lt))
  have kept : after.Extends (after.addNode (.alone kind span slot) nodes).2 :=
    ⟨Nat.le_refl _, fun _ _ => rfl, size ▸ Nat.le_succ _, fun id lt => by rw [old id lt]⟩
  refine ⟨⟨⟨children.placed.source_eq, children.placed.origin,
    fun list => kept.laid (children.placed.lists list), fun list node found => ?_, fun id lt => ?_⟩,
    children.kept.trans kept⟩, ?_, ?_⟩
  · obtain ⟨made, inside⟩ := children.placed.finished list node found
    rw [kept.span_eq node made]
    exact ⟨Nat.lt_of_lt_of_le made kept.tree_size_le, inside⟩
  · rw [size] at lt
    rcases Nat.lt_succ_iff_lt_or_eq.mp lt with lt | rfl
    · refine (children.placed.nodes id lt).congr (by rw [old id lt]) (by rw [old id lt]) fun node le => ?_
      exact kept.span_eq node (Nat.lt_of_le_of_lt le lt)
    · have row := children.row
      rw [← kept.spans_eq small] at row
      constructor <;> rwa [new]
  · rw [size]
    exact Nat.lt_succ_self _
  · exact new ▸ Inside.refl span

end MadeRow

end Builder

end Reckoner

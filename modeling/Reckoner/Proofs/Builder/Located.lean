import Reckoner.Proofs.Builder.Rows
import Reckoner.Proofs.Builder.Trail

/-!
Building in place. Every pass over a list leaves all lists and nodes where they belong, or fails at a place in the
source. So does a whole run, and the nodes of the tree that it gives lie around their children.
-/
namespace Reckoner.Builder

open Item Reckoner.Span

variable {source : String} {lexemes : List Lexeme} {builder between after : Builder} {items : List Item}
  {list : ListId} {start stop : Nat}

/-- Every member of a list that is out of place would be blamed on a place in the source. -/
private theorem unexpected_yields {α : Type} {property : α → Prop} {item : Item}
    (fits : item.span.Fits source) : Yields source property (.error item.unexpected) :=
  .atSpan _ fits

/-- The node that a list has become lies in the place of the list. -/
theorem takeNode_yields (placed : builder.Placed source lexemes) (list : ListId) {span : Span}
    (fits : span.Fits source) :
    Yields source (builder.Made source lexemes (builder.spanOf list)) (builder.takeNode list span) := by
  rw [takeNode]
  split
  · exact .atSpan _ fits
  · next node found =>
    obtain ⟨made, inside⟩ := placed.finished list node found
    exact ⟨placed.release list, made, inside⟩

/-- The nodes of several lists are in a row if the lists are. -/
theorem takeNodes_yields (placed : builder.Placed source lexemes) {lists : List ListId} {span : Span}
    (fits : span.Fits source) (small : ∀ list : Nat, list ∈ lists → list < builder.lists.size)
    (row : Row start stop (lists.map builder.spanOf)) :
    Yields source (builder.MadeRow source lexemes start stop) (builder.takeNodes span lists) := by
  induction lists generalizing builder start with
  | nil => exact .nil placed row
  | cons list rest ih =>
    obtain ⟨-, others⟩ := List.forall_mem_cons.mp small
    obtain ⟨starts, -, later⟩ := row
    refine (takeNode_yields placed list fits).bind fun reply first => ?_
    obtain ⟨node, between⟩ := reply
    have kept := first.kept
    rw [← List.map_congr_left fun other mem => kept.spanOf_eq other (others other mem)] at later
    refine (ih first.placed (fun other mem => Nat.lt_of_lt_of_le (others other mem) kept.size_le) later).bind
      fun reply rest => ?_
    exact MadeRow.cons first starts rest

/-- An operand becomes a node in its place. -/
theorem linkOperand_yields (placed : builder.Placed source lexemes) {item : Item}
    (here : item.Placed source lexemes builder) (some : item.span.start < item.span.stop) :
    Yields source (builder.Made source lexemes item.span) (builder.linkOperand item) := by
  have fits := here.fits placed.origin
  cases here with
  | lexeme mem =>
    have leaf := MadeRow.nil placed (Nat.le_of_lt some)
    rw [linkOperand]
    split
    · exact leaf.addNode fits some _ fun _ isCall => by cases isCall
    · exact leaf.addNode fits some _ fun _ isCall => by cases isCall
    · exact unexpected_yields fits
  | group position small read => exact takeNode_yields placed _ fits
  | call position small row isCall =>
    refine (takeNodes_yields placed fits small row).bind fun reply children => ?_
    refine children.addNode fits some _ fun name same => ?_
    cases same
    exact isCall

/-- The operands among items that are in a row become nodes in a row. -/
theorem linkOperands_yields (placed : builder.Placed source lexemes)
    (members : ∀ item ∈ items, item.Placed source lexemes builder) (row : Row start stop (items.map span)) :
    Yields source (builder.MadeRow source lexemes start stop) (builder.linkOperands items) := by
  induction items generalizing builder start with
  | nil => exact .nil placed row
  | cons item rest ih =>
    obtain ⟨here, others⟩ := List.forall_mem_cons.mp members
    obtain ⟨starts, some, later⟩ := row
    rw [linkOperands]
    split
    · exact ih placed others (later.mono (by omega) (Nat.le_refl _))
    · refine (linkOperand_yields placed here some).bind fun reply first => ?_
      obtain ⟨node, between⟩ := reply
      refine (ih first.placed (fun item mem => first.kept.item (others item mem)) later).bind
        fun reply rest => ?_
      exact MadeRow.cons first starts rest

/-- What covers all items of a row reaches from the first to the last of them. -/
theorem coverOf_eq (row : Row start stop (items.map span)) : coverOf items = Item.spanOf items := by
  have fold : ∀ {rest : List Item} {covered : Span}, covered.start ≤ covered.stop →
      Row covered.stop stop (rest.map span) → rest.foldl (fun span item => span.cover item.span) covered =
        ⟨covered.start, (rest.getLast?).elim covered.stop fun last => last.span.stop⟩ := by
    intro rest covered ordered row
    induction rest generalizing covered with
    | nil => rfl
    | cons item rest ih =>
      obtain ⟨behind, some, later⟩ := row
      have next : covered.cover item.span = ⟨covered.start, item.span.stop⟩ := by
        simp only [cover, Span.mk.injEq]
        omega
      rw [List.foldl_cons, next, @ih ⟨covered.start, item.span.stop⟩ (by simp only; omega) later]
      cases isLast : rest.getLast? <;> simp [List.getLast?_cons, isLast]
  cases items with
  | nil => rfl
  | cons item rest =>
    have isLast : ((item :: rest).map span).getLast? =
        some ((rest.getLast?).elim item.span fun last => last.span) := by
      cases isLast : rest.getLast? <;> simp [List.getLast?_cons, isLast]
    obtain ⟨hull, -⟩ := Row.hull row isLast
    rw [coverOf, fold (Nat.le_of_lt row.2.1) row.2.2]
    cases isLast : rest.getLast? with
    | none => simp [Item.spanOf, List.getLast?_cons, isLast, cover]
    | some last =>
      simp only [isLast, Option.elim_some] at hull
      simp [Item.spanOf, List.getLast?_cons, isLast, hull]

/-- An operator becomes a node in the place that it takes up together with its operands. -/
theorem linkOperator_yields (placed : builder.Placed source lexemes) {outer : Span}
    (laid : builder.Laid source lexemes outer items) (some : items ≠ []) (op : Operator) (fixity : Fixity) :
    Yields source (builder.Made source lexemes outer) (builder.linkOperator items op fixity) := by
  obtain ⟨starts, nonempty, stops, row⟩ := row_spanOf some laid.row
  refine (linkOperands_yields placed laid.placed row).bind fun reply children => ?_
  rw [coverOf_eq laid.row]
  have fits := fits_spanOf (laid.fits_item placed.origin)
  refine Made.widen (children.addNode fits nonempty _ ?_) ⟨starts, stops⟩
  intro name isCall
  cases isCall

/-- A list becomes the node that was made in its place. -/
private theorem Made.finish {list : Nat} {reply : NodeId × Builder}
    (made : builder.Made source lexemes (builder.spanOf list) reply) (known : list < builder.lists.size) :
    builder.Advances source lexemes (reply.2.finish list reply.1) := by
  have inside := made.inside
  rw [← made.kept.spanOf_eq list known] at inside
  exact made.toAdvances.trans (made.placed.finish made.made inside)

/-- What is done to a list leaves everything where it belongs, or fails at a place in the source. -/
private abbrev Succeeds (source : String) (lexemes : List Lexeme) (builder : Builder)
    (result : Except CompileError (Step × Builder)) : Prop :=
  Yields source (fun reply => builder.Advances source lexemes reply.2) result

private theorem reduceOperand_yields (placed : builder.Placed source lexemes) (list : ListId) :
    Succeeds source lexemes builder (builder.reduceOperand list) := by
  have laid := placed.lists list
  have fits := laid.fits_item placed.origin
  rw [reduceOperand]
  split
  · exact .atSpan _ laid.fits
  · next item alone =>
    split
    · have mem : item ∈ builder.itemsOf list := by simp [alone]
      obtain ⟨starts, some, stops⟩ := laid.row.inside _ (List.mem_map_of_mem mem)
      refine (linkOperand_yields placed (laid.placed item mem) some).bind fun reply made => ?_
      exact (made.widen ⟨starts, stops⟩).finish (lt_size_of_itemsOf builder (List.ne_nil_of_mem mem))
    · exact .refl placed
  · next extra _ whole => exact unexpected_yields (fits extra (by simp [whole]))

private theorem reduceOperation_yields (placed : builder.Placed source lexemes) (list : ListId) (index : Nat) :
    Succeeds source lexemes builder (builder.reduceOperation list index) := by
  have laid := placed.lists list
  have fits := laid.fits_item placed.origin
  simp only [reduceOperation]
  split
  · exact .refl placed
  split
  · exact .refl placed
  next item atIndex =>
  have mem := List.mem_of_getElem? atIndex
  split
  · exact unexpected_yields (fits item mem)
  split
  · exact .atSpan _ (fits item mem)
  split
  · next extra isLast =>
    exact unexpected_yields (fits extra (List.mem_of_mem_take (List.mem_of_getLast? isLast)))
  · next extra _ isNext => exact unexpected_yields (fits extra (List.mem_of_getElem? isNext))
  · refine (linkOperator_yields placed laid (List.ne_nil_of_mem mem) _ _).bind fun reply made => ?_
    exact made.finish (lt_size_of_itemsOf builder (List.ne_nil_of_mem mem))

/-- The item that is to blame when no operator could be cut out is one of the list. -/
private theorem mem_of_blamed {state : Cutting} {item : Item}
    (blamed : (state.deferred.bind (state.items[·]?) <|> state.items.head?) = some item) : item ∈ state.items := by
  cases first : state.deferred.bind (state.items[·]?) with
  | none =>
    rw [first] at blamed
    exact List.mem_of_mem_head? blamed
  | some other =>
    rw [first] at blamed
    cases blamed
    obtain ⟨index, -, found⟩ := Option.bind_eq_some_iff.mp first
    exact List.mem_of_getElem? found

private theorem reduceOperators_yields (placed : builder.Placed source lexemes) {list : Nat}
    (known : list < builder.lists.size) (flat : hasGroups (builder.itemsOf list) = false) :
    Succeeds source lexemes builder (builder.reduceOperators list) := by
  have begins : Cutting.Placed source lexemes builder (builder.spanOf list)
      (Cutting.begin builder (builder.itemsOf list)) :=
    ⟨.refl placed, placed.lists list, flat⟩
  have cutting := begins.cutAll (ranksOf (builder.itemsOf list))
  simp only [reduceOperators]
  split
  · split
    · next item blamed => exact .atSpan _ (cutting.laid.fits_item placed.origin item (mem_of_blamed blamed))
    · exact .atSpan _ (placed.lists list).fits
  · have laid := cutting.laid
    rw [← cutting.kept.spanOf_eq list known] at laid
    exact cutting.toAdvances.trans (cutting.placed.setItems laid)

private theorem reduce_yields (placed : builder.Placed source lexemes) {list : ListId}
    (flat : hasGroups (builder.itemsOf list) = false) : Succeeds source lexemes builder (builder.reduce list) := by
  rw [reduce]
  split
  · exact reduceOperand_yields placed list
  · next index _ => exact reduceOperation_yields placed list index
  · next none _ =>
    refine reduceOperators_yields placed (lt_size_of_itemsOf builder fun empty => none ?_) flat
    rw [empty]
    rfl

/-- A pass over a list leaves everything where it belongs, or fails at a place in the source. -/
theorem process_yields (placed : builder.Placed source lexemes) (list : ListId) :
    Succeeds source lexemes builder (builder.process list) := by
  simp only [process]
  split
  · next groups =>
    have laid := placed.lists list
    obtain ⟨run, part, whole⟩ := laid.raw groups
    have row := laid.row
    rw [whole, map_span_lexemes] at row
    rw [whole]
    refine (regroup_yields placed part row).bind fun reply regrouped => ?_
    obtain ⟨left, grouped⟩ := reply
    have known : list < builder.lists.size := lt_size_of_itemsOf builder fun empty => by
      rw [empty] at groups
      cases groups
    have laid := laid_flat laid.fits regrouped.row regrouped.members regrouped.flat
    rw [← regrouped.kept.spanOf_eq list known] at laid
    have stored := regrouped.placed.setItems laid
    have flat : hasGroups ((grouped.setItems list left).itemsOf list) = false := by
      rw [itemsOf_setItems _ (Nat.lt_of_lt_of_le known regrouped.kept.size_le), if_pos rfl]
      exact regrouped.flat
    refine (reduce_yields stored.placed flat).bind fun reply reduced => ?_
    exact (regrouped.toAdvances.trans stored).trans reduced
  · next noGroups => exact reduce_yields placed (by simpa using noGroups)

namespace Schedule

variable {schedule : Schedule}

/-- The next schedule has everything where it belongs. -/
theorem pass_yields (placed : schedule.builder.Placed source lexemes) (list : ListId) (rest : List ListId) :
    Yields source (fun next => next.builder.Placed source lexemes) (schedule.pass list rest) := by
  refine (process_yields placed list).bind fun answer reply => ?_
  obtain ⟨step, after⟩ := answer
  dsimp only
  split
  · exact reply.placed
  · exact reply.placed
  · split
    · exact .atSpan _ (reply.placed.lists list).fits
    · exact reply.placed

/-- So has what a run ends with. -/
theorem run_yields (limit left : Nat) (placed : schedule.builder.Placed source lexemes) :
    Yields source (fun built => built.Placed source lexemes) (run limit left schedule) := by
  induction left generalizing schedule with
  | zero =>
    cases queued : schedule.queue with
    | nil =>
      rw [run_nil queued]
      exact placed
    | cons list rest =>
      rw [run_zero queued]
      exact .atSpan _ (placed.source_eq ▸ fits_whole _)
  | succ left ih =>
    cases queued : schedule.queue with
    | nil =>
      rw [run_nil queued]
      exact placed
    | cons list rest =>
      rw [run_succ queued]
      exact (pass_yields placed list rest).bind fun next placed => ih placed

/-- And so has every schedule on the way. -/
theorem placed_of_trail (left : Nat) (placed : schedule.builder.Placed source lexemes) :
    ∀ reached ∈ trail left schedule, reached.builder.Placed source lexemes := by
  induction left generalizing schedule with
  | zero =>
    intro reached mem
    cases List.mem_singleton.mp mem
    exact placed
  | succ left ih =>
    intro reached mem
    rw [trail] at mem
    rcases List.mem_cons.mp mem with rfl | later
    · exact placed
    split at later
    · cases later
    next list rest _ =>
    split at later
    · next next passed => exact ih ((pass_yields placed list rest).of_ok passed) reached later
    · cases later

end Schedule

/-- In the beginning all lexemes are in one list. -/
theorem placed_start (laid : Lexeme.Laid source lexemes) :
    (Builder.start source lexemes).Placed source lexemes := by
  have empty : (⟨source, #[], .empty⟩ : Builder).Placed source lexemes := by
    refine ⟨rfl, laid, fun list => laid_nil (fits_default source), fun list node found => ?_, fun id lt => ?_⟩
    · cases found
    · cases lt
  refine (empty.addList ⟨fits_whole source, ?_, ?_, fun _ => ⟨lexemes, List.infix_rfl, rfl⟩⟩).placed
  · rw [map_span_lexemes]
    exact laid.row
  · exact List.forall_mem_map.mpr fun _ mem => .lexeme mem

/-- The root lies where the expression does. -/
theorem complete_yields (placed : builder.Placed source lexemes) (top : ListId) :
    Yields source (fun tree => tree.Nested source lexemes) (builder.complete top) := by
  have whole : (Span.whole builder.source).Fits source := placed.source_eq ▸ fits_whole _
  refine (takeNode_yields placed top whole).bind fun reply made => ?_
  obtain ⟨result, after⟩ := reply
  dsimp only
  split
  · exact .atSpan _ whole
  · have node := made.placed.nodes result made.made
    have row : builder.MadeRow source lexemes (after.tree.node result).span.start
        (after.tree.node result).span.stop ([result], after) :=
      ⟨made.toAdvances, by simpa using made.made, Nat.le_refl _, node.nonempty, Nat.le_refl _⟩
    have noCall : ∀ name, Node.Kind.root = .call name →
        Lexeme.CallAt lexemes name (after.tree.node result).span := by
      intro name isCall
      cases isCall
    have root := row.addNode node.fits node.nonempty (.owned .void) noCall
    exact fun id lt => (root.placed.nodes id lt).congr rfl rfl fun _ _ => rfl

end Reckoner.Builder

namespace Reckoner

/-- Building a tree from lexemes that lie in a row gives nodes that lie around their children. -/
theorem Tree.build_yields {source : String} {lexemes : List Lexeme} (laid : Lexeme.Laid source lexemes)
    (passLimit : Nat) :
    Yields source (fun tree => tree.Nested source lexemes) (Tree.build source lexemes passLimit) :=
  (Builder.Schedule.run_yields passLimit passLimit (Builder.placed_start laid)).bind
    fun _ placed => Builder.complete_yields placed 0

end Reckoner

import Mathlib
import Reckoner.Proofs.Builder.Complete
import Reckoner.Proofs.Builder.Refusal
import Reckoner.Proofs.Builder.Trail

/-!
How many passes it takes to build a tree. A list is finished in one pass, unless it is divided first, and
each new list is paid for by a lexeme that is no operand. So two passes for each lexeme and one more are
enough, and the limit on passes decides only whether there is an answer, never which one. There are not many more
lists and nodes than lexemes, either.
-/
namespace Reckoner

namespace Item

/-- How many of the items are no operands. -/
def marks (items : List Item) : Nat :=
  items.countP fun item => !item.isEvaluable

@[simp] theorem marks_nil : marks [] = 0 := rfl

theorem marks_append (first second : List Item) : marks (first ++ second) = marks first + marks second :=
  List.countP_append

theorem marks_cons_operand {item : Item} (h : item.isEvaluable = true) (rest : List Item) :
    marks (item :: rest) = marks rest := by
  simp [marks, h]

theorem marks_cons_mark {item : Item} (h : item.isEvaluable = false) (rest : List Item) :
    marks (item :: rest) = marks rest + 1 := by
  simp [marks, h]

/-- An operand is neither a mark of any kind nor the name of a function. -/
private theorem of_isEvaluable {item : Item} (h : item.isEvaluable = true) :
    item.opensGroup = false ∧ item.closesGroup = false ∧ item.isComma = false ∧
      item.isFunction = false ∧ item.isOperator = false := by
  cases item with
  | lexeme lexeme =>
    simp only [isEvaluable, Lexeme.isEvaluable] at h
    simp only [opensGroup, closesGroup, isComma, isFunction, isOperator, Lexeme.opensGroup,
      Lexeme.closesGroup, Lexeme.isComma, Lexeme.isOperator, Lexeme.isOperatorOf, Lexeme.occurrence?]
    cases kind : lexeme.kind <;> simp_all
  | group | call => exact ⟨rfl, rfl, rfl, rfl, rfl⟩

private theorem isEvaluable_eq_false {item : Item}
    (h : item.opensGroup = true ∨ item.closesGroup = true ∨ item.isComma = true ∨ item.isFunction = true) :
    item.isEvaluable = false := by
  by_contra evaluable
  obtain ⟨opens, closes, comma, function, -⟩ := of_isEvaluable (by simpa using evaluable)
  simp [opens, closes, comma, function] at h

/-- An operator is no mark that groups or separates. -/
private theorem of_isOperator {item : Item} (h : item.isOperator = true) :
    item.opensGroup = false ∧ item.closesGroup = false ∧ item.isComma = false := by
  obtain ⟨occurrence, -, same⟩ := @exists_token_of_isOperator (fun _ => none) item h
  refine ⟨?_, ?_, ?_⟩
  · by_contra opens
    rw [token_eq_opening.mpr (by simpa using opens)] at same
    cases same
  · by_contra closes
    rw [token_eq_closing.mpr (by simpa using closes)] at same
    cases same
  · by_contra comma
    rw [token_eq_comma.mpr (by simpa using comma)] at same
    cases same

private theorem marks_separated {runs : List (List Item)} {whole : List Item}
    (h : Separated (fun item : Item => item.isComma = true) runs whole) :
    (runs.map marks).sum + runs.length = marks whole + 1 := by
  induction h with
  | last run => simp
  | next run isComma _ ih =>
    rw [marks_append, marks_cons_mark (isEvaluable_eq_false (.inr (.inr (.inl isComma)))), List.map_cons, List.sum_cons,
      List.length_cons]
    omega

private theorem marks_arguments {runs : List (List Item)} {inner : List Item} (h : Arguments runs inner) :
    (runs.map marks).sum + runs.length ≤ marks inner + 1 := by
  rcases h with ⟨rfl, rfl⟩ | ⟨-, separated, -⟩
  · simp
  · exact Nat.le_of_eq (marks_separated separated)

/-- The brackets of a group or a call pay for the lists made from it. -/
theorem Grouping.marks_le {number : Nat} {items left : List Item} {news : List (List Item × Span)}
    (h : Grouping number items left news) :
    news.length + marks left + (news.map fun new => marks new.1).sum ≤ marks items := by
  induction h with
  | nil => simp
  | @group number opening closing inner after items news text span opens closes _ _ ih =>
    rw [marks_cons_operand rfl, marks_cons_mark (isEvaluable_eq_false (.inl opens)), marks_append,
      marks_cons_mark (isEvaluable_eq_false (.inr (.inl closes)))]
    simp only [List.length_cons, List.map_cons, List.sum_cons]
    omega
  | @call number name opening closing inner after items runs news span isName opens closes _ args _ ih =>
    have inRuns := marks_arguments args
    rw [marks_cons_operand rfl, marks_cons_mark (isEvaluable_eq_false (.inr (.inr (.inr isName)))),
      marks_cons_mark (isEvaluable_eq_false (.inl opens)), marks_append, marks_cons_mark (isEvaluable_eq_false (.inr (.inl closes)))]
    have moved : (runs.map fun run => (run, spanOf run)).map (fun new => marks new.1) = runs.map marks := by
      simp
    rw [List.length_append, List.length_map, List.map_append, List.sum_append, moved]
    omega
  | @keep number item rest items news _ _ _ _ _ ih =>
    by_cases evaluable : item.isEvaluable = true
    · rwa [marks_cons_operand evaluable, marks_cons_operand evaluable]
    · have mark : item.isEvaluable = false := by simpa using evaluable
      rw [marks_cons_mark mark, marks_cons_mark mark]
      omega

end Item

namespace Builder

open Item

/-- The most lists that can be made from the items. -/
def cost (items : List Item) : Nat :=
  if hasGroups items = true ∨ 2 ≤ (items.filter isOperator).length then marks items else 0

theorem cost_le_marks (items : List Item) : cost items ≤ marks items := by
  unfold cost
  split
  · exact Nat.le_refl _
  · exact Nat.zero_le _

variable {builder after : Builder} {list : Nat} {rest : List ListId} {next : Schedule}

/-- An operator with its operands is one mark, and cannot be divided any more. -/
private theorem cost_run {op : Item} {fixity : Fixity} {before after first run last : List Item}
    (h : Takes op fixity before after first run last) (isOperator : op.isOperator = true) :
    marks run = 1 ∧ cost run = 0 := by
  have mark := not_isEvaluable_of_isOperator isOperator
  obtain ⟨opens, closes, comma⟩ := of_isOperator isOperator
  cases h with
  | binary _ left right _ evaluable evaluable' =>
    obtain ⟨opensLeft, closesLeft, commaLeft, -, operandLeft⟩ := of_isEvaluable evaluable
    obtain ⟨opensRight, closesRight, commaRight, -, operandRight⟩ := of_isEvaluable evaluable'
    constructor
    · rw [marks_cons_operand evaluable, marks_cons_mark mark, marks_cons_operand evaluable', marks_nil]
    · simp [cost, hasGroups, *]
  | leading _ operand _ evaluable =>
    obtain ⟨opensOperand, closesOperand, commaOperand, -, operandPlain⟩ := of_isEvaluable evaluable
    constructor
    · rw [marks_cons_mark mark, marks_cons_operand evaluable, marks_nil]
    · simp [cost, hasGroups, *]
  | trailing _ operand _ evaluable =>
    obtain ⟨opensOperand, closesOperand, commaOperand, -, operandPlain⟩ := of_isEvaluable evaluable
    constructor
    · rw [marks_cons_operand evaluable, marks_cons_mark mark, marks_nil]
    · simp [cost, hasGroups, *]

/-- Cutting operators out moves one mark for each of them, and leaves nothing to divide in what it makes. -/
private theorem Cutting.marks_cutAll (state : Cutting) (ranks : List Rank) :
    ∃ news, (state.cutAll ranks).builder = state.builder.append news ∧
      (state.cutAll ranks).count = state.count + news.length ∧
      news.length + marks (state.cutAll ranks).items = marks state.items ∧
      ∀ new ∈ news, cost new.1 = 0 := by
  induction ranks generalizing state with
  | nil => exact ⟨[], rfl, rfl, by simp [cutAll], by simp⟩
  | cons rank ranks ih =>
    obtain ⟨news, made, count, paid, free⟩ := ih (state.cut rank.position)
    have whole : state.cutAll (rank :: ranks) = (state.cut rank.position).cutAll ranks := rfl
    rw [whole]
    rcases state.cut_cases rank.position with ⟨-, same⟩ | ⟨before, op, after, occurrence, items, visit⟩
    · rw [same] at made count paid ⊢
      exact ⟨news, made, count, paid, free⟩
    obtain ⟨isOperator, -, -, -, visit⟩ := visit
    generalize state.cut rank.position = cut at made count paid visit ⊢
    cases visit with
    | deferred | blocked => exact ⟨news, made, count, paid, free⟩
    | @taken fixity text first run last _ _ takes =>
      obtain ⟨one, nothing⟩ := cost_run takes isOperator
      have spent : marks (first ++ .group state.builder.lists.size text (Item.spanOf run) op.position :: last)
          + 1 = marks state.items := by
        rw [items, takes.whole_eq, marks_append, marks_append, marks_append, marks_cons_operand rfl, one]
        omega
      refine ⟨(run, Item.spanOf run) :: news, made, ?_, ?_, List.forall_mem_cons.mpr ⟨nothing, free⟩⟩
      · rw [count, List.length_cons, Nat.add_assoc, Nat.add_comm 1]
      · rw [List.length_cons, ← spent, Nat.add_right_comm, paid]

private theorem Reduced.cost_le (h : Reduced builder list .progress after) :
    ∃ left news, after = (builder.append news).setItems list left ∧ news ≠ [] ∧
      2 ≤ ((builder.itemsOf list).filter isOperator).length ∧
      news.length + cost left + (news.map fun new => cost new.1).sum ≤ marks (builder.itemsOf list) := by
  cases h with
  | @cut cutting several run progress =>
    obtain ⟨news, made, count, paid, free⟩ :=
      (Cutting.begin builder (builder.itemsOf list)).marks_cutAll (ranksOf (builder.itemsOf list))
    rw [run] at made count paid
    have nothing : (news.map fun new => cost new.1).sum = 0 := by
      refine List.sum_eq_zero fun amount mem => ?_
      obtain ⟨new, isNew, rfl⟩ := List.mem_map.mp mem
      exact free new isNew
    have left := cost_le_marks cutting.items
    have whole : marks (Cutting.begin builder (builder.itemsOf list)).items = marks (builder.itemsOf list) := rfl
    refine ⟨cutting.items, news, by rw [made]; rfl, ?_, several, by omega⟩
    rintro rfl
    exact progress count

/-- A pass that divides its list pays for the new ones. -/
private theorem Processed.cost_le (scheduled : Scheduled builder (list :: rest))
    (h : Processed builder list .progress after) :
    ∃ left news, after = (builder.append news).setItems list left ∧ news ≠ [] ∧
      news.length + cost left + (news.map fun new => cost new.1).sum ≤ cost (builder.itemsOf list) := by
  have bound := (scheduled.pending list List.mem_cons_self).1
  generalize made : Step.progress = step at h
  cases h with
  | whole _ reduced =>
    subst made
    obtain ⟨left, news, isAfter, some, several, paid⟩ := reduced.cost_le
    refine ⟨left, news, isAfter, some, ?_⟩
    rwa [show cost (builder.itemsOf list) = marks (builder.itemsOf list) from if_pos (.inr several)]
  | @grouped left news step after groups grouping reduced =>
    have paid := grouping.marks_le
    have each : (news.map fun new => cost new.1).sum ≤ (news.map fun new => marks new.1).sum :=
      List.sum_le_sum fun new _ => cost_le_marks new.1
    have whole : cost (builder.itemsOf list) = marks (builder.itemsOf list) := if_pos (.inl groups)
    have items := itemsOf_divided_self builder left news bound
    cases step with
    | done => cases made
    | waiting =>
      cases reduced with
      | waiting notReady =>
      have leftCost := cost_le_marks left
      refine ⟨left, news, rfl, ?_, by omega⟩
      -- without new lists everything that is needed would be there already
      rintro rfl
      refine notReady fun item mem => (isReady_iff _ item).mpr fun other needed => ?_
      rw [items] at mem
      rw [nodeOf_setItems, append_nil]
      have kept := grouping.references_perm
      simp only [List.flatMap_nil, List.append_nil, List.length_nil, List.range'_zero] at kept
      exact scheduled.front_ready.2 other (kept.subset (List.mem_flatMap.mpr ⟨item, mem, needed⟩))
    | progress =>
      obtain ⟨last, second, rfl, some, -, paid'⟩ := reduced.cost_le
      rw [items] at paid'
      refine ⟨last, news ++ second, ?_, by simp [some], ?_⟩
      · rw [setItems_append (by rw [size_append]; omega), setItems_setItems, append_append]
      · rw [List.length_append, List.map_append, List.sum_append]
        omega

section Nodes

variable {item : Item} {items : List Item} {node : NodeId} {nodes : List NodeId}

private theorem LinkedOperand.nodes_le (h : builder.LinkedOperand item (node, after)) :
    after.tree.size ≤ builder.tree.size + 1 := by
  cases h with
  | constant | cell => exact Nat.le_of_eq (size_addNode ..)
  | group => exact Nat.le_succ _
  | @call arguments nodes name span =>
    have same : (builder.releaseAll arguments).tree = builder.tree := tree_releaseAll ..
    have size := size_addNode (builder.releaseAll arguments) (.alone (.call name) span (.owned .void)) nodes
    rw [same] at size
    exact Nat.le_of_eq size

private theorem Linking.nodes_le (h : Linking builder items nodes after) :
    after.tree.size ≤ builder.tree.size + items.length := by
  induction h with
  | nil => exact Nat.le_refl _
  | cons one _ ih =>
    have first := (linkOperand_ok one).nodes_le
    rw [List.length_cons]
    omega

/-- A list becomes at most three nodes, those of an operator and of its operands. -/
private theorem Linked.nodes_le (h : Linked builder items node after) : after.tree.size ≤ builder.tree.size + 3 := by
  cases h with
  | operand one =>
    have one := (linkOperand_ok one).nodes_le
    omega
  | @operation before behind _ operands op occurrence fixity nodes linked span _ _ _ split _ takes links =>
    have linked := links.nodes_le
    have few : operands.length ≤ 2 := by
      rw [split]
      cases takes <;> simp
    rw [size_addNode]
    omega

end Nodes

/-- A pass makes some lists, which are paid for, or it finishes its list. -/
private theorem Passed.paid (h : Passed builder list rest next) (scheduled : Scheduled builder (list :: rest)) :
    ∃ made, next.builder.lists.size = builder.lists.size + made ∧
      made + (next.queue.map fun list => cost (next.builder.itemsOf list)).sum ≤
        ((list :: rest).map fun list => cost (builder.itemsOf list)).sum ∧
      (0 < made ∧ next.queue.length = made + rest.length + 1 ∧ next.builder.tree.size = builder.tree.size ∨
        made = 0 ∧ next.queue.length = rest.length ∧ next.builder.tree.size ≤ builder.tree.size + 3) := by
  have bound := (scheduled.pending list List.mem_cons_self).1
  have apart : ∀ other ∈ rest, other ≠ list :=
    fun other mem => ne_of_mem_of_not_mem mem (List.nodup_cons.mp scheduled.unique).1
  cases h with
  | @divided _ left news processed _ made =>
    obtain ⟨left', news', made', some, paid⟩ := processed.cost_le scheduled
    have size : news.length = news'.length := by
      have := congrArg (fun builder : Builder => builder.lists.size) (made.symm.trans made')
      simpa using this
    have ofNews : ((List.range' builder.lists.size news'.length).map fun other =>
        cost (((builder.append news').setItems list left').itemsOf other)) =
          news'.map fun new => cost new.1 := by
      have same := congrArg (List.map cost) (map_itemsOf_divided builder left' news' bound)
      rwa [List.map_map, List.map_map] at same
    have ofRest : (rest.map fun other =>
        cost (((builder.append news').setItems list left').itemsOf other)) =
          rest.map fun other => cost (builder.itemsOf other) := by
      refine List.map_congr_left fun other mem => ?_
      rw [itemsOf_divided_old _ _ _ bound (scheduled.pending other (List.mem_cons_of_mem _ mem)).1,
        if_neg (apart other mem)]
    refine ⟨news'.length, ?_, ?_, .inl ⟨List.length_pos_iff.mpr some, ?_, ?_⟩⟩
    · rw [made', size_setItems, size_append]
    · simp only [made', size, List.map_append, List.map_cons, List.sum_append, List.sum_cons, ofNews, ofRest,
        itemsOf_divided_old _ _ _ bound bound, if_true]
      omega
    · rw [size, List.length_append, List.length_range', List.length_cons, Nat.add_assoc]
    · rw [made', tree_setItems, tree_append]
  | @linked items node after bare link =>
    have ofRest : (rest.map fun other => cost ((after.finish list node).itemsOf other)) =
        rest.map fun other => cost (builder.itemsOf other) :=
      List.map_congr_left fun other mem => by rw [scheduled.itemsOf_linked link mem]
    refine ⟨0, ?_, ?_, .inr ⟨rfl, rfl, link.nodes_le⟩⟩
    · rw [size_finish, link.size_eq, size_setItems, Nat.add_zero]
    · simp only [ofRest, List.map_cons, List.sum_cons]
      omega

/-- The most passes that are still needed for the lists in the queue. -/
def effort (builder : Builder) (queue : List ListId) : Nat :=
  queue.length + 2 * (queue.map fun list => cost (builder.itemsOf list)).sum

/-- Every pass leaves less to do. -/
theorem Passed.effort_lt (h : Passed builder list rest next) (scheduled : Scheduled builder (list :: rest)) :
    effort next.builder next.queue < effort builder (list :: rest) := by
  obtain ⟨made, -, paid, dividedOrLinked⟩ := h.paid scheduled
  simp only [effort, List.length_cons]
  omega

/-- A run that has passes enough objects to a list, if it fails. -/
theorem run_refusal {limit left : Nat} {schedule : Schedule} {error : CompileError}
    (scheduled : Scheduled schedule.builder schedule.queue)
    (enough : effort schedule.builder schedule.queue ≤ left)
    (h : Schedule.run limit left schedule = .error error) :
    Refusal error.cause ∨ Unbalanced error.cause := by
  induction left generalizing schedule with
  | zero =>
    cases queued : schedule.queue with
    | nil =>
      rw [run_nil queued] at h
      cases h
    | cons list rest =>
      rw [queued] at enough
      simp [effort] at enough
  | succ left ih =>
    cases queued : schedule.queue with
    | nil =>
      rw [run_nil queued] at h
      cases h
    | cons list rest =>
      rw [queued] at scheduled enough
      rw [run_succ queued] at h
      cases passed : schedule.pass list rest with
      | error other =>
        rw [passed] at h
        cases h
        exact (pass_refusal scheduled passed).imp_right And.left
      | ok next =>
        rw [passed] at h
        have pass := pass_ok scheduled passed
        have less := pass.effort_lt scheduled
        exact ih (pass.scheduled scheduled) (by omega) h

private theorem cost_start (source : String) (lexemes : List Lexeme) :
    cost ((start source lexemes).itemsOf 0) ≤ lexemes.length := by
  refine (cost_le_marks (lexemes.map Item.lexeme)).trans ?_
  rw [← List.length_map]
  exact List.countP_le_length

theorem effort_start (source : String) (lexemes : List Lexeme) :
    effort (start source lexemes) [0] ≤ 2 * lexemes.length + 1 := by
  have paid := cost_start source lexemes
  simp only [effort, List.length_singleton, List.map_singleton, List.sum_singleton]
  omega

/-- Wherever a run gets to there is at most one list more than there are lexemes, and each list has given rise to at
most three nodes. -/
theorem size_of_trail {source : String} {lexemes : List Lexeme} {limit : Nat} {reached : Schedule}
    (mem : reached ∈ Schedule.trail limit ⟨start source lexemes, [0], 0⟩) :
    reached.builder.lists.size ≤ lexemes.length + 1 ∧ reached.builder.tree.size ≤ 3 * (lexemes.length + 1) := by
  obtain ⟨earlier, later, whole⟩ := List.append_of_mem mem
  -- each list in the queue has its nodes before it
  have within := @trail_induction (fun _ builder queue =>
      builder.lists.size + (queue.map fun list => cost (builder.itemsOf list)).sum ≤ lexemes.length + 1 ∧
        builder.tree.size + 3 * queue.length ≤ 3 * builder.lists.size) ?step _ _ [] (scheduled_start source lexemes)
      ?start _ _ _ whole
  case step =>
    intro _ builder list rest next scheduled ⟨lists, nodes⟩ pass
    obtain ⟨made, size, paid, dividedOrLinked⟩ := pass.paid scheduled
    rw [List.length_cons] at nodes
    constructor <;> omega
  case start =>
    have paid := cost_start source lexemes
    have one : (start source lexemes).lists.size = 1 := rfl
    have none : (start source lexemes).tree.size = 0 := rfl
    simp only [List.map_singleton, List.sum_singleton, List.length_singleton, one, none]
    constructor <;> omega
  obtain ⟨-, lists, nodes⟩ := within
  constructor <;> omega

/-- A run with fewer passes is cut off, or comes to the same. -/
theorem run_of_le {limit larger left : Nat} (extra : Nat) (schedule : Schedule) :
    (∃ error, Schedule.run limit left schedule = .error error ∧
        error.cause = .passLimitExceeded limit) ∨
      Schedule.run larger (left + extra) schedule = Schedule.run limit left schedule := by
  induction left generalizing schedule with
  | zero =>
    cases queued : schedule.queue with
    | nil => exact .inr (by rw [run_nil queued, run_nil queued])
    | cons list rest => exact .inl ⟨_, run_zero queued, rfl⟩
  | succ left ih =>
    cases queued : schedule.queue with
    | nil => exact .inr (by rw [run_nil queued, run_nil queued])
    | cons list rest =>
      rw [Nat.add_right_comm, run_succ queued, run_succ queued]
      cases schedule.pass list rest with
      | ok next => exact ih next
      | error error => exact .inr rfl

end Builder

/-- Two passes for each lexeme are enough, and the limit on passes does nothing but cut off. -/
theorem Tree.build_passLimit (source : String) (lexemes : List Lexeme) :
    (∀ limit, 2 * lexemes.length + 2 ≤ limit → ∀ error, Tree.build source lexemes limit = .error error →
      ∀ bound, error.cause ≠ .passLimitExceeded bound) ∧
    ∀ limit larger, limit ≤ larger →
      (∃ error, Tree.build source lexemes limit = .error error ∧ error.cause = .passLimitExceeded limit) ∨
        Tree.build source lexemes larger = Tree.build source lexemes limit := by
  constructor
  · intro limit enough error failed bound isLimit
    rcases Builder.build_cases source lexemes limit with ⟨other, ran, same⟩ | ⟨_, _, _, _, _, built⟩
    · rw [failed] at same
      cases same
      have within := (Builder.effort_start source lexemes).trans ((Nat.le_succ _).trans enough)
      rcases Builder.run_refusal (Builder.scheduled_start source lexemes) within ran with
        refusal | unbalanced
      · rw [isLimit] at refusal
        cases refusal
      · rw [isLimit] at unbalanced
        rcases unbalanced with impossible | impossible <;> cases impossible
    · rw [failed] at built
      cases built
  · intro limit larger le
    obtain ⟨extra, rfl⟩ := Nat.exists_eq_add_of_le le
    rcases @Builder.run_of_le limit (limit + extra) limit extra ⟨Builder.start source lexemes, [0], 0⟩ with
      ⟨error, ran, isLimit⟩ | same
    · exact .inl ⟨error, by simp only [Tree.build, ran, bind, Except.bind], isLimit⟩
    · exact .inr (by simp only [Tree.build, same])

/-- An operand is missing behind the sum, whatever the limit is. -/
theorem Tree.build_passLimit_unfinished :
    ∃ lexemes error, Lexeme.tokenize "(1) +" = .ok lexemes ∧ 2 * lexemes.length + 2 = 10 ∧
      Tree.build "(1) +" lexemes 10 = .error error ∧ (∀ bound, error.cause ≠ .passLimitExceeded bound) ∧
      ∀ larger, 10 ≤ larger → Tree.build "(1) +" lexemes larger = .error error := by
  have failed : ∃ lexemes error, Lexeme.tokenize "(1) +" = .ok lexemes ∧ 2 * lexemes.length + 2 = 10 ∧
      Tree.build "(1) +" lexemes 10 = .error error := ⟨_, _, by cbv, by cbv, by cbv⟩
  obtain ⟨lexemes, error, read, length, failed⟩ := failed
  obtain ⟨enough, same⟩ := Tree.build_passLimit "(1) +" lexemes
  have notLimit := enough 10 (Nat.le_of_eq length) error failed
  refine ⟨lexemes, error, read, length, failed, notLimit, fun larger le => ?_⟩
  rcases same 10 larger le with ⟨other, failed', isLimit⟩ | same
  · rw [failed] at failed'
    cases failed'
    exact absurd isLimit (notLimit 10)
  · rw [same, failed]

end Reckoner

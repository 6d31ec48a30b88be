import Reckoner.Proofs.Builder.Cutting

/-!
One pass over a list, seen from outside. Either the list is divided, so that some of its members move
to new lists that its remaining members refer to, or its members are linked to a node.
-/
namespace Reckoner

open Item

/-- The members of a list are divided between what is left of it and new lists, numbered from `number`
on. A new list needs only lists that were needed before and new ones in front of it, and no lexeme is
added. -/
structure Division (number : Nat) (items left : List Item) (news : List (List Item × Span)) :
    Prop where
  perm : (references left ++ news.flatMap (fun new => references new.1)).Perm
    (references items ++ List.range' number news.length)
  earlier : ∀ index new, news[index]? = some new → ∀ list : Nat, list ∈ references new.1 →
    list ∈ references items ∨ list < number + index
  lexemes : ∀ lexeme, .lexeme lexeme ∈ left ++ news.flatMap (·.1) → .lexeme lexeme ∈ items

namespace Division

variable {number : Nat} {items middle left : List Item} {first second : List (List Item × Span)}

theorem refl (number : Nat) (items : List Item) : Division number items items [] :=
  ⟨by simp, by simp, by simp⟩

/-- Dividing what is left once more is a division too. -/
theorem trans (one : Division number items middle first)
    (two : Division (number + first.length) middle left second) :
    Division number items left (first ++ second) := by
  have bound : ∀ list : Nat, list ∈ references middle →
      list ∈ references items ∨ list < number + first.length := by
    intro list mem
    have : list ∈ references items ++ List.range' number first.length :=
      one.perm.subset (List.mem_append_left _ mem)
    rcases List.mem_append.mp this with old | new
    · exact .inl old
    · exact .inr (by simpa using (List.mem_range'_1.mp new).2)
  constructor
  · have perm₁ := one.perm
    have perm₂ := two.perm
    rw [List.perm_iff_count] at perm₁ perm₂ ⊢
    intro list
    have := perm₁ list
    have := perm₂ list
    simp only [List.flatMap_append, List.length_append, ← List.range'_append_1,
      List.count_append] at *
    omega
  · intro index new found list mem
    rw [List.getElem?_append] at found
    split at found
    · exact one.earlier index new found list mem
    · next large =>
      rcases two.earlier _ new found list mem with old | lower
      · rcases bound list old with old | lower
        · exact .inl old
        · exact .inr (by omega)
      · exact .inr (by omega)
  · intro lexeme mem
    rw [List.flatMap_append] at mem
    have inFirst := one.lexemes lexeme
    have inSecond := two.lexemes lexeme
    simp only [List.mem_append] at mem inFirst inSecond
    tauto

end Division

/-- Grouping divides the members of a list. -/
theorem Item.Grouping.division {number : Nat} {items left : List Item}
    {news : List (List Item × Span)} (h : Grouping number items left news) :
    Division number items left news := by
  refine ⟨h.references_perm, fun index new found list mem => .inl ?_, fun lexeme mem => ?_⟩
  · obtain ⟨item, inside, needs⟩ := List.mem_flatMap.mp mem
    exact List.mem_flatMap.mpr
      ⟨item, h.mem_of_mem_new new (List.mem_of_getElem? found) item inside, needs⟩
  · rcases List.mem_append.mp mem with inLeft | inNews
    · exact h.mem_of_lexeme_mem_left inLeft
    · obtain ⟨new, isNew, inside⟩ := List.mem_flatMap.mp inNews
      exact h.mem_of_mem_new new isNew _ inside

/-- So does cutting out an operator. -/
theorem Item.Takes.division {op : Item} {fixity : Fixity} {before after first run last : List Item}
    (h : Takes op fixity before after first run last) (number : Nat) (text : String)
    (span : Span) (position : Nat) :
    Division number (before ++ op :: after) (first ++ .group number text span position :: last)
      [(run, span)] := by
  rw [h.whole_eq]
  constructor
  · rw [List.perm_iff_count]
    intro list
    simp only [references_append, references_cons, lists_group, List.flatMap_cons, List.flatMap_nil,
      List.length_cons, List.length_nil, List.range'_succ, List.range'_zero, List.count_append,
      List.count_cons, List.count_nil]
    omega
  · intro index new found list mem
    obtain ⟨-, rfl⟩ : index = 0 ∧ new = (run, span) := by
      cases index <;> simp_all
    exact .inl (by simp [mem])
  · intro lexeme mem
    simp only [List.flatMap_cons, List.flatMap_nil, List.mem_append, List.mem_cons, reduceCtorEq,
      false_or, List.append_nil] at mem ⊢
    tauto

namespace Builder

/-- The cutting once the operators of some ranks are dealt with. -/
def Cutting.cutAll (state : Cutting) (ranks : List Rank) : Cutting :=
  ranks.foldl (fun state rank => state.cut rank.position) state

/-- What relates a list to what is left of it and to the lists that were made holds after any visits, if it holds
when an operator is taken out and can be put together. -/
theorem Cutting.cutAll_divides {Divides : Nat → List Item → List Item → List (List Item × Span) → Prop}
    (refl : ∀ number items, Divides number items items [])
    (trans : ∀ {number items middle left first second}, Divides number items middle first →
      Divides (number + first.length) middle left second → Divides number items left (first ++ second))
    (takes : ∀ {op fixity before after first run last}, Takes op fixity before after first run last →
      ∀ (number : Nat) (text : String) (span : Span) (position : Nat), Divides number (before ++ op :: after)
        (first ++ .group number text span position :: last) [(run, span)])
    (state : Cutting) (ranks : List Rank) :
    ∃ news, (state.cutAll ranks).builder = state.builder.append news ∧
      Divides state.builder.lists.size state.items (state.cutAll ranks).items news := by
  induction ranks generalizing state with
  | nil => exact ⟨[], rfl, refl _ _⟩
  | cons rank rest ih =>
    have one : ∃ news, (state.cut rank.position).builder = state.builder.append news ∧
        Divides state.builder.lists.size state.items (state.cut rank.position).items news := by
      have same := refl state.builder.lists.size state.items
      rcases state.cut_cases rank.position with ⟨-, unchanged⟩ | ⟨before, op, after, occurrence, whole, visit⟩
      · exact ⟨[], by rw [unchanged]; rfl, by rw [unchanged]; exact same⟩
      obtain ⟨-, -, -, -, visit⟩ := visit
      generalize state.cut rank.position = next at visit ⊢
      cases visit with
      | deferred | blocked => exact ⟨[], rfl, same⟩
      | taken fixity text _ _ taken =>
        rw [whole]
        exact ⟨[_], rfl, takes taken ..⟩
    obtain ⟨first, made, one⟩ := one
    obtain ⟨second, made', two⟩ := ih (state.cut rank.position)
    rw [made, size_append] at two
    refine ⟨first ++ second, ?_, trans one two⟩
    rw [append_append, ← made]
    exact made'

theorem Cutting.cutAll_division (state : Cutting) (ranks : List Rank) :
    ∃ news, (state.cutAll ranks).builder = state.builder.append news ∧
      Division state.builder.lists.size state.items (state.cutAll ranks).items news :=
  state.cutAll_divides .refl .trans (fun takes => takes.division) ranks

/-- The ranks of the operators among the items, the tightest first. -/
def ranksOf (items : List Item) : List Rank :=
  (items.filterMap Rank.of?).mergeSort Rank.notAfter

/-- The cutting before any operator is cut out. -/
def Cutting.begin (builder : Builder) (items : List Item) : Cutting :=
  ⟨items, none, none, 0, builder⟩

/-- The nodes that the operands among the items become, one after the other. -/
inductive Linking : Builder → List Item → List NodeId → Builder → Prop where
  | nil (builder : Builder) : Linking builder [] [] builder
  | cons {builder between after : Builder} {item : Item} {rest : List Item} {node : NodeId}
      {nodes : List NodeId} : builder.linkOperand item = .ok (node, between) →
      Linking between rest nodes after → Linking builder (item :: rest) (node :: nodes) after

/-- The node that the members of a list become together. -/
inductive Linked (builder : Builder) : List Item → NodeId → Builder → Prop where
  | operand {item : Item} {node : NodeId} {after : Builder} :
      builder.linkOperand item = .ok (node, after) → Linked builder [item] node after
  | operation {before after items operands : List Item} {op : Item} {occurrence : Occurrence}
      {fixity : Fixity} {nodes : List NodeId} {linked : Builder} (span : Span) :
      op.isOperator = true → op.occurrence? = some occurrence →
      (∀ item ∈ operands, item.isOperator = false) → operands = before ++ after →
      occurrence.fixityBetween (endsReady before) (beginsReady after) = some fixity →
      Takes op fixity before after [] items [] → Linking builder operands nodes linked →
      Linked builder items (linked.addNode (.alone (.operator occurrence.operator fixity) span
        (.owned .void)) nodes).1 (linked.addNode (.alone (.operator occurrence.operator fixity) span
        (.owned .void)) nodes).2

/-- What reducing a list comes to. -/
inductive Reduced (builder : Builder) (list : ListId) : Step → Builder → Prop where
  | waiting : ¬ (∀ item ∈ builder.itemsOf list, builder.isReady item = true) →
      Reduced builder list .waiting builder
  | cut {cutting : Cutting} : 2 ≤ ((builder.itemsOf list).filter isOperator).length →
      (Cutting.begin builder (builder.itemsOf list)).cutAll (ranksOf (builder.itemsOf list)) =
        cutting → cutting.count ≠ 0 →
      Reduced builder list .progress (cutting.builder.setItems list cutting.items)
  | linked {node : NodeId} {after : Builder} : Linked builder (builder.itemsOf list) node after →
      Reduced builder list .done (after.finish list node)

/-- What a pass over a list comes to. A list whose groups were taken out was changed by that. -/
inductive Processed (builder : Builder) (list : ListId) : Step → Builder → Prop where
  | whole {step : Step} {after : Builder} : hasGroups (builder.itemsOf list) = false →
      Reduced builder list step after → Processed builder list step after
  | grouped {left : List Item} {news : List (List Item × Span)} {step : Step} {after : Builder} :
      hasGroups (builder.itemsOf list) = true →
      Grouping builder.lists.size (builder.itemsOf list) left news →
      Reduced ((builder.append news).setItems list left) list step after →
      Processed builder list (if step = .waiting then .progress else step) after

theorem linkOperands_ok {builder after : Builder} {items : List Item} {nodes : List NodeId}
    (h : builder.linkOperands items = .ok (nodes, after)) :
    Linking builder (items.filter fun item => !item.isOperator) nodes after := by
  induction items generalizing builder nodes with
  | nil =>
    cases h
    exact .nil _
  | cons item rest ih =>
    rw [linkOperands] at h
    split at h
    · next isOp => simpa [isOp] using ih h
    · next notOp =>
      obtain ⟨⟨node, between⟩, one, h⟩ := bind_eq_ok.mp h
      obtain ⟨⟨nodes, last⟩, others, h⟩ := bind_eq_ok.mp h
      cases h
      rw [List.filter_cons_of_pos (by simpa using notOp)]
      exact .cons one (ih others)

private theorem reduceOperand_ok {builder after : Builder} {list : ListId} {step : Step}
    (h : builder.reduceOperand list = .ok (step, after)) : Reduced builder list step after := by
  unfold reduceOperand at h
  split at h
  · cases h
  · next item alone =>
    split at h
    · obtain ⟨⟨node, linked⟩, link, h⟩ := bind_eq_ok.mp h
      cases h
      exact .linked (alone ▸ .operand link)
    · next notReady =>
      cases h
      exact .waiting (by simpa [alone] using notReady)
  · cases h

private theorem reduceOperation_ok {builder after : Builder} {list : ListId} {index : Nat}
    {step : Step} (only : operatorIndices (builder.itemsOf list) = [index])
    (h : builder.reduceOperation list index = .ok (step, after)) :
    Reduced builder list step after := by
  obtain ⟨before, op, rest, whole, rfl, isOp, leftOnly, rightOnly⟩ :=
    operatorIndices_eq_singleton only
  obtain ⟨occurrence, named, -⟩ := exists_occurrence_of_isOperator isOp
  simp only [reduceOperation, Bool.not_eq_true'] at h
  split at h
  · next notReady =>
    cases h
    exact .waiting (by simpa using notReady)
  have fixity := fixity?_eq occurrence before op rest
  have atIndex : (builder.itemsOf list)[before.length]? = some op := by simp [whole]
  rw [← whole] at fixity
  simp only [atIndex, named, fixity] at h
  split at h
  · cases h
  next fixity allowed =>
  obtain ⟨first, run, last, takes⟩ := takes_of_fixityBetween allowed op
  obtain ⟨front, -, back⟩ := takes.range_eq
  rw [← whole] at front back
  simp only [takes.operandRange_eq, front, ← List.head?_drop, back] at h
  split at h
  · cases h
  · cases h
  · next noFirst noLast =>
    obtain rfl := List.getLast?_eq_none_iff.mp noFirst
    obtain rfl := List.head?_eq_none_iff.mp noLast
    have isRun : run = builder.itemsOf list := by simpa using (whole.trans takes.whole_eq).symm
    subst isRun
    obtain ⟨_, made, h⟩ := bind_eq_ok.mp h
    cases h
    obtain ⟨⟨nodes, linked⟩, link, added⟩ := bind_eq_ok.mp made
    cases added
    have operands : (builder.itemsOf list).filter (fun item => !item.isOperator) = before ++ rest := by
      rw [whole, List.filter_append, List.filter_cons_of_neg (by simp [isOp]),
        List.filter_eq_self.mpr (by simpa using leftOnly),
        List.filter_eq_self.mpr (by simpa using rightOnly)]
    have linking := linkOperands_ok link
    rw [operands] at linking
    refine .linked (.operation _ isOp named ?_ rfl allowed takes linking)
    intro item mem
    rcases List.mem_append.mp mem with mem | mem
    · exact leftOnly item mem
    · exact rightOnly item mem

/-- Visits of all operators make up the pass that cuts them out. -/
theorem reduceOperators_of_cutAll {builder : Builder} {list : ListId} {cutting : Cutting}
    (ran : (Cutting.begin builder (builder.itemsOf list)).cutAll (ranksOf (builder.itemsOf list)) = cutting) :
    builder.reduceOperators list =
      if cutting.count = 0 then
        match (cutting.deferred.bind (cutting.items[·]?)) <|> cutting.items.head? with
        | some item => .error (CompileError.Cause.atSpan (.unresolvedOperator item.text) item.span)
        | none => .error (CompileError.Cause.emptyExpression.atSpan (builder.spanOf list))
      else .ok (.progress, cutting.builder.setItems list cutting.items) := by
  rw [← ran]
  rfl

private theorem reduceOperators_ok {builder after : Builder} {list : ListId} {step : Step}
    (several : 2 ≤ ((builder.itemsOf list).filter isOperator).length)
    (h : builder.reduceOperators list = .ok (step, after)) : Reduced builder list step after := by
  rw [reduceOperators_of_cutAll rfl] at h
  split at h
  · split at h <;> cases h
  · next progress =>
    cases h
    exact .cut several rfl progress

private theorem reduce_ok {builder after : Builder} {list : ListId} {step : Step}
    (h : builder.reduce list = .ok (step, after)) : Reduced builder list step after := by
  unfold reduce at h
  split at h
  · exact reduceOperand_ok h
  · next only => exact reduceOperation_ok only h
  · next none one =>
    refine reduceOperators_ok ?_ h
    rw [← length_operatorIndices]
    rcases indices : operatorIndices (builder.itemsOf list) with _ | ⟨index, _ | ⟨other, others⟩⟩
    · exact absurd indices none
    · exact absurd indices (one index)
    · simp

/-- What a pass did, if it did not fail. -/
theorem process_ok {builder after : Builder} {list : ListId} {step : Step}
    (h : builder.process list = .ok (step, after)) : Processed builder list step after := by
  simp only [process] at h
  split at h
  · next groups =>
    obtain ⟨⟨left, grouped⟩, group, h⟩ := bind_eq_ok.mp h
    obtain ⟨⟨step, last⟩, reduced, h⟩ := bind_eq_ok.mp h
    cases h
    obtain ⟨news, rfl, grouping⟩ := regroup_ok group
    exact .grouped groups grouping (reduce_ok reduced)
  · next noGroups => exact .whole (by simpa using noGroups) (reduce_ok h)

/-- A list that is divided keeps what is left of it. -/
theorem itemsOf_divided_self (builder : Builder) {list : Nat} (left : List Item)
    (news : List (List Item × Span)) (bound : list < builder.lists.size) :
    ((builder.append news).setItems list left).itemsOf list = left := by
  rw [itemsOf_setItems _ (by rw [size_append]; exact Nat.lt_add_right _ bound), if_pos rfl]

theorem setItems_append {builder : Builder} {list : Nat} (h : list < builder.lists.size)
    (items : List Item) (news : List (List Item × Span)) :
    (builder.setItems list items).append news = (builder.append news).setItems list items := by
  induction news generalizing builder with
  | nil => rfl
  | cons new news ih =>
    rw [append_cons, append_cons, ← ih (by simp [addList]; omega)]
    refine congrArg (fun builder : Builder => builder.append news) ?_
    simp only [setItems, addList, Builder.mk.injEq, and_true, true_and]
    apply Array.ext_getElem?
    intro index
    simp only [Array.getElem?_modify, Array.getElem?_push, Array.size_modify]
    split
    · next same =>
      subst same
      rw [if_neg (by omega)]
    · rfl

theorem setItems_setItems (builder : Builder) (list : ListId) (first second : List Item) :
    (builder.setItems list first).setItems list second = builder.setItems list second := by
  simp only [setItems, Builder.mk.injEq, and_true, true_and]
  apply Array.ext_getElem?
  intro index
  simp only [Array.getElem?_modify]
  split
  · simp [Function.comp_def]
  · rfl

theorem setItems_itemsOf (builder : Builder) (list : ListId) :
    builder.setItems list (builder.itemsOf list) = builder := by
  obtain ⟨source, lists, tree⟩ := builder
  simp only [setItems, itemsOf, Builder.mk.injEq, and_true, true_and]
  apply Array.ext_getElem?
  intro index
  simp only [Array.getElem?_modify]
  split
  · next same =>
    subst same
    cases lists[list]? <;> rfl
  · rfl

private theorem Reduced.division {builder after : Builder} {list : Nat}
    (h : Reduced builder list .progress after) :
    ∃ left news, Division builder.lists.size (builder.itemsOf list) left news ∧
      after = (builder.append news).setItems list left := by
  cases h with
  | @cut cutting _ run =>
    obtain ⟨news, made, division⟩ :=
      (Cutting.begin builder (builder.itemsOf list)).cutAll_division (ranksOf (builder.itemsOf list))
    rw [run] at made division
    exact ⟨cutting.items, news, division, by rw [made]; rfl⟩

/-- What relates a list to what is left of it and to the lists that were made holds after a pass that makes
progress, if it holds once groups are taken out and after the visits of the operators. -/
theorem Processed.divides {Divides : Nat → List Item → List Item → List (List Item × Span) → Prop}
    {P : List Item → Prop} {builder after : Builder} {list : Nat}
    (trans : ∀ {number items middle left first second}, Divides number items middle first →
      Divides (number + first.length) middle left second → Divides number items left (first ++ second))
    (whole : hasGroups (builder.itemsOf list) = false → P (builder.itemsOf list))
    (grouped : ∀ {left news}, Grouping builder.lists.size (builder.itemsOf list) left news →
      Divides builder.lists.size (builder.itemsOf list) left news ∧ P left)
    (reduced : ∀ {builder after : Builder}, Reduced builder list .progress after → P (builder.itemsOf list) →
      ∃ left news, Divides builder.lists.size (builder.itemsOf list) left news ∧
        after = (builder.append news).setItems list left)
    (h : Processed builder list .progress after) (bound : list < builder.lists.size) :
    ∃ left news, Divides builder.lists.size (builder.itemsOf list) left news ∧
      after = (builder.append news).setItems list left := by
  generalize made : Step.progress = step at h
  cases h with
  | whole noGroups here => exact reduced (made ▸ here) (whole noGroups)
  | @grouped left news step after _ grouping here =>
    obtain ⟨divides, ready⟩ := grouped grouping
    cases step with
    | done => cases made
    | waiting =>
      cases here
      exact ⟨_, _, divides, rfl⟩
    | progress =>
      have isLeft := itemsOf_divided_self builder left news bound
      obtain ⟨last, second, later, rfl⟩ := reduced here (isLeft.symm ▸ ready)
      rw [size_setItems, size_append, isLeft] at later
      refine ⟨last, news ++ second, trans divides later, ?_⟩
      rw [setItems_append (by rw [size_append]; omega), setItems_setItems, append_append]

/-- A pass that makes progress divides its list and changes nothing else. -/
theorem Processed.division {builder after : Builder} {list : Nat}
    (h : Processed builder list .progress after) (bound : list < builder.lists.size) :
    ∃ left news, Division builder.lists.size (builder.itemsOf list) left news ∧
      after = (builder.append news).setItems list left :=
  h.divides .trans (fun _ => trivial) (fun grouping => ⟨grouping.division, trivial⟩)
    (fun reduced _ => reduced.division) bound

end Builder

end Reckoner

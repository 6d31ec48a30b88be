import Reckoner.Proofs.Builder.Faithful
import Reckoner.Proofs.Builder.Schedule

/-!
A pass over a list in which something can be read does not fail. Its brackets and commas can be taken out,
its operators have their operands, and what its members need is finished once it is linked.
-/
namespace Reckoner

open Item

namespace Item

/-- Operands alone take turns only if there is one. -/
theorem turns_operands {items : List Item} (evaluable : ∀ item ∈ items, item.isEvaluable = true)
    {ready next : Bool} (h : turns ready items = some next) :
    items = [] ∧ next = ready ∨ ready = false ∧ next = true ∧ ∃ item, items = [item] := by
  cases items with
  | nil =>
    cases h
    exact .inl ⟨rfl, rfl⟩
  | cons item rest =>
    obtain ⟨here, later⟩ := List.forall_mem_cons.mp evaluable
    rw [turns_cons, turn_of_isEvaluable here] at h
    cases ready with
    | true => cases h
    | false =>
      cases rest with
      | nil =>
        cases h
        exact .inr ⟨rfl, rfl, item, rfl⟩
      | cons second rest =>
        have isSecond := (List.forall_mem_cons.mp later).1
        simp [turn_of_isEvaluable isSecond] at h

/-- An operator among operands takes all of them, if the list takes turns. -/
theorem takes_all {registry : Registry} {before after : List Item} {op : Item} {occurrence : Occurrence}
    (proper : Proper registry (before ++ op :: after)) (isOperator : op.isOperator = true)
    (named : op.occurrence? = some occurrence) (left : ∀ item ∈ before, item.isEvaluable = true)
    (right : ∀ item ∈ after, item.isEvaluable = true) (alternates : Alternates (before ++ op :: after)) :
    ∃ fixity, occurrence.fixityBetween (endsReady before) (beginsReady after) = some fixity ∧
      Takes op fixity before after [] (before ++ op :: after) [] := by
  rw [Alternates, turns_append] at alternates
  obtain ⟨ready, isBefore, alternates⟩ := Option.bind_eq_some_iff.mp alternates
  rw [turns_cons, turn_of_isOperator isOperator named] at alternates
  obtain ⟨next, here, isAfter⟩ := Option.bind_eq_some_iff.mp alternates
  obtain ⟨fixity, stands⟩ := exists_stands proper.settled (by simp) isOperator named
  rcases turns_operands left isBefore with ⟨rfl, rfl⟩ | ⟨-, rfl, l, rfl⟩
  · have notSign : op.isSign = false := (proper.first op (by simp)).2
    simp only [Bool.false_eq_true, if_false, Option.ite_none_right_eq_some, Option.some.injEq] at here
    obtain ⟨leads, rfl⟩ := here
    simp only [isSign, isOperator, named, leads, Bool.true_and, Option.any_some, Bool.and_true] at notSign
    rcases turns_operands right isAfter with ⟨rfl, impossible⟩ | ⟨-, -, r, rfl⟩
    · cases impossible
    have isRight := right r (by simp)
    refine ⟨.leading, ?_, .leading [] r [] isRight⟩
    simp [Occurrence.fixityBetween, beginsReady, notSign, leads, isRight]
  · have isLeft := left l (by simp)
    simp only [if_true] at here
    split at here
    · next trails =>
      cases here
      rcases turns_operands right isAfter with ⟨rfl, -⟩ | ⟨impossible, -⟩
      · refine ⟨.trailing, ?_, .trailing [] l [] isLeft⟩
        simp [Occurrence.fixityBetween, endsReady, beginsReady, trails, isLeft]
      · cases impossible
    split at here
    · next between =>
      cases here
      rcases turns_operands right isAfter with ⟨rfl, impossible⟩ | ⟨-, -, r, rfl⟩
      · cases impossible
      have isRight := right r (by simp)
      refine ⟨.binary, ?_, .binary [] l r [] isLeft isRight⟩
      simp [Occurrence.fixityBetween, endsReady, beginsReady, between, isLeft, isRight]
    · cases here

end Item

namespace Builder

variable {registry : Registry} {builder : Builder} {items : List Item}

/-- Operands whose lists are finished, each needed once, become nodes. -/
theorem linkOperands_total (flat : Flat items) (unique : (references items).Nodup)
    (ready : ∀ list ∈ references items, (builder.nodeOf list).isSome) :
    ∃ reply, builder.linkOperands items = .ok reply := by
  induction items generalizing builder with
  | nil => exact ⟨_, rfl⟩
  | cons item rest ih =>
    obtain ⟨here, later⟩ := List.forall_mem_cons.mp flat
    rw [references_cons] at unique ready
    obtain ⟨uniqueItem, uniqueRest, apart⟩ := List.nodup_append.mp unique
    rw [linkOperands]
    split
    · exact ih later uniqueRest fun list mem => ready list (List.mem_append_right _ mem)
    · next notOperator =>
      obtain ⟨⟨node, between⟩, linked⟩ := linkOperand_total (here.resolve_right notOperator) uniqueItem
        fun list mem => ready list (List.mem_append_left _ mem)
      obtain ⟨reply, others⟩ := @ih between later uniqueRest fun list mem => by
        rw [nodeOf_congr (linkOperand_ok linked).lists_eq, nodeOf_releaseAll,
          if_neg fun inItem => apart list inItem list mem rfl]
        exact ready list (List.mem_append_right _ mem)
      exact ⟨_, bind_eq_ok.mpr ⟨_, linked, bind_eq_ok.mpr ⟨_, others, rfl⟩⟩⟩

private theorem ready_of_all (ready : items.all builder.isReady = true) :
    ∀ list ∈ references items, (builder.nodeOf list).isSome := by
  intro list mem
  obtain ⟨item, inItems, needed⟩ := List.mem_flatMap.mp mem
  exact (isReady_iff builder item).mp (List.all_eq_true.mp ready item inItems) list needed

private theorem reduceOperand_total {list : ListId} (whole : builder.itemsOf list = items)
    (alternates : Alternates items) (operands : ∀ item ∈ items, item.isEvaluable = true)
    (unique : (references items).Nodup) : ∃ reply, builder.reduceOperand list = .ok reply := by
  rcases turns_operands operands alternates with ⟨-, impossible⟩ | ⟨-, -, item, rfl⟩
  · cases impossible
  simp only [reduceOperand, whole]
  split
  · next ready =>
    obtain ⟨reply, linked⟩ := @linkOperand_total builder item (operands item (by simp))
      (by simpa using unique) ((isReady_iff builder item).mp ready)
    exact ⟨_, bind_eq_ok.mpr ⟨_, linked, rfl⟩⟩
  · exact ⟨_, rfl⟩

private theorem reduceOperation_total {list : ListId} {index : Nat} (proper : Proper registry items)
    (flat : Flat items) (alternates : Alternates items) (unique : (references items).Nodup)
    (whole : builder.itemsOf list = items) (only : operatorIndices items = [index]) :
    ∃ reply, builder.reduceOperation list index = .ok reply := by
  obtain ⟨before, op, after, rfl, rfl, isOperator, left, right⟩ := operatorIndices_eq_singleton only
  obtain ⟨occurrence, named, -⟩ := exists_occurrence_of_isOperator isOperator
  have operands : ∀ item ∈ before ++ op :: after, item.isOperator = false → item.isEvaluable = true :=
    fun item mem notOperator => (flat item mem).resolve_right (by simp [notOperator])
  obtain ⟨fixity, allowed, takes⟩ := takes_all proper isOperator named
    (fun item mem => operands item (by simp [mem]) (left item mem))
    (fun item mem => operands item (by simp [mem]) (right item mem)) alternates
  have range := takes.operandRange_eq
  have atIndex : (before ++ op :: after)[before.length]? = some op := by simp
  have behind : (before ++ op :: after)[0 + (before ++ op :: after).length - 1 + 1]? = none := by
    simp only [List.length_append, List.length_cons, List.getElem?_eq_none_iff]
    omega
  rw [← fixity?_eq occurrence before op after] at allowed
  simp only [reduceOperation, whole, Bool.not_eq_true']
  split
  · exact ⟨_, rfl⟩
  next ready =>
  have ready : (before ++ op :: after).all builder.isReady = true := by simpa using ready
  obtain ⟨reply, linked⟩ := linkOperands_total flat unique (ready_of_all ready)
  simp only [atIndex, named, allowed, range, List.length_nil, List.take_zero, List.getLast?_nil, behind]
  exact ⟨_, bind_eq_ok.mpr ⟨_, bind_eq_ok.mpr ⟨_, linked, rfl⟩, rfl⟩⟩

/-- A list that takes turns can be reduced. -/
theorem reduce_total {list : ListId} (proper : Proper registry items) (flat : Flat items)
    (alternates : Alternates items) (unique : (references items).Nodup)
    (whole : builder.itemsOf list = items) : ∃ reply, builder.reduce list = .ok reply := by
  have count := length_operatorIndices items
  simp only [reduce, whole]
  split
  · next none =>
    refine reduceOperand_total whole alternates (fun item mem => ?_) unique
    refine (flat item mem).resolve_right fun isOperator => ?_
    rw [none, List.length_nil] at count
    have := List.eq_nil_of_length_eq_zero count.symm
    exact List.filter_eq_nil_iff.mp this item mem isOperator
  · next only => exact reduceOperation_total proper flat alternates unique whole only
  · next none _ =>
    have some : ∃ item ∈ items, item.isOperator = true := by
      by_contra absent
      refine none (List.eq_nil_of_length_eq_zero ?_)
      rw [count, List.filter_eq_nil_iff.mpr fun item mem isOperator => absent ⟨item, mem, isOperator⟩]
      rfl
    obtain ⟨news, -, -, progress⟩ := Cutting.begin_faithful builder proper flat
    have progress := progress alternates some
    simp only [reduceOperators, whole]
    split
    · next stuck => exact absurd stuck progress
    · exact ⟨_, rfl⟩

/-- A pass over the list in front of the queue does not fail if something can be read in the list. -/
theorem process_total {list : Nat} {rest : List ListId} (scheduled : Scheduled builder (list :: rest))
    (proper : Proper registry (builder.itemsOf list)) {meaning : ListId → Option Term} {term : Term}
    (means : read meaning (builder.itemsOf list) = some term) :
    ∃ reply, builder.process list = .ok reply := by
  have bound := (scheduled.pending list List.mem_cons_self).1
  obtain ⟨unique, -⟩ := scheduled.front_ready
  simp only [process]
  split
  · cases group : builder.regroup (builder.itemsOf list) with
    | error error =>
      rw [(regroup_stops group).read_eq_none proper.toOrderly meaning] at means
      cases means
    | ok reply =>
      obtain ⟨left, grouped⟩ := reply
      obtain ⟨news, rfl, grouping⟩ := regroup_ok group
      have faithful := grouping.faithful proper
      obtain ⟨meaning', old, explains⟩ := exists_explains meaning builder.lists.size news
        fun index new found list needed => by
          rcases faithful.earlier index new found list needed with inItems | lower
          · exact Nat.lt_add_right _ (scheduled.bound_references inItems)
          · exact lower
      have means' : read meaning' left = some term := by
        rw [faithful.read_eq meaning' explains, ← means]
        exact read_congr fun item mem list needed =>
          old list (scheduled.bound_references (List.mem_flatMap.mpr ⟨item, mem, needed⟩))
      have flat := (grouping.proper proper).2.1
      have uniqueLeft : (references left).Nodup := by
        refine (List.nodup_append.mp (faithful.perm.nodup_iff.mpr ?_)).1
        refine List.nodup_append.mpr ⟨unique, List.nodup_range', fun list mem other isNew same => ?_⟩
        subst same
        have old := scheduled.bound_references mem
        exact Nat.not_lt_of_le (List.mem_range'_1.mp isNew).1 old
      obtain ⟨reply, reduced⟩ := @reduce_total registry ((builder.append news).setItems list left) left list
        faithful.proper_left flat (alternates_of_read flat means') uniqueLeft
        (itemsOf_divided_self builder left news bound)
      exact ⟨_, bind_eq_ok.mpr ⟨_, rfl, bind_eq_ok.mpr ⟨_, reduced, rfl⟩⟩⟩
  · next noGroups =>
    have flat := flat_of_not_hasGroups proper (by simpa using noGroups)
    exact reduce_total proper flat (alternates_of_read flat means) unique rfl

end Builder

end Reckoner

import Reckoner.Proofs.Builder.Pass
import Reckoner.Proofs.Builder.Proper

/-!
The errors of a pass. A pass over the list in front of a queue that is in order objects to what it finds
in the list. It never finds that a list which it needs is not there, and it blames the brackets only if
they are not balanced.
-/
namespace Reckoner

/-- What can be wrong with a list whose brackets are balanced. -/
inductive Refusal : CompileError.Cause → Prop where
  | emptyArgument (name : String) : Refusal (.emptyArgument name)
  | unexpectedComma : Refusal .unexpectedComma
  | emptyExpression : Refusal .emptyExpression
  | unexpectedToken (text : String) : Refusal (.unexpectedToken text)
  | missingOperand (symbol : String) : Refusal (.missingOperand symbol)
  | unresolvedOperator (symbol : String) : Refusal (.unresolvedOperator symbol)

/-- What can be wrong with a list whose brackets are not balanced, besides. -/
def Unbalanced (cause : CompileError.Cause) : Prop :=
  cause = .bracketBalance ∨ cause = .bracketOrder

/-- Taking out groups and calls blames the brackets only if they are not balanced. -/
theorem Item.Stops.refusal {items : List Item} {cause : CompileError.Cause} (h : Stops items cause) :
    Refusal cause ∨ Unbalanced cause ∧ ¬ Token.Balanced 0 (outline items) := by
  induction h with
  | unclosed unbalanced => exact .inr ⟨.inl rfl, unbalanced⟩
  | unopened unbalanced => exact .inr ⟨.inr rfl, unbalanced⟩
  | comma => exact .inl .unexpectedComma
  | argument => exact .inl (.emptyArgument _)
  | group opens closes balanced _ ih => rwa [balanced_group opens closes balanced]
  | call isName opens closes balanced _ _ ih => rwa [balanced_call isName opens closes balanced]
  | keep notOpening notClosing _ _ _ ih => rwa [balanced_keep notOpening notClosing]

namespace Builder

open Item

variable {builder : Builder} {items : List Item} {error : CompileError}

/-- An operand whose lists are finished, each needed once, is refused for what it is only. -/
private theorem linkOperand_refusal {item : Item} (unique : item.lists.Nodup)
    (ready : ∀ list ∈ item.lists, (builder.nodeOf list).isSome)
    (h : builder.linkOperand item = .error error) : Refusal error.cause := by
  by_cases evaluable : item.isEvaluable = true
  · obtain ⟨reply, linked⟩ := linkOperand_total evaluable unique ready
    rw [linked] at h
    cases h
  · cases item with
    | lexeme lexeme =>
      simp only [linkOperand] at h
      split at h <;> cases h
      exact .unexpectedToken _
    | group | call => exact absurd rfl evaluable

private theorem linkOperands_refusal (unique : (references items).Nodup)
    (ready : ∀ list ∈ references items, (builder.nodeOf list).isSome)
    (h : builder.linkOperands items = .error error) : Refusal error.cause := by
  induction items generalizing builder with
  | nil => cases h
  | cons item rest ih =>
    rw [references_cons] at unique ready
    obtain ⟨uniqueItem, uniqueRest, apart⟩ := List.nodup_append.mp unique
    have readyItem : ∀ list ∈ item.lists, (builder.nodeOf list).isSome :=
      fun list mem => ready list (List.mem_append_left _ mem)
    rw [linkOperands] at h
    split at h
    · exact ih uniqueRest (fun list mem => ready list (List.mem_append_right _ mem)) h
    rcases bind_eq_error.mp h with failed | ⟨⟨node, between⟩, linked, h⟩
    · exact linkOperand_refusal uniqueItem readyItem failed
    rcases bind_eq_error.mp h with failed | ⟨_, _, h⟩
    · refine ih uniqueRest ?_ failed
      intro list mem
      rw [nodeOf_congr (linkOperand_ok linked).lists_eq, nodeOf_releaseAll,
        if_neg fun inItem => apart list inItem list mem rfl]
      exact ready list (List.mem_append_right _ mem)
    · cases h

private theorem reduceOperand_refusal {list : ListId}
    (unique : (references (builder.itemsOf list)).Nodup)
    (h : builder.reduceOperand list = .error error) : Refusal error.cause := by
  simp only [reduceOperand] at h
  split at h
  · cases h
    exact .emptyExpression
  · next item alone =>
    split at h
    · next ready =>
      rcases bind_eq_error.mp h with failed | ⟨_, _, h⟩
      · rw [alone, references_cons, references_nil, List.append_nil] at unique
        exact linkOperand_refusal unique ((isReady_iff builder item).mp ready) failed
      · cases h
    · cases h
  · cases h
    exact .unexpectedToken _

private theorem reduceOperation_refusal {list : ListId} {index : Nat}
    (unique : (references (builder.itemsOf list)).Nodup)
    (h : builder.reduceOperation list index = .error error) : Refusal error.cause := by
  simp only [reduceOperation, Bool.not_eq_true'] at h
  split at h
  · cases h
  next ready =>
  split at h
  · cases h
  split at h
  · cases h
    exact .unexpectedToken _
  split at h
  · cases h
    exact .missingOperand _
  split at h
  · cases h
    exact .unexpectedToken _
  · cases h
    exact .unexpectedToken _
  · rcases bind_eq_error.mp h with failed | ⟨_, _, h⟩
    · rcases bind_eq_error.mp failed with failed | ⟨_, _, made⟩
      · refine linkOperands_refusal unique ?_ failed
        intro other mem
        obtain ⟨item, inItems, needed⟩ := List.mem_flatMap.mp mem
        have ready : (builder.itemsOf list).all builder.isReady = true := by simpa using ready
        exact (isReady_iff builder item).mp (List.all_eq_true.mp ready item inItems) other needed
      · cases made
    · cases h

private theorem reduce_refusal {list : ListId} (unique : (references (builder.itemsOf list)).Nodup)
    (h : builder.reduce list = .error error) : Refusal error.cause := by
  unfold reduce at h
  split at h
  · exact reduceOperand_refusal unique h
  · exact reduceOperation_refusal unique h
  · simp only [reduceOperators] at h
    split at h
    · split at h <;> cases h
      · exact .unresolvedOperator _
      · exact .emptyExpression
    · cases h

/-- A pass over the list in front of the queue objects to its members, or to their brackets. -/
theorem process_refusal {list : Nat} {rest : List ListId} (scheduled : Scheduled builder (list :: rest))
    (h : builder.process list = .error error) :
    Refusal error.cause ∨
      Unbalanced error.cause ∧ ¬ Token.Balanced 0 (outline (builder.itemsOf list)) := by
  have bound := (scheduled.pending list List.mem_cons_self).1
  simp only [process] at h
  split at h
  · rcases bind_eq_error.mp h with failed | ⟨⟨left, grouped⟩, group, h⟩
    · exact (regroup_stops failed).refusal
    obtain ⟨news, rfl, grouping⟩ := regroup_ok group
    rcases bind_eq_error.mp h with failed | ⟨_, _, h⟩
    · refine .inl (reduce_refusal ?_ failed)
      have divided := scheduled.divide grouping.division
      exact divided.nodup_references (List.mem_append_right _ List.mem_cons_self)
    · cases h
  · exact .inl (reduce_refusal scheduled.front_ready.1 h)

theorem pass_refusal {schedule : Schedule} {list : Nat} {rest : List ListId}
    (scheduled : Scheduled schedule.builder (list :: rest)) (h : schedule.pass list rest = .error error) :
    Refusal error.cause ∨
      Unbalanced error.cause ∧ ¬ Token.Balanced 0 (outline (schedule.builder.itemsOf list)) := by
  rcases bind_eq_error.mp h with failed | ⟨⟨step, after⟩, ran, h⟩
  · exact process_refusal scheduled failed
  · cases step with
    | done | progress => cases h
    | waiting => exact ((process_ok ran).not_waiting scheduled).elim

end Builder

end Reckoner

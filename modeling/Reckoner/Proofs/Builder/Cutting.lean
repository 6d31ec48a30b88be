import Reckoner.Proofs.Builder.Grouping

/-!
How an operator stands among its neighbours and what it takes from them. The indices that the builder
works with are turned into the items before and after the operator.
-/
namespace Reckoner

/-- The form that an operator takes, given whether it has an operand before it and one after it. -/
def Occurrence.fixityBetween (occurrence : Occurrence) (before after : Bool) : Option Fixity :=
  if occurrence.form.binary && before && after then some .binary
  else if occurrence.form.leading && after then some .leading
  else if occurrence.form.trailing && before then some .trailing
  else none

namespace Item

/-- Whether the items end with an operand. -/
def endsReady (items : List Item) : Bool :=
  items.getLast?.any isEvaluable

/-- Whether the items begin with an operand. -/
def beginsReady (items : List Item) : Bool :=
  items.head?.any isEvaluable

/-- What an operator takes from the items before and after it, with what it leaves of them on both
sides. -/
inductive Takes (op : Item) : Fixity → List Item → List Item →
    List Item → List Item → List Item → Prop where
  | binary (before : List Item) (left right : Item) (after : List Item) :
      left.isEvaluable = true → right.isEvaluable = true →
      Takes op .binary (before ++ [left]) (right :: after) before [left, op, right] after
  | leading (before : List Item) (operand : Item) (after : List Item) :
      operand.isEvaluable = true →
      Takes op .leading before (operand :: after) before [op, operand] after
  | trailing (before : List Item) (operand : Item) (after : List Item) :
      operand.isEvaluable = true →
      Takes op .trailing (before ++ [operand]) after before [operand, op] after

variable {op : Item} {fixity : Fixity} {before after first run last : List Item}

theorem Takes.whole_eq (h : Takes op fixity before after first run last) :
    before ++ op :: after = first ++ run ++ last := by
  cases h <;> simp

/-- The operator takes the items that its index says. -/
theorem Takes.operandRange_eq (h : Takes op fixity before after first run last) :
    operandRange before.length fixity = (first.length, first.length + run.length - 1) := by
  cases h <;> simp [operandRange]

theorem Takes.run_pos (h : Takes op fixity before after first run last) : 0 < run.length := by
  cases h <;> simp

/-- What is left was there before. -/
theorem Takes.beside (h : Takes op fixity before after first run last) {item : Item}
    (mem : item ∈ first ∨ item ∈ last) : item ∈ before ∨ item ∈ after := by
  cases h <;> simp <;> tauto

/-- The items that the index says are what the operator takes, and around them is what is left. -/
theorem Takes.range_eq (h : Takes op fixity before after first run last) :
    (before ++ op :: after).take first.length = first ∧
      ((before ++ op :: after).take (first.length + run.length - 1 + 1)).drop first.length = run ∧
      (before ++ op :: after).drop (first.length + run.length - 1 + 1) = last := by
  have size := h.run_pos
  have stop : first.length + run.length - 1 + 1 = (first ++ run).length := by
    rw [List.length_append]
    omega
  rw [h.whole_eq, stop, List.take_left, List.drop_left, List.drop_left, List.append_assoc, List.take_left]
  exact ⟨rfl, rfl, rfl⟩

/-- The operator is taken with operands, and everything else is left. -/
theorem Takes.mem_cases (h : Takes op fixity before after first run last) {item : Item}
    (mem : item ∈ before ++ op :: after) :
    item = op ∨ item.isEvaluable = true ∨ item ∈ first ∨ item ∈ last := by
  rw [h.whole_eq] at mem
  have taken : item ∈ run → item = op ∨ item.isEvaluable = true := by
    cases h with
    | binary _ left right _ isLeft isRight =>
      intro mem
      simp only [List.mem_cons, List.not_mem_nil, or_false] at mem
      rcases mem with rfl | rfl | rfl
      · exact .inr isLeft
      · exact .inl rfl
      · exact .inr isRight
    | leading _ operand _ evaluable | trailing _ operand _ evaluable =>
      intro mem
      simp only [List.mem_cons, List.not_mem_nil, or_false] at mem
      rcases mem with rfl | rfl <;> simp [evaluable]
  simp only [List.mem_append] at mem
  tauto

theorem fixity?_eq (occurrence : Occurrence) (before : List Item) (op : Item) (after : List Item) :
    fixity? occurrence (before ++ op :: after) before.length =
      occurrence.fixityBetween (endsReady before) (beginsReady after) := by
  have left : (decide (0 < before.length) &&
      ((before ++ op :: after)[before.length - 1]?).any isEvaluable) = endsReady before := by
    rcases List.eq_nil_or_concat before with rfl | ⟨front, item, rfl⟩
    · rfl
    · simp [endsReady]
  have right : ((before ++ op :: after)[before.length + 1]?).any isEvaluable = beginsReady after := by
    cases after <;> simp [beginsReady]
  simp only [fixity?, Occurrence.fixityBetween, ← left, ← right]

/-- An operator in a form that its neighbours allow takes what it needs. -/
theorem takes_of_fixityBetween {occurrence : Occurrence} {fixity : Fixity}
    (h : occurrence.fixityBetween (endsReady before) (beginsReady after) = some fixity) (op : Item) :
    ∃ first run last, Takes op fixity before after first run last := by
  have left : endsReady before = true →
      ∃ front operand, before = front ++ [operand] ∧ operand.isEvaluable = true := by
    intro ready
    rcases List.eq_nil_or_concat before with rfl | ⟨front, operand, rfl⟩
    · simp [endsReady] at ready
    · exact ⟨front, operand, List.concat_eq_append, by simpa [endsReady] using ready⟩
  have right : beginsReady after = true →
      ∃ operand rest, after = operand :: rest ∧ operand.isEvaluable = true := by
    intro ready
    cases after with
    | nil => simp [beginsReady] at ready
    | cons operand rest => exact ⟨operand, rest, rfl, by simpa [beginsReady] using ready⟩
  unfold Occurrence.fixityBetween at h
  split at h
  · next both =>
    cases h
    simp only [Bool.and_eq_true] at both
    obtain ⟨front, one, rfl, evaluable⟩ := left both.1.2
    obtain ⟨two, rest, rfl, evaluable'⟩ := right both.2
    exact ⟨_, _, _, .binary front one two rest evaluable evaluable'⟩
  split at h
  · next can =>
    cases h
    simp only [Bool.and_eq_true] at can
    obtain ⟨operand, rest, rfl, evaluable⟩ := right can.2
    exact ⟨_, _, _, .leading before operand rest evaluable⟩
  split at h
  · next can =>
    cases h
    simp only [Bool.and_eq_true] at can
    obtain ⟨front, operand, rfl, evaluable⟩ := left can.2
    exact ⟨_, _, _, .trailing front operand after evaluable⟩
  · cases h

end Item

open Item

namespace Builder

private theorem operatorIndices_aux (items : List Item) (start : Nat) :
    ((items.zipIdx start).filter fun (item, _) => item.isOperator).map (·.1) =
      items.filter isOperator := by
  induction items generalizing start with
  | nil => rfl
  | cons item rest ih =>
    simp only [List.zipIdx_cons, List.filter_cons]
    split <;> simp [ih]

theorem length_operatorIndices (items : List Item) :
    (operatorIndices items).length = (items.filter isOperator).length := by
  rw [← operatorIndices_aux items 0]
  simp [operatorIndices]

/-- The only index is that of the only operator. -/
theorem operatorIndices_eq_singleton {items : List Item} {index : Nat}
    (h : operatorIndices items = [index]) :
    ∃ before op after, items = before ++ op :: after ∧ before.length = index ∧
      op.isOperator = true ∧ (∀ item ∈ before, item.isOperator = false) ∧
      ∀ item ∈ after, item.isOperator = false := by
  suffices general : ∀ start, ((items.zipIdx start).filter fun (item, _) => item.isOperator).map (·.2) =
      [index] → ∃ before op after, items = before ++ op :: after ∧ start + before.length = index ∧
      op.isOperator = true ∧ (∀ item ∈ before, item.isOperator = false) ∧
      ∀ item ∈ after, item.isOperator = false by
    obtain ⟨before, op, after, rfl, place, rest⟩ := general 0 h
    exact ⟨before, op, after, rfl, by omega, rest⟩
  clear h
  intro start h
  induction items generalizing start with
  | nil => simp at h
  | cons item rest ih =>
    simp only [List.zipIdx_cons, List.filter_cons] at h
    split at h
    · next isOp =>
      simp only [List.map_cons, List.cons.injEq, List.map_eq_nil_iff] at h
      have none := operatorIndices_aux rest (start + 1)
      rw [h.2] at none
      refine ⟨[], item, rest, rfl, by simpa using h.1, isOp, by simp, fun other mem => ?_⟩
      simpa using List.filter_eq_nil_iff.mp none.symm other mem
    · next notOp =>
      obtain ⟨before, op, after, rfl, place, isOp, left, right⟩ := ih (start + 1) h
      refine ⟨item :: before, op, after, rfl, ?_, isOp, ?_, right⟩
      · simp only [List.length_cons]
        omega
      · simpa using ⟨by simpa using notOp, left⟩

/-- What becomes of a cutting at the operator between the items before and after it. -/
inductive Cutting.Visit (state : Cutting) (op : Item) (occurrence : Occurrence)
    (before after : List Item) : Cutting → Prop where
  /-- An operand is missing, and tighter operators are the last that are still cut out freely. -/
  | deferred :
      occurrence.fixityBetween (endsReady before) (beginsReady after) = none →
      Visit state op occurrence before after
        { state with
          deferred := state.deferred <|> some before.length
          blocked := state.blocked <|> some occurrence.precedence }
  /-- A tighter operator was left, so that the operands may still change. -/
  | blocked :
      occurrence.fixityBetween (endsReady before) (beginsReady after) = some .binary →
      state.blocked.any (occurrence.precedence < ·) = true → Visit state op occurrence before after state
  /-- The operator becomes a list with its operands. -/
  | taken (fixity : Fixity) (text : String) {first run last : List Item} :
      occurrence.fixityBetween (endsReady before) (beginsReady after) = some fixity →
      (fixity = .binary → state.blocked.any (occurrence.precedence < ·) = false) →
      Takes op fixity before after first run last →
      Visit state op occurrence before after
        { state with
          items := first ++ .group state.builder.lists.size text (Item.spanOf run) op.position :: last
          count := state.count + 1
          builder := state.builder.addList run (Item.spanOf run) }

/-- The first operator at a position, with what is in front of it and what is behind it. -/
private theorem exists_operator_at {items : List Item} {position index : Nat}
    (found : (items.findIdx? fun item => item.position == position && item.isOperator) = some index) :
    ∃ before op after, items = before ++ op :: after ∧ before.length = index ∧ op.isOperator = true ∧
      op.position = position ∧ ∀ item ∈ before, item.isOperator = true → item.position ≠ position := by
  obtain ⟨bound, isIt, earlier⟩ := List.findIdx?_eq_some_iff_getElem.mp found
  simp only [Bool.and_eq_true, beq_iff_eq] at isIt
  refine ⟨items.take index, items[index], items.drop (index + 1), by simp, by simp; omega, isIt.2, isIt.1, ?_⟩
  intro item mem isOperator same
  obtain ⟨j, lt, rfl⟩ := List.mem_take_iff_getElem.mp mem
  have := earlier j (by omega)
  simp [same, isOperator] at this

/-- A position either is that of no operator any more, or the first operator at it is visited. -/
theorem Cutting.cut_cases (state : Cutting) (position : Nat) :
    (∀ item ∈ state.items, item.isOperator = true → item.position ≠ position) ∧
        state.cut position = state ∨
      ∃ before op after occurrence, state.items = before ++ op :: after ∧
        op.isOperator = true ∧ op.position = position ∧ op.occurrence? = some occurrence ∧
        (∀ item ∈ before, item.isOperator = true → item.position ≠ position) ∧
        state.Visit op occurrence before after (state.cut position) := by
  cases found : state.items.findIdx? fun item => item.position == position && item.isOperator with
  | none =>
    refine .inl ⟨fun item mem isOp same => ?_, by simp only [cut, found]⟩
    have := List.findIdx?_eq_none_iff.mp found item mem
    simp [isOp, same] at this
  | some index =>
    obtain ⟨before, op, after, whole, rfl, isOp, place, unnamed⟩ := exists_operator_at found
    obtain ⟨occurrence, named, -⟩ := exists_occurrence_of_isOperator isOp
    refine .inr ⟨before, op, after, occurrence, whole, isOp, place, named, unnamed, ?_⟩
    have atIndex : state.items[before.length]? = some op := by simp [whole]
    have fixity := fixity?_eq occurrence before op after
    rw [← whole] at fixity
    simp only [cut, found, atIndex, Option.bind_some, named, fixity]
    cases allowed : occurrence.fixityBetween (endsReady before) (beginsReady after) with
    | none => exact .deferred allowed
    | some fixity =>
      simp only [Bool.and_eq_true, beq_iff_eq]
      split
      · next left =>
        obtain ⟨rfl, left⟩ := left
        exact .blocked allowed left
      · next free =>
        obtain ⟨first, run, last, takes⟩ := takes_of_fixityBetween allowed op
        obtain ⟨front, middle, back⟩ := takes.range_eq
        rw [← whole] at front middle back
        simp only [takes.operandRange_eq, front, middle, back, groupItem, ← place]
        refine .taken fixity _ allowed (fun isBinary => ?_) takes
        simpa [isBinary] using free

end Builder

end Reckoner

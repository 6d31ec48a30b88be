import Reckoner.Proofs.Builder.Ranking

/-!
Operands and operators taking turns. Whether a list without brackets can be read does not depend on how
tightly its operators bind, so that taking an operator out with its operands changes nothing about it.
-/
namespace Reckoner

open Item

namespace Item

/-- Whether an operand stands right before what follows, after one more item. -/
def turn (ready : Bool) (item : Item) : Option Bool :=
  if item.isEvaluable then if ready then none else some true
  else item.occurrence?.bind fun occurrence =>
    if ready then
      if occurrence.form.trailing then some true
      else if occurrence.form.binary then some false
      else none
    else if occurrence.form.leading then some false
    else none

/-- The same after several items. -/
def turns (ready : Bool) (items : List Item) : Option Bool :=
  items.foldlM turn ready

/-- Every operator has the operands that its form asks for, and every operand has its place. -/
def Alternates (items : List Item) : Prop :=
  turns false items = some true

@[simp] theorem turns_nil (ready : Bool) : turns ready [] = some ready := rfl

@[simp] theorem turns_cons (ready : Bool) (item : Item) (items : List Item) :
    turns ready (item :: items) = (turn ready item).bind fun next => turns next items := by
  simp [turns, List.foldlM_cons]

theorem turns_append (ready : Bool) (first second : List Item) :
    turns ready (first ++ second) = (turns ready first).bind fun next => turns next second := by
  simp [turns, List.foldlM_append]

theorem turn_of_isEvaluable {item : Item} (h : item.isEvaluable = true) (ready : Bool) :
    turn ready item = if ready then none else some true := by
  rw [turn, if_pos h]

theorem turn_of_isOperator {item : Item} (h : item.isOperator = true) {occurrence : Occurrence}
    (named : item.occurrence? = some occurrence) (ready : Bool) :
    turn ready item =
      if ready then
        if occurrence.form.trailing then some true
        else if occurrence.form.binary then some false
        else none
      else if occurrence.form.leading then some false
      else none := by
  rw [turn, if_neg (by simp [not_isEvaluable_of_isOperator h]), named]
  rfl

/-- An operator that can only stand before its operand. -/
def leads (item : Item) : Bool :=
  item.isOperator && item.occurrence?.any fun occurrence =>
    occurrence.form.leading && !occurrence.form.binary

theorem isOperator_of_leads {item : Item} (h : item.leads = true) : item.isOperator = true := by
  simp only [leads, Bool.and_eq_true] at h
  exact h.1

theorem stands_of_leads {registry : Registry} {items : List Item}
    (settled : ∀ lexeme, .lexeme lexeme ∈ items → lexeme.Settled registry) {item : Item}
    (mem : item ∈ items) (h : item.leads = true) :
    item.isOperator = true ∧ ∃ occurrence, item.occurrence? = some occurrence ∧
      occurrence.Stands .leading := by
  simp only [leads, Bool.and_eq_true, Option.any_eq_true, Bool.not_eq_true'] at h
  obtain ⟨isOperator, occurrence, named, before, notBinary⟩ := h
  obtain ⟨fixity, stands⟩ := exists_stands settled mem isOperator named
  cases stands with
  | binary between => simp [between] at notBinary
  | leading notBinary leads notTrailing low high =>
    exact ⟨isOperator, occurrence, named, .leading notBinary leads notTrailing low high⟩
  | trailing _ notLeading => simp [before] at notLeading

/-- Where an operand is awaited, none stands yet. -/
theorem not_endsReady_of_turns {items : List Item} (h : turns false items = some false) :
    endsReady items = false := by
  rcases List.eq_nil_or_concat items with rfl | ⟨front, item, rfl⟩
  · rfl
  rw [List.concat_eq_append, turns_append] at h
  obtain ⟨ready, -, h⟩ := Option.bind_eq_some_iff.mp h
  rw [turns_cons] at h
  by_contra evaluable
  have evaluable : item.isEvaluable = true := by simpa [endsReady] using evaluable
  rw [turn_of_isEvaluable evaluable] at h
  cases ready <;> cases h

/-- Where none is awaited, an operand or what trails it stands last. -/
theorem endsReady_of_turns {items : List Item} (flat : Flat items)
    (h : turns false items = some true) :
    endsReady items = true ∨ ∃ item ∈ items, item.trails = true := by
  rcases List.eq_nil_or_concat items with rfl | ⟨front, item, rfl⟩
  · cases h
  rw [List.concat_eq_append] at *
  rw [turns_append] at h
  obtain ⟨ready, -, h⟩ := Option.bind_eq_some_iff.mp h
  rcases flat item (by simp) with evaluable | isOperator
  · exact .inl (by simpa [endsReady] using evaluable)
  obtain ⟨occurrence, named, -⟩ := exists_occurrence_of_isOperator isOperator
  refine .inr ⟨item, by simp, ?_⟩
  rw [turns_cons, turn_of_isOperator isOperator named] at h
  cases behind : occurrence.form.trailing with
  | true => simp [trails, isOperator, named, behind]
  | false => cases ready <;> simp [behind] at h

/-- Behind an operator that awaits an operand stands the operand, or an operator before it. -/
theorem awaited {op : Item} {after : List Item}
    (chain : (op :: after).IsChain Adjacent) (flat : Flat (op :: after))
    (isOperator : op.isOperator = true) (notTrailing : op.trails = false)
    (h : turns false after = some true) :
    beginsReady after = true ∨ ∃ item rest, after = item :: rest ∧ item.leads = true ∧
      turns false rest = some true := by
  cases after with
  | nil => cases h
  | cons item rest =>
    rcases flat item (by simp) with evaluable | isOperator'
    · exact .inl (by simpa [beginsReady] using evaluable)
    obtain ⟨occurrence, named, -⟩ := exists_occurrence_of_isOperator isOperator'
    rw [turns_cons, turn_of_isOperator isOperator' named] at h
    cases before : occurrence.form.leading with
    | false => simp [before] at h
    | true =>
      refine .inr ⟨item, rest, rfl, ?_, by simpa [before] using h⟩
      have adjacent := (List.isChain_cons.mp chain).1 item (by simp)
      have notSign : item.isSign = false := by
        by_contra sign
        have follows := adjacent.sign (by simpa using sign)
        simp [not_isEvaluable_of_isOperator isOperator, notTrailing,
          not_closesGroup_of_isOperator isOperator] at follows
      simp only [isSign, isOperator', named, before, Bool.true_and, Option.any_some, Bool.and_true]
        at notSign
      simp [leads, isOperator', named, before, notSign]

end Item

/-- Whether the machine stands behind an operand. -/
def Machine.isAfter : Machine → Bool
  | .after .. => true
  | _ => false

namespace Item

variable {meaning : ListId → Option Term}

private theorem turn_of_step {item : Item} (flat : item.isEvaluable = true ∨ item.isOperator = true)
    {machine next : Machine} (h : machine.step (item.token meaning) = some next) :
    turn machine.isAfter item = some next.isAfter := by
  have stepped := Machine.step_some h
  rcases flat with evaluable | isOperator
  · rw [turn_of_isEvaluable evaluable]
    rcases @token_of_isEvaluable meaning item evaluable with same | ⟨term, same⟩ <;>
      rw [same] at stepped <;> cases stepped
    rfl
  · obtain ⟨occurrence, named, same⟩ := @exists_token_of_isOperator meaning item isOperator
    rw [turn_of_isOperator isOperator named]
    rw [same] at h
    cases machine with
    | before frames =>
      simp only [Machine.step] at h
      split at h
      · next leads =>
        cases h
        simp [Machine.isAfter, leads]
      · cases h
    | named => cases h
    | after frames term =>
      simp only [Machine.step] at h
      split at h
      · next trails =>
        cases h
        simp [Machine.isAfter, trails]
      split at h
      · next notTrailing between =>
        cases h
        simp [Machine.isAfter, notTrailing, between]
      · cases h

private theorem turns_of_steps {items : List Item} (flat : Flat items) {machine next : Machine}
    (h : machine.steps (items.map (token meaning)) = some next) :
    turns machine.isAfter items = some next.isAfter := by
  induction items generalizing machine with
  | nil =>
    cases h
    rfl
  | cons item rest ih =>
    obtain ⟨here, later⟩ := List.forall_mem_cons.mp flat
    rw [List.map_cons, Machine.steps_cons] at h
    obtain ⟨between, stepped, h⟩ := Option.bind_eq_some_iff.mp h
    rw [turns_cons, turn_of_step here stepped]
    exact ih later h

/-- What can be read takes turns. -/
theorem alternates_of_read {items : List Item} (flat : Flat items) {term : Term}
    (h : read meaning items = some term) : Alternates items := by
  obtain ⟨machine, ran, finished⟩ := Option.bind_eq_some_iff.mp h
  have := turns_of_steps flat ran
  cases machine with
  | after => exact this
  | before | named => cases finished

theorem read_eq_none {items : List Item} (flat : Flat items) (h : ¬ Alternates items) :
    read meaning items = none := by
  by_contra some
  obtain ⟨term, found⟩ := Option.ne_none_iff_exists'.mp some
  exact h (alternates_of_read flat found)

/-- An operator with its operands is one operand. -/
theorem Takes.turns_run {op : Item} {fixity : Fixity} {before after first run last : List Item}
    (h : Takes op fixity before after first run last) (isOperator : op.isOperator = true)
    {occurrence : Occurrence} (named : op.occurrence? = some occurrence)
    (stands : occurrence.Stands fixity) (ready : Bool) :
    turns ready run = if ready then none else some true := by
  have turn := turn_of_isOperator isOperator named
  cases h with
  | binary before left right after isLeft isRight =>
    cases stands with
    | binary between notTrailing =>
      cases ready <;> simp [turn, turn_of_isEvaluable isLeft, turn_of_isEvaluable isRight, between, notTrailing]
  | leading before operand after evaluable =>
    cases stands with
    | leading notBinary leads notTrailing =>
      cases ready <;> simp [turn, turn_of_isEvaluable evaluable, notBinary, leads, notTrailing]
  | trailing before operand after evaluable =>
    cases stands with
    | trailing _ _ trails => cases ready <;> simp [turn, turn_of_isEvaluable evaluable, trails]

/-- Whether a list takes turns is not changed by taking an operator out with its operands. -/
theorem Takes.alternates_iff {op : Item} {fixity : Fixity} {before after first run last : List Item}
    (h : Takes op fixity before after first run last) (isOperator : op.isOperator = true)
    {occurrence : Occurrence} (named : op.occurrence? = some occurrence)
    (stands : occurrence.Stands fixity) {item : Item} (evaluable : item.isEvaluable = true) :
    Alternates (first ++ item :: last) ↔ Alternates (before ++ op :: after) := by
  rw [h.whole_eq, Alternates, Alternates, List.append_assoc, turns_append, turns_append]
  simp only [turns_append, h.turns_run isOperator named stands, turns_cons, turn_of_isEvaluable evaluable]

end Item

end Reckoner

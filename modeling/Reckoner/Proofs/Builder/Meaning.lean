import Reckoner.Proofs.Builder.Proper

/-!
What lists mean while they are taken apart. A new list means what is read in it, and what is left of the
old one still means the same, since the item that refers to the new list is read as what it was made from.
-/
namespace Reckoner.Item

/-- Every new list means what is read in it. -/
def Explains (meaning : ListId → Option Term) (number : Nat) (news : List (List Item × Span)) : Prop :=
  ∀ index new, news[index]? = some new → meaning (number + index) = read meaning new.1

variable {meaning : ListId → Option Term} {number : Nat}

theorem explains_cons {new : List Item × Span} {news : List (List Item × Span)} :
    Explains meaning number (new :: news) ↔
      meaning number = read meaning new.1 ∧ Explains meaning (number + 1) news := by
  constructor
  · intro h
    refine ⟨h 0 new rfl, fun index other found => ?_⟩
    rw [Nat.add_right_comm]
    exact h (index + 1) other found
  · rintro ⟨first, later⟩ index other found
    cases index with
    | zero =>
      cases found
      exact first
    | succ index =>
      rw [show number + (index + 1) = number + 1 + index by omega]
      exact later index other found

theorem explains_append {first second : List (List Item × Span)} :
    Explains meaning number (first ++ second) ↔
      Explains meaning number first ∧ Explains meaning (number + first.length) second := by
  induction first generalizing number with
  | nil => simp [Explains]
  | cons new first ih =>
    rw [List.cons_append, explains_cons, explains_cons, ih, and_assoc, List.length_cons,
      Nat.add_right_comm, Nat.add_assoc]

/-- Lists that need only lists before them can be given their meaning one after the other. -/
theorem exists_explains (old : ListId → Option Term) (number : Nat) (news : List (List Item × Span))
    (earlier : ∀ index new, news[index]? = some new → ∀ list : Nat, list ∈ references new.1 →
      list < number + index) :
    ∃ meaning : ListId → Option Term, (∀ list : Nat, list < number → meaning list = old list) ∧
      Explains meaning number news := by
  induction news using List.reverseRecOn with
  | nil => exact ⟨old, fun _ _ => rfl, by simp [Explains]⟩
  | append_singleton news new ih =>
    have old' : ∀ (index : Nat) new', news[index]? = some new' → (news ++ [new])[index]? = some new' := by
      intro index new' found
      rw [List.getElem?_append_left (List.getElem?_eq_some_iff.mp found).1, found]
    obtain ⟨meaning, same, explains⟩ := ih fun index new' found => earlier index new' (old' index new' found)
    let meaning' : ListId → Option Term := fun list =>
      if list = number + news.length then read meaning new.1 else meaning list
    have kept : ∀ list : Nat, list < number + news.length → meaning list = meaning' list :=
      fun list lt => (if_neg (Nat.ne_of_lt lt)).symm
    have last := earlier news.length new (by simp)
    refine ⟨meaning', fun list lt => ?_, explains_append.mpr ⟨fun index new' found => ?_, ?_⟩⟩
    · rw [← kept list (by omega), same list lt]
    · have lt := (List.getElem?_eq_some_iff.mp found).1
      rw [← kept _ (by omega), explains index new' found]
      refine read_congr fun item mem list needed => kept list ?_
      have := earlier index new' (old' index new' found) list (List.mem_flatMap.mpr ⟨item, mem, needed⟩)
      omega
    · refine explains_cons.mpr ⟨?_, by simp [Explains]⟩
      refine (if_pos rfl).trans (read_congr fun item mem list needed => kept list ?_)
      exact last list (List.mem_flatMap.mpr ⟨item, mem, needed⟩)

/-- An operand and an operator open no bracket and begin no call. -/
private theorem step_flat {item : Item} (flat : item.isEvaluable = true ∨ item.isOperator = true)
    {machine next : Machine} (h : machine.step (item.token meaning) = some next) :
    (∀ frames name, next ≠ .named frames name) ∧ next.depth = machine.depth := by
  have depth := Machine.depth_step h
  have stepped := Machine.step_some h
  rcases flat with evaluable | isOperator
  · rcases @token_of_isEvaluable meaning item evaluable with same | ⟨term, same⟩ <;>
      rw [same] at stepped depth <;> cases stepped
    exact ⟨by rintro _ _ ⟨⟩, depth⟩
  · obtain ⟨occurrence, -, same⟩ := @exists_token_of_isOperator meaning item isOperator
    rw [same] at stepped depth
    refine ⟨?_, depth⟩
    rintro frames name rfl
    cases stepped

/-- The arguments of a call mean what is read in them. -/
private theorem mapM_range' {runs : List (List Item)} {rest : List (List Item × Span)}
    (explains : Explains meaning number (runs.map (fun run => (run, spanOf run)) ++ rest)) :
    (List.range' number runs.length).mapM meaning =
      (runs.map (List.map (token meaning))).mapM (Machine.before []).run := by
  induction runs generalizing number with
  | nil => rfl
  | cons run runs ih =>
    obtain ⟨means, later⟩ := explains_cons.mp explains
    rw [List.length_cons, List.range'_succ, List.mapM_cons, List.map_cons, List.mapM_cons, ih later, means]
    rfl

theorem map_token_group {opening closing : Item} (opens : opening.opensGroup = true)
    (closes : closing.closesGroup = true) (inner after : List Item) :
    (opening :: (inner ++ closing :: after)).map (token meaning) =
      (.opening :: (inner.map (token meaning) ++ [.closing])) ++ after.map (token meaning) := by
  simp [token_eq_opening.mpr opens, token_eq_closing.mpr closes]

theorem map_token_call {name opening closing : Item} (isName : name.isFunction = true)
    (opens : opening.opensGroup = true) (closes : closing.closesGroup = true) (inner after : List Item) :
    (name :: opening :: (inner ++ closing :: after)).map (token meaning) =
      (.function name.text :: .opening :: (inner.map (token meaning) ++ [.closing])) ++
        after.map (token meaning) := by
  rw [List.map_cons, token_of_isFunction isName, map_token_group opens closes]
  rfl

/-- A call is read argument by argument. -/
theorem Arguments.steps_eq {runs : List (List Item)} {inner : List Item} (h : Arguments runs inner)
    (name : String) (frames : List Frame) :
    (Machine.before frames).steps (.function name :: .opening ::
        (inner.map (token meaning) ++ [.closing])) =
      ((runs.map (List.map (token meaning))).mapM (Machine.before []).run).map fun terms =>
        .after frames (.call name terms) := by
  change (Machine.before (.call name [] :: frames)).steps _ = _
  rcases h with ⟨rfl, rfl⟩ | ⟨some, separated, enclosed⟩
  · rfl
  · refine Machine.steps_arguments (separated.map (token meaning) fun item => token_eq_comma.mpr) ?_
      name (.inl (by simpa using some)) frames
    intro argument mem
    obtain ⟨run, isRun, rfl⟩ := List.mem_map.mp mem
    exact enclosed_outline.mpr (enclosed run isRun)

/-- The machine goes through what is left as it went through the whole. -/
private theorem Grouping.steps_eq {items left : List Item} {news : List (List Item × Span)}
    (h : Grouping number items left news) (flat : Flat left) (explains : Explains meaning number news)
    (machine : Machine) (ready : ∀ frames name, machine ≠ .named frames name) :
    machine.steps (left.map (token meaning)) = machine.steps (items.map (token meaning)) := by
  induction h generalizing machine with
  | nil => rfl
  | @group number opening closing inner after items news text span opens closes balanced _ ih =>
    obtain ⟨means, later⟩ := explains_cons.mp explains
    obtain ⟨-, flat⟩ := List.forall_mem_cons.mp flat
    have item : (Item.group number text span opening.position).token meaning =
        ((Machine.before []).run (inner.map (token meaning))).elim .unknown .operand := by
      rw [token, means]
      rfl
    rw [map_token_group opens closes, Machine.steps_append, List.map_cons, Machine.steps_cons, item]
    cases machine with
    | before frames =>
      rw [Machine.steps_group (balanced_outline.mpr balanced)]
      cases (Machine.before []).run (inner.map (token meaning)) with
      | none => rfl
      | some term => exact ih flat later _ (by rintro _ _ ⟨⟩)
    | named frames name => exact absurd rfl (ready frames name)
    | after frames term =>
      cases (Machine.before []).run (inner.map (token meaning)) <;> rfl
  | @call number name opening closing inner after items runs news span isName opens closes balanced args _
      ih =>
    obtain ⟨-, flat⟩ := List.forall_mem_cons.mp flat
    obtain ⟨-, later⟩ := explains_append.mp explains
    rw [List.length_map] at later
    have item : (Item.call name.text (List.range' number runs.length) span name.position).token meaning =
        ((runs.map (List.map (token meaning))).mapM (Machine.before []).run).elim .unknown
          fun terms => .operand (.call name.text terms) := by
      rw [token, mapM_range' explains]
    rw [map_token_call isName opens closes, Machine.steps_append, List.map_cons, Machine.steps_cons, item]
    cases machine with
    | before frames =>
      rw [args.steps_eq]
      cases (runs.map (List.map (token meaning))).mapM (Machine.before []).run with
      | none => rfl
      | some terms => exact ih flat later _ (by rintro _ _ ⟨⟩)
    | named frames name => exact absurd rfl (ready frames name)
    | after frames term =>
      cases (runs.map (List.map (token meaning))).mapM (Machine.before []).run <;> rfl
  | @keep number item rest items news notOpening notClosing notComma named _ ih =>
    obtain ⟨here, flat⟩ := List.forall_mem_cons.mp flat
    rw [List.map_cons, List.map_cons, Machine.steps_cons, Machine.steps_cons]
    cases read : machine.step (item.token meaning) with
    | none => rfl
    | some next =>
      exact ih flat explains next (step_flat here read).1

theorem Grouping.read_eq {items left : List Item} {news : List (List Item × Span)}
    (h : Grouping number items left news) (flat : Flat left) (explains : Explains meaning number news) :
    read meaning left = read meaning items := by
  unfold read Machine.run
  rw [h.steps_eq flat explains (.before []) (by rintro _ _ ⟨⟩)]

private theorem mapM_eq_none {runs : List (List Item)} (empty : [] ∈ runs) :
    (runs.map (List.map (token meaning))).mapM (Machine.before []).run = none := by
  induction runs with
  | nil => cases empty
  | cons run runs ih =>
    rw [List.map_cons, List.mapM_cons]
    rcases List.mem_cons.mp empty with rfl | empty
    · rfl
    · rw [ih empty]
      cases (Machine.before []).run (run.map (token meaning)) <;> rfl

/-- Where taking out groups and calls stops although the brackets are balanced, nothing can be read. -/
theorem Stops.run_eq_none {registry : Registry} {items : List Item} {cause : CompileError.Cause}
    (h : Stops items cause) (orderly : Orderly registry items) (machine : Machine)
    (ready : ∀ frames name, machine ≠ .named frames name) (closed : machine.depth = 0) :
    machine.run (items.map (token meaning)) = none := by
  induction h generalizing machine with
  | unclosed unbalanced | unopened unbalanced => exact absurd orderly.balanced unbalanced
  | comma isComma =>
    rw [List.map_cons, token_eq_comma.mpr isComma, Machine.run_cons, Machine.step_comma closed]
    rfl
  | argument isName opens closes balanced args empty =>
    rw [map_token_call isName opens closes, Machine.run_append]
    cases machine with
    | before frames =>
      rw [args.steps_eq, mapM_eq_none empty]
      rfl
    | named frames name => exact absurd rfl (ready frames name)
    | after frames term => rfl
  | @group opening closing inner after cause opens closes balanced _ ih =>
    rw [map_token_group opens closes, Machine.run_append]
    cases machine with
    | before frames =>
      rw [Machine.steps_group (balanced_outline.mpr balanced)]
      cases (Machine.before []).run (inner.map (token meaning)) with
      | none => rfl
      | some term =>
        exact ih (orderly.behind_group opens closes balanced) (.after frames term) (by rintro _ _ ⟨⟩) closed
    | named frames name => exact absurd rfl (ready frames name)
    | after frames term => rfl
  | @call name opening closing inner after runs cause isName opens closes balanced args _ ih =>
    rw [map_token_call isName opens closes, Machine.run_append]
    cases machine with
    | before frames =>
      rw [args.steps_eq]
      cases (runs.map (List.map (token meaning))).mapM (Machine.before []).run with
      | none => rfl
      | some terms =>
        exact ih (orderly.behind_call isName opens closes balanced) (.after frames (.call name.text terms))
          (by rintro _ _ ⟨⟩) closed
    | named frames name => exact absurd rfl (ready frames name)
    | after frames term => rfl
  | @keep item rest cause notOpening notClosing notComma named _ ih =>
    rw [List.map_cons, Machine.run_cons]
    cases read : machine.step (item.token meaning) with
    | none => rfl
    | some next =>
      obtain ⟨ready, depth⟩ := step_flat (orderly.flat_of_keep notOpening notClosing notComma named) read
      exact ih (orderly.behind_keep notOpening notClosing) next ready (depth.trans closed)

theorem Stops.read_eq_none {registry : Registry} {items : List Item} {cause : CompileError.Cause}
    (h : Stops items cause) (orderly : Orderly registry items) (meaning : ListId → Option Term) :
    read meaning items = none :=
  h.run_eq_none orderly (.before []) (by rintro _ _ ⟨⟩) rfl

end Reckoner.Item

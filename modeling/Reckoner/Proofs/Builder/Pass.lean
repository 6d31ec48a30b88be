import Reckoner.Proofs.Builder.Schedule

/-!
Passes over the list in front of a queue that is in order. Such a list never has to wait: a pass either
divides it or finishes it. What holds at the start and is kept by both holds until no list is left.
-/
namespace Reckoner

open Item

/-- What is left of a divided list needs the last of the new lists. -/
theorem Division.exists_new {number : Nat} {items left : List Item}
    {news : List (List Item × Span)} (h : Division number items left news)
    (old : ∀ list : Nat, list ∈ references items → list < number) (some : news ≠ []) :
    ∃ list : Nat, number ≤ list ∧ list ∈ references left := by
  have pos := List.length_pos_iff.mpr some
  refine ⟨number + (news.length - 1), Nat.le_add_right .., ?_⟩
  have mem : number + (news.length - 1) ∈ references items ++ List.range' number news.length := by
    refine List.mem_append_right _ (List.mem_range'_1.mpr ⟨Nat.le_add_right .., ?_⟩)
    omega
  rcases List.mem_append.mp (h.perm.symm.subset mem) with inLeft | inNews
  · exact inLeft
  · obtain ⟨new, isNew, needed⟩ := List.mem_flatMap.mp inNews
    obtain ⟨index, lt, rfl⟩ := List.getElem_of_mem isNew
    rcases h.earlier index _ (List.getElem?_eq_getElem lt) _ needed with isOld | lower
    · have := old _ isOld
      omega
    · omega

namespace Builder

/-- The members of a list once its calls without arguments are taken out, if nothing else has to be. -/
inductive Bare (builder : Builder) (list : ListId) : List Item → Prop where
  | whole : hasGroups (builder.itemsOf list) = false → Bare builder list (builder.itemsOf list)
  | grouped {left : List Item} : hasGroups (builder.itemsOf list) = true →
      Grouping builder.lists.size (builder.itemsOf list) left [] → Bare builder list left

/-- What a pass over the list in front of the queue comes to. -/
inductive Passed (builder : Builder) (list : ListId) (rest : List ListId) : Schedule → Prop where
  | divided {after : Builder} {left : List Item} {news : List (List Item × Span)} :
      Processed builder list .progress after →
      Division builder.lists.size (builder.itemsOf list) left news →
      after = (builder.append news).setItems list left →
      Passed builder list rest
        ⟨after, List.range' builder.lists.size news.length ++ list :: rest, 0⟩
  | linked {items : List Item} {node : NodeId} {after : Builder} : Bare builder list items →
      Linked (builder.setItems list items) items node after →
      Passed builder list rest ⟨after.finish list node, rest, 0⟩

variable {builder : Builder} {list : Nat} {rest : List ListId} {next : Schedule}

theorem Bare.division {items : List Item} (h : Bare builder list items) :
    Division builder.lists.size (builder.itemsOf list) items [] := by
  cases h with
  | whole => exact .refl _ _
  | grouped _ grouping => exact grouping.division

theorem Processed.not_waiting (scheduled : Scheduled builder (list :: rest))
    {after : Builder} (h : Processed builder list .waiting after) : False := by
  generalize made : Step.waiting = step at h
  cases h with
  | whole _ reduced =>
    subst made
    cases reduced with
    | waiting notReady =>
      refine notReady fun item mem => (isReady_iff builder item).mpr fun other needed => ?_
      exact scheduled.front_ready.2 other (List.mem_flatMap.mpr ⟨item, mem, needed⟩)
  | @grouped _ _ step => cases step <;> cases made

private theorem Processed.linked (scheduled : Scheduled builder (list :: rest)) {after : Builder}
    (h : Processed builder list .done after) :
    ∃ items node linked, Bare builder list items ∧
      Linked (builder.setItems list items) items node linked ∧ after = linked.finish list node := by
  have bound := (scheduled.pending list List.mem_cons_self).1
  generalize made : Step.done = step at h
  cases h with
  | whole noGroups reduced =>
    subst made
    cases reduced with
    | linked link =>
      exact ⟨_, _, _, .whole noGroups, by rw [setItems_itemsOf]; exact link, rfl⟩
  | @grouped left news step _ groups grouping reduced =>
    have isDone : step = .done := by cases step <;> first | rfl | cases made
    subst isDone
    cases reduced with
    | linked link =>
      rw [itemsOf_divided_self builder left news bound] at link
      have noNews : news = [] := by
        by_contra some
        obtain ⟨other, new, needed⟩ := grouping.division.exists_new
          (fun other mem => scheduled.bound_references mem) some
        have ready := link.ready.2 other needed
        rw [nodeOf_setItems, nodeOf_append, nodeOf_of_size_le _ new] at ready
        cases ready
      subst noNews
      exact ⟨_, _, _, .grouped groups grouping, link, rfl⟩

/-- A pass over the list in front divides it or finishes it. -/
theorem pass_ok {schedule : Schedule} (scheduled : Scheduled schedule.builder (list :: rest))
    (h : schedule.pass list rest = .ok next) : Passed schedule.builder list rest next := by
  have bound := (scheduled.pending list List.mem_cons_self).1
  obtain ⟨⟨step, after⟩, ran, h⟩ := bind_eq_ok.mp h
  have processed := process_ok ran
  cases step with
  | waiting => exact (processed.not_waiting scheduled).elim
  | progress =>
    cases h
    obtain ⟨left, news, division, rfl⟩ := processed.division bound
    rw [size_setItems, size_append, Nat.add_sub_cancel_left]
    exact .divided processed division rfl
  | done =>
    cases h
    obtain ⟨items, node, linked, bare, link, rfl⟩ := processed.linked scheduled
    have size : linked.lists.size = schedule.builder.lists.size := by
      rw [link.size_eq, size_setItems]
    rw [size_finish, size, Nat.sub_self]
    exact .linked bare link

/-- Finishing the list in front leaves the members of the others alone. -/
theorem Scheduled.itemsOf_linked (h : Scheduled builder (list :: rest)) {items : List Item} {node : NodeId}
    {after : Builder} (link : Linked (builder.setItems list items) items node after) {other : Nat}
    (mem : other ∈ rest) : (after.finish list node).itemsOf other = builder.itemsOf other := by
  have ne : other ≠ list := ne_of_mem_of_not_mem mem (List.nodup_cons.mp h.unique).1
  rw [itemsOf_finish, if_neg ne, itemsOf_congr link.lists_eq, itemsOf_releaseAll,
    itemsOf_setItems _ (h.pending list List.mem_cons_self).1, if_neg ne]

/-- A pass leaves the queue in order. -/
theorem Passed.scheduled (h : Passed builder list rest next)
    (scheduled : Scheduled builder (list :: rest)) : Scheduled next.builder next.queue := by
  have bound := (scheduled.pending list List.mem_cons_self).1
  cases h with
  | divided _ division made => exact made ▸ scheduled.divide division
  | @linked items node after bare link =>
    have items_eq : (builder.setItems list items).itemsOf list = items := by
      rw [itemsOf_setItems _ bound, if_pos rfl]
    refine (scheduled.divide bare.division).finish ?_ node
    rw [link.lists_eq, append_nil, items_eq]

theorem nodeOf_start (source : String) (lexemes : List Lexeme) (list : ListId) :
    (start source lexemes).nodeOf list = none := by
  simp only [nodeOf, start, addList, List.push_toArray, List.nil_append]
  rcases list with _ | list <;> simp

/-- The lexemes are a queue in order. -/
theorem scheduled_start (source : String) (lexemes : List Lexeme) :
    Scheduled (start source lexemes) [0] := by
  have items : (start source lexemes).itemsOf 0 = lexemes.map .lexeme := rfl
  have noLists : references (lexemes.map .lexeme) = [] := by
    simp [references, List.flatMap_map]
  constructor
  · simp
  · intro list mem
    rw [List.mem_singleton.mp mem]
    exact ⟨by simp [start, addList], nodeOf_start source lexemes 0⟩
  · intro list
    simp [needs, items, noLists, nodeOf_start]
  · simp
  · simp [items, noLists]

theorem run_nil {limit left : Nat} {schedule : Schedule} (queued : schedule.queue = []) :
    Schedule.run limit left schedule = .ok schedule.builder := by
  rw [Schedule.run.eq_def]
  simp only [queued]

theorem run_zero {limit : Nat} {schedule : Schedule} (queued : schedule.queue = list :: rest) :
    Schedule.run limit 0 schedule =
      .error (CompileError.Cause.atSpan (.passLimitExceeded limit) (Span.whole schedule.builder.source)) := by
  rw [Schedule.run.eq_def]
  simp only [queued]

theorem run_succ {limit left : Nat} {schedule : Schedule} (queued : schedule.queue = list :: rest) :
    Schedule.run limit (left + 1) schedule = schedule.pass list rest >>= Schedule.run limit left := by
  rw [Schedule.run.eq_def]
  simp only [queued]
  cases schedule.pass list rest <;> rfl

/-- What holds of a queue in order and is kept by every pass holds once no list is left. -/
theorem run_induction {P : Builder → List ListId → Prop}
    (step : ∀ (builder : Builder) (list : Nat) (rest : List ListId) (next : Schedule),
      Scheduled builder (list :: rest) → P builder (list :: rest) →
      Passed builder list rest next → P next.builder next.queue)
    {limit left : Nat} {schedule : Schedule} {built : Builder}
    (scheduled : Scheduled schedule.builder schedule.queue) (start : P schedule.builder schedule.queue)
    (ran : Schedule.run limit left schedule = .ok built) : Scheduled built [] ∧ P built [] := by
  induction left generalizing schedule with
  | zero =>
    cases queued : schedule.queue with
    | nil =>
      rw [run_nil queued] at ran
      cases ran
      exact ⟨queued ▸ scheduled, queued ▸ start⟩
    | cons list rest =>
      rw [run_zero queued] at ran
      cases ran
  | succ left ih =>
    cases queued : schedule.queue with
    | nil =>
      rw [run_nil queued] at ran
      cases ran
      exact ⟨queued ▸ scheduled, queued ▸ start⟩
    | cons list rest =>
      rw [queued] at scheduled start
      rw [run_succ queued] at ran
      cases passed : schedule.pass list rest with
      | error error =>
        rw [passed] at ran
        cases ran
      | ok next =>
        rw [passed] at ran
        have pass := pass_ok scheduled passed
        exact ih (pass.scheduled scheduled) (step _ _ _ _ scheduled start pass) ran

theorem scheduled_of_run {limit left : Nat} {schedule : Schedule} {built : Builder}
    (scheduled : Scheduled schedule.builder schedule.queue)
    (ran : Schedule.run limit left schedule = .ok built) : Scheduled built [] :=
  (@run_induction (fun _ _ => True) (fun _ _ _ _ _ _ _ => trivial) _ _ _ _ scheduled trivial ran).1

/-- A run that fails was cut off, or got to a list on which a pass fails. -/
theorem run_error_cases {P : Builder → List ListId → Prop}
    (step : ∀ (builder : Builder) (list : Nat) (rest : List ListId) (next : Schedule),
      Scheduled builder (list :: rest) → P builder (list :: rest) →
      Passed builder list rest next → P next.builder next.queue)
    {limit left : Nat} {schedule : Schedule} {error : CompileError}
    (scheduled : Scheduled schedule.builder schedule.queue) (start : P schedule.builder schedule.queue)
    (ran : Schedule.run limit left schedule = .error error) :
    error.cause = .passLimitExceeded limit ∨
      ∃ (last : Schedule) (list : Nat) (rest : List ListId), Scheduled last.builder (list :: rest) ∧
        P last.builder (list :: rest) ∧ last.pass list rest = .error error := by
  induction left generalizing schedule with
  | zero =>
    cases queued : schedule.queue with
    | nil =>
      rw [run_nil queued] at ran
      cases ran
    | cons list rest =>
      rw [run_zero queued] at ran
      cases ran
      exact .inl rfl
  | succ left ih =>
    cases queued : schedule.queue with
    | nil =>
      rw [run_nil queued] at ran
      cases ran
    | cons list rest =>
      rw [queued] at scheduled start
      rw [run_succ queued] at ran
      cases passed : schedule.pass list rest with
      | error other =>
        rw [passed] at ran
        cases ran
        exact .inr ⟨schedule, list, rest, scheduled, start, passed⟩
      | ok next =>
        rw [passed] at ran
        have pass := pass_ok scheduled passed
        exact ih (pass.scheduled scheduled) (step _ _ _ _ scheduled start pass) ran

end Builder

end Reckoner

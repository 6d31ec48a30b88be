import Reckoner.Proofs.Builder.Complete

/-!
The schedules that a run goes through. In all of them the queue is in order, so that no pass has to wait. A
list is queued when it is made, then it is finished, and in the end one pass takes its node for good; only
the list of all lexemes keeps its node for the root.
-/
namespace Reckoner.Builder

open Item

/-- The schedules that a run goes through with at most so many passes, from the given one on. -/
def Schedule.trail : Nat → Schedule → List Schedule
  | 0, schedule => [schedule]
  | left + 1, schedule =>
    schedule :: match schedule.queue with
      | [] => []
      | list :: rest =>
        match schedule.pass list rest with
        | .ok next => Schedule.trail left next
        | .error _ => []

/-- The lists whose passes took the node that a list had become. -/
def consumers (list : ListId) : List Schedule → List ListId
  | before :: after :: later =>
    if (before.builder.nodeOf list).isSome && (after.builder.nodeOf list).isNone then
      before.queue.head?.toList ++ consumers list (after :: later)
    else consumers list (after :: later)
  | _ => []

/-- Neither queued nor finished any more. -/
def Spent (builder : Builder) (queue : List ListId) (list : ListId) : Prop :=
  list < builder.lists.size ∧ list ∉ queue ∧ builder.nodeOf list = none

variable {builder : Builder} {list : Nat} {rest : List ListId} {next : Schedule}

theorem trail_of_pass {left : Nat} {schedule : Schedule} (queued : schedule.queue = list :: rest)
    (passed : schedule.pass list rest = .ok next) :
    Schedule.trail (left + 1) schedule = schedule :: Schedule.trail left next := by
  simp only [Schedule.trail, queued, passed]

theorem exists_trail (left : Nat) (schedule : Schedule) :
    ∃ later, Schedule.trail left schedule = schedule :: later := by
  cases left with
  | zero => exact ⟨[], rfl⟩
  | succ left => exact ⟨_, rfl⟩

/-- Wherever a run gets to, the queue is in order and no list had to wait. -/
theorem trail_scheduled {left : Nat} {schedule : Schedule}
    (scheduled : Scheduled schedule.builder schedule.queue) (moving : schedule.stalled = 0) :
    ∀ reached ∈ Schedule.trail left schedule,
      Scheduled reached.builder reached.queue ∧ reached.stalled = 0 := by
  induction left generalizing schedule with
  | zero =>
    intro reached mem
    cases List.mem_singleton.mp mem
    exact ⟨scheduled, moving⟩
  | succ left ih =>
    intro reached mem
    rw [Schedule.trail] at mem
    rcases List.mem_cons.mp mem with rfl | later
    · exact ⟨scheduled, moving⟩
    split at later
    · cases later
    next list rest queued =>
    rw [queued] at scheduled
    split at later
    · next next passed =>
      have pass := pass_ok scheduled passed
      have restarted : next.stalled = 0 := by cases pass <;> rfl
      exact ih (pass.scheduled scheduled) restarted reached later
    · cases later

/-- What holds at the start and is kept by every pass, with the builders on the way, holds wherever a run
gets to. -/
theorem trail_induction {P : List Builder → Builder → List ListId → Prop}
    (step : ∀ (history : List Builder) (builder : Builder) (list : Nat) (rest : List ListId) (next : Schedule),
      Scheduled builder (list :: rest) → P history builder (list :: rest) →
      Passed builder list rest next → P (history ++ [builder]) next.builder next.queue)
    {left : Nat} {schedule : Schedule} {history : List Builder}
    (scheduled : Scheduled schedule.builder schedule.queue)
    (start : P history schedule.builder schedule.queue) {earlier later : List Schedule} {reached : Schedule}
    (whole : Schedule.trail left schedule = earlier ++ reached :: later) :
    Scheduled reached.builder reached.queue ∧
      P (history ++ earlier.map (·.builder)) reached.builder reached.queue := by
  induction left generalizing schedule history earlier with
  | zero =>
    cases earlier with
    | nil =>
      cases whole
      exact ⟨scheduled, by simpa using start⟩
    | cons => simp [Schedule.trail] at whole
  | succ left ih =>
    rw [Schedule.trail] at whole
    cases earlier with
    | nil =>
      cases whole
      exact ⟨scheduled, by simpa using start⟩
    | cons first earlier =>
      obtain ⟨rfl, others⟩ := List.cons.inj whole
      split at others
      · simp at others
      next list rest queued =>
      rw [queued] at scheduled start
      split at others
      · next next passed =>
        have pass := pass_ok scheduled passed
        simpa using ih (pass.scheduled scheduled) (step _ _ _ _ _ scheduled start pass) others
      · simp at others

/-- Once the node of a list is taken, the list does not come back. -/
private theorem Passed.spent (h : Passed builder list rest next) (scheduled : Scheduled builder (list :: rest))
    {other : Nat} (spent : Spent builder (list :: rest) other) : Spent next.builder next.queue other := by
  obtain ⟨made, notQueued, taken⟩ := spent
  obtain ⟨bound, -⟩ := scheduled.pending list List.mem_cons_self
  cases h with
  | divided _ _ isAfter =>
    subst isAfter
    refine ⟨?_, ?_, ?_⟩
    · rw [size_setItems, size_append]
      exact Nat.lt_add_right _ made
    · intro queued
      rcases List.mem_append.mp queued with new | old
      · exact Nat.not_lt.mpr (List.mem_range'_1.mp new).1 made
      · exact notQueued old
    · rw [nodeOf_setItems, nodeOf_append, taken]
  | @linked items node after _ link =>
    have size : after.lists.size = builder.lists.size := by
      rw [link.size_eq, size_setItems]
    refine ⟨by rwa [size_finish, size], fun queued => notQueued (List.mem_cons_of_mem _ queued), ?_⟩
    rw [nodeOf_finish _ (size ▸ bound), if_neg (by rintro rfl; exact notQueued List.mem_cons_self),
      nodeOf_congr link.lists_eq, nodeOf_releaseAll, nodeOf_setItems, taken, ite_self]

/-- The node of a list is taken by the pass after which the list does not come back. -/
private theorem Passed.spent_iff (h : Passed builder list rest next)
    (scheduled : Scheduled builder (list :: rest)) {other : Nat}
    (kept : ¬ Spent builder (list :: rest) other) :
    Spent next.builder next.queue other ↔
      (builder.nodeOf other).isSome = true ∧ next.builder.nodeOf other = none := by
  obtain ⟨bound, unfinished⟩ := scheduled.pending list List.mem_cons_self
  cases h with
  | @divided after left news _ _ isAfter =>
    subst isAfter
    simp only [Spent, size_setItems, size_append, nodeOf_setItems, nodeOf_append]
    constructor
    · rintro ⟨made, notQueued, none⟩
      refine absurd ⟨?_, fun queued => notQueued (List.mem_append_right _ queued), none⟩ kept
      by_contra large
      refine notQueued (List.mem_append_left _ (List.mem_range'_1.mpr ⟨Nat.not_lt.mp large, made⟩))
    · rintro ⟨some, none⟩
      rw [none] at some
      cases some
  | @linked items node after _ link =>
    have size : after.lists.size = builder.lists.size := by
      rw [link.size_eq, size_setItems]
    have nodes : (after.finish list node).nodeOf other = if other = list then some node
        else if other ∈ references items then none else builder.nodeOf other := by
      rw [nodeOf_finish _ (size ▸ bound), nodeOf_congr link.lists_eq, nodeOf_releaseAll, nodeOf_setItems]
    simp only [Spent, size_finish, size]
    constructor
    · rintro ⟨made, notQueued, none⟩
      refine ⟨?_, none⟩
      by_contra unfinished'
      have isNone := Option.not_isSome_iff_eq_none.mp unfinished'
      refine kept ⟨made, fun queued => ?_, isNone⟩
      rcases List.mem_cons.mp queued with rfl | queued
      · rw [nodes, if_pos rfl] at none
        cases none
      · exact notQueued queued
    · rintro ⟨some, none⟩
      obtain ⟨result, found⟩ := Option.isSome_iff_exists.mp some
      refine ⟨lt_size_of_nodeOf builder found, fun queued => ?_, none⟩
      rw [(scheduled.pending other (List.mem_cons_of_mem _ queued)).2] at found
      cases found

private theorem consumers_of_spent {left : Nat} {schedule : Schedule} {other : Nat}
    (scheduled : Scheduled schedule.builder schedule.queue)
    (spent : Spent schedule.builder schedule.queue other) :
    consumers other (Schedule.trail left schedule) = [] := by
  induction left generalizing schedule with
  | zero => rfl
  | succ left ih =>
    rw [Schedule.trail]
    split
    · rfl
    next list rest queued =>
    split
    · next next passed =>
      rw [queued] at scheduled spent
      have pass := pass_ok scheduled passed
      have nothing := ih (pass.scheduled scheduled) (pass.spent scheduled spent)
      obtain ⟨later, whole⟩ := exists_trail left next
      rw [whole] at nothing ⊢
      rw [consumers, nothing, spent.2.2]
      simp
    · rfl

/-- A list that does not come back at the end of a run was taken by one pass of it. -/
private theorem exists_consumer {limit left : Nat} {schedule : Schedule} {built : Builder} {other : Nat}
    (scheduled : Scheduled schedule.builder schedule.queue)
    (ran : Schedule.run limit left schedule = .ok built)
    (kept : ¬ Spent schedule.builder schedule.queue other) (spent : Spent built [] other) :
    ∃ parent, consumers other (Schedule.trail left schedule) = [parent] := by
  induction left generalizing schedule with
  | zero =>
    cases queued : schedule.queue with
    | nil =>
      rw [run_nil queued] at ran
      cases ran
      rw [queued] at kept
      exact absurd spent kept
    | cons list rest =>
      rw [run_zero queued] at ran
      cases ran
  | succ left ih =>
    cases queued : schedule.queue with
    | nil =>
      rw [run_nil queued] at ran
      cases ran
      rw [queued] at kept
      exact absurd spent kept
    | cons list rest =>
      rw [queued] at scheduled kept
      rw [run_succ queued] at ran
      cases passed : schedule.pass list rest with
      | error error =>
        rw [passed] at ran
        cases ran
      | ok next =>
        rw [passed] at ran
        have pass := pass_ok scheduled passed
        have next_scheduled := pass.scheduled scheduled
        have taken := pass.spent_iff scheduled kept
        rw [trail_of_pass queued passed]
        obtain ⟨later, whole⟩ := exists_trail left next
        by_cases now : Spent next.builder next.queue other
        · have nothing := @consumers_of_spent left next other next_scheduled now
          obtain ⟨some, none⟩ := taken.mp now
          rw [whole] at nothing ⊢
          exact ⟨list, by rw [consumers, nothing, if_pos (by simp [some, none]), queued]; rfl⟩
        · obtain ⟨parent, one⟩ := ih next_scheduled ran now
          rw [whole] at one ⊢
          refine ⟨parent, ?_⟩
          rw [consumers, if_neg, one]
          simpa using mt taken.mpr now

/-- Every list that is made from the lexemes is consumed by exactly one other. -/
theorem exists_consumer_of_run {source : String} {lexemes : List Lexeme} {limit : Nat} {built : Builder}
    (ran : Schedule.run limit limit ⟨start source lexemes, [0], 0⟩ = .ok built) {list : Nat}
    (notTop : 0 < list) (made : list < built.lists.size) :
    ∃ parent, consumers list (Schedule.trail limit ⟨start source lexemes, [0], 0⟩) = [parent] := by
  have scheduled := scheduled_start source lexemes
  have finished := scheduled_of_run scheduled ran
  refine exists_consumer scheduled ran (fun spent => ?_) ⟨made, List.not_mem_nil, ?_⟩
  · have only : (start source lexemes).lists.size = 1 := rfl
    have small : list < (start source lexemes).lists.size := spent.1
    omega
  · by_contra some
    have isTop := (finished.nodeOf_isSome list).mp (Option.isSome_iff_ne_none.mpr some)
    omega

end Reckoner.Builder

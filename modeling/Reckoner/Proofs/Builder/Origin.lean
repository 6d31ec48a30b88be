import Reckoner.Proofs.Builder.Covering

/-!
The lexemes that the lists of a run were made from. The members that a list was made with are recorded when it
first appears, since they are replaced while it is reduced. A list needs only lists that were made before it, so
that these records say, one list after the other, which lexemes each of them was made from.
-/
namespace Reckoner.Builder

open Item

/-- The members that lists were made with, once those of a builder are recorded too. -/
def record (made : List (List Item)) (builder : Builder) : List (List Item) :=
  made ++ (List.range' made.length (builder.lists.size - made.length)).map builder.itemsOf

/-- The members that lists were made with on the way through several builders. -/
def births (history : List Builder) : List (List Item) :=
  history.foldl record []

/-- The lexemes that several lists cover, given the members of each. -/
def coverage (origin : List Lexeme) (made : List (List Item)) : List (List Lexeme) :=
  made.foldl (fun known items => known ++ [coveredBy origin (fun list => known.getD list []) items]) []

/-- The lexemes that one of these lists covers. -/
def coverageOf (origin : List Lexeme) (made : List (List Item)) (list : ListId) : List Lexeme :=
  (coverage origin made).getD list []

/-- The lexemes that a list was made from, given the builders up to now. -/
def madeFrom (origin : List Lexeme) (history : List Builder) : ListId → List Lexeme :=
  coverageOf origin (births history)

theorem births_concat (history : List Builder) (builder : Builder) :
    births (history ++ [builder]) = record (births history) builder := by
  simp [births]

theorem births_append (history more : List Builder) :
    ∃ later, births (history ++ more) = births history ++ later := by
  induction more using List.reverseRecOn with
  | nil => exact ⟨[], by simp⟩
  | append_singleton more builder ih =>
    obtain ⟨later, whole⟩ := ih
    exact ⟨_, by rw [← List.append_assoc, births_concat, whole, record, List.append_assoc]⟩

section Coverage

variable {origin : List Lexeme} {made : List (List Item)} {list : Nat} {items : List Item}

theorem coverage_concat : coverage origin (made ++ [items]) =
    coverage origin made ++ [coveredBy origin (coverageOf origin made) items] := by
  simp only [coverage, List.foldl_append]
  rfl

@[simp] theorem length_coverage : (coverage origin made).length = made.length := by
  induction made using List.reverseRecOn with
  | nil => rfl
  | append_singleton made items ih => simp [coverage_concat, ih]

/-- Lists that are made later change nothing about those that are there. -/
theorem coverageOf_append (more : List (List Item)) (old : list < made.length) :
    coverageOf origin (made ++ more) list = coverageOf origin made list := by
  induction more generalizing made with
  | nil => rw [List.append_nil]
  | cons items more ih =>
    rw [List.append_cons, ih (by simp; omega), coverageOf, coverage_concat,
      List.getD_append _ _ _ _ (by simpa using old)]
    rfl

/-- A list that needs only lists before it covers what its members cover. -/
theorem coverageOf_eq (found : made[list]? = some items)
    (earlier : ∀ other : Nat, other ∈ references items → other < list) :
    coverageOf origin made list = coveredBy origin (coverageOf origin made) items := by
  obtain ⟨front, back, rfl, rfl⟩ : ∃ front back, made = front ++ items :: back ∧ front.length = list := by
    obtain ⟨bound, rfl⟩ := List.getElem?_eq_some_iff.mp found
    exact ⟨made.take list, made.drop (list + 1), by simp, by simp; omega⟩
  have here : coverageOf origin (front ++ items :: back) front.length =
      coveredBy origin (coverageOf origin front) items := by
    rw [List.append_cons, coverageOf_append back (by simp), coverageOf, coverage_concat,
      List.getD_append_right _ _ _ _ (by simp)]
    simp
  rw [here]
  exact coveredBy_congr fun other needed => (coverageOf_append _ (earlier other needed)).symm

/-- What a list was made from stays as it is while the run goes on. -/
theorem madeFrom_append {history : List Builder} (more : List Builder) (old : list < (births history).length) :
    madeFrom origin (history ++ more) list = madeFrom origin history list := by
  obtain ⟨later, whole⟩ := births_append history more
  rw [madeFrom, whole, coverageOf_append later old, madeFrom]

end Coverage

variable {origin : List Lexeme} {made : List (List Item)} {builder : Builder} {list : Nat} {rest : List ListId}
  {left : List Item} {news : List (List Item × Span)}

theorem record_of_size_eq (known : made.length = builder.lists.size) : record made builder = made := by
  simp [record, known]

/-- The lists that a division makes are recorded with the members that they get. -/
theorem record_divided (known : made.length = builder.lists.size) (bound : list < builder.lists.size)
    (left : List Item) (news : List (List Item × Span)) :
    record made ((builder.append news).setItems list left) = made ++ news.map (·.1) := by
  rw [record, size_setItems, size_append, known, Nat.add_sub_cancel_left, map_itemsOf_divided _ _ _ bound]

/-- Queued lists cover the lexemes that they were made from, which follow each other in the source. -/
structure Recorded (origin : List Lexeme) (made : List (List Item)) (builder : Builder) (queue : List ListId) :
    Prop where
  size_eq : made.length = builder.lists.size
  whole : coverageOf origin made 0 = origin.filter fun lexeme => !lexeme.isPunctuation
  inside : ∀ list ∈ queue, ∀ lexeme, .lexeme lexeme ∈ builder.itemsOf list → lexeme ∈ origin
  covered : ∀ list ∈ queue, coveredBy origin (coverageOf origin made) (builder.itemsOf list) =
    coverageOf origin made list
  within : ∀ list ∈ queue, coverageOf origin made list <:+: coverageOf origin made 0

namespace Recorded

/-- Once new lists are recorded, a list that is divided covers what it did, and so do the new ones. -/
theorem covered_divided (h : Recorded origin made builder (list :: rest))
    (scheduled : Scheduled builder (list :: rest))
    (covering : Covering origin builder.lists.size (builder.itemsOf list) left news) :
    coveredBy origin (coverageOf origin (made ++ news.map (·.1))) left = coverageOf origin made list ∧
      ∀ (index : Nat) (lt : index < news.length),
        coveredBy origin (coverageOf origin (made ++ news.map (·.1))) news[index].1 =
            coverageOf origin (made ++ news.map (·.1)) (builder.lists.size + index) ∧
          coverageOf origin (made ++ news.map (·.1)) (builder.lists.size + index) <:+:
            coverageOf origin made list := by
  have old : coveredBy origin (coverageOf origin (made ++ news.map (·.1))) (builder.itemsOf list) =
      coverageOf origin made list := by
    rw [← h.covered list List.mem_cons_self]
    refine coveredBy_congr fun other needed => coverageOf_append _ ?_
    rw [h.size_eq]
    exact scheduled.bound_references needed
  have new : ∀ (index : Nat) (lt : index < news.length),
      coverageOf origin (made ++ news.map (·.1)) (builder.lists.size + index) =
        coveredBy origin (coverageOf origin (made ++ news.map (·.1))) news[index].1 := by
    intro index lt
    refine coverageOf_eq (by simp [← h.size_eq, lt]) fun other needed => ?_
    rcases covering.earlier index _ (List.getElem?_eq_getElem lt) other needed with before | lower
    · exact Nat.lt_add_right _ (scheduled.bound_references before)
    · exact lower
  obtain ⟨same, parts⟩ := covering.covered_eq (coverageOf origin (made ++ news.map (·.1)))
    (List.ext_getElem (by simp) fun index _ lt => by simpa using new index (by simpa using lt))
  refine ⟨same.trans old, fun index lt => ⟨(new index lt).symm, ?_⟩⟩
  rw [new index lt, ← old]
  exact parts _ (List.getElem_mem lt)

/-- Dividing the list in front keeps the records. -/
theorem divide (h : Recorded origin made builder (list :: rest)) (scheduled : Scheduled builder (list :: rest))
    (covering : Covering origin builder.lists.size (builder.itemsOf list) left news) :
    Recorded origin (record made ((builder.append news).setItems list left))
      ((builder.append news).setItems list left)
      (List.range' builder.lists.size news.length ++ list :: rest) := by
  have old : ∀ other : Nat, other ∈ list :: rest → other < builder.lists.size :=
    fun other mem => (scheduled.pending other mem).1
  have bound := old list List.mem_cons_self
  have kept : ∀ other : Nat, other < builder.lists.size →
      coverageOf origin (made ++ news.map (·.1)) other = coverageOf origin made other :=
    fun other lt => coverageOf_append _ (h.size_eq ▸ lt)
  have top := kept 0 (Nat.zero_lt_of_lt bound)
  obtain ⟨leftCovers, newsCover⟩ := h.covered_divided scheduled covering
  rw [record_divided h.size_eq bound]
  refine ⟨by simp [h.size_eq], top.trans h.whole, fun other mem lexeme here => ?_, fun other mem => ?_,
    fun other mem => ?_⟩
  · have part := covering.lexemes lexeme
    rcases scheduled.itemsOf_divided left news mem with ⟨index, lt, -, isNew⟩ | ⟨-, isLeft⟩ | ⟨later, same⟩
    · refine h.inside list List.mem_cons_self lexeme (part (List.mem_append_right _ ?_))
      exact List.mem_flatMap.mpr ⟨news[index], List.getElem_mem lt, isNew ▸ here⟩
    · exact h.inside list List.mem_cons_self lexeme (part (List.mem_append_left _ (isLeft ▸ here)))
    · exact h.inside other (List.mem_cons_of_mem _ later) lexeme (same ▸ here)
  · rcases scheduled.itemsOf_divided left news mem with
      ⟨index, lt, rfl, isNew⟩ | ⟨rfl, isLeft⟩ | ⟨later, same⟩
    · rw [isNew]
      exact (newsCover index lt).1
    · rw [isLeft, leftCovers, kept _ bound]
    · have queued := List.mem_cons_of_mem list later
      rw [same, kept _ (old other queued), ← h.covered other queued]
      refine coveredBy_congr fun needed inItems => kept needed ?_
      exact scheduled.lt_size queued inItems
  · rw [top]
    rcases List.mem_append.mp mem with new | queued
    · obtain ⟨least, most⟩ := List.mem_range'_1.mp new
      obtain ⟨index, rfl⟩ := Nat.exists_eq_add_of_le least
      exact (newsCover index (by omega)).2.trans (h.within list List.mem_cons_self)
    · rw [kept _ (old other queued)]
      exact h.within other queued

/-- Finishing it makes no list. -/
theorem linked (h : Recorded origin made builder (list :: rest)) (scheduled : Scheduled builder (list :: rest))
    {items : List Item} {node : NodeId} {after : Builder}
    (link : Linked (builder.setItems list items) items node after) :
    Recorded origin (record made (after.finish list node)) (after.finish list node) rest := by
  have size : made.length = (after.finish list node).lists.size := by
    rw [size_finish, link.size_eq, size_setItems, h.size_eq]
  rw [record_of_size_eq size]
  refine ⟨size, h.whole, fun other mem => ?_, fun other mem => ?_,
    fun other mem => h.within other (List.mem_cons_of_mem _ mem)⟩
  · rw [scheduled.itemsOf_linked link mem]
    exact h.inside other (List.mem_cons_of_mem _ mem)
  · rw [scheduled.itemsOf_linked link mem]
    exact h.covered other (List.mem_cons_of_mem _ mem)

end Recorded

/-- A pass keeps the records. -/
theorem Passed.recorded {next : Schedule} (h : Passed builder list rest next)
    (sorted : origin.Pairwise fun first second => first.position < second.position)
    (scheduled : Scheduled builder (list :: rest)) (recorded : Recorded origin made builder (list :: rest)) :
    Recorded origin (record made next.builder) next.builder next.queue := by
  have bound := (scheduled.pending list List.mem_cons_self).1
  cases h with
  | divided processed _ isAfter =>
    obtain ⟨left, news, covering, isAfter'⟩ :=
      processed.covering sorted bound (recorded.inside list List.mem_cons_self)
    have sizes := congrArg (fun builder : Builder => builder.lists.size) (isAfter.symm.trans isAfter')
    simp only [size_setItems, size_append, Nat.add_left_cancel_iff] at sizes
    rw [sizes, isAfter']
    exact recorded.divide scheduled covering
  | linked _ link => exact recorded.linked scheduled link

/-- All lexemes together are what the first list is made from. -/
theorem recorded_start (source : String) (lexemes : List Lexeme) :
    Recorded lexemes (births [start source lexemes]) (start source lexemes) [0] := by
  have items : (start source lexemes).itemsOf 0 = lexemes.map .lexeme := rfl
  have whole : coverageOf lexemes (births [start source lexemes]) 0 =
      lexemes.filter fun lexeme => !lexeme.isPunctuation := coveredBy_lexemes lexemes
  refine ⟨rfl, whole, fun list mem lexeme here => ?_, fun list mem => ?_, fun list mem => ?_⟩
  · rw [List.mem_singleton.mp mem, items] at here
    simpa using here
  · rw [List.mem_singleton.mp mem, items, coveredBy_lexemes, whole]
  · rw [List.mem_singleton.mp mem]

/-- What is recorded at one point of a run stays as it is for the rest of it. -/
theorem Recorded.madeFrom_eq {earlier : List Schedule} {reached : Schedule} {queue : List ListId}
    (h : Recorded origin (births ((earlier ++ [reached]).map (·.builder))) reached.builder queue)
    (later : List Schedule) (bound : list < reached.builder.lists.size) :
    madeFrom origin ((earlier ++ reached :: later).map (·.builder)) list =
      madeFrom origin ((earlier ++ [reached]).map (·.builder)) list := by
  rw [List.append_cons, List.map_append]
  exact madeFrom_append _ (h.size_eq ▸ bound)

variable {registry : Registry} {source : String} {lexemes : List Lexeme} {limit : Nat}

/-- Wherever a run over a classified source gets to, its lists could be from one, and cover what they were made
from. -/
theorem trail_recorded (proper : Proper registry (lexemes.map .lexeme)) {earlier later : List Schedule}
    {reached : Schedule}
    (whole : Schedule.trail limit ⟨start source lexemes, [0], 0⟩ = earlier ++ reached :: later) :
    Scheduled reached.builder reached.queue ∧
      (∀ list ∈ reached.queue, Proper registry (reached.builder.itemsOf list)) ∧
      Recorded lexemes (births ((earlier ++ [reached]).map (·.builder))) reached.builder reached.queue := by
  have sorted := List.pairwise_map.mp proper.sorted
  let P (history : List Builder) (builder : Builder) (queue : List ListId) : Prop :=
    Denotes registry ((Machine.before []).run (lexemes.map Lexeme.token)) builder queue ∧
      Recorded lexemes (births (history ++ [builder])) builder queue
  obtain ⟨scheduled, ⟨meaning, meant, -⟩, recorded⟩ :=
    @trail_induction P (fun history builder list rest next scheduled holds passed =>
      ⟨passed.denotes _ _ _ _ scheduled holds.1,
        births_concat (history ++ [builder]) _ ▸ passed.recorded sorted scheduled holds.2⟩)
      limit ⟨start source lexemes, [0], 0⟩ [] (scheduled_start source lexemes)
      ⟨⟨_, meant_start source proper, rfl⟩, recorded_start source lexemes⟩ _ _ _ whole
  exact ⟨scheduled, meant.proper, by simpa using recorded⟩

end Reckoner.Builder

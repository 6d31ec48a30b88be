import Mathlib.Data.List.Infix
import Mathlib.Data.List.TakeWhile

/-!
The longest part at the front of a list that has a property. There is at most one, and it stays the longest
when what follows it is replaced, as long as nothing with the property can reach into that. It can be found by
growing the part member by member, if one knows when nothing longer can have the property.
-/
namespace Reckoner

/-- The part stands at the front of the whole and has the property, and no longer one does. -/
structure Longest (holds : List α → Prop) (whole part : List α) : Prop where
  front : part <+: whole
  here : holds part
  most : ∀ other, other <+: whole → holds other → other.length ≤ part.length

/-- What stands at the front of two lists ends within the first, or goes on into the second. -/
theorem within_or_beyond {one two text : List α} (front : text <+: one ++ two) :
    text <+: one ∨ ∃ more, more <+: two ∧ text = one ++ more := by
  rcases List.prefix_or_prefix_of_prefix front (List.prefix_append one two) with within | ⟨more, rfl⟩
  · exact .inl within
  · exact .inr ⟨more, (List.prefix_append_right_inj one).mp front, rfl⟩

/-- What stands at the front of a part and something after it ends with the part, if it contains nothing that
this can begin with. -/
theorem prefix_of_prefix_append {stops : α → Bool} {part after other : List α}
    (stop : after.head?.all stops = true) (free : ∀ a ∈ other, stops a = false)
    (front : other <+: part ++ after) : other <+: part := by
  rcases within_or_beyond front with within | ⟨more, inAfter, rfl⟩
  · exact within
  · cases more with
    | nil => simp
    | cons a rest =>
      obtain ⟨others, rfl⟩ := inAfter
      have stopped : stops a = true := by simpa using stop
      rw [free a (by simp)] at stopped
      cases stopped

/-- Members that pass a test, with something behind them that does not begin with one, are all of those that pass it
in the whole, or nothing is behind them. -/
theorem runs_of_prefix {test : α → Bool} {run rest first behind : List α} (all : ∀ a ∈ run, test a = true)
    (stops : rest.head?.all (!test ·) = true) (all' : ∀ a ∈ first, test a = true)
    (stops' : behind.head?.all (!test ·) = true) (front : first ++ behind <+: run ++ rest) :
    first <+: run ∧ (behind = [] ∨ first = run ∧ behind <+: rest) := by
  have within : first <+: run :=
    prefix_of_prefix_append stops (fun a mem => by simp [all' a mem]) ((List.prefix_append first behind).trans front)
  refine ⟨within, ?_⟩
  obtain ⟨more, rfl⟩ := within
  rw [List.append_assoc, List.prefix_append_right_inj] at front
  cases behind with
  | nil => exact .inl rfl
  | cons a behind =>
    cases more with
    | nil => exact .inr ⟨(List.append_nil first).symm, front⟩
    | cons b more =>
      obtain ⟨rfl, -⟩ := List.cons_prefix_cons.mp front
      have passes := all a (by simp)
      simp [passes] at stops'

/-- Where nothing with a property goes on with the next member, what has it ends before that. -/
theorem prefix_of_stuck {holds : List α → Prop} {whole part rest : List α} {last : α}
    (stuck : ∀ part, whole ++ [last] <+: part → ¬ holds part) (front : part <+: whole ++ last :: rest)
    (here : holds part) : part <+: whole := by
  rcases within_or_beyond front with within | ⟨more, inRest, rfl⟩
  · exact within
  cases more with
  | nil => simp
  | cons next more =>
    obtain ⟨rfl, -⟩ := List.cons_prefix_cons.mp inRest
    exact absurd here (stuck _ ⟨more, by simp⟩)

namespace Longest

variable {holds : List α → Prop} {whole part other : List α}

theorem unique (one : Longest holds whole part) (two : Longest holds whole other) : part = other := by
  have le := two.most part one.front one.here
  have ge := one.most other two.front two.here
  exact (List.prefix_of_prefix_length_le one.front two.front le).eq_of_length (Nat.le_antisymm le ge)

/-- The longest beginning whose members after the first pass a test. -/
theorem takeWhile {first : α} {rest : List α} {test : α → Bool} {holds : List α → Prop}
    (iff : ∀ tail, holds (first :: tail) ↔ ∀ a ∈ tail, test a = true) (nonempty : ¬ holds []) :
    Longest holds (first :: rest) (first :: rest.takeWhile test) := by
  refine ⟨?_, ?_, ?_⟩
  · exact List.cons_prefix_cons.mpr ⟨rfl, List.takeWhile_prefix _⟩
  · exact (iff _).mpr fun a mem => List.mem_takeWhile_imp mem
  · intro other front here
    cases other with
    | nil => exact absurd here nonempty
    | cons head tail =>
      obtain ⟨rfl, within⟩ := List.cons_prefix_cons.mp front
      have passes := (iff tail).mp here
      obtain ⟨after, rfl⟩ := within
      rw [List.length_cons, List.length_cons, List.takeWhile_append_of_pos passes, List.length_append]
      omega

/-- One more member behind the whole changes nothing unless the property holds of all of it. -/
theorem concat {last : α} (longest : Longest holds whole part) (none : ¬ holds (whole ++ [last])) :
    Longest holds (whole ++ [last]) part := by
  refine ⟨longest.front.trans (List.prefix_append _ _), longest.here, ?_⟩
  intro other front here
  rcases List.prefix_concat_iff.mp front with rfl | within
  · exact absurd here none
  · exact longest.most other within here

/-- Members that nothing with the property goes on with change nothing. -/
theorem stop {last : α} {rest : List α} (longest : Longest holds whole part)
    (stuck : ∀ part, whole ++ [last] <+: part → ¬ holds part) : Longest holds (whole ++ last :: rest) part :=
  ⟨longest.front.trans (List.prefix_append _ _), longest.here, fun other front here =>
    longest.most other (prefix_of_stuck stuck front here) here⟩

/-- A part that nothing longer goes on from is the longest one, whatever is behind it. -/
theorem of_last {rest : List α} (here : holds part)
    (last : ∀ other, part <+: other → holds other → other = part) : Longest holds (part ++ rest) part := by
  refine ⟨List.prefix_append _ _, here, fun other front held => ?_⟩
  rcases List.prefix_or_prefix_of_prefix front (List.prefix_append part rest) with within | beyond
  · exact within.length_le
  · rw [last other beyond held]

/-- The longest part stays the longest for a property that fewer parts have. -/
theorem mono {fewer : List α → Prop} (longest : Longest holds whole part) (here : fewer part)
    (sub : ∀ other, fewer other → holds other) : Longest fewer whole part :=
  ⟨longest.front, here, fun other front held => longest.most other front (sub other held)⟩

/-- Some members that pass a test and something behind them that does not begin with one are longest together if
they are longest each. -/
theorem run {test : α → Bool} {run rest : List α} (all : ∀ a ∈ run, test a = true)
    (stops : rest.head?.all (!test ·) = true) (longest : Longest holds rest part)
    (apart : ∀ other, holds other → other.head?.all (!test ·) = true) :
    Longest (fun text => ∃ first behind, (∀ a ∈ first, test a = true) ∧ holds behind ∧ text = first ++ behind)
      (run ++ rest) (run ++ part) := by
  refine ⟨(List.prefix_append_right_inj run).mpr longest.front, ⟨run, part, all, longest.here, rfl⟩, ?_⟩
  rintro _ front ⟨first, behind, all', here, rfl⟩
  obtain ⟨within, ends⟩ := runs_of_prefix all stops all' (apart behind here) front
  have shorter : behind.length ≤ part.length := by
    rcases ends with rfl | ⟨-, inRest⟩
    · exact Nat.zero_le _
    · exact longest.most behind inRest here
  rw [List.length_append, List.length_append]
  exact Nat.add_le_add within.length_le shorter

end Longest

/-- The length of the longest part at the front with the property, or nothing if no part has it. -/
inductive LongestLength (holds : List α → Prop) (whole : List α) : Option Nat → Prop where
  | absent : (∀ part, part <+: whole → ¬ holds part) → LongestLength holds whole none
  | present {part : List α} : Longest holds whole part → LongestLength holds whole (some part.length)

namespace LongestLength

variable {holds : List α → Prop} {whole part rest : List α} {best : Option Nat} {last : α}

theorem nil (nonempty : ¬ holds []) : LongestLength holds [] none := by
  refine .absent fun part front here => nonempty ?_
  rwa [List.prefix_nil.mp front] at here

/-- Where one more member follows, the whole is the longest part if it has the property. -/
theorem concat (found : LongestLength holds whole best) {test : Bool}
    (iff : test = true ↔ holds (whole ++ [last])) :
    LongestLength holds (whole ++ [last]) (if test then some (whole ++ [last]).length else best) := by
  split
  · next isWhole =>
    exact .present ⟨List.prefix_refl _, iff.mp isWhole, fun _ front _ => front.length_le⟩
  · next notWhole =>
    cases found with
    | absent none =>
      refine .absent fun part front here => ?_
      rcases List.prefix_concat_iff.mp front with rfl | within
      · exact notWhole (iff.mpr here)
      · exact none part within here
    | present longest => exact .present (longest.concat fun here => notWhole (iff.mpr here))

/-- Where nothing with the property goes on with the next member, the search is over. -/
theorem stop (found : LongestLength holds whole best)
    (stuck : ∀ part, whole ++ [last] <+: part → ¬ holds part) : LongestLength holds (whole ++ last :: rest) best := by
  cases found with
  | absent none => exact .absent fun part front here => none part (prefix_of_stuck stuck front here) here
  | present longest => exact .present (longest.stop stuck)

theorem longest {length : Nat} (found : LongestLength holds whole (some length)) :
    Longest holds whole (whole.take length) ∧ length ≤ whole.length := by
  generalize isSome : some length = best at found
  cases found with
  | absent => cases isSome
  | present longest =>
    cases isSome
    rw [← List.prefix_iff_eq_take.mp longest.front]
    exact ⟨longest, longest.front.length_le⟩

end LongestLength

/-- The longest part stays the longest when something else comes after it that nothing with the property can
contain. -/
theorem Longest.replace_rest {holds : List α → Prop} {stops : α → Bool} {whole part after : List α}
    (h : Longest holds whole part) (free : ∀ other, holds other → ∀ a ∈ other, stops a = false)
    (stop : after.head?.all stops = true) : Longest holds (part ++ after) part := by
  refine ⟨List.prefix_append part after, h.here, ?_⟩
  intro other front here
  exact (prefix_of_prefix_append stop (free other here) front).length_le

end Reckoner

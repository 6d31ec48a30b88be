import Reckoner.Proofs.Strict.Lexing

/-!
Spans that fit a text, and spans that stand beside each other. A span can be read back exactly if both its
ends lie between characters, and so can the span that covers two such spans. Spans in a row are none of them
empty and follow each other without overlapping.
-/
namespace Reckoner.Span

variable {source : String} {span first second : Span} {a b c d : Nat} {spans more : List Span}

/-- A place between two characters of a text, or at one of its ends. -/
def Boundary (source : String) (offset : Nat) : Prop :=
  ∃ before after, source.toList = before ++ after ∧ bytes before = offset

/-- Both ends lie between characters of the text, and in this order. -/
structure Fits (source : String) (span : Span) : Prop where
  start : Boundary source span.start
  stop : Boundary source span.stop
  ordered : span.start ≤ span.stop

/-- The span lies inside another one. -/
def Inside (span outer : Span) : Prop :=
  outer.start ≤ span.start ∧ span.stop ≤ outer.stop

/-- The span by so many bytes further to the right. -/
def moved (offset : Nat) (span : Span) : Span :=
  ⟨span.start + offset, span.stop + offset⟩

/-- Spans with something in them follow each other between two places. -/
def Row : Nat → Nat → List Span → Prop
  | start, stop, [] => start ≤ stop
  | start, stop, span :: rest => start ≤ span.start ∧ span.start < span.stop ∧ Row span.stop stop rest

theorem bytes_eq_zero {cs : List Char} (h : bytes cs = 0) : cs = [] := by
  cases cs with
  | nil => rfl
  | cons c cs =>
    have := Char.utf8Size_pos c
    simp only [bytes] at h
    omega

theorem boundary_zero (source : String) : Boundary source 0 :=
  ⟨[], source.toList, rfl, rfl⟩

theorem Boundary.le_size (place : Boundary source a) : a ≤ source.utf8ByteSize := by
  obtain ⟨before, after, whole, rfl⟩ := place
  rw [← bytes_toList, whole, bytes_append]
  exact Nat.le_add_right _ _

/-- The characters in front of, between and behind two places. -/
theorem Boundary.split (one : Boundary source a) (two : Boundary source b) (ordered : a ≤ b) :
    ∃ before inside after, source.toList = before ++ inside ++ after ∧ bytes before = a ∧
      bytes before + bytes inside = b := by
  obtain ⟨before, after, whole, rfl⟩ := one
  obtain ⟨before', after', whole', rfl⟩ := two
  rcases List.append_eq_append_iff.mp (whole.symm.trans whole') with ⟨inside, rfl, rfl⟩ | ⟨inside, rfl, rfl⟩
  · exact ⟨before, inside, after', by rw [whole, List.append_assoc], rfl, (bytes_append ..).symm⟩
  · rw [bytes_append] at ordered ⊢
    have none : inside = [] := bytes_eq_zero (by omega)
    exact ⟨before', [], after, by simp [whole, none], by simp [none, bytes], by simp [bytes]⟩

private theorem splitAt?_eq_some {n : Nat} {cs taken rest : List Char} (h : splitAt? n cs = some (taken, rest)) :
    cs = taken ++ rest ∧ bytes taken = n := by
  fun_induction splitAt? n cs generalizing taken rest with
  | case1 =>
    cases h
    exact ⟨rfl, rfl⟩
  | case2 => cases h
  | case3 n c cs fits ih =>
    simp only [Option.map_eq_some_iff, Prod.exists] at h
    obtain ⟨front, back, found, same⟩ := h
    cases same
    obtain ⟨rfl, size⟩ := ih found
    exact ⟨rfl, by rw [bytes, size]; omega⟩
  | case4 => cases h

/-- What is read at a span is a part of the text. -/
theorem split_of_text? {text : String} (read : span.text? source = some text) :
    ∃ before after, source.toList = before ++ text.toList ++ after ∧ bytes before = span.start ∧
      span.start + bytes text.toList = span.stop := by
  simp only [text?, chars?, Option.map_eq_some_iff, Option.bind_eq_bind, Option.bind_eq_some_iff,
    Prod.exists] at read
  obtain ⟨chars, ⟨before, rest, found, read⟩, rfl⟩ := read
  split at read
  · next ordered =>
    simp only [Option.bind_eq_some_iff, Prod.exists] at read
    obtain ⟨inside, after, found', same⟩ := read
    cases same
    obtain ⟨whole, one⟩ := splitAt?_eq_some found
    obtain ⟨rfl, two⟩ := splitAt?_eq_some found'
    refine ⟨before, after, ?_, one, ?_⟩
    · rw [whole, String.toList_ofList, List.append_assoc]
    · rw [String.toList_ofList, two]
      omega
  · cases read

/-- A span can be read back if it fits, and only then. -/
theorem fits_iff : span.Fits source ↔ ∃ text, span.text? source = some text := by
  constructor
  · intro ⟨start, stop, ordered⟩
    obtain ⟨before, inside, after, whole, one, two⟩ := start.split stop ordered
    have read := Strict.text?_of_split whole
    rw [two, one] at read
    exact ⟨_, read⟩
  · intro ⟨text, read⟩
    obtain ⟨before, after, whole, one, two⟩ := split_of_text? read
    refine ⟨⟨before, _, by rw [whole, List.append_assoc], one⟩, ⟨_, after, whole, ?_⟩, by omega⟩
    rw [bytes_append, one, two]

/-- What is read from the start of one span to the stop of another begins and ends with what is read there. -/
theorem text?_bridge {text text' : String} (one : first.text? source = some text)
    (two : second.text? source = some text') (apart : first.stop ≤ second.start) :
    ∃ middle, Span.text? ⟨first.start, second.stop⟩ source = some (text ++ middle ++ text') := by
  obtain ⟨before, after, whole, start, stop⟩ := split_of_text? one
  obtain ⟨before', after', whole', start', stop'⟩ := split_of_text? two
  rw [List.append_assoc before'] at whole'
  have size : bytes (before ++ text.toList) ≤ bytes before' := by
    rw [bytes_append]
    omega
  have between : ∃ middle, before' = before ++ text.toList ++ middle := by
    rcases List.append_eq_append_iff.mp (whole.symm.trans whole') with ⟨middle, same, -⟩ | ⟨middle, same, -⟩
    · exact ⟨middle, same⟩
    · rw [same, bytes_append] at size
      exact ⟨[], by rw [same, @bytes_eq_zero middle (by omega)]; simp⟩
  obtain ⟨middle, rfl⟩ := between
  have read := @Strict.text?_of_split source before (text.toList ++ middle ++ text'.toList) after'
    (by rw [whole']; simp [List.append_assoc])
  refine ⟨String.ofList middle, ?_⟩
  have reach : bytes before + bytes (text.toList ++ middle ++ text'.toList) = second.stop := by
    simp only [bytes_append] at start' ⊢
    omega
  rw [reach, start] at read
  rw [read, String.ofList_append, String.ofList_append, String.ofList_toList, String.ofList_toList]

/-- What is read at a span is read further to the right behind something in front. -/
theorem text?_moved {text : String} (read : span.text? source = some text) (front back : String) :
    (span.moved front.utf8ByteSize).text? (front ++ source ++ back) = some text := by
  obtain ⟨before, after, whole, start, stop⟩ := split_of_text? read
  have split : (front ++ source ++ back).toList =
      front.toList ++ before ++ text.toList ++ (after ++ back.toList) := by
    simp [whole]
  have place : span.moved front.utf8ByteSize =
      ⟨bytes (front.toList ++ before), bytes (front.toList ++ before) + bytes text.toList⟩ := by
    rw [bytes_append, bytes_toList, moved, Span.mk.injEq]
    omega
  rw [place, Strict.text?_of_split split, String.ofList_toList]

/-- A part of the text fits. -/
theorem fits_of_split {before text after : List Char} (split : source.toList = before ++ text ++ after) :
    Fits source ⟨bytes before, bytes before + bytes text⟩ :=
  fits_iff.mpr ⟨_, Strict.text?_of_split split⟩

theorem Fits.cover (one : first.Fits source) (two : second.Fits source) : (first.cover second).Fits source := by
  refine ⟨?_, ?_, ?_⟩
  · rcases Nat.le_total first.start second.start with le | le
    · simpa [Span.cover, Nat.min_eq_left le] using one.start
    · simpa [Span.cover, Nat.min_eq_right le] using two.start
  · rcases Nat.le_total first.stop second.stop with le | le
    · simpa [Span.cover, Nat.max_eq_right le] using two.stop
    · simpa [Span.cover, Nat.max_eq_left le] using one.stop
  · have := one.ordered
    simp only [Span.cover]
    omega

theorem fits_whole (source : String) : (whole source).Fits source :=
  ⟨boundary_zero source, ⟨source.toList, [], by simp, bytes_toList source⟩, Nat.zero_le _⟩

theorem fits_default (source : String) : (default : Span).Fits source :=
  ⟨boundary_zero source, boundary_zero source, Nat.le_refl _⟩

theorem moved_cover (offset : Nat) (first second : Span) :
    (first.cover second).moved offset = (first.moved offset).cover (second.moved offset) := by
  simp only [moved, Span.cover, Span.mk.injEq]
  omega

theorem Inside.refl (span : Span) : span.Inside span :=
  ⟨Nat.le_refl _, Nat.le_refl _⟩

theorem Inside.trans (one : span.Inside first) (two : first.Inside second) : span.Inside second :=
  ⟨Nat.le_trans two.1 one.1, Nat.le_trans one.2 two.2⟩

namespace Row

theorem le (row : Row a b spans) : a ≤ b := by
  induction spans generalizing a with
  | nil => exact row
  | cons span rest ih =>
    obtain ⟨starts, some, later⟩ := row
    have := ih later
    omega

theorem mono (row : Row a b spans) (starts : c ≤ a) (stops : b ≤ d) : Row c d spans := by
  induction spans generalizing a c with
  | nil => exact Nat.le_trans starts (Nat.le_trans row stops)
  | cons span rest ih => exact ⟨Nat.le_trans starts row.1, row.2.1, ih row.2.2 (Nat.le_refl _)⟩

theorem append_iff : Row a b (spans ++ more) ↔ ∃ middle, Row a middle spans ∧ Row middle b more := by
  induction spans generalizing a with
  | nil =>
    refine ⟨fun row => ⟨a, Nat.le_refl a, row⟩, fun ⟨middle, starts, row⟩ => ?_⟩
    exact row.mono starts (Nat.le_refl b)
  | cons span rest ih =>
    simp only [List.cons_append, Row, ih]
    constructor
    · rintro ⟨starts, some, middle, one, two⟩
      exact ⟨middle, ⟨starts, some, one⟩, two⟩
    · rintro ⟨middle, ⟨starts, some, one⟩, two⟩
      exact ⟨starts, some, middle, one, two⟩

theorem inside (row : Row a b spans) :
    ∀ span ∈ spans, a ≤ span.start ∧ span.start < span.stop ∧ span.stop ≤ b := by
  induction spans generalizing a with
  | nil => simp
  | cons span rest ih =>
    obtain ⟨starts, some, later⟩ := row
    refine List.forall_mem_cons.mpr ⟨⟨starts, some, later.le⟩, fun other mem => ?_⟩
    obtain ⟨behind, some', stops⟩ := ih later other mem
    exact ⟨by omega, some', stops⟩

theorem apart (row : Row a b spans) : spans.Pairwise fun first second => first.stop ≤ second.start := by
  induction spans generalizing a with
  | nil => exact .nil
  | cons span rest ih =>
    obtain ⟨-, -, later⟩ := row
    exact .cons (fun other mem => (later.inside other mem).1) (ih later)

/-- Spans that are inside, not empty and apart are in a row. -/
theorem of_apart (ordered : a ≤ b)
    (inside : ∀ span ∈ spans, a ≤ span.start ∧ span.start < span.stop ∧ span.stop ≤ b)
    (apart : spans.Pairwise fun first second => first.stop ≤ second.start) : Row a b spans := by
  induction spans generalizing a with
  | nil => exact ordered
  | cons span rest ih =>
    obtain ⟨⟨starts, some, stops⟩, others⟩ := List.forall_mem_cons.mp inside
    obtain ⟨behind, apart⟩ := List.pairwise_cons.mp apart
    exact ⟨starts, some, ih stops (fun other mem => ⟨behind other mem, (others other mem).2⟩) apart⟩

/-- A row lies between the start of its first and the stop of its last span, and so does what covers both. -/
theorem hull {last : Span} (row : Row a b (span :: spans)) (isLast : (span :: spans).getLast? = some last) :
    span.cover last = ⟨span.start, last.stop⟩ ∧ a ≤ span.start ∧ span.start < last.stop ∧ last.stop ≤ b ∧
      Row span.start last.stop (span :: spans) := by
  have upTo : ∀ {start : Nat} {spans : List Span}, Row start b spans → ∀ last, spans.getLast? = some last →
      Row start last.stop spans := by
    intro start spans row last isLast
    obtain ⟨front, rfl⟩ := List.getLast?_eq_some_iff.mp isLast
    obtain ⟨middle, one, starts, some, -⟩ := append_iff.mp row
    exact append_iff.mpr ⟨middle, one, starts, some, Nat.le_refl _⟩
  have upToLast := upTo row last isLast
  obtain ⟨starts, some, later⟩ := row
  have stops := upToLast.2.2.le
  have within := (upToLast.inside last (List.mem_of_getLast? isLast))
  obtain ⟨-, -, bound⟩ := Row.inside (a := a) (show Row a b (span :: spans) from ⟨starts, some, later⟩) last
    (List.mem_of_getLast? isLast)
  refine ⟨?_, starts, Nat.lt_of_lt_of_le some stops, bound, Nat.le_refl _, some, upToLast.2.2⟩
  have ahead : span.start ≤ last.start := by
    rcases List.mem_cons.mp (List.mem_of_getLast? isLast) with rfl | mem
    · exact Nat.le_refl _
    · have := (later.inside last mem).1
      omega
  simp only [Span.cover, Span.mk.injEq]
  omega

/-- What lies between the first and the last span of a part of a row, and what lies behind them. -/
theorem enclosed {opening closing : Span} {inner after : List Span}
    (row : Row a b (opening :: (inner ++ closing :: after))) :
    opening.cover closing = ⟨opening.start, closing.stop⟩ ∧ a ≤ opening.start ∧
      opening.start < closing.stop ∧ Row opening.start closing.stop inner ∧ Row closing.stop b after := by
  obtain ⟨starts, some, later⟩ := row
  obtain ⟨middle, between, behind, some', after⟩ := append_iff.mp later
  have := between.le
  refine ⟨?_, starts, by omega, between.mono (by omega) (by omega), after⟩
  simp only [Span.cover, Span.mk.injEq]
  omega

end Row

end Reckoner.Span

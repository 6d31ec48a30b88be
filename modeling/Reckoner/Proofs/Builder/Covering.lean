import Reckoner.Proofs.Builder.Arrangement
import Reckoner.Proofs.Builder.Trail

/-!
The lexemes that a list covers. A group covers what its list was made from, and a call its name and then its
arguments, so that the members that the lists were made with have to be remembered. However a list is divided, what
is left of it covers the same lexemes, and every new list covers some of them that follow each other.
-/
namespace Reckoner

namespace Item

/-- The lexemes that an item covers, without punctuation, given those that the lists cover. The name of a call is
found again in the source. -/
def covered (origin : List Lexeme) (cover : ListId → List Lexeme) : Item → List Lexeme
  | .lexeme l => if l.isPunctuation then [] else [l]
  | .group list _ _ _ => cover list
  | .call name arguments _ position =>
    (origin.find? fun l => l.position == position && l.text == name).toList ++ arguments.flatMap cover

/-- The lexemes that several items cover, one after the other. -/
def coveredBy (origin : List Lexeme) (cover : ListId → List Lexeme) (items : List Item) : List Lexeme :=
  items.flatMap (covered origin cover)

variable {origin : List Lexeme} {cover other : ListId → List Lexeme} {item : Item} {items : List Item}

@[simp] theorem covered_group (list : ListId) (text : String) (span : Span) (position : Nat) :
    (group list text span position).covered origin cover = cover list := rfl

@[simp] theorem coveredBy_nil : coveredBy origin cover [] = [] := rfl

@[simp] theorem coveredBy_cons :
    coveredBy origin cover (item :: items) = item.covered origin cover ++ coveredBy origin cover items := rfl

@[simp] theorem coveredBy_append (first second : List Item) : coveredBy origin cover (first ++ second) =
    coveredBy origin cover first ++ coveredBy origin cover second :=
  List.flatMap_append

/-- Items that follow each other cover lexemes that do. -/
theorem coveredBy_infix {run : List Item} (part : run <:+: items) :
    coveredBy origin cover run <:+: coveredBy origin cover items := by
  obtain ⟨front, back, rfl⟩ := part
  exact ⟨coveredBy origin cover front, coveredBy origin cover back, by simp⟩

/-- What items cover depends on the lists that they need alone. -/
theorem coveredBy_congr (same : ∀ list ∈ references items, cover list = other list) :
    coveredBy origin cover items = coveredBy origin other items := by
  refine List.flatMap_congr fun item mem => ?_
  have here : ∀ list ∈ item.lists, cover list = other list :=
    fun list needed => same list (List.mem_flatMap.mpr ⟨item, mem, needed⟩)
  cases item with
  | lexeme => rfl
  | group list => exact here list (by simp)
  | call name arguments => exact congrArg _ (List.flatMap_congr here)

theorem covered_of_mark (h : item.opensGroup = true ∨ item.closesGroup = true ∨ item.isComma = true) :
    item.covered origin cover = [] := by
  cases item with
  | lexeme lexeme =>
    refine if_pos ?_
    simpa [Lexeme.isPunctuation, opensGroup, closesGroup, isComma, or_assoc] using h
  | group | call => simp [opensGroup, closesGroup, isComma] at h

/-- Lexemes alone cover themselves, apart from the punctuation. -/
theorem coveredBy_lexemes (run : List Lexeme) :
    coveredBy origin cover (run.map .lexeme) = run.filter fun lexeme => !lexeme.isPunctuation := by
  induction run with
  | nil => rfl
  | cons lexeme run ih =>
    rw [List.map_cons, coveredBy_cons, ih, covered, List.filter_cons]
    cases lexeme.isPunctuation <;> rfl

theorem coveredBy_separated {runs : List (List Item)}
    (h : Separated (fun item : Item => item.isComma = true) runs items) :
    coveredBy origin cover items = (runs.map (coveredBy origin cover)).flatten := by
  induction h with
  | last run => simp
  | next run isComma _ ih => simp [ih, covered_of_mark (.inr (.inr isComma))]

/-- A call covers the name that it was made from, and then what its arguments cover. -/
theorem covered_call (sorted : origin.Pairwise fun first second => first.position < second.position)
    {name : Item} (isName : name.isFunction = true) (inside : ∀ lexeme, name = .lexeme lexeme → lexeme ∈ origin)
    (arguments : List ListId) (span : Span) :
    (call name.text arguments span name.position).covered origin cover =
      name.covered origin cover ++ arguments.flatMap cover := by
  cases name with
  | group | call => cases isName
  | lexeme lexeme =>
    have notMark : lexeme.isPunctuation = false := by
      simp [Lexeme.isPunctuation, Lexeme.opensGroup, Lexeme.closesGroup, Lexeme.isComma, Lexeme.isOperatorOf,
        Lexeme.occurrence?, isFunction_lexeme.mp isName]
    obtain ⟨front, back, rfl⟩ := List.append_of_mem (inside lexeme rfl)
    have found : (front ++ lexeme :: back).find?
        (fun l => l.position == lexeme.position && l.text == lexeme.text) = some lexeme := by
      refine List.find?_eq_some_iff_append.mpr ⟨by simp, front, back, rfl, fun earlier mem => ?_⟩
      have lower := (List.pairwise_append.mp sorted).2.2 earlier mem lexeme List.mem_cons_self
      simp [Nat.ne_of_lt lower]
    simp only [covered, text, position, found, notMark]
    rfl

end Item

open Item

/-- A division after which the old list covers the same lexemes as before, and every new one some of them that
follow each other. -/
structure Covering (origin : List Lexeme) (number : Nat) (items left : List Item)
    (news : List (List Item × Span)) : Prop extends Division number items left news where
  covered_eq : ∀ cover : ListId → List Lexeme,
    (List.range' number news.length).map cover = news.map (fun new => coveredBy origin cover new.1) →
      coveredBy origin cover left = coveredBy origin cover items ∧
        ∀ new ∈ news, coveredBy origin cover new.1 <:+: coveredBy origin cover items

namespace Covering

variable {origin : List Lexeme} {number : Nat} {items middle left : List Item}
  {first second : List (List Item × Span)}

theorem refl (origin : List Lexeme) (number : Nat) (items : List Item) :
    Covering origin number items items [] :=
  ⟨.refl _ _, by simp⟩

theorem trans (one : Covering origin number items middle first)
    (two : Covering origin (number + first.length) middle left second) :
    Covering origin number items left (first ++ second) := by
  refine ⟨one.toDivision.trans two.toDivision, fun cover known => ?_⟩
  rw [List.length_append, ← List.range'_append_1, List.map_append, List.map_append] at known
  obtain ⟨known, known'⟩ := List.append_inj known (by simp)
  obtain ⟨same, parts⟩ := one.covered_eq cover known
  obtain ⟨same', parts'⟩ := two.covered_eq cover known'
  rw [same] at same' parts'
  exact ⟨same', List.forall_mem_append.mpr ⟨parts, parts'⟩⟩

end Covering

/-- The new lists of a grouping hold members that follow each other. -/
theorem Item.Grouping.infix_of_mem {number : Nat} {items left : List Item} {news : List (List Item × Span)}
    (h : Grouping number items left news) : ∀ new ∈ news, new.1 <:+: items := by
  induction h with
  | nil => simp
  | @group number opening closing inner after items news text span _ _ _ _ ih =>
    refine List.forall_mem_cons.mpr ⟨⟨[opening], closing :: after, by simp⟩, fun new mem => ?_⟩
    exact (ih new mem).trans ⟨opening :: (inner ++ [closing]), [], by simp⟩
  | @call number name opening closing inner after items runs news span _ _ _ _ arguments _ ih =>
    refine List.forall_mem_append.mpr ⟨List.forall_mem_map.mpr fun run isRun => ?_, fun new mem => ?_⟩
    · rcases arguments with ⟨rfl, -⟩ | ⟨-, separated, -⟩
      · cases isRun
      · exact (separated.infix_of_mem isRun).trans ⟨[name, opening], closing :: after, by simp⟩
    · exact (ih new mem).trans ⟨name :: opening :: (inner ++ [closing]), [], by simp⟩
  | @keep number item _ _ _ _ _ _ _ _ ih =>
    exact fun new mem => (ih new mem).trans (List.suffix_cons item _).isInfix

private theorem Item.Grouping.coveredBy_eq {origin : List Lexeme}
    (sorted : origin.Pairwise fun first second => first.position < second.position)
    {cover : ListId → List Lexeme} {number : Nat} {items left : List Item} {news : List (List Item × Span)}
    (h : Grouping number items left news) (inside : ∀ lexeme, .lexeme lexeme ∈ items → lexeme ∈ origin)
    (known : (List.range' number news.length).map cover = news.map fun new => coveredBy origin cover new.1) :
    coveredBy origin cover left = coveredBy origin cover items := by
  induction h with
  | nil => rfl
  | group text span opens closes _ _ ih =>
    rw [List.length_cons, List.range'_succ, List.map_cons, List.map_cons] at known
    obtain ⟨here, known⟩ := List.cons.inj known
    have later := ih (fun lexeme mem => inside lexeme (by simp [mem])) known
    simp [later, here, covered_of_mark (.inl opens), covered_of_mark (.inr (.inl closes))]
  | @call number name opening closing inner after items runs news span isName opens closes _ arguments _ ih =>
    rw [List.length_append, List.length_map, ← List.range'_append_1, List.map_append, List.map_append,
      List.map_map] at known
    obtain ⟨here, known⟩ := List.append_inj known (by simp)
    have later := ih (fun lexeme mem => inside lexeme (by simp [mem])) known
    have between : (List.range' number runs.length).flatMap cover = coveredBy origin cover inner := by
      rw [List.flatMap_def, here]
      rcases arguments with ⟨rfl, rfl⟩ | ⟨-, separated, -⟩
      · rfl
      · exact (coveredBy_separated separated).symm
    rw [coveredBy_cons, covered_call sorted isName (fun lexeme same => inside lexeme (by simp [same])), later, between]
    simp [covered_of_mark (.inl opens), covered_of_mark (.inr (.inl closes))]
  | keep _ _ _ _ _ ih => simp [ih (fun lexeme mem => inside lexeme (by simp [mem])) known]

/-- Taking out groups and calls covers the same lexemes. -/
theorem Item.Grouping.covering {origin : List Lexeme}
    (sorted : origin.Pairwise fun first second => first.position < second.position)
    {number : Nat} {items left : List Item} {news : List (List Item × Span)}
    (h : Grouping number items left news) (inside : ∀ lexeme, .lexeme lexeme ∈ items → lexeme ∈ origin) :
    Covering origin number items left news :=
  ⟨h.division, fun _ known =>
    ⟨h.coveredBy_eq sorted inside known, fun new mem => coveredBy_infix (h.infix_of_mem new mem)⟩⟩

/-- So does taking out an operator with its operands. -/
theorem Item.Takes.covering {op : Item} {fixity : Fixity} {before after first run last : List Item}
    (h : Takes op fixity before after first run last) (origin : List Lexeme) (number : Nat) (text : String)
    (span : Span) (position : Nat) :
    Covering origin number (before ++ op :: after) (first ++ .group number text span position :: last)
      [(run, span)] := by
  refine ⟨h.division .., fun cover known => ?_⟩
  rw [h.whole_eq]
  have here : cover number = coveredBy origin cover run := by simpa using known
  refine ⟨by simp [here], fun new mem => ?_⟩
  rw [List.mem_singleton.mp mem]
  exact coveredBy_infix ⟨first, last, rfl⟩

namespace Builder

/-- Visits of operators cover the same lexemes. -/
theorem Cutting.cutAll_covering (origin : List Lexeme) (state : Cutting) (ranks : List Rank) :
    ∃ news, (state.cutAll ranks).builder = state.builder.append news ∧
      Covering origin state.builder.lists.size state.items (state.cutAll ranks).items news :=
  state.cutAll_divides (.refl origin) .trans (fun takes => takes.covering origin) ranks

/-- So does a whole pass. -/
theorem Processed.covering {origin : List Lexeme}
    (sorted : origin.Pairwise fun first second => first.position < second.position) {builder after : Builder}
    {list : Nat} (h : Processed builder list .progress after) (bound : list < builder.lists.size)
    (inside : ∀ lexeme, .lexeme lexeme ∈ builder.itemsOf list → lexeme ∈ origin) :
    ∃ left news, Covering origin builder.lists.size (builder.itemsOf list) left news ∧
      after = (builder.append news).setItems list left := by
  refine h.divides (P := fun _ => True) .trans (fun _ => trivial)
    (fun grouping => ⟨grouping.covering sorted inside, trivial⟩) (fun {builder _} reduced _ => ?_) bound
  cases reduced with
  | @cut cutting _ run =>
    obtain ⟨news, made, covering⟩ :=
      (Cutting.begin builder (builder.itemsOf list)).cutAll_covering origin (ranksOf (builder.itemsOf list))
    rw [run] at made covering
    exact ⟨cutting.items, news, covering, by rw [made]; rfl⟩

end Builder

end Reckoner

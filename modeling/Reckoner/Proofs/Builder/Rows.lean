import Reckoner.Proofs.Builder.Division
import Reckoner.Proofs.Builder.Placed

/-!
Dividing a list keeps its members in a row. A group takes the place from its opening to its closing parenthesis, a
call that from its name on, an argument and an operator with its operands that from the first to the last member.
What is left in the list and what is put into a new one is in a row again, and each stays in its place.
-/
namespace Reckoner

open Reckoner.Span

variable {source : String} {lexemes : List Lexeme} {builder between after : Builder} {items : List Item}
  {start stop : Nat}

/-- The place of a call is in the source. -/
theorem Lexeme.CallAt.fits {name : String} {span : Span} (isCall : CallAt lexemes name span)
    (laid : Laid source lexemes) : span.Fits source := by
  cases isCall with
  | @intro front function opening closing inner back =>
    have row := laid.row
    rw [List.map_append, List.map_cons, List.map_cons, List.map_append, List.map_cons, ← List.cons_append] at row
    obtain ⟨_, -, row⟩ := Row.append_iff.mp row
    obtain ⟨-, -, ordered, -⟩ := row.enclosed
    exact ⟨(laid.fits (by simp)).start, (laid.fits (by simp)).stop, Nat.le_of_lt ordered⟩

namespace Item

theorem Placed.fits {item : Item} (placed : item.Placed source lexemes builder)
    (laid : Lexeme.Laid source lexemes) : item.span.Fits source := by
  cases placed with
  | lexeme mem => exact laid.fits mem
  | group position small read => exact fits_iff.mpr ⟨_, read⟩
  | call position small row isCall => exact isCall.fits laid

/-- Items that are in a row are in a row from the first to the last of them. -/
theorem row_spanOf (some : items ≠ []) (row : Row start stop (items.map span)) :
    start ≤ (spanOf items).start ∧ (spanOf items).start < (spanOf items).stop ∧ (spanOf items).stop ≤ stop ∧
      Row (spanOf items).start (spanOf items).stop (items.map span) := by
  cases items with
  | nil => exact absurd rfl some
  | cons first rest =>
    have isLast : ((first :: rest).map span).getLast? = .some ((first :: rest).getLast (by simp)).span := by
      rw [List.getLast?_map, List.getLast?_eq_some_getLast (by simp)]
      rfl
    obtain ⟨same, hull⟩ := row.hull isLast
    rw [spanOf, List.head?_cons, List.getLast?_eq_some_getLast (by simp)]
    simp only [same]
    exact hull

theorem fits_spanOf (fits : ∀ item ∈ items, item.span.Fits source) : (spanOf items).Fits source := by
  unfold spanOf
  split
  · next first last isFirst isLast =>
    exact (fits first (List.mem_of_mem_head? isFirst)).cover (fits last (List.mem_of_getLast? isLast))
  · exact fits_default source

/-- The parts of a row between marks are in rows, and in a row as a whole. -/
theorem row_separated {runs : List (List Item)}
    (separated : Separated (fun item : Item => item.isComma = true) runs items)
    (some : ∀ run ∈ runs, run ≠ []) (row : Row start stop (items.map span)) :
    Row start stop (runs.map spanOf) ∧
      ∀ run ∈ runs, Row (spanOf run).start (spanOf run).stop (run.map span) := by
  induction separated generalizing start with
  | last run =>
    obtain ⟨starts, some, stops, row⟩ := row_spanOf (some run (by simp)) row
    exact ⟨⟨starts, some, stops⟩, by simpa using row⟩
  | @next mark runs rest run _ _ ih =>
    obtain ⟨here, others⟩ := List.forall_mem_cons.mp some
    rw [List.map_append, List.map_cons] at row
    obtain ⟨middle, first, behind, nonempty, later⟩ := Row.append_iff.mp row
    obtain ⟨starts, some, stops, row⟩ := row_spanOf here first
    obtain ⟨rows, each⟩ := ih others later
    exact ⟨⟨starts, some, rows.mono (by omega) (Nat.le_refl _)⟩, List.forall_mem_cons.mpr ⟨row, each⟩⟩

end Item

open Item

namespace Builder

theorem Laid.fits_item {outer : Span} (laid : builder.Laid source lexemes outer items)
    (origin : Lexeme.Laid source lexemes) : ∀ item ∈ items, item.span.Fits source :=
  fun item mem => (laid.placed item mem).fits origin

/-- The item for a new list has the text that the list covers. -/
theorem placed_groupItem (placed : builder.Placed source lexemes) (items : List Item) {span : Span}
    (fits : span.Fits source) (position : Nat) :
    (builder.groupItem builder.lists.size span position).Placed source lexemes (builder.addList items span) := by
  obtain ⟨text, read⟩ := fits_iff.mp fits
  have same : (builder.addList items span).spanOf builder.lists.size = span := by
    rw [spanOf_addList, if_pos rfl]
  have isGroup := @Placed.group source lexemes (builder.addList items span) builder.lists.size text position
    (by simp [addList]) (by rwa [same])
  rw [same] at isGroup
  rwa [groupItem, placed.source_eq, read]

/-- The lists of several runs take their places. -/
theorem addLists_advances {runs : List (List Item)} (placed : builder.Placed source lexemes)
    (laid : ∀ run ∈ runs, builder.Laid source lexemes (Item.spanOf run) run) :
    builder.Advances source lexemes (builder.addLists runs) ∧
      (builder.addLists runs).lists.size = builder.lists.size + runs.length ∧
      (List.range' builder.lists.size runs.length).map (builder.addLists runs).spanOf = runs.map Item.spanOf := by
  induction runs generalizing builder with
  | nil => exact ⟨.refl placed, rfl, rfl⟩
  | cons run rest ih =>
    obtain ⟨here, others⟩ := List.forall_mem_cons.mp laid
    have first := placed.addList here
    have size : (builder.addList run (Item.spanOf run)).lists.size = builder.lists.size + 1 := by
      simp [addList]
    obtain ⟨later, size', spans⟩ := ih first.placed fun run mem => first.kept.laid (others run mem)
    have new := later.kept.spanOf_eq builder.lists.size (size ▸ Nat.lt_succ_self _)
    rw [spanOf_addList, if_pos rfl] at new
    rw [size] at size' spans
    refine ⟨first.trans later, size'.trans (by rw [List.length_cons]; omega), ?_⟩
    rw [List.length_cons, List.range'_succ, List.map_cons, List.map_cons]
    exact congrArg₂ _ new spans

/-- Arguments are split at commas into parts that are not empty, or a place of the call is to blame. -/
private theorem splitArguments_yields {name : String} {separator : Span} {depth : Nat} {current : List Item}
    (separated : separator.Fits source) (fits : ∀ item ∈ items, item.span.Fits source) :
    Yields source (fun runs => ∀ run ∈ runs, run ≠ []) (splitArguments name separator depth current items) := by
  induction items generalizing separator depth current with
  | nil =>
    rw [splitArguments]
    split
    · exact .atSpan _ separated
    · next some => simpa [Yields] using some
  | cons item rest ih =>
    obtain ⟨here, later⟩ := List.forall_mem_cons.mp fits
    rw [splitArguments]
    split
    · split
      · exact .atSpan _ here
      · next some =>
        refine (ih here later).bind fun runs others => ?_
        exact List.forall_mem_cons.mpr ⟨by simpa using some, others⟩
    · exact ih separated later

theorem argumentRuns_yields {name : String} {opening : Span} (fits : opening.Fits source)
    (inside : ∀ item ∈ items, item.span.Fits source) :
    Yields source (fun runs => ∀ run ∈ runs, run ≠ []) (argumentRuns name opening items) := by
  unfold argumentRuns
  split
  · simp [Yields]
  · exact splitArguments_yields fits inside

/-- What is left of a list once groups and calls are taken out of it. -/
structure Regrouped (source : String) (lexemes : List Lexeme) (builder : Builder) (start stop : Nat)
    (reply : List Item × Builder) : Prop extends Advances source lexemes builder reply.2 where
  row : Row start stop (reply.1.map Item.span)
  members : ∀ item ∈ reply.1, item.Placed source lexemes reply.2
  flat : hasGroups reply.1 = false

theorem Regrouped.cons {item : Item} (first : builder.Advances source lexemes between)
    (here : item.Placed source lexemes between) (noMark : hasGroups [item] = false)
    (starts : start ≤ item.span.start) (some : item.span.start < item.span.stop)
    (others : between.Regrouped source lexemes item.span.stop stop (items, after)) :
    builder.Regrouped source lexemes start stop (item :: items, after) where
  toAdvances := first.trans others.toAdvances
  row := ⟨starts, some, others.row⟩
  members := List.forall_mem_cons.mpr ⟨others.kept.item here, others.members⟩
  flat := by
    have flat := others.flat
    simp only [hasGroups, List.any_cons, List.any_nil, Bool.or_false] at noMark flat ⊢
    rw [noMark, flat]
    rfl

private theorem exists_infix_map {run : List Lexeme} (part : items <:+: run.map Item.lexeme) :
    ∃ piece, piece <:+: run ∧ items = piece.map .lexeme := by
  obtain ⟨front, back, whole⟩ := part
  obtain ⟨run', back', rfl, front', -⟩ := List.map_eq_append_iff.mp whole.symm
  obtain ⟨front'', piece, rfl, -, same⟩ := List.map_eq_append_iff.mp front'
  exact ⟨piece, ⟨front'', back', rfl⟩, same.symm⟩

theorem map_span_lexemes (run : List Lexeme) : (run.map Item.lexeme).map span = run.map (·.span) :=
  List.map_map

/-- A part of the lexemes lies in a place if it is in a row there. -/
private theorem laid_raw {run : List Lexeme} (part : run <:+: lexemes) {outer : Span} (fits : outer.Fits source)
    (row : Row outer.start outer.stop (run.map (·.span))) :
    builder.Laid source lexemes outer (run.map .lexeme) where
  fits := fits
  row := by rwa [map_span_lexemes]
  placed := List.forall_mem_map.mpr fun _ mem => .lexeme (part.subset mem)
  raw _ := ⟨run, part, rfl⟩

/-- The arguments of a call lie between its parentheses. -/
private theorem laid_arguments {inner : List Lexeme} (part : inner <:+: lexemes)
    (laid : Lexeme.Laid source lexemes) {runs : List (List Item)} (arguments : Arguments runs (inner.map .lexeme))
    (some : ∀ run ∈ runs, run ≠ []) (row : Row start stop (inner.map (·.span))) :
    Row start stop (runs.map Item.spanOf) ∧ ∀ run ∈ runs, builder.Laid source lexemes (Item.spanOf run) run := by
  rcases arguments with ⟨rfl, -⟩ | ⟨-, separated, -⟩
  · exact ⟨row.le, by simp⟩
  · rw [← map_span_lexemes] at row
    obtain ⟨rows, each⟩ := row_separated separated some row
    refine ⟨rows, fun run mem => ?_⟩
    obtain ⟨piece, inPart, rfl⟩ := exists_infix_map (separated.infix_of_mem mem)
    have within := inPart.trans part
    refine laid_raw within (fits_spanOf ?_) (map_span_lexemes piece ▸ each _ mem)
    exact List.forall_mem_map.mpr fun _ mem => laid.fits (within.subset mem)

/-- The lexemes up to the closing parenthesis, and those behind it. -/
private theorem exists_lexemes {run : List Lexeme} {inner after : List Item} {close : Span}
    (taken : takeGroup? 0 (run.map .lexeme) = some (inner, close, after)) :
    ∃ inside closing behind, run = inside ++ closing :: behind ∧ inside.map .lexeme = inner ∧
      behind.map .lexeme = after ∧ closing.closesGroup = true ∧ closing.span = close ∧
      Token.Balanced 0 (outline inner) := by
  obtain ⟨last, closes, rfl, whole, balanced⟩ := takeGroup?_eq_some taken
  obtain ⟨inside, ends, rfl, rfl, same⟩ := List.map_eq_append_iff.mp whole
  obtain ⟨closing, behind, rfl, rfl, rfl⟩ := List.map_eq_cons_iff.mp same
  exact ⟨inside, closing, behind, rfl, rfl, rfl, closes, rfl, balanced⟩

/-- An item that is left of the front of a run, in front of the lexemes that are still to be looked at. -/
private structure Fronts (source : String) (lexemes : List Lexeme) (builder : Builder) (start stop : Nat)
    (item : Item) (between : Builder) (behind : List Lexeme) : Prop
    extends Advances source lexemes builder between where
  here : item.Placed source lexemes between
  noMark : hasGroups [item] = false
  starts : start ≤ item.span.start
  some : item.span.start < item.span.stop
  part : behind <:+: lexemes
  later : Row item.span.stop stop (behind.map (·.span))

private theorem Fronts.yields {item : Item} {behind : List Lexeme}
    (fronts : builder.Fronts source lexemes start stop item between behind)
    (result : Except CompileError (List Item × Builder)) :
    Yields source (between.Regrouped source lexemes item.span.stop stop) result →
      Yields source (builder.Regrouped source lexemes start stop)
        (match result with
        | .ok (items, builder) => .ok (item :: items, builder)
        | .error error => .error error) := by
  intro others
  cases result with
  | ok reply => exact .cons fronts.toAdvances fronts.here fronts.noMark fronts.starts fronts.some others
  | error error => exact others

/-- A run in parentheses becomes a list, which takes their place too. -/
private theorem fronts_group (placed : builder.Placed source lexemes) {opening closing : Lexeme}
    {inside behind : List Lexeme} (part : opening :: (inside ++ closing :: behind) <:+: lexemes)
    (row : Row start stop ((opening :: (inside ++ closing :: behind)).map (·.span))) :
    builder.Fronts source lexemes start stop
      (builder.groupItem builder.lists.size (opening.span.cover closing.span) opening.position)
      (builder.addList (inside.map .lexeme) (opening.span.cover closing.span)) behind := by
  have laid := placed.origin
  have fits := (laid.fits (part.subset List.mem_cons_self)).cover
    (laid.fits (part.subset (by simp : closing ∈ _)))
  have inPart : inside <:+: lexemes := List.IsInfix.trans ⟨[opening], closing :: behind, by simp⟩ part
  have isBehind : behind <:+: lexemes :=
    List.IsInfix.trans ⟨opening :: (inside ++ [closing]), [], by simp⟩ part
  rw [List.map_cons, List.map_append, List.map_cons] at row
  obtain ⟨hull, starts, some, within, later⟩ := row.enclosed
  refine ⟨placed.addList (laid_raw inPart fits (by rwa [hull])), placed_groupItem placed _ fits _, rfl, ?_, ?_,
    isBehind, ?_⟩
  all_goals
    simp only [groupItem, Item.span, hull]
    assumption

/-- A call takes the place from its name to its closing parenthesis, and its arguments become lists in it. -/
private theorem fronts_call (placed : builder.Placed source lexemes) {name opening closing : Lexeme}
    {inside behind : List Lexeme} (part : name :: opening :: (inside ++ closing :: behind) <:+: lexemes)
    (isFunction : name.kind = .function) (opens : opening.opensGroup = true)
    (closes : closing.closesGroup = true) (balanced : Token.Balanced 0 (outline (inside.map .lexeme)))
    {runs : List (List Item)} (arguments : Arguments runs (inside.map .lexeme))
    (nonempty : ∀ run ∈ runs, run ≠ [])
    (row : Row start stop ((name :: opening :: (inside ++ closing :: behind)).map (·.span))) :
    builder.Fronts source lexemes start stop
      (.call name.text (List.range' builder.lists.size runs.length) (name.span.cover closing.span) name.position)
      (builder.addLists runs) behind := by
  have inPart : inside <:+: lexemes := List.IsInfix.trans ⟨[name, opening], closing :: behind, by simp⟩ part
  have isBehind : behind <:+: lexemes :=
    List.IsInfix.trans ⟨name :: opening :: (inside ++ [closing]), [], by simp⟩ part
  rw [List.map_cons, List.map_cons, List.map_append, List.map_cons, ← List.cons_append] at row
  obtain ⟨hull, starts, some, ⟨before, wide, within⟩, later⟩ := row.enclosed
  obtain ⟨rows, laid⟩ := laid_arguments inPart placed.origin arguments nonempty within
  obtain ⟨added, size, spans⟩ := addLists_advances placed laid
  have isCall : Lexeme.CallAt lexemes name.text (name.span.cover closing.span) := by
    obtain ⟨front, back, rfl⟩ := part
    rw [outline, List.map_map] at balanced
    have isCall := @Lexeme.CallAt.intro front name opening closing inside (behind ++ back)
      isFunction opens closes balanced
    rw [hull]
    simpa using isCall
  refine ⟨added, .call name.position (fun list mem => ?_) ?_ isCall, rfl, ?_, ?_, isBehind, ?_⟩
  · have := (List.mem_range'_1.mp mem).2
    omega
  · rw [spans, hull]
    exact rows.mono (Nat.le_trans before (Nat.le_of_lt wide)) (Nat.le_refl _)
  all_goals
    simp only [Item.span, hull]
    assumption

/-- Any other lexeme stays. -/
private theorem fronts_keep (placed : builder.Placed source lexemes) {lexeme : Lexeme} {behind : List Lexeme}
    (part : lexeme :: behind <:+: lexemes) (row : Row start stop ((lexeme :: behind).map (·.span)))
    (noMark : hasGroups [.lexeme lexeme] = false) :
    builder.Fronts source lexemes start stop (.lexeme lexeme) builder behind :=
  ⟨.refl placed, .lexeme (part.subset List.mem_cons_self), noMark, row.1, row.2.1,
    List.IsInfix.trans ⟨[lexeme], [], by simp⟩ part, row.2.2⟩

/-- Taking groups and calls out of a part of the lexemes keeps what is left of it in a row. -/
theorem regroup_yields (placed : builder.Placed source lexemes) {run : List Lexeme} (part : run <:+: lexemes)
    (row : Row start stop (run.map (·.span))) :
    Yields source (builder.Regrouped source lexemes start stop) (builder.regroup (run.map .lexeme)) := by
  have laid := placed.origin
  -- what is still to be looked at is shorter, although it is not always the tail
  induction size : run.length using Nat.strongRecOn generalizing builder run start with
  | ind length ih =>
  subst size
  cases run with
  | nil =>
    rw [List.map_nil, regroup]
    exact ⟨.refl placed, row, by simp, rfl⟩
  | cons first rest =>
    have fits := laid.fits (part.subset List.mem_cons_self)
    rw [List.map_cons, regroup]
    split
    · split
      · exact .atSpan _ fits
      · next taken =>
        obtain ⟨inside, closing, behind, rfl, rfl, rfl, -, rfl, -⟩ := exists_lexemes taken
        have fronts := fronts_group placed part row
        exact fronts.yields _ (ih behind.length (by simp; omega) fronts.placed fronts.part fronts.later rfl)
    next notOpening =>
    split
    · next called =>
      simp only [Bool.and_eq_true] at called
      cases rest with
      | nil => cases called.2
      | cons opening rest =>
        have isFunction := isFunction_lexeme.mp called.1
        have opens : opening.opensGroup = true := called.2
        have fitsOpening := laid.fits (part.subset (List.mem_cons_of_mem _ List.mem_cons_self))
        split
        · exact .atSpan _ fitsOpening
        · next taken =>
          obtain ⟨inside, closing, behind, rfl, rfl, rfl, closes, rfl, balanced⟩ := exists_lexemes taken
          have within : ∀ item ∈ inside.map Item.lexeme, item.span.Fits source :=
            List.forall_mem_map.mpr fun lexeme mem => laid.fits (part.subset (by simp [mem]))
          have yields := @argumentRuns_yields source _ first.text _ fitsOpening within
          dsimp only [List.map_cons, List.head?_cons, Option.elim_some, Item.text, Item.span]
          split
          · next failed => exact yields.of_error failed
          · next runs found =>
            have arguments := argumentRuns_ok balanced found
            have fronts := fronts_call placed part isFunction opens closes balanced arguments
              (yields.of_ok found) row
            exact fronts.yields _ (ih behind.length (by simp; omega) fronts.placed fronts.part fronts.later rfl)
    split
    · exact .atSpan _ fits
    next notComma =>
    split
    · exact .atSpan _ fits
    · next notClosing =>
      have fronts := fronts_keep placed part row (by simp [hasGroups, notOpening, notComma, notClosing])
      exact fronts.yields _ (ih rest.length (by simp) fronts.placed fronts.part fronts.later rfl)

/-- While operators are cut out of a list its members stay in a row where the list is. -/
structure Cutting.Placed (source : String) (lexemes : List Lexeme) (builder : Builder) (outer : Span)
    (state : Cutting) : Prop extends Advances source lexemes builder state.builder where
  laid : state.builder.Laid source lexemes outer state.items
  flat : hasGroups state.items = false

private theorem hasGroups_of_subset {some : List Item} (flat : hasGroups items = false) (part : some ⊆ items) :
    hasGroups some = false := by
  simp only [hasGroups, List.any_eq_false] at flat ⊢
  exact fun item mem => flat item (part mem)

/-- Members without groups in a row lie in its place. -/
theorem laid_flat {outer : Span} (fits : outer.Fits source)
    (row : Row outer.start outer.stop (items.map Item.span))
    (placed : ∀ item ∈ items, item.Placed source lexemes builder) (flat : hasGroups items = false) :
    builder.Laid source lexemes outer items :=
  ⟨fits, row, placed, fun groups => by simp [flat] at groups⟩

/-- A part of a list becomes a list in the place from its first to its last member. -/
private theorem Cutting.Placed.replace {state : Cutting} {outer : Span} {front run back : List Item}
    (placed : state.Placed source lexemes builder outer) (whole : state.items = front ++ run ++ back)
    (some : run ≠ []) (position count : Nat) :
    Cutting.Placed source lexemes builder outer
      { state with
        items := front ++ state.builder.groupItem state.builder.lists.size (Item.spanOf run) position :: back
        count := count
        builder := state.builder.addList run (Item.spanOf run) } := by
  have laid := placed.laid
  have flat := placed.flat
  rw [whole] at laid flat
  have inRun : run ⊆ front ++ run ++ back := fun item mem => by simp [mem]
  have row := laid.row
  rw [List.append_assoc, List.map_append, List.map_append] at row
  obtain ⟨before, isFront, row⟩ := Row.append_iff.mp row
  obtain ⟨behind, isRun, isBack⟩ := Row.append_iff.mp row
  obtain ⟨starts, nonempty, stops, within⟩ := row_spanOf some isRun
  have fits : (Item.spanOf run).Fits source :=
    fits_spanOf fun item mem => laid.fits_item placed.placed.origin item (inRun mem)
  have added := placed.placed.addList <|
    laid_flat fits within (fun item mem => laid.placed item (inRun mem)) (hasGroups_of_subset flat inRun)
  have isGroup := placed_groupItem placed.placed run fits position
  have stays : hasGroups
      (front ++ state.builder.groupItem state.builder.lists.size (Item.spanOf run) position :: back) = false := by
    have rest := @hasGroups_of_subset _ (front ++ back) flat fun item mem => by
      rcases List.mem_append.mp mem with mem | mem <;> simp [mem]
    simpa [hasGroups, groupItem, opensGroup, closesGroup, isComma] using rest
  refine ⟨placed.toAdvances.trans added, laid_flat laid.fits ?_ (fun item mem => ?_) stays, stays⟩
  · rw [List.map_append, List.map_cons]
    exact Row.append_iff.mpr ⟨before, isFront, starts, nonempty, isBack.mono stops (Nat.le_refl _)⟩
  · rcases List.mem_append.mp mem with mem | mem
    · exact added.kept.item (laid.placed item (by simp [mem]))
    rcases List.mem_cons.mp mem with rfl | mem
    · exact isGroup
    · exact added.kept.item (laid.placed item (by simp [mem]))

/-- Cutting an operator out, or leaving it, keeps the members in a row. -/
theorem Cutting.Placed.cut {state : Cutting} {outer : Span} (placed : state.Placed source lexemes builder outer)
    (position : Nat) : (state.cut position).Placed source lexemes builder outer := by
  simp only [Cutting.cut]
  split
  · exact placed
  next index found =>
  split
  · exact placed
  next occurrence _ =>
  split
  · exact ⟨placed.toAdvances, placed.laid, placed.flat⟩
  next fixity _ =>
  split
  · exact placed
  have inside : index < state.items.length := (List.findIdx?_eq_some_iff_getElem.mp found).1
  obtain ⟨before, behind⟩ :
      (operandRange index fixity).1 ≤ index ∧ index ≤ (operandRange index fixity).2 := by
    cases fixity <;> simp [operandRange]
  generalize (operandRange index fixity).1 = first at before
  generalize (operandRange index fixity).2 = last at behind
  have front : state.items.take first = (state.items.take (last + 1)).take first := by
    rw [List.take_take, Nat.min_eq_left (by omega)]
  refine placed.replace ?_ ?_ position (state.count + 1)
  · rw [front, List.take_append_drop, List.take_append_drop]
  · refine List.ne_nil_of_length_pos ?_
    rw [List.length_drop, List.length_take]
    omega

theorem Cutting.Placed.cutAll {state : Cutting} {outer : Span} (placed : state.Placed source lexemes builder outer)
    (ranks : List Rank) : (state.cutAll ranks).Placed source lexemes builder outer := by
  induction ranks generalizing state with
  | nil => exact placed
  | cons rank rest ih => exact ih (placed.cut rank.position)

end Builder

end Reckoner

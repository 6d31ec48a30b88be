import Mathlib.Data.List.Perm.Basic
import Mathlib.Tactic.NthRewrite
import Reckoner.Proofs.Builder.Lists
import Reckoner.Proofs.Builder.Tokens

/-!
What grouping does to the members of a list. From left to right, a run in parentheses becomes a list and
leaves one item behind, the arguments of a call become one list each, and everything else stays. All
members are found again, with the numbers of the new lists taken in order.
-/
namespace Reckoner

namespace Item

/-- The lists that some items need. -/
def references (items : List Item) : List ListId :=
  items.flatMap Item.lists

/-- The runs between the commas of a call, none if there is nothing between its parentheses. -/
def Arguments (runs : List (List Item)) (inner : List Item) : Prop :=
  runs = [] ∧ inner = [] ∨
    inner ≠ [] ∧ Separated (fun item : Item => item.isComma = true) runs inner ∧
      ∀ run ∈ runs, Token.Enclosed 0 (outline run)

/-- Items of a list, what is left of them once groups and calls are taken out, and the lists made on the
way, which are numbered from `number` on. -/
inductive Grouping : Nat → List Item → List Item → List (List Item × Span) → Prop where
  | nil (number : Nat) : Grouping number [] [] []
  | group {number : Nat} {opening closing : Item} {inner after items : List Item}
      {news : List (List Item × Span)} (text : String) (span : Span) :
      opening.opensGroup = true → closing.closesGroup = true → Token.Balanced 0 (outline inner) →
      Grouping (number + 1) after items news →
      Grouping number (opening :: (inner ++ closing :: after))
        (.group number text span opening.position :: items) ((inner, span) :: news)
  | call {number : Nat} {name opening closing : Item} {inner after items : List Item}
      {runs : List (List Item)} {news : List (List Item × Span)} (span : Span) :
      name.isFunction = true → opening.opensGroup = true → closing.closesGroup = true →
      Token.Balanced 0 (outline inner) → Arguments runs inner → Grouping (number + runs.length) after items news →
      Grouping number (name :: opening :: (inner ++ closing :: after))
        (.call name.text (List.range' number runs.length) span name.position :: items)
        (runs.map (fun run => (run, spanOf run)) ++ news)
  | keep {number : Nat} {item : Item} {rest items : List Item} {news : List (List Item × Span)} :
      item.opensGroup = false → item.closesGroup = false → item.isComma = false →
      (item.isFunction = true → rest.head?.any opensGroup = false) →
      Grouping number rest items news → Grouping number (item :: rest) (item :: items) news

/-- Items in which groups and calls cannot be taken out, and what is wrong with them. What stands in
front of the objection has been taken out or kept. -/
inductive Stops : List Item → CompileError.Cause → Prop where
  | unclosed {items : List Item} : ¬ Token.Balanced 0 (outline items) → Stops items .bracketBalance
  | unopened {items : List Item} : ¬ Token.Balanced 0 (outline items) → Stops items .bracketOrder
  | comma {item : Item} {rest : List Item} : item.isComma = true → Stops (item :: rest) .unexpectedComma
  | argument {name opening closing : Item} {inner after : List Item} {runs : List (List Item)} :
      name.isFunction = true → opening.opensGroup = true → closing.closesGroup = true →
      Token.Balanced 0 (outline inner) → Arguments runs inner → [] ∈ runs →
      Stops (name :: opening :: (inner ++ closing :: after)) (.emptyArgument name.text)
  | group {opening closing : Item} {inner after : List Item} {cause : CompileError.Cause} :
      opening.opensGroup = true → closing.closesGroup = true → Token.Balanced 0 (outline inner) →
      Stops after cause → Stops (opening :: (inner ++ closing :: after)) cause
  | call {name opening closing : Item} {inner after : List Item} {runs : List (List Item)}
      {cause : CompileError.Cause} :
      name.isFunction = true → opening.opensGroup = true → closing.closesGroup = true →
      Token.Balanced 0 (outline inner) → Arguments runs inner → Stops after cause →
      Stops (name :: opening :: (inner ++ closing :: after)) cause
  | keep {item : Item} {rest : List Item} {cause : CompileError.Cause} :
      item.opensGroup = false → item.closesGroup = false → item.isComma = false →
      (item.isFunction = true → rest.head?.any opensGroup = false) → Stops rest cause →
      Stops (item :: rest) cause

@[simp] theorem references_nil : references [] = [] := rfl

@[simp] theorem references_cons (item : Item) (items : List Item) :
    references (item :: items) = item.lists ++ references items := rfl

@[simp] theorem references_append (first second : List Item) :
    references (first ++ second) = references first ++ references second :=
  List.flatMap_append

@[simp] theorem lists_lexeme (lexeme : Lexeme) : (Item.lexeme lexeme).lists = [] := rfl

@[simp] theorem lists_group (list : ListId) (text : String) (span : Span) (position : Nat) :
    (group list text span position).lists = [list] := rfl

@[simp] theorem lists_call (name : String) (arguments : List ListId) (span : Span)
    (position : Nat) : (call name arguments span position).lists = arguments := rfl

theorem lists_of_opensGroup {item : Item} (h : item.opensGroup = true) : item.lists = [] := by
  cases item <;> simp_all [opensGroup, lists]

theorem lists_of_closesGroup {item : Item} (h : item.closesGroup = true) : item.lists = [] := by
  cases item <;> simp_all [closesGroup, lists]

theorem lists_of_isComma {item : Item} (h : item.isComma = true) : item.lists = [] := by
  cases item <;> simp_all [isComma, lists]

theorem lists_of_isFunction {item : Item} (h : item.isFunction = true) : item.lists = [] := by
  cases item <;> simp_all [isFunction, lists]

theorem lists_of_isOperator {item : Item} (h : item.isOperator = true) : item.lists = [] := by
  cases item with
  | lexeme => rfl
  | group | call => cases h

/-- What is split off is balanced and ends right before a closing parenthesis. -/
theorem takeGroup?_eq_some {depth : Nat} {items inner after : List Item} {close : Span}
    (h : takeGroup? depth items = some (inner, close, after)) :
    ∃ closing, closing.closesGroup = true ∧ closing.span = close ∧
      items = inner ++ closing :: after ∧ Token.Balanced depth (outline inner) := by
  fun_induction takeGroup? depth items generalizing inner after close with
  | case1 => simp at h
  | case2 depth item rest opens ih =>
    simp only [Option.map_eq_some_iff, Prod.exists] at h
    obtain ⟨i, c, a, found, same⟩ := h
    cases same
    obtain ⟨closing, closes, placed, rfl, balanced⟩ := ih found
    exact ⟨closing, closes, placed, rfl, balanced_cons.mpr (by rwa [if_pos opens])⟩
  | case3 item rest _ closes =>
    cases h
    exact ⟨item, closes, rfl, rfl, rfl⟩
  | case4 item rest opens closes depth ih =>
    simp only [Option.map_eq_some_iff, Prod.exists] at h
    obtain ⟨i, c, a, found, same⟩ := h
    cases same
    obtain ⟨closing, closes', placed, rfl, balanced⟩ := ih found
    refine ⟨closing, closes', placed, rfl, balanced_cons.mpr ?_⟩
    rw [if_neg opens, if_pos closes]
    exact ⟨Nat.succ_pos _, balanced⟩
  | case5 depth item rest opens closes ih =>
    simp only [Option.map_eq_some_iff, Prod.exists] at h
    obtain ⟨i, c, a, found, same⟩ := h
    cases same
    obtain ⟨closing, closes', placed, rfl, balanced⟩ := ih found
    exact ⟨closing, closes', placed, rfl, balanced_cons.mpr (by rwa [if_neg opens, if_neg closes])⟩

/-- A group that is open can be split off where brackets are balanced. -/
theorem takeGroup?_isSome {depth : Nat} (outer : Nat) {items : List Item}
    (balanced : Token.Balanced (depth + 1 + outer) (outline items)) :
    ∃ reply, takeGroup? depth items = some reply := by
  fun_induction takeGroup? depth items generalizing outer with
  | case1 => simp [outline, Token.Balanced] at balanced
  | case2 depth item rest opens ih =>
    have later := balanced_cons.mp balanced
    rw [if_pos opens, show depth + 1 + outer + 1 = depth + 1 + 1 + outer by omega] at later
    obtain ⟨reply, found⟩ := ih outer later
    exact ⟨_, by rw [found]; rfl⟩
  | case3 => exact ⟨_, rfl⟩
  | case4 item rest opens closes depth ih =>
    have later := balanced_cons.mp balanced
    rw [if_neg opens, if_pos closes,
      show depth + 1 + 1 + outer - 1 = depth + 1 + outer by omega] at later
    obtain ⟨reply, found⟩ := ih outer later.2
    exact ⟨_, by rw [found]; rfl⟩
  | case5 depth item rest opens closes ih =>
    have later := balanced_cons.mp balanced
    rw [if_neg opens, if_neg closes] at later
    obtain ⟨reply, found⟩ := ih outer later
    exact ⟨_, by rw [found]; rfl⟩

/-- A parenthesis behind which no group can be split off is never closed. -/
theorem not_balanced_of_takeGroup? {opening : Item} {rest : List Item} (opens : opening.opensGroup = true)
    (failed : takeGroup? 0 rest = none) : ¬ Token.Balanced 0 (outline (opening :: rest)) := by
  intro balanced
  rw [outline, List.map_cons, balanced_cons, if_pos opens] at balanced
  obtain ⟨reply, found⟩ := takeGroup?_isSome 0 balanced
  rw [failed] at found
  cases found

/-- What is balanced is split off in front of a closing parenthesis. -/
theorem takeGroup?_of_balanced {depth : Nat} {inner after : List Item} {closing : Item}
    (notOpening : closing.opensGroup = false) (closes : closing.closesGroup = true)
    (balanced : Token.Balanced depth (outline inner)) :
    takeGroup? depth (inner ++ closing :: after) = some (inner, closing.span, after) := by
  induction inner generalizing depth with
  | nil =>
    obtain rfl : depth = 0 := balanced
    rw [List.nil_append, takeGroup?, if_neg (by simp [notOpening]), if_pos closes]
  | cons item rest ih =>
    rw [outline, List.map_cons, balanced_cons] at balanced
    rw [List.cons_append, takeGroup?.eq_def]
    simp only
    split at balanced
    · next opens =>
      rw [if_pos opens, ih balanced]
      rfl
    next notOpens =>
    rw [if_neg notOpens]
    split at balanced
    · next isClosing =>
      obtain ⟨positive, balanced⟩ := balanced
      obtain ⟨depth, rfl⟩ := Nat.exists_eq_succ_of_ne_zero (Nat.pos_iff_ne_zero.mp positive)
      rw [if_pos isClosing]
      simp only [@ih depth balanced]
      rfl
    · next notClosing =>
      rw [if_neg notClosing, ih balanced]
      rfl

end Item

open Item

namespace Builder

/-- Where brackets are balanced, arguments are split at the commas outside of brackets, unless one of
them is empty, which the error says. `current` is the beginning of an argument. -/
private theorem splitArguments_cases {name : String} {separator : Span} {depth : Nat}
    {current items : List Item} (balanced : Token.Balanced depth (outline items))
    (enclosed : ∀ tail, Token.Enclosed depth (outline tail) →
      Token.Enclosed 0 (outline (current.reverse ++ tail))) :
    ∃ runs, Separated (fun item : Item => item.isComma = true) runs (current.reverse ++ items) ∧
      (∀ run ∈ runs, Token.Enclosed 0 (outline run)) ∧
      (splitArguments name separator depth current items = .ok runs ∨
        [] ∈ runs ∧ ∃ error, splitArguments name separator depth current items = .error error ∧
          error.cause = .emptyArgument name) := by
  induction items generalizing separator depth current with
  | nil =>
    obtain rfl : depth = 0 := balanced
    refine ⟨[current.reverse], by simpa using Separated.last _, ?_, ?_⟩
    · simpa using enclosed [] rfl
    · rw [splitArguments]
      split
      · next empty => exact .inr ⟨by simpa using empty, _, rfl, rfl⟩
      · exact .inl rfl
  | cons item rest ih =>
    have later := balanced_cons.mp balanced
    rw [splitArguments]
    split
    · next isMark =>
      simp only [Bool.and_eq_true, beq_iff_eq] at isMark
      obtain ⟨isComma, rfl⟩ := isMark
      rw [if_neg (not_bracket_of_isComma isComma).1, if_neg (not_bracket_of_isComma isComma).2] at later
      obtain ⟨runs, separated, each, result⟩ :=
        @ih item.span 0 [] later (fun tail h => by simpa using h)
      refine ⟨current.reverse :: runs, .next _ isComma (by simpa using separated), ?_, ?_⟩
      · exact List.forall_mem_cons.mpr ⟨by simpa using enclosed [] rfl, each⟩
      · split
        · next empty =>
          exact .inr ⟨by simp [List.isEmpty_iff.mp empty], _, rfl, rfl⟩
        · rcases result with found | ⟨empty, error, found, cause⟩
          · exact .inl (by rw [found]; rfl)
          · exact .inr ⟨List.mem_cons_of_mem _ empty, error, by rw [found]; rfl, cause⟩
    · next notMark =>
      have whole : current.reverse ++ item :: rest = (item :: current).reverse ++ rest := by simp
      rw [whole]
      have inside : item.isComma = true → 0 < depth := by
        intro isComma
        simp only [isComma, Bool.true_and, beq_iff_eq] at notMark
        omega
      have extend : ∀ {depth'}, (∀ tail, Token.Enclosed depth' (outline tail) →
          Token.Enclosed depth (outline (item :: tail))) → ∀ tail,
          Token.Enclosed depth' (outline tail) →
            Token.Enclosed 0 (outline ((item :: current).reverse ++ tail)) := by
        intro depth' one tail h
        simpa using enclosed (item :: tail) (one tail h)
      by_cases opens : item.opensGroup = true
      · simp only [opens, if_true] at later ⊢
        exact ih later (extend fun tail h => enclosed_cons.mpr (by rwa [if_pos opens]))
      by_cases closes : item.closesGroup = true
      · simp only [opens, closes, if_true] at later ⊢
        refine ih later.2 (extend fun tail h => enclosed_cons.mpr ?_)
        rw [if_neg opens, if_pos closes]
        exact ⟨later.1, h⟩
      · simp only [opens, closes] at later ⊢
        refine ih later (extend fun tail h => enclosed_cons.mpr ?_)
        rw [if_neg opens, if_neg closes]
        exact ⟨inside, h⟩

/-- Only where an argument is empty, arguments are not split. -/
private theorem argumentRuns_cases (name : String) (opening : Span) {inner : List Item}
    (balanced : Token.Balanced 0 (outline inner)) :
    ∃ runs, Arguments runs inner ∧ (argumentRuns name opening inner = .ok runs ∨
      [] ∈ runs ∧ ∃ error, argumentRuns name opening inner = .error error ∧
        error.cause = .emptyArgument name) := by
  unfold argumentRuns
  split
  · next empty => exact ⟨[], .inl ⟨rfl, List.isEmpty_iff.mp empty⟩, .inl rfl⟩
  · next some =>
    obtain ⟨runs, separated, enclosed, result⟩ :=
      @splitArguments_cases name opening 0 [] inner balanced (fun tail h => by simpa using h)
    refine ⟨runs, .inr ⟨fun empty => some (List.isEmpty_iff.mpr empty), ?_, enclosed⟩, result⟩
    simpa using separated

theorem argumentRuns_ok {name : String} {opening : Span} {inner : List Item}
    {runs : List (List Item)} (balanced : Token.Balanced 0 (outline inner))
    (h : argumentRuns name opening inner = .ok runs) : Arguments runs inner := by
  obtain ⟨runs', arguments, result⟩ := argumentRuns_cases name opening balanced
  rw [h] at result
  rcases result with same | ⟨-, error, failed, -⟩
  · cases same
    exact arguments
  · cases failed

theorem argumentRuns_error {name : String} {opening : Span} {inner : List Item} {error : CompileError}
    (balanced : Token.Balanced 0 (outline inner)) (h : argumentRuns name opening inner = .error error) :
    error.cause = .emptyArgument name ∧ ∃ runs, Arguments runs inner ∧ [] ∈ runs := by
  obtain ⟨runs, arguments, result⟩ := argumentRuns_cases name opening balanced
  rw [h] at result
  rcases result with same | ⟨empty, other, failed, cause⟩
  · cases same
  · cases failed
    exact ⟨cause, runs, arguments, empty⟩

/-- A call is a name with a parenthesis behind it. -/
private theorem called_iff {item : Item} {rest : List Item} :
    (item.isFunction && rest.head?.any opensGroup) = true ↔
      item.isFunction = true ∧ ∃ bracket behind, rest = bracket :: behind ∧ bracket.opensGroup = true := by
  cases rest <;> simp

/-- Grouping appends lists to the builder and does nothing else to it. -/
theorem regroup_ok {builder after : Builder} {items left : List Item}
    (h : builder.regroup items = .ok (left, after)) :
    ∃ news, after = builder.append news ∧
      Grouping builder.lists.size items left news := by
  fun_induction regroup builder items generalizing left with
  | case1 =>
    cases h
    exact ⟨[], rfl, .nil _⟩
  | case2 | case4 | case5 | case6 | case8 | case9 | case10 | case12 => cases h
  | case3 builder item rest opens inner close later taken span group left last ran =>
    rename_i ih
    cases h
    obtain ⟨closing, closes, rfl, rfl, balanced⟩ := takeGroup?_eq_some taken
    obtain ⟨news, rfl, grouping⟩ := ih ran
    refine ⟨(inner, span) :: news, rfl, .group _ span opens closes balanced ?_⟩
    simpa [addList] using grouping
  | case7 builder item rest _ called opening inner close later taken runs split numbers call left
      last ran =>
    rename_i ih
    cases h
    obtain ⟨isName, bracket, behind, rfl, opens⟩ := called_iff.mp called
    obtain ⟨closing, closes, rfl, (rfl : behind = _), balanced⟩ := takeGroup?_eq_some taken
    obtain ⟨news, rfl, grouping⟩ := ih ran
    rw [addLists_eq] at grouping ⊢
    refine ⟨runs.map (fun run => (run, Item.spanOf run)) ++ news, (append_append ..).symm, ?_⟩
    refine .call _ isName opens closes balanced (argumentRuns_ok balanced split) ?_
    simpa using grouping
  | case11 builder item rest notOpening notCall notComma notClosing left last ran ih =>
    cases h
    obtain ⟨news, rfl, grouping⟩ := ih ran
    refine ⟨news, rfl, .keep ?_ ?_ ?_ ?_ grouping⟩ <;> simp_all

/-- Where grouping fails, the items say why. -/
theorem regroup_stops {builder : Builder} {items : List Item} {error : CompileError}
    (h : builder.regroup items = .error error) : Stops items error.cause := by
  fun_induction regroup builder items with
  | case1 | case3 | case7 | case11 => cases h
  | case2 builder item rest opens failed =>
    cases h
    exact .unclosed (not_balanced_of_takeGroup? opens failed)
  | case4 builder item rest opens inner close after taken span other failed ih =>
    cases h
    obtain ⟨closing, closes, -, rfl, balanced⟩ := takeGroup?_eq_some taken
    exact .group opens closes balanced (ih failed)
  | case5 builder item rest _ called opening failed =>
    cases h
    obtain ⟨isName, bracket, behind, rfl, opens⟩ := called_iff.mp called
    refine .unclosed fun balanced => not_balanced_of_takeGroup? opens failed ?_
    rw [outline, List.map_cons, token_of_isFunction isName] at balanced
    exact balanced
  | case6 builder item rest _ called opening inner close after taken other failed =>
    cases h
    obtain ⟨isName, bracket, behind, rfl, opens⟩ := called_iff.mp called
    obtain ⟨closing, closes, -, (rfl : behind = _), balanced⟩ := takeGroup?_eq_some taken
    obtain ⟨cause, runs, arguments, empty⟩ := argumentRuns_error balanced failed
    rw [cause]
    exact .argument isName opens closes balanced arguments empty
  | case8 builder item rest _ called opening inner close after taken runs split other failed ih =>
    cases h
    obtain ⟨isName, bracket, behind, rfl, opens⟩ := called_iff.mp called
    obtain ⟨closing, closes, -, (rfl : behind = _), balanced⟩ := takeGroup?_eq_some taken
    exact .call isName opens closes balanced (argumentRuns_ok balanced split) (ih failed)
  | case9 builder item rest _ _ isComma =>
    cases h
    exact .comma isComma
  | case10 builder item rest notOpening _ _ closes =>
    cases h
    refine .unopened fun balanced => ?_
    rw [outline, List.map_cons, balanced_cons, if_neg notOpening, if_pos closes] at balanced
    exact Nat.lt_irrefl 0 balanced.1
  | case12 builder item rest notOpening notCall notComma notClosing other failed ih =>
    cases h
    refine .keep ?_ ?_ ?_ ?_ (ih failed) <;> simp_all

end Builder

namespace Item

theorem references_separated {runs : List (List Item)} {whole : List Item}
    (h : Separated (fun item : Item => item.isComma = true) runs whole) :
    references whole = runs.flatMap references := by
  induction h with
  | last run => simp
  | next run isComma _ ih => simp [ih, lists_of_isComma isComma]

theorem references_arguments {runs : List (List Item)} {inner : List Item}
    (h : Arguments runs inner) : references inner = runs.flatMap references := by
  rcases h with ⟨rfl, rfl⟩ | ⟨-, separated, -⟩
  · rfl
  · exact references_separated separated

namespace Grouping

variable {number : Nat} {items left : List Item} {news : List (List Item × Span)}

/-- Every list that the items needed is needed by what is left or in a new list, and every new list
is needed once. -/
theorem references_perm (h : Grouping number items left news) :
    (references left ++ news.flatMap (fun new => references new.1)).Perm
      (references items ++ List.range' number news.length) := by
  induction h with
  | nil => simp
  | @group number opening closing inner after items news text span opens closes _ _ ih =>
    rw [List.perm_iff_count] at ih ⊢
    intro list
    have := ih list
    simp only [references_cons, references_append, lists_of_opensGroup opens,
      lists_of_closesGroup closes, lists_group, List.flatMap_cons, List.length_cons, List.range'_succ,
      List.nil_append, List.count_append, List.count_cons, List.count_nil] at this ⊢
    omega
  | @call number name opening closing inner after items runs news span isName opens closes _ args _ ih =>
    have inRuns : (runs.map fun run => (run, spanOf run)).flatMap (fun new => references new.1) =
        references inner := by
      rw [List.flatMap_map]
      exact (references_arguments args).symm
    rw [List.perm_iff_count] at ih ⊢
    intro list
    have := ih list
    simp only [references_cons, references_append, lists_of_isFunction isName,
      lists_of_opensGroup opens, lists_of_closesGroup closes, lists_call, List.flatMap_append,
      inRuns, List.length_append, List.length_map,
      ← List.range'_append_1, List.nil_append, List.count_append] at this ⊢
    omega
  | keep _ _ _ _ _ ih => simpa [List.append_assoc] using ih.append_left _

/-- A new list has members of the old one only. -/
theorem mem_of_mem_new (h : Grouping number items left news) :
    ∀ new ∈ news, ∀ item ∈ new.1, item ∈ items := by
  induction h with
  | nil => simp
  | group text span _ _ _ _ ih =>
    simp only [List.forall_mem_cons]
    refine ⟨fun item mem => by simp [mem], fun new mem item inside => ?_⟩
    simp [ih new mem item inside]
  | @call number name opening closing inner after items runs news span _ _ _ _ args _ ih =>
    intro new mem item inside
    rcases List.mem_append.mp mem with mem | mem
    · obtain ⟨run, isRun, rfl⟩ := List.mem_map.mp mem
      have : item ∈ inner := by
        rcases args with ⟨rfl, rfl⟩ | ⟨-, separated, -⟩
        · simp at isRun
        · exact separated.mem_of_mem isRun inside
      simp [this]
    · simp [ih new mem item inside]
  | keep _ _ _ _ _ ih => exact fun new mem item inside => List.mem_cons_of_mem _ (ih new mem item inside)

/-- What is left has lexemes of the old list only. -/
theorem mem_of_lexeme_mem_left (h : Grouping number items left news) {lexeme : Lexeme}
    (mem : .lexeme lexeme ∈ left) : .lexeme lexeme ∈ items := by
  induction h with
  | nil => exact mem
  | group _ _ _ _ _ _ ih | call _ _ _ _ _ _ _ ih =>
    simp only [List.mem_cons, reduceCtorEq, false_or] at mem
    simp [ih mem]
  | keep _ _ _ _ _ ih =>
    rcases List.mem_cons.mp mem with rfl | mem
    · exact List.mem_cons_self
    · exact List.mem_cons_of_mem _ (ih mem)

end Grouping

end Item

end Reckoner

import Mathlib.Data.List.TakeWhile
import Reckoner.Lexeme.Classify
import Reckoner.Proofs.Lexeme.Finding
import Reckoner.Proofs.Numeral.Literal
import Reckoner.Proofs.Strict.Computation

/-!
Lexemes with every index looked at: the texts that grow until no lexeme goes on with them are read off the source
between two places, as many characters are left as a lexeme takes, and its place reads back as text of the source;
and whoever looks at the neighbours of a lexeme finds it in the list.
-/
namespace Reckoner

namespace Lexeme

/-- A lexeme takes no more characters than there are. -/
theorem more_le_of_front {c : Char} {cs : List Char} {found : Front} (h : front c cs = .ok found) :
    found.more ≤ cs.length := by
  cases finds_of_front h with
  | symbol longest =>
    have whole := longest.front.length_le
    simp only [String.length_toList, List.length_cons] at whole
    exact Nat.sub_le_of_le_add whole
  | identifier => exact (List.takeWhile_prefix _).length_le
  | text _ _ _ closed => exact closed
  | numeral => exact Nat.sub_le_of_le_add (Numeral.lengthAtFront_le _)

/-- What cannot be read takes no more characters than there are. -/
theorem length_le_of_front {c : Char} {cs : List Char} {fault : Fault} (h : front c cs = .error fault) :
    fault.length ≤ cs.length + 1 := by
  cases finds_of_front h with
  | unterminated => exact Nat.le_refl _
  | misread => exact Numeral.lengthAtFront_le _
  | nothing => exact Nat.le_add_left 1 _

end Lexeme

namespace Strict

open Lexeme

/-- The text between two places among characters that begin at a byte of the source. -/
def slice (source : String) (offset : Nat) (cs : List Char) (start stop : Nat) : Strict ε String :=
  need (Span.text? ⟨offset + Span.bytes (cs.take start), offset + Span.bytes (cs.take stop)⟩ source)

section Scanners

variable (source : String) (offset : Nat) (cs : List Char)

/-- Where the longest symbol ends. `best` is where the longest one so far ends, `stop` how far has been read. -/
def growSymbol (stop : Nat) (best : Option Nat) : Strict Fault (Option Nat) := do
  if _h : stop < cs.length then
    let text ← slice source offset cs 0 (stop + 1)
    let found := Operator.matchesOf text.toList
    match found.count, found.whole with
    | 0, _ => return best
    | 1, true => return some (stop + 1)
    | _, true => growSymbol (stop + 1) (some (stop + 1))
    | _, false => growSymbol (stop + 1) best
  else return best
termination_by cs.length - stop

/-- Where the longest numeral ends. `best` is where the longest one so far ends, `stop` how far has been read. -/
def growNumeral (stop : Nat) (best : Nat) : Strict Fault Nat := do
  if _h : stop < cs.length then
    let text := (← slice source offset cs 0 (stop + 1)).toList
    if Numeral.isBeginning text then
      growNumeral (stop + 1) (if Numeral.isInteger text || Numeral.isNumeral text then stop + 1 else best)
    else return best
  else return best
termination_by cs.length - stop

/-- Where the next character stands that fails a test. -/
def skip (test : Char → Bool) (stop : Nat) : Nat :=
  if h : stop < cs.length then
    if test cs[stop] then skip test (stop + 1) else stop
  else stop
termination_by cs.length - stop

/-- Where the next double quote stands. -/
def findQuote (place : Nat) : Strict Fault (Option Nat) := do
  if _h : place < cs.length then
    let c ← need cs[place]?
    if c == '"' then return some place else findQuote (place + 1)
  else return none
termination_by cs.length - place

/-- The operator whose symbol ends at a place. -/
def readSymbol (stop : Nat) : Strict Fault Front := do
  within (0 < stop)
  lift (operatorAtFront (← slice source offset cs 0 stop).toList)

/-- The identifier at the front. -/
def readWord : Strict Fault Front := do
  let stop := skip cs Identifier.isContinue 1
  within (0 < stop)
  return ⟨wordKind (← slice source offset cs 0 stop), stop - 1⟩

/-- The text behind the double quote at the front. -/
def readString : Strict Fault Front := do
  match ← findQuote cs 1 with
  | some close => return ⟨.constant (.string (← slice source offset cs 1 close)), close⟩
  | none => throw ⟨.unterminatedString, cs.length⟩

/-- The longest numeral at the front. -/
def readNumeral : Strict Fault Front := do
  let stop ← growNumeral source offset cs 0 0
  within (0 < stop)
  match numeralValue (← slice source offset cs 0 stop).toList with
  | .ok value => return ⟨.constant value, stop - 1⟩
  | .error cause => throw ⟨cause, stop⟩

/-- The lexeme at the front, where every text that it is found by is read off the source. -/
def front (c : Char) : Strict Fault Front := do
  match ← growSymbol source offset cs 0 none with
  | some stop => readSymbol source offset cs stop
  | none =>
    if Identifier.isStart c then readWord source offset cs
    else if c == '"' then readString source offset cs
    else if c.isDigit then readNumeral source offset cs
    else throw ⟨.unexpectedCharacter c, 1⟩

end Scanners

/-- The lexemes of characters, with their texts read off the source. -/
def scan (source : String) (offset position : Nat) : List Char → Strict CompileError (List Lexeme)
  | [] => return []
  | c :: cs =>
    if isGap c then scan source (offset + c.utf8Size) position cs
    else do
      match ← need (front source offset (c :: cs) c).run with
      | .error fault =>
        within (fault.length ≤ (c :: cs).length)
        let stop := offset + Span.bytes ((c :: cs).take fault.length)
        throw (fault.cause.atSpan ⟨offset, stop⟩)
      | .ok found =>
        within (found.more ≤ cs.length)
        let stop := offset + Span.bytes (c :: cs.take found.more)
        let text ← need (Span.text? ⟨offset, stop⟩ source)
        let rest ← scan source stop (position + 1) (cs.drop found.more)
        return ⟨text, ⟨offset, stop⟩, position, found.kind⟩ :: rest
termination_by cs => cs.length
decreasing_by all_goals simp only [List.length_cons, List.length_drop]; omega

/-- The lexemes of a source. -/
def tokenize (source : String) : Strict CompileError (List Lexeme) :=
  scan source 0 0 (sourceChars source)

/-- A part of the source reads back as its characters. -/
theorem text?_of_split {source : String} {before text after : List Char}
    (split : source.toList = before ++ text ++ after) :
    Span.text? ⟨Span.bytes before, Span.bytes before + Span.bytes text⟩ source =
      some (String.ofList text) := by
  have rest := Span.splitAt?_bytes before (text ++ after)
  have taken := Span.splitAt?_bytes text after
  rw [← List.append_assoc, ← split] at rest
  simp [Span.text?, Span.chars?, rest, taken]

section Scanners

variable {source : String} {before after cs seen rest : List Char} {c : Char}

/-- What stands between two places is read off the source. -/
private theorem slice_eq (split : source.toList = before ++ cs ++ after) {start stop : Nat} (ordered : start ≤ stop) :
    (slice source (Span.bytes before) cs start stop : Strict ε String) =
      pure (String.ofList ((cs.take stop).drop start)) := by
  have front : (cs.take stop).take start = cs.take start := by
    rw [List.take_take, Nat.min_eq_left ordered]
  have parts : cs.take start ++ (cs.take stop).drop start = cs.take stop := by
    rw [← front, List.take_append_drop]
  have whole : source.toList =
      (before ++ cs.take start) ++ (cs.take stop).drop start ++ (cs.drop stop ++ after) := by
    rw [List.append_assoc before, parts, split, List.append_assoc, List.append_assoc, ← List.append_assoc (cs.take stop),
      List.take_append_drop]
  have text := text?_of_split whole
  rw [← Span.bytes_append, List.append_assoc, parts, Span.bytes_append, Span.bytes_append] at text
  rw [slice, text, need_some]

private theorem slice_front (split : source.toList = before ++ cs ++ after) (stop : Nat) :
    (slice source (Span.bytes before) cs 0 stop : Strict ε String) = pure (String.ofList (cs.take stop)) :=
  slice_eq split (Nat.zero_le stop)

/-- Where the next character stands, what has been read ends before it and goes on behind it. -/
private theorem next_place (whole : seen ++ c :: rest = cs) :
    seen.length < cs.length ∧ cs[seen.length]? = some c ∧ cs.take (seen.length + 1) = seen ++ [c] ∧
      (seen ++ [c]) ++ rest = cs ∧ (seen ++ [c]).length = seen.length + 1 := by
  subst whole
  refine ⟨by simp, by simp, ?_, by simp, by simp⟩
  rw [List.take_length_add_append, List.take_succ_cons, List.take_zero]

private theorem growSymbol_eq (split : source.toList = before ++ cs ++ after) (whole : seen ++ rest = cs)
    (best : Option Nat) :
    growSymbol source (Span.bytes before) cs seen.length best = pure (Operator.grow seen best rest) := by
  induction rest generalizing seen best with
  | nil =>
    rw [growSymbol, dif_neg (by simp [← whole])]
    rfl
  | cons c rest ih =>
    obtain ⟨inside, -, text, goesOn, length⟩ := next_place whole
    have later := ih goesOn
    rw [length] at later
    rw [growSymbol, dif_pos inside, slice_front split, text, pure_bind, Operator.grow, length]
    simp only [String.toList_ofList, later]
    generalize Operator.matchesOf (seen ++ [c]) = found
    rcases found with ⟨_ | _ | _, _ | _⟩ <;> rfl

private theorem growNumeral_eq (split : source.toList = before ++ cs ++ after) (whole : seen ++ rest = cs)
    (best : Option Nat) :
    growNumeral source (Span.bytes before) cs seen.length (best.getD 0) =
      pure ((Numeral.grow seen best rest).getD 0) := by
  induction rest generalizing seen best with
  | nil =>
    rw [growNumeral, dif_neg (by simp [← whole])]
    rfl
  | cons c rest ih =>
    obtain ⟨inside, -, text, goesOn, length⟩ := next_place whole
    have later := ih goesOn
    rw [length] at later
    rw [growNumeral, dif_pos inside, slice_front split, text, pure_bind, Numeral.grow, length]
    simp only [String.toList_ofList]
    split
    · rw [← later]
      split <;> rfl
    · rfl

private theorem skip_eq (test : Char → Bool) (whole : seen ++ rest = cs) :
    skip cs test seen.length = seen.length + (rest.takeWhile test).length := by
  induction rest generalizing seen with
  | nil =>
    rw [skip, dif_neg (by simp [← whole])]
    rfl
  | cons c rest ih =>
    obtain ⟨inside, here, -, goesOn, length⟩ := next_place whole
    have later := ih goesOn
    rw [length] at later
    rw [skip, dif_pos inside, (List.getElem?_eq_some_iff.mp here).2, List.takeWhile_cons, later]
    split
    · rw [List.length_cons, Nat.add_assoc, Nat.add_comm 1]
    · rfl

private theorem findQuote_eq (whole : seen ++ rest = cs) :
    findQuote cs seen.length =
      pure (if (rest.takeWhile (· != '"')).length < rest.length then
        some (seen.length + (rest.takeWhile (· != '"')).length) else none) := by
  induction rest generalizing seen with
  | nil =>
    rw [findQuote, dif_neg (by simp [← whole])]
    rfl
  | cons c rest ih =>
    obtain ⟨inside, here, -, goesOn, length⟩ := next_place whole
    have later := ih goesOn
    rw [length] at later
    rw [findQuote, dif_pos inside, here, need_some, pure_bind, later]
    by_cases quote : (c == '"') = true
    · obtain rfl := eq_of_beq quote
      rfl
    · have other : (c != '"') = true := by simpa using quote
      simp only [quote, Bool.false_eq_true, if_false, List.takeWhile_cons, other, if_true, List.length_cons,
        Nat.add_lt_add_iff_right, Nat.add_assoc, Nat.add_comm 1]

private theorem readSymbol_eq (split : source.toList = before ++ cs ++ after) {stop : Nat}
    (found : Operator.lengthAtFront? cs = some stop) :
    readSymbol source (Span.bytes before) cs stop = lift (operatorAtFront (cs.take stop)) := by
  have positive : 0 < stop := by
    have longest := Operator.longestLength_lengthAtFront? cs
    rw [found] at longest
    have nonempty : cs.take stop ≠ [] := by
      intro empty
      have here := longest.longest.1.here
      rw [empty] at here
      exact Symbol.not_nil here
    exact Nat.pos_of_ne_zero fun zero => nonempty (by rw [zero, List.take_zero])
  rw [readSymbol, within_eq positive, slice_front split]
  simp only [pure_bind, String.toList_ofList]

private theorem readWord_eq (split : source.toList = before ++ (c :: cs) ++ after) :
    readWord source (Span.bytes before) (c :: cs) = pure (identifierAtFront c cs) := by
  have stop : skip (c :: cs) Identifier.isContinue 1 = (cs.takeWhile Identifier.isContinue).length + 1 := by
    rw [Nat.add_comm]
    exact @skip_eq _ [c] cs _ rfl
  have text : cs.take (cs.takeWhile Identifier.isContinue).length = cs.takeWhile Identifier.isContinue :=
    (List.prefix_iff_eq_take.mp (List.takeWhile_prefix _)).symm
  rw [readWord, stop, slice_front split, List.take_succ_cons, text]
  rfl

private theorem readString_eq (split : source.toList = before ++ ('"' :: cs) ++ after) :
    readString source (Span.bytes before) ('"' :: cs) = lift (stringAtFront cs) := by
  have close := @findQuote_eq _ ['"'] cs rfl
  have text : cs.take (cs.takeWhile (· != '"')).length = cs.takeWhile (· != '"') :=
    (List.prefix_iff_eq_take.mp (List.takeWhile_prefix _)).symm
  rw [List.singleton_append, List.length_singleton, Nat.add_comm 1] at close
  rw [readString, close, pure_bind, stringAtFront]
  by_cases closed : (cs.takeWhile (· != '"')).length < cs.length
  · simp only [if_pos closed]
    rw [slice_eq split (Nat.le_add_left 1 _), List.take_succ_cons, text]
    rfl
  · simp only [if_neg closed]
    rfl

private theorem readNumeral_eq (split : source.toList = before ++ (c :: cs) ++ after) (digit : c.isDigit = true) :
    readNumeral source (Span.bytes before) (c :: cs) = lift (numeralAtFront (c :: cs)) := by
  have stop : growNumeral source (Span.bytes before) (c :: cs) 0 0 = pure (Numeral.lengthAtFront (c :: cs)) :=
    @growNumeral_eq _ _ _ _ [] _ split rfl none
  rw [readNumeral, stop, pure_bind, within_eq (Numeral.longest_digit digit cs).1, slice_front split,
    numeralAtFront]
  simp only [pure_bind, String.toList_ofList]
  cases numeralValue ((c :: cs).take (Numeral.lengthAtFront (c :: cs))) <;> rfl

/-- The lexeme at the front is found without a place that is out of range. -/
private theorem front_eq (split : source.toList = before ++ (c :: cs) ++ after) :
    front source (Span.bytes before) (c :: cs) c = lift (Lexeme.front c cs) := by
  have stop : growSymbol source (Span.bytes before) (c :: cs) 0 none =
      pure (Operator.lengthAtFront? (c :: cs)) := @growSymbol_eq _ _ _ _ [] _ split rfl none
  rw [front, stop, pure_bind, Lexeme.front]
  cases found : Operator.lengthAtFront? (c :: cs) with
  | some stop => exact readSymbol_eq split found
  | none =>
    by_cases start : Identifier.isStart c = true
    · simp only [if_pos start]
      exact readWord_eq split
    by_cases quote : (c == '"') = true
    · obtain rfl := eq_of_beq quote
      exact readString_eq split
    by_cases digit : c.isDigit = true
    · simp only [if_neg start, if_neg quote, if_pos digit]
      exact readNumeral_eq split digit
    · simp only [if_neg start, if_neg quote, if_neg digit]
      rfl

end Scanners

/-- A lexeme is read off the source, and the next ones follow. -/
private theorem scan_front {source : String} {before cs after : List Char} {c : Char} {found : Front}
    (position : Nat) (notGap : ¬ isGap c = true) (isFront : Lexeme.front c cs = .ok found)
    (split : source.toList = before ++ (c :: cs) ++ after) :
    scan source (Span.bytes before) position (c :: cs) =
      let text := c :: cs.take found.more
      let stop := Span.bytes before + Span.bytes text
      scan source stop (position + 1) (cs.drop found.more) >>= fun rest =>
        pure (⟨String.ofList text, ⟨Span.bytes before, stop⟩, position, found.kind⟩ :: rest) := by
  have inside := more_le_of_front isFront
  have whole : source.toList = before ++ (c :: cs.take found.more) ++ (cs.drop found.more ++ after) := by
    rw [split, List.append_assoc, List.append_assoc, List.cons_append, List.cons_append,
      ← List.append_assoc (cs.take found.more), List.take_append_drop]
  rw [scan, if_neg notGap, front_eq split, isFront]
  change (within (found.more ≤ cs.length) >>= fun _ => _) = _
  simp only [within_eq inside, pure_bind, text?_of_split whole, need_some]

theorem scan_eq {source : String} {before cs after : List Char} (position : Nat)
    (split : source.toList = before ++ cs ++ after) :
    scan source (Span.bytes before) position cs = lift (Lexeme.scan (Span.bytes before) position cs) := by
  generalize start : Span.bytes before = offset
  fun_induction Lexeme.scan offset position cs generalizing before with
  | case1 =>
    rw [scan]
    rfl
  | case2 offset position c cs gap ih =>
    rw [scan, if_pos gap]
    apply @ih (before ++ [c])
    · simp [split]
    · rw [Span.bytes_append, start]
      simp [Span.bytes]
  | case3 offset position c cs notGap fault failed =>
    have inside : fault.length ≤ (c :: cs).length := length_le_of_front failed
    subst start
    rw [scan, if_neg notGap, front_eq split, failed]
    change (within (fault.length ≤ (c :: cs).length) >>= fun _ => _) = _
    rw [within_eq inside]
    rfl
  | case4 offset position c cs notGap found isFront text stop lexeme rest ran =>
    rename_i ih
    subst start
    rw [scan_front position notGap isFront split]
    simp only
    rw [@ih (before ++ text) (by simp [split, text, List.take_append_drop]) (Span.bytes_append ..), ran]
    rfl
  | case5 offset position c cs notGap found isFront text stop error failed =>
    rename_i ih
    subst start
    rw [scan_front position notGap isFront split]
    simp only
    rw [@ih (before ++ text) (by simp [split, text, List.take_append_drop]) (Span.bytes_append ..), failed]
    rfl

/-- Reading the lexemes of a source uses no index that is out of range. -/
theorem tokenize_eq (source : String) : tokenize source = lift (Lexeme.tokenize source) := by
  have split : source.toList =
      [] ++ sourceChars source ++ source.toList.dropWhile (· != '\x00') := by
    simp [sourceChars]
  exact scan_eq 0 split

end Strict

end Reckoner

import Reckoner.Decimal.Reading
import Reckoner.Proofs.Longest
import Reckoner.Proofs.Numeral.Automaton

/-!
The grammar of numerals: digits with a sign in front of them or none, then a point, digits behind the point, a power
of ten. The tests on texts recognize exactly these, growing a text finds the longest one at the front of others, and
every one of them has a value as a floating-point number.
-/
namespace Reckoner.Numeral

/-- One or more digits. -/
def Digits (cs : List Char) : Prop :=
  cs ≠ [] ∧ ∀ c ∈ cs, c.isDigit = true

/-- A plus, a minus or nothing. -/
inductive Sign : List Char → Prop where
  | none : Sign []
  | plus : Sign ['+']
  | minus : Sign ['-']

/-- Digits, with a sign or without. -/
inductive Whole : List Char → Prop where
  | mk {sign digits : List Char} : Sign sign → Digits digits → Whole (sign ++ digits)

/-- A number with digits on both sides of the point, or without a point. -/
inductive Mantissa : List Char → Prop where
  | whole {cs : List Char} : Whole cs → Mantissa cs
  | fraction {whole digits : List Char} : Whole whole → Digits digits → Mantissa (whole ++ '.' :: digits)

/-- The letter in front of a power of ten. -/
inductive Mark : Char → Prop where
  | lower : Mark 'e'
  | upper : Mark 'E'

/-- A numeral. A bare point ends it. -/
inductive Literal : List Char → Prop where
  | mantissa {cs : List Char} : Mantissa cs → Literal cs
  | point {cs : List Char} : Whole cs → Literal (cs ++ ['.'])
  | power {cs power : List Char} {mark : Char} : Mantissa cs → Mark mark → Whole power →
      Literal (cs ++ mark :: power)

/-- What has been read when the automaton is in a state. -/
def State.Amounts : State → List Char → Prop
  | .start, cs => cs = []
  | .sign, cs => Sign cs ∧ cs ≠ []
  | .whole, cs => Whole cs
  | .point, cs => ∃ whole, Whole whole ∧ cs = whole ++ ['.']
  | .fraction, cs => ∃ whole digits, Whole whole ∧ Digits digits ∧ cs = whole ++ '.' :: digits
  | .mark, cs => ∃ number mark, Mantissa number ∧ Mark mark ∧ cs = number ++ [mark]
  | .powerSign, cs => ∃ number mark sign, Mantissa number ∧ Mark mark ∧ Sign sign ∧ sign ≠ [] ∧
      cs = number ++ mark :: sign
  | .power, cs => ∃ number mark power, Mantissa number ∧ Mark mark ∧ Whole power ∧
      cs = number ++ mark :: power

variable {cs digits rest : List Char} {c : Char} {state next : State}

theorem Digits.singleton (h : c.isDigit = true) : Digits [c] :=
  ⟨by simp, by simpa using h⟩

theorem Digits.concat (h : Digits digits) (digit : c.isDigit = true) : Digits (digits ++ [c]) := by
  refine ⟨by simp, ?_⟩
  intro other mem
  rcases List.mem_append.mp mem with inside | last
  · exact h.2 other inside
  · rw [List.mem_singleton.mp last]
    exact digit

theorem Whole.concat (h : Whole cs) (digit : c.isDigit = true) : Whole (cs ++ [c]) := by
  obtain ⟨sign, digits⟩ := h
  rw [List.append_assoc]
  exact .mk sign (digits.concat digit)

/-- The automaton goes on with the characters of numerals only. -/
private theorem State.kind_of_step (stepped : state.step c = some next) :
    c.isDigit = true ∨ Sign [c] ∨ c = '.' ∨ Mark c := by
  unfold State.step at stepped
  split at stepped
  · next isDigit => exact .inl isDigit
  split at stepped
  · next sign =>
    refine .inr (.inl ?_)
    rcases isSign_iff.mp sign with rfl | rfl
    · exact .plus
    · exact .minus
  split at stepped
  · next isPoint => exact .inr (.inr (.inl (eq_of_beq isPoint)))
  split at stepped
  · next mark =>
    refine .inr (.inr (.inr ?_))
    rcases isMark_iff.mp mark with rfl | rfl
    · exact .lower
    · exact .upper
  · cases stepped

namespace State.Amounts

private theorem digit (h : state.Amounts cs) (isDigit : c.isDigit = true) (stepped : state.step c = some next) :
    next.Amounts (cs ++ [c]) := by
  unfold State.step at stepped
  rw [if_pos isDigit] at stepped
  cases state with
  | start =>
    cases stepped
    obtain rfl : cs = [] := h
    exact .mk .none (.singleton isDigit)
  | sign =>
    cases stepped
    exact .mk h.1 (.singleton isDigit)
  | whole =>
    cases stepped
    exact Whole.concat h isDigit
  | point =>
    cases stepped
    obtain ⟨whole, isWhole, rfl⟩ := h
    exact ⟨whole, [c], isWhole, .singleton isDigit, by simp⟩
  | fraction =>
    cases stepped
    obtain ⟨whole, digits, isWhole, isDigits, rfl⟩ := h
    exact ⟨whole, digits ++ [c], isWhole, isDigits.concat isDigit, by simp⟩
  | mark =>
    cases stepped
    obtain ⟨number, mark, isNumber, isMark, rfl⟩ := h
    exact ⟨number, mark, [c], isNumber, isMark, .mk .none (.singleton isDigit), by simp⟩
  | powerSign =>
    cases stepped
    obtain ⟨number, mark, sign, isNumber, isMark, isSign, -, rfl⟩ := h
    exact ⟨number, mark, sign ++ [c], isNumber, isMark, .mk isSign (.singleton isDigit), by simp⟩
  | power =>
    cases stepped
    obtain ⟨number, mark, power, isNumber, isMark, isPower, rfl⟩ := h
    exact ⟨number, mark, power ++ [c], isNumber, isMark, isPower.concat isDigit, by simp⟩

private theorem sign (h : state.Amounts cs) (isSign : Sign [c]) (stepped : state.step c = some next) :
    next.Amounts (cs ++ [c]) := by
  have moved : state = .start ∧ next = .sign ∨ state = .mark ∧ next = .powerSign := by
    cases isSign <;> cases state <;> cases stepped <;> simp
  rcases moved with ⟨rfl, rfl⟩ | ⟨rfl, rfl⟩
  · obtain rfl : cs = [] := h
    exact ⟨isSign, by simp⟩
  · obtain ⟨number, mark, isNumber, isMark, rfl⟩ := h
    exact ⟨number, mark, [c], isNumber, isMark, isSign, by simp, by simp⟩

private theorem point (h : state.Amounts cs) (stepped : state.step '.' = some next) :
    next.Amounts (cs ++ ['.']) := by
  cases state with
  | whole =>
    cases stepped
    exact ⟨cs, h, rfl⟩
  | _ => cases stepped

private theorem mark (h : state.Amounts cs) (isMark : Mark c) (stepped : state.step c = some next) :
    next.Amounts (cs ++ [c]) := by
  have moved : (state = .whole ∨ state = .fraction) ∧ next = .mark := by
    cases isMark <;> cases state <;> cases stepped <;> simp
  rcases moved with ⟨rfl | rfl, rfl⟩
  · exact ⟨cs, c, .whole h, isMark, rfl⟩
  · obtain ⟨whole, digits, isWhole, isDigits, rfl⟩ := h
    exact ⟨_, c, .fraction isWhole isDigits, isMark, rfl⟩

/-- One more character keeps what the state says about the characters read. -/
private theorem step (h : state.Amounts cs) (stepped : state.step c = some next) :
    next.Amounts (cs ++ [c]) := by
  rcases kind_of_step stepped with isDigit | isSign | rfl | isMark
  · exact h.digit isDigit stepped
  · exact h.sign isSign stepped
  · exact h.point stepped
  · exact h.mark isMark stepped

end State.Amounts

theorem State.run_append (state : State) (first second : List Char) :
    state.run (first ++ second) = (state.run first).bind (·.run second) :=
  List.foldlM_append

theorem State.run_cons (state : State) (c : Char) (cs : List Char) :
    state.run (c :: cs) = (state.step c).bind (·.run cs) :=
  rfl

/-- The state says about a whole run what has been read. -/
theorem State.amounts_of_run (h : State.start.run cs = some state) : state.Amounts cs := by
  induction cs using List.reverseRecOn generalizing state with
  | nil =>
    cases h
    rfl
  | append_singleton cs c ih =>
    rw [State.run_append] at h
    obtain ⟨between, ran, stepped⟩ := Option.bind_eq_some_iff.mp h
    rw [State.run_cons] at stepped
    obtain ⟨last, stepped, same⟩ := Option.bind_eq_some_iff.mp stepped
    cases same
    exact (ih ran).step stepped

/-- Digits lead from a state to the one that they keep. -/
private theorem State.run_digits (h : Digits digits)
    (enter : ∀ c : Char, c.isDigit = true → state.step c = some next)
    (loop : ∀ c : Char, c.isDigit = true → next.step c = some next) : state.run digits = some next := by
  obtain ⟨nonempty, all⟩ := h
  cases digits with
  | nil => exact absurd rfl nonempty
  | cons first rest =>
    obtain ⟨digit, later⟩ := List.forall_mem_cons.mp all
    rw [State.run_cons, enter first digit, Option.bind_some]
    clear nonempty all
    induction rest with
    | nil => rfl
    | cons c rest ih =>
      obtain ⟨digit, later⟩ := List.forall_mem_cons.mp later
      rw [State.run_cons, loop c digit, Option.bind_some]
      exact ih later

theorem State.run_whole (h : Whole cs) : State.start.run cs = some .whole := by
  obtain ⟨sign, digits⟩ := h
  have behind : ∀ state : State, (∀ c : Char, c.isDigit = true → state.step c = some .whole) →
      state.run _ = some .whole :=
    fun state enter => State.run_digits digits enter fun c digit => by simp [State.step, digit]
  cases sign with
  | none => exact behind .start fun c digit => by simp [State.step, digit]
  | plus | minus => exact behind .sign fun c digit => by simp [State.step, digit]

private theorem State.run_power (h : Whole cs) : State.mark.run cs = some .power := by
  obtain ⟨sign, digits⟩ := h
  have behind : ∀ state : State, (∀ c : Char, c.isDigit = true → state.step c = some .power) →
      state.run _ = some .power :=
    fun state enter => State.run_digits digits enter fun c digit => by simp [State.step, digit]
  cases sign with
  | none => exact behind .mark fun c digit => by simp [State.step, digit]
  | plus | minus => exact behind .powerSign fun c digit => by simp [State.step, digit]

private theorem State.run_fraction {whole : List Char} (isWhole : Whole whole) (isDigits : Digits digits) :
    State.start.run (whole ++ '.' :: digits) = some .fraction := by
  have behind : State.point.run digits = some .fraction :=
    State.run_digits isDigits (fun c digit => by simp [State.step, digit])
      fun c digit => by simp [State.step, digit]
  rw [State.run_append, State.run_whole isWhole]
  exact behind

/-- The automaton accepts the texts of the grammar. -/
private theorem accepts_iff : (State.start.run cs).any State.accepts = true ↔ Literal cs := by
  constructor
  · intro h
    cases ran : State.start.run cs with
    | none =>
      rw [ran] at h
      cases h
    | some state =>
      rw [ran] at h
      have amounts := State.amounts_of_run ran
      cases state with
      | whole => exact .mantissa (.whole amounts)
      | point =>
        obtain ⟨whole, isWhole, rfl⟩ := amounts
        exact .point isWhole
      | fraction =>
        obtain ⟨whole, digits, isWhole, isDigits, rfl⟩ := amounts
        exact .mantissa (.fraction isWhole isDigits)
      | power =>
        obtain ⟨number, mark, power, isNumber, isMark, isPower, rfl⟩ := amounts
        exact .power isNumber isMark isPower
      | start | sign | mark | powerSign => cases h
  · intro h
    cases h with
    | mantissa mantissa =>
      cases mantissa with
      | whole isWhole => rw [State.run_whole isWhole]; rfl
      | fraction isWhole isDigits => rw [State.run_fraction isWhole isDigits]; rfl
    | point isWhole =>
      rw [State.run_append, State.run_whole isWhole]
      rfl
    | @power number power mark mantissa isMark isPower =>
      have behind : ∀ state : State, State.start.run number = some state →
          state.step mark = some .mark →
          (State.start.run (number ++ mark :: power)).any State.accepts = true := by
        intro state ran stepped
        rw [State.run_append, ran, Option.bind_some, State.run_cons, stepped, Option.bind_some,
          State.run_power isPower]
        rfl
      cases mantissa with
      | whole isWhole => exact behind .whole (State.run_whole isWhole) (by cases isMark <;> rfl)
      | fraction isWhole isDigits =>
        exact behind .fraction (State.run_fraction isWhole isDigits) (by cases isMark <;> rfl)

/-- From every state some characters lead on to a numeral. -/
private theorem State.exists_run (state : State) :
    ∃ rest final, state.run rest = some final ∧ final.accepts = true := by
  cases state with
  | whole | point | fraction | power => exact ⟨[], _, rfl, rfl⟩
  | start | sign | mark | powerSign => exact ⟨['0'], _, rfl, rfl⟩

/-- What can still grow into a numeral is the beginning of one. -/
theorem isBeginning_iff : isBeginning cs = true ↔ ∃ rest, Literal (cs ++ rest) := by
  rw [isBeginning_eq]
  constructor
  · intro h
    obtain ⟨state, ran⟩ := Option.isSome_iff_exists.mp h
    obtain ⟨rest, final, goesOn, accepts⟩ := state.exists_run
    refine ⟨rest, accepts_iff.mp ?_⟩
    rw [State.run_append, ran, Option.bind_some, goesOn]
    exact accepts
  · rintro ⟨rest, literal⟩
    have accepted := accepts_iff.mpr literal
    rw [State.run_append] at accepted
    cases ran : State.start.run cs with
    | none =>
      rw [ran] at accepted
      cases accepted
    | some state => rfl

section Tests

theorem Sign.isSign (h : Sign [c]) : Numeral.isSign c = true := by
  cases h <;> rfl

theorem Mark.isMark (h : Mark c) : Numeral.isMark c = true := by
  cases h <;> rfl

/-- A sign is taken away from digits, and what is behind these stays. -/
private theorem Whole.unsigned (h : Whole cs) (rest : List Char) : ∃ sign digits, Sign sign ∧ Digits digits ∧
    cs = sign ++ digits ∧ Numeral.unsigned (cs ++ rest) = digits ++ rest := by
  obtain ⟨isSign, isDigits⟩ := h
  refine ⟨_, _, isSign, isDigits, rfl, ?_⟩
  cases isSign with
  | plus | minus => rfl
  | none =>
    obtain ⟨c, more, rfl⟩ := List.exists_cons_of_ne_nil isDigits.1
    have digit := not_sign_of_digit (isDigits.2 c List.mem_cons_self)
    simp [Numeral.unsigned, digit]

theorem isInteger_iff : isInteger cs = true ↔ Whole cs := by
  simp only [isInteger, Bool.and_eq_true, Bool.not_eq_true', List.isEmpty_eq_false_iff, List.all_eq_true]
  constructor
  · intro digits
    cases cs with
    | nil => exact absurd rfl digits.1
    | cons c cs =>
      simp only [unsigned] at digits
      split at digits
      · next sign =>
        rcases isSign_iff.mp sign with rfl | rfl
        · exact .mk .plus digits
        · exact .mk .minus digits
      · exact .mk .none digits
  · intro h
    obtain ⟨sign, digits, -, isDigits, -, same⟩ := h.unsigned []
    rw [List.append_nil, List.append_nil] at same
    rw [same]
    exact isDigits

/-- A numeral begins with digits. -/
theorem Literal.exists_whole (h : Literal cs) : ∃ whole rest, Whole whole ∧ cs = whole ++ rest := by
  have ofMantissa : ∀ {number}, Mantissa number → ∃ whole rest, Whole whole ∧ number = whole ++ rest := by
    intro number mantissa
    cases mantissa with
    | whole isWhole => exact ⟨_, [], isWhole, by simp⟩
    | fraction isWhole _ => exact ⟨_, _, isWhole, rfl⟩
  cases h with
  | mantissa mantissa => exact ofMantissa mantissa
  | point isWhole => exact ⟨_, _, isWhole, rfl⟩
  | power mantissa _ _ =>
    obtain ⟨whole, rest, isWhole, rfl⟩ := ofMantissa mantissa
    exact ⟨whole, _, isWhole, List.append_assoc ..⟩

private theorem Digits.getLast? (h : Digits digits) (front : List Char) :
    ∃ c ∈ (front ++ digits).getLast?, c.isDigit = true := by
  rw [List.getLast?_append_of_ne_nil _ h.1, List.getLast?_eq_some_getLast h.1]
  exact ⟨_, rfl, h.2 _ (List.getLast_mem h.1)⟩

/-- A numeral ends with a digit or a point. -/
private theorem Literal.getLast? (h : Literal cs) : ∃ c ∈ cs.getLast?, c.isDigit = true ∨ c = '.' := by
  have ofWhole : ∀ {front whole}, Whole whole → ∃ c ∈ (front ++ whole).getLast?, c.isDigit = true ∨ c = '.' := by
    rintro front _ ⟨-, isDigits⟩
    rw [← List.append_assoc]
    obtain ⟨c, last, digit⟩ := isDigits.getLast? _
    exact ⟨c, last, .inl digit⟩
  cases h with
  | mantissa mantissa =>
    cases mantissa with
    | whole isWhole => simpa using @ofWhole [] _ isWhole
    | @fraction whole digits _ isDigits =>
      obtain ⟨c, last, digit⟩ := isDigits.getLast? (whole ++ ['.'])
      exact ⟨c, by simpa using last, .inl digit⟩
  | point isWhole => exact ⟨'.', by simp, .inr rfl⟩
  | @power number power mark _ _ isPower => simpa using @ofWhole (number ++ [mark]) _ isPower

/-- What a text ends with it ends with behind its sign, if there is anything behind it. -/
private theorem getLast?_unsigned (some : unsigned cs ≠ []) : (unsigned cs).getLast? = cs.getLast? := by
  cases cs with
  | nil => rfl
  | cons c cs =>
    simp only [unsigned] at some ⊢
    split
    · next sign =>
      rw [if_pos sign] at some
      exact (List.getLast?_cons_of_ne_nil some).symm
    · rfl

/-- A text that ends with a digit or a point does not leave the automaton behind a sign or the letter of a power. -/
private theorem accepts_of_last (amounts : state.Amounts cs)
    (last : ∃ c ∈ cs.getLast?, c.isDigit = true ∨ c = '.') : state.accepts = true := by
  obtain ⟨c, last, ends⟩ := last
  cases state with
  | whole | point | fraction | power => rfl
  | start =>
    obtain rfl : cs = [] := amounts
    cases last
  | sign =>
    obtain ⟨isSign, nonempty⟩ := amounts
    cases isSign with
    | none => exact absurd rfl nonempty
    | plus | minus =>
      cases last
      rcases ends with digit | point
      · cases digit
      · cases point
  | mark =>
    obtain ⟨number, mark, -, isMark, rfl⟩ := amounts
    rw [List.getLast?_concat] at last
    cases last
    cases isMark <;> rcases ends with digit | point <;> contradiction
  | powerSign =>
    obtain ⟨number, mark, sign, -, -, isSign, nonempty, rfl⟩ := amounts
    cases isSign with
    | none => exact absurd rfl nonempty
    | plus | minus =>
      rw [← List.singleton_append, ← List.append_assoc, List.getLast?_concat] at last
      cases last
      rcases ends with digit | point
      · cases digit
      · cases point

/-- A numeral has a digit in front of its power of ten. -/
private theorem Literal.any_digit (h : Literal cs) :
    ((unsigned cs).takeWhile (!Numeral.isMark ·)).any Char.isDigit = true := by
  obtain ⟨whole, rest, isWhole, rfl⟩ := h.exists_whole
  obtain ⟨sign, digits, -, isDigits, -, same⟩ := isWhole.unsigned rest
  rw [same]
  obtain ⟨c, more, rfl⟩ := List.exists_cons_of_ne_nil isDigits.1
  have digit := isDigits.2 c List.mem_cons_self
  rw [List.cons_append, List.takeWhile_cons_of_pos (by simp [not_mark_of_digit digit]), List.any_cons, digit,
    Bool.true_or]

theorem isNumeral_iff : isNumeral cs = true ↔ Literal cs := by
  simp only [isNumeral, Bool.and_eq_true]
  constructor
  · rintro ⟨⟨beginning, ends⟩, -⟩
    rw [isBeginning_eq] at beginning
    obtain ⟨state, ran⟩ := Option.isSome_iff_exists.mp beginning
    obtain ⟨c, last, isEnd⟩ := (Option.any_eq_true _ _).mp ends
    have nonempty : unsigned cs ≠ [] := by
      rintro none
      rw [none] at last
      cases last
    rw [getLast?_unsigned nonempty] at last
    refine accepts_iff.mp ?_
    rw [ran]
    exact accepts_of_last (State.amounts_of_run ran) ⟨c, last, by simpa using isEnd⟩
  · intro h
    have digit := h.any_digit
    have nonempty : unsigned cs ≠ [] := by
      rintro none
      rw [none] at digit
      cases digit
    obtain ⟨c, last, ends⟩ := h.getLast?
    refine ⟨⟨isBeginning_iff.mpr ⟨[], by simpa using h⟩, ?_⟩, digit⟩
    rw [getLast?_unsigned nonempty, Option.any_eq_true]
    exact ⟨c, last, by simpa using ends⟩

end Tests

/-- What leads somewhere is read character by character. -/
theorem State.exists_step {final : State} (ran : state.run cs = some final) :
    ∀ c ∈ cs, ∃ state : State, state.step c ≠ none := by
  induction cs generalizing state with
  | nil => simp
  | cons first rest ih =>
    rw [run_cons] at ran
    cases stepped : state.step first with
    | none =>
      rw [stepped] at ran
      cases ran
    | some next =>
      rw [stepped] at ran
      exact List.forall_mem_cons.mpr ⟨⟨state, by simp [stepped]⟩, ih ran⟩

theorem Literal.exists_step (h : Literal cs) : ∀ c ∈ cs, ∃ state : State, state.step c ≠ none := by
  have accepted := accepts_iff.mpr h
  cases ran : State.start.run cs with
  | none =>
    rw [ran] at accepted
    cases accepted
  | some final => exact State.exists_step ran

/-- An integer is a numeral, so it makes no difference to ask for one first. -/
private theorem isInteger_or_isNumeral_iff : (isInteger cs || isNumeral cs) = true ↔ Literal cs := by
  rw [Bool.or_eq_true, isInteger_iff, isNumeral_iff, or_iff_right_iff_imp]
  exact fun whole => .mantissa (.whole whole)

theorem Literal.ne_nil (h : Literal cs) : cs ≠ [] := by
  rintro rfl
  have numeral := isNumeral_iff.mpr h
  revert numeral
  decide

/-- Growing a text finds the longest numeral: it goes on while the text is the beginning of one. -/
private theorem longestLength_grow {seen : List Char} {best : Option Nat} (found : LongestLength Literal seen best) :
    LongestLength Literal (seen ++ cs) (grow seen best cs) := by
  fun_induction grow seen best cs with
  | case1 seen best =>
    rw [List.append_nil]
    exact found
  | case2 seen best c cs text beginning ih =>
    simpa [text] using ih (found.concat isInteger_or_isNumeral_iff)
  | case3 seen best c cs text stuck =>
    refine found.stop ?_
    rintro _ ⟨rest, rfl⟩ literal
    exact stuck (isBeginning_iff.mpr ⟨rest, literal⟩)

private theorem longestLength_front (cs : List Char) : LongestLength Literal cs (grow [] none cs) :=
  longestLength_grow (.nil fun empty => empty.ne_nil rfl)

/-- Either the longest numeral at the front has been found, or there is none. -/
theorem longest_literal (cs : List Char) :
    (0 < lengthAtFront cs ∧ Longest Literal cs (cs.take (lengthAtFront cs))) ∨
      ∀ text, text <+: cs → ¬ Literal text := by
  have found := longestLength_front cs
  rw [lengthAtFront]
  generalize grow [] none cs = length at found
  cases length with
  | none =>
    cases found with
    | absent none => exact .inr none
  | some length =>
    obtain ⟨longest, -⟩ := found.longest
    refine .inl ⟨?_, longest⟩
    have positive := List.length_pos_iff.mpr longest.here.ne_nil
    rw [List.length_take] at positive
    exact (Nat.lt_min.mp positive).1

/-- A numeral begins with every digit. -/
theorem longest_digit (digit : c.isDigit = true) (cs : List Char) :
    0 < lengthAtFront (c :: cs) ∧ Longest Literal (c :: cs) ((c :: cs).take (lengthAtFront (c :: cs))) := by
  rcases longest_literal (c :: cs) with found | none
  · exact found
  · exact absurd (.mantissa (.whole (.mk .none (.singleton digit)))) (none [c] ⟨cs, rfl⟩)

theorem lengthAtFront_le (cs : List Char) : lengthAtFront cs ≤ cs.length := by
  have found := longestLength_front cs
  rw [lengthAtFront]
  generalize grow [] none cs = length at found
  cases length with
  | none => exact Nat.zero_le _
  | some length => exact found.longest.2

section Values

open Decimal

/-- Digits end where something else begins. -/
theorem span_digits (h : ∀ c ∈ digits, c.isDigit = true)
    (stop : rest.head?.all (fun c => !c.isDigit) = true) :
    (digits ++ rest).takeWhile Char.isDigit = digits ∧ (digits ++ rest).dropWhile Char.isDigit = rest := by
  rw [List.takeWhile_append_of_pos h, List.dropWhile_append_of_pos h]
  cases rest with
  | nil => simp
  | cons c rest =>
    have notDigit : c.isDigit = false := by simpa using stop
    simp [notDigit]

private theorem splitSign_digits (h : Digits digits) (rest : List Char) :
    splitSign (digits ++ rest) = (false, digits ++ rest) := by
  obtain ⟨nonempty, all⟩ := h
  cases digits with
  | nil => exact absurd rfl nonempty
  | cons c digits =>
    have digit := all c List.mem_cons_self
    unfold splitSign
    split
    · next first =>
      cases first
      cases digit
    · next first =>
      cases first
      cases digit
    · rfl

private theorem splitSign_whole {sign : List Char} (isSign : Sign sign) (h : Digits digits)
    (rest : List Char) : ∃ negative, splitSign (sign ++ digits ++ rest) = (negative, digits ++ rest) := by
  cases isSign with
  | none => exact ⟨false, splitSign_digits h rest⟩
  | plus => exact ⟨false, rfl⟩
  | minus => exact ⟨true, rfl⟩

theorem toInt?_of_digits (h : Digits digits) : toInt? digits = some (digitsValue digits) := by
  have split := splitSign_digits h []
  rw [List.append_nil] at split
  have all : digits.all Char.isDigit = true := List.all_eq_true.mpr h.2
  simp [toInt?, split, h.1, all]

theorem readInt64?_of_digits (h : Digits digits) :
    readInt64? digits = toInt64? (digitsValue digits) := by
  rw [readInt64?, toInt?_of_digits h]
  rfl

private theorem toInt?_of_whole (h : Whole cs) : ∃ i, toInt? cs = some i := by
  obtain ⟨isSign, isDigits⟩ := h
  obtain ⟨negative, split⟩ := splitSign_whole isSign isDigits []
  have all := List.all_eq_true.mpr isDigits.2
  simp only [List.append_nil] at split
  simp [toInt?, split, isDigits.1, all]

private theorem exponent?_of_power {mark : Char} (isMark : Mark mark) (isPower : Whole cs) :
    ∃ i, exponent? (mark :: cs) = some i := by
  obtain ⟨i, read⟩ := toInt?_of_whole isPower
  refine ⟨i, ?_⟩
  cases isMark <;> simp [exponent?, read]

/-- Digits without a point have a value, whatever power of ten follows. -/
private theorem magnitude?_of_power {i : Int} (isDigits : Digits digits)
    (stop : rest.head?.all (fun c => !c.isDigit && c != '.') = true) (read : exponent? rest = some i) :
    ∃ x, magnitude? (digits ++ rest) = some x := by
  have noDigit : rest.head?.all (fun c => !c.isDigit) = true := by
    cases rest with
    | nil => rfl
    | cons c rest => simp_all
  obtain ⟨taken, left⟩ := span_digits isDigits.2 noDigit
  have nonempty : digits.isEmpty = false := by simpa using isDigits.1
  simp only [magnitude?, taken, left, nonempty, Bool.false_and]
  cases rest with
  | nil => simp [read]
  | cons c after =>
    have noPoint : c ≠ '.' := by simp_all
    simp [noPoint, read]

/-- So have digits with a point and any digits behind it. -/
private theorem magnitude?_of_point {i : Int} {fraction : List Char} (isDigits : Digits digits)
    (all : ∀ c ∈ fraction, c.isDigit = true) (stop : rest.head?.all (fun c => !c.isDigit) = true)
    (read : exponent? rest = some i) : ∃ x, magnitude? (digits ++ '.' :: (fraction ++ rest)) = some x := by
  have point : ('.' :: (fraction ++ rest)).head?.all (fun c => !c.isDigit) = true := rfl
  obtain ⟨taken, left⟩ := span_digits isDigits.2 point
  obtain ⟨taken', left'⟩ := span_digits all stop
  simp [magnitude?, taken, left, taken', left', isDigits.1, read]

/-- No numeral is one of the words for infinity and for no number. -/
private theorem readFloat?_of_magnitude {sign : List Char} (isSign : Sign sign) (isDigits : Digits digits)
    {x : Float} (read : magnitude? (digits ++ rest) = some x) :
    ∃ x, readFloat? (sign ++ digits ++ rest) = some x := by
  obtain ⟨negative, split⟩ := splitSign_whole isSign isDigits rest
  have noWord : ∀ word : String, word.toList.head?.any (fun c => !c.isDigit) = true →
      (String.ofList ((digits ++ rest).map Char.toLower) == word) = false := by
    intro word other
    by_contra same
    rw [Bool.not_eq_false, beq_iff_eq] at same
    rw [← same, String.toList_ofList] at other
    obtain ⟨nonempty, all⟩ := isDigits
    cases digits with
    | nil => exact nonempty rfl
    | cons c digits =>
      have digit := all c List.mem_cons_self
      have lower : c.toLower = c := by
        unfold Char.toLower
        rw [dif_neg]
        rintro ⟨low, -⟩
        simp only [Char.isDigit, ge_iff_le, Bool.and_eq_true, decide_eq_true_eq] at digit
        exact absurd (UInt32.le_trans low digit.2) (by decide)
      simp [lower, digit] at other
  refine ⟨if negative then -x else x, ?_⟩
  simp only [readFloat?, split, noWord "inf" (by decide), noWord "infinity" (by decide),
    noWord "nan" (by decide), read]
  rfl

/-- Every numeral has a value as a floating-point number. -/
theorem readFloat?_of_literal (h : Literal cs) : ∃ x, readFloat? cs = some x := by
  have mark : ∀ {c : Char}, Mark c → c.isDigit = false ∧ c ≠ '.' := by
    rintro c (_ | _) <;> decide
  cases h with
  | mantissa mantissa =>
    cases mantissa with
    | whole isWhole =>
      obtain ⟨isSign, isDigits⟩ := isWhole
      obtain ⟨x, read⟩ := @magnitude?_of_power _ [] 0 isDigits rfl rfl
      simpa using readFloat?_of_magnitude isSign isDigits read
    | fraction isWhole isFraction =>
      obtain ⟨isSign, isDigits⟩ := isWhole
      obtain ⟨x, read⟩ := @magnitude?_of_point _ [] 0 _ isDigits isFraction.2 rfl rfl
      simpa using readFloat?_of_magnitude isSign isDigits read
  | point isWhole =>
    obtain ⟨isSign, isDigits⟩ := isWhole
    obtain ⟨x, read⟩ := @magnitude?_of_point _ [] 0 [] isDigits (by simp) rfl rfl
    simpa using readFloat?_of_magnitude isSign isDigits read
  | power mantissa isMark isPower =>
    obtain ⟨i, exponent⟩ := exponent?_of_power isMark isPower
    cases mantissa with
    | whole isWhole =>
      obtain ⟨isSign, isDigits⟩ := isWhole
      obtain ⟨x, read⟩ := magnitude?_of_power isDigits (by simp [mark isMark]) exponent
      exact readFloat?_of_magnitude isSign isDigits read
    | fraction isWhole isFraction =>
      obtain ⟨isSign, isDigits⟩ := isWhole
      obtain ⟨x, read⟩ := magnitude?_of_point isDigits isFraction.2 (by simp [mark isMark]) exponent
      simpa using readFloat?_of_magnitude isSign isDigits read

end Values

end Reckoner.Numeral

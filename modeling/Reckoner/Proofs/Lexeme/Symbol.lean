import Reckoner.Lexeme.Tokenize
import Reckoner.Proofs.Longest

/-!
The symbols of operators at the front of some characters. A text is grown for as long as a symbol begins with it, so
the longest symbol is found, whichever shorter ones it begins with, and looking it up gives its operator.
-/
namespace Reckoner

theorem Operator.symbol_pos (op : Operator) : 0 < op.symbol.length := by
  cases op <;> decide

theorem Operator.ofSymbol?_symbol (op : Operator) : ofSymbol? op.symbol = some op := by
  cases op <;> rfl

namespace Lexeme

/-- The symbol of an operator. -/
def Symbol (text : List Char) : Prop :=
  ∃ op : Operator, text = op.symbol.toList

/-- No operator symbol stands at the front. -/
def NoSymbol (cs : List Char) : Prop :=
  ∀ text, text <+: cs → ¬ Symbol text

theorem Symbol.not_nil : ¬ Symbol [] := by
  rintro ⟨op, same⟩
  have positive := op.symbol_pos
  rw [← String.length_toList, ← same] at positive
  exact absurd positive (Nat.lt_irrefl 0)

end Lexeme

namespace Operator

open Lexeme

variable {cs seen : List Char} {op : Operator} {best : Option Nat}

theorem mem_startingWith : op ∈ startingWith cs ↔ cs <+: op.symbol.toList := by
  rw [startingWith, List.mem_filter, List.isPrefixOf_iff_prefix]
  exact and_iff_right op.mem_all

private theorem foldl_add (ops : List Operator) (found : Matches) : ops.foldl (Matches.add cs) found =
    ⟨found.count + ops.length, found.whole || ops.any (·.symbol == String.ofList cs)⟩ := by
  induction ops generalizing found with
  | nil => simp
  | cons op rest ih =>
    rw [List.foldl_cons, ih, Matches.add, List.length_cons, List.any_cons, Bool.or_assoc]
    simp only [Nat.add_assoc, Nat.add_comm 1]

/-- The operators that are counted are those that the text can still become. -/
theorem count_matchesOf (cs : List Char) : (matchesOf cs).count = (startingWith cs).length := by
  rw [matchesOf, foldl_add, Nat.zero_add]

theorem whole_matchesOf : (matchesOf cs).whole = true ↔ Symbol cs := by
  simp only [matchesOf, foldl_add, Bool.false_or, List.any_eq_true, mem_startingWith, beq_iff_eq]
  constructor
  · rintro ⟨op, -, same⟩
    exact ⟨op, by rw [same, String.toList_ofList]⟩
  · rintro ⟨op, rfl⟩
    exact ⟨op, List.prefix_refl _, String.ofList_toList.symm⟩

/-- A text that nothing is counted for is the beginning of no symbol. -/
private theorem stuck_of_count (none : (matchesOf cs).count = 0) (text : List Char) (front : cs <+: text) :
    ¬ Symbol text := by
  rintro ⟨op, rfl⟩
  rw [count_matchesOf, List.length_eq_zero_iff] at none
  have mem := mem_startingWith.mpr front
  rw [none] at mem
  cases mem

/-- A symbol that is counted alone is the beginning of no other one. -/
private theorem last_of_count (one : (matchesOf cs).count = 1) (whole : Symbol cs) (text : List Char)
    (front : cs <+: text) (isSymbol : Symbol text) : text = cs := by
  obtain ⟨op, rfl⟩ := isSymbol
  obtain ⟨other, same⟩ := whole
  rw [count_matchesOf] at one
  obtain ⟨only, isOnly⟩ := List.length_eq_one_iff.mp one
  have mem : op ∈ startingWith cs := mem_startingWith.mpr front
  have mem' : other ∈ startingWith cs := mem_startingWith.mpr (by rw [same])
  rw [isOnly, List.mem_singleton] at mem mem'
  rw [mem, ← mem', same]

/-- Growing a text keeps the longest symbol that was seen and stops where no symbol goes on. -/
private theorem longestLength_grow (found : LongestLength Symbol seen best) :
    LongestLength Symbol (seen ++ cs) (grow seen best cs) := by
  induction cs generalizing seen best with
  | nil => simpa [grow] using found
  | cons c cs ih =>
    have split : seen ++ c :: cs = (seen ++ [c]) ++ cs := by simp
    have goesOn := @ih (seen ++ [c]) _ (found.concat whole_matchesOf)
    rw [split, grow]
    split
    · next none =>
      rw [← split]
      exact found.stop (stuck_of_count none)
    · next one whole =>
      have isSymbol := whole_matchesOf.mp whole
      exact .present (.of_last isSymbol (last_of_count one isSymbol))
    · next whole _ _ =>
      rw [if_pos whole] at goesOn
      exact goesOn
    · next notWhole _ =>
      rw [notWhole, if_neg Bool.false_ne_true] at goesOn
      exact goesOn

theorem longestLength_lengthAtFront? (cs : List Char) : LongestLength Symbol cs (lengthAtFront? cs) :=
  longestLength_grow (.nil Symbol.not_nil)

end Operator

namespace Lexeme

variable {cs : List Char}

theorem noSymbol_of_length (none : Operator.lengthAtFront? cs = none) : NoSymbol cs := by
  have found := Operator.longestLength_lengthAtFront? cs
  rw [none] at found
  cases found with
  | absent absent => exact absent

/-- The longest symbol is that of an operator, and looking it up gives this operator. -/
theorem exists_operator_of_length {length : Nat} (some : Operator.lengthAtFront? cs = some length) :
    ∃ op : Operator, Longest Symbol cs op.symbol.toList ∧
      operatorAtFront (cs.take length) = .ok ⟨.operator (.ofOperator op), op.symbol.length - 1⟩ := by
  have found := Operator.longestLength_lengthAtFront? cs
  rw [some] at found
  obtain ⟨longest, -⟩ := found.longest
  obtain ⟨op, same⟩ := longest.here
  rw [same] at longest ⊢
  refine ⟨op, longest, ?_⟩
  rw [operatorAtFront, String.ofList_toList, op.ofSymbol?_symbol, String.length_toList]

end Lexeme

end Reckoner

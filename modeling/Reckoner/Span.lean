/-!
Places in the text of an expression. A span is a range of bytes of the text in UTF-8; it reads back
as text only when both of its ends fall between two characters.
-/
namespace Reckoner

/-- A range of bytes, from `start` up to but not including `stop`. -/
structure Span where
  start : Nat
  stop : Nat
deriving DecidableEq, Inhabited

namespace Span

/-- A span without bytes in it, which includes one whose ends are swapped. -/
def isEmpty (span : Span) : Bool :=
  span.stop ≤ span.start

/-- The smallest span that covers both. -/
def cover (a b : Span) : Span :=
  ⟨min a.start b.start, max a.stop b.stop⟩

/-- The number of bytes that the characters take. -/
def bytes : List Char → Nat
  | [] => 0
  | c :: cs => c.utf8Size + bytes cs

/-- Splits the characters after exactly `n` bytes, if that is between two characters. -/
def splitAt? : Nat → List Char → Option (List Char × List Char)
  | 0, cs => some ([], cs)
  | _ + 1, [] => none
  | n + 1, c :: cs =>
    if c.utf8Size ≤ n + 1 then
      (splitAt? (n + 1 - c.utf8Size) cs).map fun (taken, rest) => (c :: taken, rest)
    else none

/-- The characters that the span covers. -/
def chars? (span : Span) (cs : List Char) : Option (List Char) := do
  let (_, rest) ← splitAt? span.start cs
  if span.start ≤ span.stop then
    let (taken, _) ← splitAt? (span.stop - span.start) rest
    return taken
  else none

/-- The text that the span covers, unless an end lies outside the text or inside a character. -/
def text? (span : Span) (source : String) : Option String :=
  (span.chars? source.toList).map String.ofList

/-- The whole of a text. -/
def whole (source : String) : Span :=
  ⟨0, source.utf8ByteSize⟩

theorem bytes_append (xs ys : List Char) : bytes (xs ++ ys) = bytes xs + bytes ys := by
  induction xs with
  | nil => simp [bytes]
  | cons x xs ih => rw [List.cons_append, bytes, ih, bytes, Nat.add_assoc]

/-- The bytes of a text are those of its characters. -/
theorem bytes_toList (s : String) : bytes s.toList = s.utf8ByteSize := by
  have ofList (cs : List Char) : bytes cs = (String.ofList cs).utf8ByteSize := by
    induction cs with
    | nil => simp [bytes]
    | cons c cs ih =>
      have split : String.ofList (c :: cs) = String.singleton c ++ String.ofList cs := by
        rw [String.singleton_eq_ofList, ← String.ofList_append]
        rfl
      rw [split, String.utf8ByteSize_append, ← ih]
      simp [bytes]
  rw [ofList, String.ofList_toList]

/-- Cutting after the bytes of the first part gives the two parts back. -/
theorem splitAt?_bytes (xs ys : List Char) : splitAt? (bytes xs) (xs ++ ys) = some (xs, ys) := by
  induction xs with
  | nil => simp [bytes, splitAt?]
  | cons x xs ih =>
    have positive : 0 < x.utf8Size := Char.utf8Size_pos x
    have total : bytes (x :: xs) = x.utf8Size + bytes xs := rfl
    obtain ⟨k, hk⟩ : ∃ k, bytes (x :: xs) = k + 1 := ⟨bytes (x :: xs) - 1, by omega⟩
    rw [hk, List.cons_append, splitAt?]
    have fits : x.utf8Size ≤ k + 1 := by omega
    have left : k + 1 - x.utf8Size = bytes xs := by omega
    simp [fits, left, ih]

end Span

end Reckoner

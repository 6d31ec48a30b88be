import Reckoner.Text.Runs
import Reckoner.Text.LetterCase.Table

/-!
Upper and lower case of whole texts. A character may turn into several. A capital sigma at the end
of a word has a lower form of its own; the end of a word is a place after a cased letter and not
before one, where accents and the like are passed over on both sides.
-/
namespace Reckoner.Text

namespace CaseRun

/-- The other case of a character of the run. -/
def otherCase? (run : CaseRun) (c : Char) : Option Char :=
  let n := c.toNat
  let offset := n - run.first
  if run.first ≤ n && offset < run.count * run.step && offset % run.step == 0 then
    some (Char.ofNat (n + run.shift).toNat)
  else none

end CaseRun

/-- The other case of one character by the two tables; the character itself if it is in neither. -/
def mapCase (runs : List CaseRun) (long : List (Nat × List Nat)) (c : Char) : List Char :=
  match long.lookup c.toNat with
  | some codes => codes.map Char.ofNat
  | none => [(runs.findSome? (·.otherCase? c)).getD c]

/-- The upper case of a text. -/
def upper (s : String) : String :=
  String.ofList (s.toList.flatMap (mapCase upperRuns upperLong))

/-- Whether the first character that is not passed over is a cased letter. -/
def meetsCased (cs : List Char) : Bool :=
  match cs.dropWhile fun c => inRuns passedOverRuns c.toNat with
  | [] => false
  | c :: _ => inRuns casedRuns c.toNat

/-- The lower case of the rest of a text, given what stands before it in reverse. -/
def lowerAfter (before : List Char) : List Char → List Char
  | [] => []
  | 'Σ' :: rest =>
    (if meetsCased before && !meetsCased rest then 'ς' else 'σ') :: lowerAfter ('Σ' :: before) rest
  | c :: rest => mapCase lowerRuns lowerLong c ++ lowerAfter (c :: before) rest

/-- The lower case of a text. -/
def lower (s : String) : String :=
  String.ofList (lowerAfter [] s.toList)

end Reckoner.Text

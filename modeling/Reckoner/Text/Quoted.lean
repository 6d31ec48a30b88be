import Reckoner.Text.Runs
import Reckoner.Text.Quoted.Table

/-!
Quoted text, as messages show it: between double quotes, with a backslash before a quote or a
backslash, short escapes for the common controls, and the number of every other character that
cannot be seen on its own.
-/
namespace Reckoner.Text

/-- The code point in hexadecimal between braces, as in the escape of a hidden character. -/
def codePointEscape (c : Char) : List Char :=
  "\\u\x7b".toList ++ Nat.toDigits 16 c.toNat ++ "\x7d".toList

/-- One character inside the quotes. -/
def escape (c : Char) : List Char :=
  match c with
  | '"' => ['\\', '"']
  | '\\' => ['\\', '\\']
  | '\n' => ['\\', 'n']
  | '\r' => ['\\', 'r']
  | '\t' => ['\\', 't']
  | '\x00' => ['\\', '0']
  | c => if inRuns hiddenRuns c.toNat then codePointEscape c else [c]

/-- The text between double quotes. -/
def quoted (s : String) : String :=
  String.ofList ('"' :: s.toList.flatMap escape ++ ['"'])

end Reckoner.Text

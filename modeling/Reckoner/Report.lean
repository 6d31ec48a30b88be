import Reckoner.Failure

/-!
How a failure is shown: a heading with the code and the message, a line that says where in which file the
fault is, and words of help. Lines end at any line break of Unicode, and columns count characters.
-/
namespace Reckoner.Report

/-- Characters that end a line; a carriage return and a line feed after it end it together. -/
def endsLine (c : Char) : Bool :=
  c == '\r' || c == '\n' || c == '\x0b' || c == '\x0c' || c == '\u0085' || c == '\u2028' ||
    c == '\u2029'

/-- The lines of a source with their ends, given the line so far in reverse. -/
def linesFrom (current : List Char) : List Char → List (List Char)
  | [] => if current.isEmpty then [] else [current.reverse]
  | '\r' :: '\n' :: rest => ('\n' :: '\r' :: current).reverse :: linesFrom [] rest
  | c :: rest =>
    if endsLine c then (c :: current).reverse :: linesFrom [] rest else linesFrom (c :: current) rest

/-- A line and a column, both counted from zero. -/
structure Place where
  line : Nat
  column : Nat

/-- How many characters begin before the byte. -/
def columnAt (offset : Nat) : List Char → Nat
  | [] => 0
  | c :: rest => if offset = 0 then 0 else columnAt (offset - c.utf8Size) rest + 1

/-- The place of a byte that is counted from the first of the lines. -/
def placeIn (line : Nat) (offset : Nat) : List (List Char) → Place
  | [] => ⟨line, 0⟩
  | [last] => ⟨line, columnAt offset last⟩
  | first :: rest =>
    if offset < Span.bytes first then ⟨line, columnAt offset first⟩
    else placeIn (line + 1) (offset - Span.bytes first) rest

/-- The place of a byte of a source, its end included. -/
def place? (source : String) (offset : Nat) : Option Place :=
  if offset ≤ source.utf8ByteSize then some (placeIn 0 offset (linesFrom [] source.toList)) else none

/-- Whether a span can be shown in the source. -/
def canShow (source : String) (span : Span) : Bool :=
  (place? source span.start).isSome &&
    (span.isEmpty || (place? source (span.stop - 1)).isSome)

/-- The word for a severity. -/
def severityWord : Severity → String
  | .error => "Error"
  | .warning => "Warning"
  | .info => "Advice"

/-- The code and the message of a diagnostic. -/
def diagnosticHeading (diagnostic : Diagnostic) : String :=
  let code := diagnostic.code.elim "" fun code => s!"[{code}] "
  s!"{code}{severityWord diagnostic.severity}: {diagnostic.message}"

/-- How the drawing begins. -/
inductive Corner where
  | round
  | ascii

/-- The marks of a corner. -/
def Corner.marks : Corner → String
  | round => "╭─"
  | ascii => ",-"

/-- The file, line and column of a diagnostic, counted from one, unless none of its places can be shown.
The line is set in by two more than the width of the greatest line number shown. -/
def diagnosticLocation? (corner : Corner) (file source : String) (diagnostic : Diagnostic) :
    Option String :=
  match (diagnostic.span :: diagnostic.related.map (·.span)).filter (canShow source) with
  | [] => none
  | first :: others =>
    let shown := others.foldl Span.cover first
    let last := (place? source (max (shown.stop - 1) shown.start)).elim 0 (·.line)
    let indent := String.ofList (List.replicate ((toString (last + 1)).length + 2) ' ')
    let position :=
      match place? source diagnostic.span.start with
      | some place => s!"{place.line + 1}:{place.column + 1}"
      | none => "?:?"
    some s!"{indent}{corner.marks}[ {file}:{position} ]"

/-- The lines of a text, without their ends. -/
def textLines (text : String) : List String :=
  let parts := text.splitOn "\n"
  (if parts.getLast? = some "" then parts.dropLast else parts).map fun line =>
    if line.endsWith "\r" then String.ofList line.toList.dropLast else line

/-- The lines with which the report on a failure begins. -/
def openingLines (corner : Corner) (filename : Option String) (failure : Failure) : List String :=
  let file := (filename <|> failure.filename?).getD "<input>"
  match failure with
  | .usage _ | .resourceExceeded _ => textLines failure.message
  | _ =>
    match failure.diagnostics.head?, failure.source? with
    | some diagnostic, some source =>
      textLines (diagnosticHeading diagnostic) ++
        (diagnosticLocation? corner file source diagnostic).toList
    | _, _ => []

/-- The first line of the report, if there is any. -/
def heading? (failure : Failure) : Option String :=
  (openingLines .round none failure).head?

/-- The line after the heading, which says where the fault is. -/
def location? (corner : Corner) (filename : Option String) (failure : Failure) : Option String :=
  (openingLines corner filename failure)[1]?

/-- All words of help. -/
def help (failure : Failure) : List String :=
  failure.diagnostics.flatMap (·.help)

/-- Whether the report is coloured, when colours are wanted: only places in a source are. -/
def isColoured (failure : Failure) : Bool :=
  !failure.diagnostics.isEmpty

end Reckoner.Report

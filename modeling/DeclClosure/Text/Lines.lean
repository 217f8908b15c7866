import DeclClosure.Text.Blank

/-!
# Lines of a text

A line ends at any line boundary of any script; a carriage return directly before a line feed
belongs to the same boundary. A boundary at the very end of a text opens no further line, so the
empty text has no lines at all.
-/

namespace DeclClosure.Text

/-- The characters that end a line. -/
def isLineBreak (c : Char) : Bool :=
  inRanges #[(0x0A, 0x0D), (0x1C, 0x1E), (0x85, 0x85), (0x2028, 0x2029)] c

/-- The lines of `cs`, where `line` holds the characters of the current line, last one first. A
boundary at the very end opens no further line. -/
def linesFrom : List Char → List Char → List String
  | [], [] => []
  | line@(_ :: _), [] => [String.ofList line.reverse]
  | line, '\r' :: '\n' :: cs => String.ofList line.reverse :: linesFrom [] cs
  | line, c :: cs =>
    if isLineBreak c then String.ofList line.reverse :: linesFrom [] cs
    else linesFrom (c :: line) cs

/-- The lines of a text, without their boundaries. -/
def lines (s : String) : List String :=
  linesFrom [] s.toList

/-- The pieces of `cs` between the separators `sep`, where `piece` holds the characters of the
current piece, last one first. There is always one piece more than separators. -/
def splitCharsAt (sep : Char) : List Char → List Char → List (List Char)
  | piece, [] => [piece.reverse]
  | piece, c :: cs =>
    if c = sep then piece.reverse :: splitCharsAt sep [] cs else splitCharsAt sep (c :: piece) cs

/-- The pieces of a text between the separators `sep`. -/
def splitAt (sep : Char) (s : String) : List String :=
  (splitCharsAt sep [] s.toList).map String.ofList

/-- The text with each tabulator replaced by blanks up to the next column that is a multiple of
eight; a line feed or a carriage return starts again at column 0. -/
def expandTabs (s : String) : String :=
  let step (acc : List Char × Nat) (c : Char) : List Char × Nat :=
    if c = '\t' then
      let n := 8 - acc.2 % 8
      (List.replicate n ' ' ++ acc.1, acc.2 + n)
    else if c = '\n' ∨ c = '\r' then (c :: acc.1, 0)
    else (c :: acc.1, acc.2 + 1)
  String.ofList (s.toList.foldl step ([], 0)).1.reverse

/-- The number of blanks that a line starts with, or `none` if it holds nothing else. -/
def indentation? (line : String) : Option Nat :=
  let rest := line.toList.dropWhile isBlank
  if rest.isEmpty then none else some (line.toList.length - rest.length)

/-- The text of a documentation comment as it is meant to be read: tabulators are expanded, the
first line loses its leading blanks, the others the indentation they share, and empty lines at
either end are dropped. -/
def dedent (s : String) : String :=
  match splitAt '\n' (expandTabs s) with
  | [] => ""
  | first :: rest =>
    let margin := (rest.filterMap indentation?).min?.getD 0
    let body := trimStart first :: rest.map fun line ↦ String.ofList (line.toList.drop margin)
    let trimmed := (body.dropWhile String.isEmpty).reverse.dropWhile String.isEmpty
    "\n".intercalate trimmed.reverse

end DeclClosure.Text

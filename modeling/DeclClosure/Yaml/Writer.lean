import DeclClosure.Text.Quoted
import DeclClosure.Text.Sorted
import DeclClosure.Yaml.Scalar

/-!
# Writing indented documents

Mappings are written as blocks with sorted keys, two blanks deeper per level; the items of a
sequence that belongs to a key start in the column of the key. A text stands plain if, read back, it
would be that text again; otherwise in single quotes, and in double quotes if it holds characters
that must be escaped. Lines are folded at a blank beyond column eighty.
-/

namespace DeclClosure.Yaml

open Json (Value)

/-- The column after which a line is folded at the next blank. -/
def bestWidth : Nat := 80

/-- A line break and the blanks up to a column. -/
def breakTo (column : Nat) : List Char :=
  '\n' :: List.replicate column ' '

/-- Characters that count as space where indicators are looked for. -/
def isSpaceMark (c : Char) : Bool :=
  c == '\x00' || c == ' ' || c == '\t' || c == '\r' || c == '\n' || c == '\x85' || c == '\u2028'
    || c == '\u2029'

/-- The character needs an escape. -/
def isSpecial (c : Char) : Bool :=
  !(c == '\n' || (0x20 ≤ c.toNat && c.toNat ≤ 0x7E))

/-- Indicators at the start of a text. -/
def startsWithIndicator : List Char → Bool
  | [] => false
  | c :: cs =>
    "#,[]\x7b\x7d&*!|>'\"%@".toList.contains c || c.toNat == 0x60
      || ("?:-".toList.contains c && (cs.isEmpty || cs.head?.any isSpaceMark))

/-- Indicators within a text: a colon before space, or a remark after space. `space` tells whether
the character before was space. -/
def hasInnerIndicator (space : Bool) : List Char → Bool
  | [] => false
  | c :: cs =>
    (c == ':' && (cs.isEmpty || cs.head?.any isSpaceMark)) || (c == '#' && space)
      || hasInnerIndicator (isSpaceMark c) cs

/-- Two characters that follow each other anywhere in a text. -/
def hasPair (a b : Char) : List Char → Bool
  | [] => false
  | c :: cs => (c == a && cs.head? == some b) || hasPair a b cs

/-- The text could stand plain, if its spelling means nothing else. -/
def canBePlain (cs : List Char) : Bool :=
  let edges := [cs.head?, cs.getLast?]
  !(edges.contains (some ' ') || edges.contains (some '\n') || cs.contains '\n'
    || cs.any isSpecial || startsWithIndicator cs
    || (cs.head?.any fun c ↦ hasInnerIndicator (isSpaceMark c) (cs.drop 1))
    || cs.take 3 == "---".toList || cs.take 3 == "...".toList)

/-- The text could stand in single quotes. -/
def canBeSingle (cs : List Char) : Bool :=
  !(cs.any isSpecial || hasPair ' ' '\n' cs || hasPair '\n' ' ' cs)

/-- Maximal runs of blanks, of line breaks, and of everything else. -/
def runs : List Char → List (List Char)
  | [] => []
  | c :: cs =>
    match runs cs with
    | [] => [[c]]
    | r :: rs =>
      let sort := fun (d : Char) ↦ if d = ' ' then 0 else if d = '\n' then 1 else 2
      if (r.head?.map sort) = some (sort c) then (c :: r) :: rs else [c] :: r :: rs

/-- Written runs with the column after them. A single blank between other runs is where a long line
is folded. -/
def writeRuns (indent : Nat) (write : List Char → List Char) :
    Bool → Nat → List (List Char) → List Char
  | _, _, [] => []
  | inside, column, r :: rs =>
    match r with
    | [' '] =>
      if inside && !rs.isEmpty && bestWidth < column then
        breakTo indent ++ writeRuns indent write true indent rs
      else ' ' :: writeRuns indent write true (column + 1) rs
    | '\n' :: _ =>
      '\n' :: r ++ List.replicate indent ' ' ++ writeRuns indent write true indent rs
    | _ =>
      let text := write r
      text ++ writeRuns indent write true (column + text.length) rs

/-- The quote of a text in single quotes, twice where it stands for itself. -/
def doubleQuotes (cs : List Char) : List Char :=
  cs.flatMap fun c ↦ if c = '\'' then ['\'', '\''] else [c]

/-- The escapes by letter. -/
def letterEscapes : List (Char × Char) :=
  [('\x00', '0'), ('\x07', 'a'), ('\x08', 'b'), ('\t', 't'), ('\n', 'n'), ('\x0b', 'v'),
    ('\x0c', 'f'), ('\r', 'r'), ('\x1b', 'e'), ('"', '"'), ('\\', '\\'), ('\x85', 'N'),
    ('\u00a0', '_'), ('\u2028', 'L'), ('\u2029', 'P')]

/-- The escape of a character, if it needs one between double quotes. -/
def escape? (c : Char) : Option (List Char) :=
  if c != '"' && c != '\\' && 0x20 ≤ c.toNat && c.toNat ≤ 0x7E then none
  else
    let numbered (mark : Char) (width : Nat) : List Char :=
      '\\' :: mark :: (Text.hexDigits width c.toNat).toList.map Char.toUpper
    some (match letterEscapes.lookup c with
      | some l => ['\\', l]
      | none =>
        if c.toNat ≤ 0xFF then numbered 'x' 2
        else if c.toNat ≤ 0xFFFF then numbered 'u' 4
        else numbered 'U' 8)

/-- The characters between double quotes. `column` counts those written so far on the line, `first`
tells that none of the text has been written yet. A long line is broken before a blank or after an
escape, and the line break is escaped. -/
def writeDouble (indent : Nat) : Bool → Nat → List Char → List Char
  | _, _, [] => []
  | first, column, c :: cs =>
    match escape? c with
    | some e =>
      let column := column + e.length
      if !first && 2 ≤ cs.length && bestWidth + 1 < column then
        e ++ '\\' :: breakTo indent ++ (if cs.head? == some ' ' then ['\\'] else [])
          ++ writeDouble indent false (indent + (if cs.head? == some ' ' then 1 else 0)) cs
      else e ++ writeDouble indent false column cs
    | none =>
      if c = ' ' && !first && 2 ≤ cs.length && bestWidth < column then
        '\\' :: breakTo indent ++ '\\' :: c :: writeDouble indent false (indent + 2) cs
      else c :: writeDouble indent false (column + 1) cs

/-- A text that starts in a column, with continuation lines in another. -/
def writeText (column indent : Nat) (s : String) : String :=
  let cs := s.toList
  let isText := match meaning s with
    | .text => true
    | _ => false
  String.ofList (
    if isText && canBePlain cs then writeRuns indent id false column (runs cs)
    else if canBeSingle cs then
      '\'' :: writeRuns indent doubleQuotes false (column + 1) (runs cs) ++ ['\'']
    else '"' :: writeDouble indent true (column + 1) cs ++ ['"'])

/-- A number with a point: a power always follows a point, and the words for what is not finite
start with one. -/
def writeFloat (x : Number.Binary64) : String :=
  match x with
  | .nan => ".nan"
  | .infinite negative => if negative then "-.inf" else ".inf"
  | .finite _ _ _ _ =>
    let text := x.write
    if text.toList.contains '.' then text
    else String.ofList (text.toList.flatMap fun c ↦ if c = 'e' then ".0e".toList else [c])

/-- The text of a value that takes no block. -/
def writeInline (column indent : Nat) : Value → String
  | .null => "null"
  | .bool b => if b then "true" else "false"
  | .int i => toString i
  | .float x => writeFloat x
  | .str s => writeText column indent s
  | .list _ => "[]"
  | .object _ => "\x7b\x7d"

/-- The blanks before an entry of a block. -/
def margin (indent : Nat) : String :=
  String.ofList (List.replicate indent ' ')

mutual

/-- The text of a value that follows a dash: a block starts on the line of the dash. -/
def writeItem (indent : Nat) : Value → String
  | .list (v :: vs) => "- " ++ writeItem (indent + 2) v ++ writeItems (indent + 2) vs
  | .object (m :: ms) => joinEntries (indent + 2) (writeEntries (indent + 2) (m :: ms))
  | v => writeInline (indent + 2) (indent + 2) v ++ "\n"

/-- The items of a sequence whose dashes stand in a column. -/
def writeItems (indent : Nat) : List Value → String
  | [] => ""
  | v :: vs => margin indent ++ "- " ++ writeItem indent v ++ writeItems indent vs

/-- The entries of a mapping whose keys stand in a column: each key with the text that follows it.
-/
def writeEntries (indent : Nat) : List (String × Value) → List (String × String)
  | [] => []
  | (key, v) :: ms =>
    let written := writeText indent (indent + 2) key ++ ":"
    let text := match v with
      | .list (i :: is) => written ++ "\n" ++ writeItems indent (i :: is)
      | .object (e :: es) =>
        written ++ "\n" ++ margin (indent + 2)
          ++ joinEntries (indent + 2) (writeEntries (indent + 2) (e :: es))
      | v => written ++ " " ++ writeInline (indent + written.length + 1) (indent + 2) v ++ "\n"
    (key, text) :: writeEntries indent ms

/-- Entries sorted by key, the first one without its margin. -/
def joinEntries (indent : Nat) (entries : List (String × String)) : String :=
  let sorted := Text.sortByName (·.1) entries
  (margin indent).intercalate (sorted.map (·.2))

end

/-- The text of a document. -/
def write : Value → String
  | .list (v :: vs) => writeItems 0 (v :: vs)
  | .object (m :: ms) => joinEntries 0 (writeEntries 0 (m :: ms))
  | v => writeInline 0 0 v ++ "\n"

end DeclClosure.Yaml

import DeclClosure.Json.Value
import DeclClosure.Number.Shortest
import DeclClosure.Text.Quoted
import DeclClosure.Text.Sorted

/-!
# The text of a document

One item or member a line, two blanks per level, keys sorted by code point, and no line at all for
what is empty. Only the quote, the backslash and the first 32 control characters are escaped; every
other character stands for itself.
-/

namespace DeclClosure.Json

open Number

/-- A character within a string of a document. -/
def escapeChar (c : Char) : String :=
  if c = '"' then "\\\""
  else if c = '\\' then "\\\\"
  else if c = '\x08' then "\\b"
  else if c = '\t' then "\\t"
  else if c = '\n' then "\\n"
  else if c = '\x0c' then "\\f"
  else if c = '\r' then "\\r"
  else if c.toNat < 0x20 then "\\u" ++ Text.hexDigits 4 c.toNat
  else c.toString

/-- A string of a document. -/
def quote (s : String) : String :=
  "\"" ++ String.join (s.toList.map escapeChar) ++ "\""

/-- A line break and the indentation of a level. -/
def newline (depth : Nat) : String :=
  "\n" ++ String.ofList (List.replicate (2 * depth) ' ')

/-- Written items between brackets, one a line; an empty pair of brackets if there are none. -/
def block (opening closing : String) (depth : Nat) (items : List String) : String :=
  if items.isEmpty then opening ++ closing
  else
    opening ++ newline (depth + 1) ++ ("," ++ newline (depth + 1)).intercalate items
      ++ newline depth ++ closing

mutual

/-- The text of a document that starts at a level of indentation. -/
def Value.write (depth : Nat) : Value → String
  | .null => "null"
  | .bool b => if b then "true" else "false"
  | .int i => toString i
  | .float x => x.write
  | .str s => quote s
  | .list items => block "[" "]" depth (writeItems (depth + 1) items)
  | .object members =>
    let written := writeMembers (depth + 1) members
    let sorted := Text.sortByName (·.1) written
    block "\x7b" "\x7d" depth (sorted.map fun m ↦ quote m.1 ++ ": " ++ m.2)

/-- The texts of the items of a list. -/
def writeItems (depth : Nat) : List Value → List String
  | [] => []
  | v :: vs => v.write depth :: writeItems depth vs

/-- The keys of an object with the texts of their values. -/
def writeMembers (depth : Nat) : List (String × Value) → List (String × String)
  | [] => []
  | (k, v) :: ms => (k, v.write depth) :: writeMembers depth ms

end

/-- The text of a whole document. -/
def Value.text (v : Value) : String :=
  v.write 0

end DeclClosure.Json

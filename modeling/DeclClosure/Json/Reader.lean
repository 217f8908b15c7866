import DeclClosure.Json.Value

/-!
# Reading documents

The reader of documents keeps the members of an object in the order of the text; of two members with
one key the later value stands in the earlier place. Numbers without a point and a power are
integers of any size. The reader descends once per bracket, so the length of the text bounds its
depth.
-/

namespace DeclClosure.Json

open Number

/-- Blanks between the tokens of a document. -/
def isSpace (c : Char) : Bool :=
  c = ' ' || c = '\n' || c = '\r' || c = '\t'

/-- The text without blanks at its start. -/
def skipSpace (cs : List Char) : List Char :=
  cs.dropWhile isSpace

/-- The value of a hexadecimal digit. -/
def hexValue? (c : Char) : Option Nat :=
  if c.isDigit then some (c.toNat - 48)
  else if 'a' ≤ c ∧ c ≤ 'f' then some (c.toNat - 87)
  else if 'A' ≤ c ∧ c ≤ 'F' then some (c.toNat - 55)
  else none

/-- The value of four hexadecimal digits, and the rest. -/
def readHex4 : List Char → Option (Nat × List Char)
  | a :: b :: c :: d :: cs => do
    let a ← hexValue? a
    let b ← hexValue? b
    let c ← hexValue? c
    let d ← hexValue? d
    return (((a * 16 + b) * 16 + c) * 16 + d, cs)
  | _ => none

/-- The character of a pair of surrogates. -/
def surrogatePair (high low : Nat) : Char :=
  Char.ofNat (0x10000 + (high - 0xD800) * 0x400 + (low - 0xDC00))

/-- The character that an escaped code unit begins, and the rest. A unit of a broken pair becomes
the replacement character. -/
def readEscapedUnit (cs : List Char) : Option (Char × List Char) := do
  let (unit, cs) ← readHex4 cs
  if 0xD800 ≤ unit ∧ unit < 0xDC00 then
    match cs with
    | '\\' :: 'u' :: rest =>
      match readHex4 rest with
      | some (low, rest) =>
        if 0xDC00 ≤ low ∧ low < 0xE000 then some (surrogatePair unit low, rest)
        else some ('\ufffd', cs)
      | none => some ('\ufffd', cs)
    | _ => some ('\ufffd', cs)
  else if 0xDC00 ≤ unit ∧ unit < 0xE000 then some ('\ufffd', cs)
  else some (Char.ofNat unit, cs)

/-- The characters of a string up to its closing quote, and what follows it. -/
def readString : Nat → List Char → List Char → Option (String × List Char)
  | 0, _, _ => none
  | n + 1, acc, cs =>
    match cs with
    | [] => none
    | '"' :: cs => some (String.ofList acc.reverse, cs)
    | '\\' :: 'u' :: cs =>
      match readEscapedUnit cs with
      | some (c, cs) => readString n (c :: acc) cs
      | none => none
    | '\\' :: c :: cs =>
      match [('n', '\n'), ('t', '\t'), ('r', '\r'), ('b', '\x08'), ('f', '\x0c'), ('"', '"'),
          ('\\', '\\'), ('/', '/')].lookup c with
      | some c => readString n (c :: acc) cs
      | none => none
    | c :: cs => readString n (c :: acc) cs

/-- The characters that numbers are made of. -/
def isNumberChar (c : Char) : Bool :=
  c.isDigit || c = '-' || c = '+' || c = '.' || c = 'e' || c = 'E'

/-- The value of a number. -/
def number? (text : List Char) : Option Value :=
  if text.any fun c ↦ c = '.' || c = 'e' || c = 'E' then
    (Binary64.ofText? (String.ofList text)).map .float
  else (String.ofList text).toInt?.map .int

/-- The members with one more; a key that is there already keeps its place. -/
def putMember (members : List (String × Value)) (key : String) (v : Value) :
    List (String × Value) :=
  if members.any fun m ↦ m.1 == key then
    members.map fun m ↦ if m.1 == key then (key, v) else m
  else members ++ [(key, v)]

mutual

/-- A value at the start of a text, and the rest. -/
def readValue : Nat → List Char → Option (Value × List Char)
  | 0, _ => none
  | n + 1, cs =>
    match skipSpace cs with
    | '"' :: cs => (readString n [] cs).map fun (s, cs) ↦ (.str s, cs)
    | '\x5b' :: cs =>
      match skipSpace cs with
      | '\x5d' :: cs => some (.list [], cs)
      | cs => readItems n [] cs
    | '\x7b' :: cs =>
      match skipSpace cs with
      | '\x7d' :: cs => some (.object [], cs)
      | cs => readMembers n [] cs
    | 'n' :: 'u' :: 'l' :: 'l' :: cs => some (.null, cs)
    | 't' :: 'r' :: 'u' :: 'e' :: cs => some (.bool true, cs)
    | 'f' :: 'a' :: 'l' :: 's' :: 'e' :: cs => some (.bool false, cs)
    | cs =>
      (number? (cs.takeWhile isNumberChar)).map fun v ↦ (v, cs.dropWhile isNumberChar)

/-- The items of a list up to its closing bracket, after those in `acc`, and the rest. -/
def readItems : Nat → List Value → List Char → Option (Value × List Char)
  | 0, _, _ => none
  | n + 1, acc, cs =>
    match readValue n cs with
    | none => none
    | some (v, cs) =>
      match skipSpace cs with
      | ',' :: cs => readItems n (v :: acc) cs
      | '\x5d' :: cs => some (.list (v :: acc).reverse, cs)
      | _ => none

/-- The members of an object up to its closing bracket, after those in `acc`, and the rest. -/
def readMembers : Nat → List (String × Value) → List Char → Option (Value × List Char)
  | 0, _, _ => none
  | n + 1, acc, cs =>
    match skipSpace cs with
    | '"' :: cs =>
      match readString n [] cs with
      | none => none
      | some (key, cs) =>
        match skipSpace cs with
        | ':' :: cs =>
          match readValue n cs with
          | none => none
          | some (v, cs) =>
            match skipSpace cs with
            | ',' :: cs => readMembers n (putMember acc key v) cs
            | '\x7d' :: cs => some (.object (putMember acc key v), cs)
            | _ => none
        | _ => none
    | _ => none

end

/-- The document that a text holds. -/
def Value.ofText? (text : String) : Option Value :=
  match readValue (text.length + 1) text.toList with
  | some (v, cs) => if (skipSpace cs).isEmpty then some v else none
  | none => none

end DeclClosure.Json

import DeclClosure.Json.Value
import DeclClosure.Number.Shortest

/-!
# Plain scalars

A scalar without quotes means what its spelling says: a truth value, a number, nothing at all, a
point in time, or else the text itself. The reader asks what a plain scalar means; the writer asks
whether a text would mean something else if it stood plain.
-/

namespace DeclClosure.Yaml

open Json (Value)
open Number

/-- What a plain scalar means. -/
inductive Meaning where
  | text
  | null
  | bool (b : Bool)
  | int (i : Int)
  | float (x : Binary64)
  | time
  | mark
deriving Repr

/-- The spellings of the truth values. -/
def truthWords : List (String × Bool) :=
  [("yes", true), ("Yes", true), ("YES", true), ("no", false), ("No", false), ("NO", false),
    ("true", true), ("True", true), ("TRUE", true), ("false", false), ("False", false),
    ("FALSE", false), ("on", true), ("On", true), ("ON", true), ("off", false), ("Off", false),
    ("OFF", false)]

/-- The spellings of nothing. -/
def nullWords : List String := ["", "~", "null", "Null", "NULL"]

/-- Without the underscores that group digits. -/
def ungrouped (cs : List Char) : List Char :=
  cs.filter (· != '_')

/-- The value of a digit in bases up to sixteen. -/
def digitValue (c : Char) : Nat :=
  if c.isDigit then c.toNat - 48 else c.toLower.toNat - 87

/-- The value of digits in a base. -/
def valueIn (base : Nat) (cs : List Char) : Nat :=
  (ungrouped cs).foldl (fun acc c ↦ acc * base + digitValue c) 0

/-- One or more characters, all of a class or underscores. -/
def allOf (p : Char → Bool) (cs : List Char) : Bool :=
  !cs.isEmpty && cs.all fun c ↦ p c || c == '_'

/-- Digits that start with a digit and may be grouped. -/
def isGrouped (cs : List Char) : Bool :=
  (cs.head?.any Char.isDigit) && allOf Char.isDigit cs

/-- The pieces between colons. -/
def colonPieces : List Char → List (List Char)
  | [] => [[]]
  | c :: cs =>
    if c = ':' then [] :: colonPieces cs
    else
      match colonPieces cs with
      | [] => [[c]]
      | p :: ps => (c :: p) :: ps

/-- A place of a number in base sixty: one digit, or two of which the first is at most five. -/
def isSixtieth : List Char → Bool
  | [a] => a.isDigit
  | [a, b] => '0' ≤ a && a ≤ '5' && b.isDigit
  | _ => false

/-- The value of places in base sixty. -/
def sixtieths (pieces : List (List Char)) : Nat :=
  pieces.foldl (fun acc p ↦ acc * 60 + valueIn 10 p) 0

/-- The whole number that unsigned characters spell. -/
def natural? (cs : List Char) : Option Nat :=
  match cs with
  | '0' :: 'b' :: ds => if allOf (fun c ↦ c = '0' || c = '1') ds then some (valueIn 2 ds) else none
  | '0' :: 'x' :: ds =>
    if allOf (fun c ↦ c.isDigit || ('a' ≤ c.toLower && c.toLower ≤ 'f')) ds then
      some (valueIn 16 ds)
    else none
  | ['0'] => some 0
  | '0' :: ds => if allOf (fun c ↦ '0' ≤ c && c ≤ '7') ds then some (valueIn 8 ds) else none
  | _ =>
    match colonPieces cs with
    | [ds] => if isGrouped ds then some (valueIn 10 ds) else none
    | ds :: rest =>
      if isGrouped ds && rest.all isSixtieth then some (sixtieths (ds :: rest)) else none
    | [] => none

/-- A mark of the power, its sign, and digits. -/
def isPower : List Char → Bool
  | e :: s :: ds =>
    (e = 'e' || e = 'E') && (s = '-' || s = '+') && !ds.isEmpty && ds.all Char.isDigit
  | _ => false

/-- A decimal with a point: the digits around it are given, `whole` may be empty only if the
fraction starts with a digit. -/
def isPointed (whole fraction : List Char) : Bool :=
  let digits := fraction.takeWhile fun c ↦ c.isDigit || c = '_'
  let rest := fraction.dropWhile fun c ↦ c.isDigit || c = '_'
  (rest.isEmpty || isPower rest) &&
    (if whole.isEmpty then digits.head?.any Char.isDigit else isGrouped whole)

/-- The number with a point that unsigned characters spell. A number that starts with its point
bears no sign. -/
def pointed? (negative signed : Bool) (cs : List Char) : Option Binary64 :=
  if cs ∈ [".inf".toList, ".Inf".toList, ".INF".toList] then some (.infinite negative)
  else if !signed && cs ∈ [".nan".toList, ".NaN".toList, ".NAN".toList] then some .nan
  else
    let whole := cs.takeWhile (· != '.')
    match cs.dropWhile (· != '.') with
    | '.' :: fraction =>
      match colonPieces whole with
      | [_] =>
        if isPointed whole fraction && !(signed && whole.isEmpty) then
          let value := Binary64.ofText? (String.ofList (ungrouped cs))
          if negative then value.map fun x ↦ match x with
            | .finite _ m e fits => .finite true m e fits
            | x => x
          else value
        else none
      | ds :: rest =>
        if isGrouped ds && rest.all isSixtieth && fraction.all (fun c ↦ c.isDigit || c = '_') then
          let digits := ungrouped fraction
          let n := sixtieths (ds :: rest) * Nat.pow 10 digits.length + valueIn 10 digits
          some (.ofDecimal negative n (-(digits.length : Int)))
        else none
      | [] => none
    | _ => none

/-- Between `least` and `most` digits at the start of some characters, and the rest. -/
def takeDigits? (least most : Nat) (cs : List Char) : Option (List Char) :=
  let n := min most (cs.takeWhile Char.isDigit).length
  if least ≤ n then some (cs.drop n) else none

/-- A character at the start of some characters taken off. -/
def takeChar? (c : Char) : List Char → Option (List Char)
  | d :: cs => if c = d then some cs else none
  | [] => none

/-- The end of a point in time: the zone, if there is one. -/
def isZone (cs : List Char) : Bool :=
  match cs.dropWhile fun c ↦ c = ' ' || c = '\t' with
  | [] => cs.isEmpty
  | ['Z'] => true
  | s :: rest =>
    (s = '-' || s = '+') &&
      match takeDigits? 1 2 rest with
      | some [] => true
      | some (':' :: m) => takeDigits? 2 2 m == some []
      | _ => false

/-- A day, or a day and a time. -/
def isTime (cs : List Char) : Bool :=
  let day : Option (List Char) := do
    let cs ← takeDigits? 4 4 cs
    let cs ← takeChar? '-' cs
    let cs ← takeDigits? 2 2 cs
    let cs ← takeChar? '-' cs
    takeDigits? 2 2 cs
  let clock : Option (List Char) := do
    let cs ← takeDigits? 4 4 cs
    let cs ← takeChar? '-' cs
    let cs ← takeDigits? 1 2 cs
    let cs ← takeChar? '-' cs
    let cs ← takeDigits? 1 2 cs
    let cs ← match cs with
      | 't' :: cs => some cs
      | 'T' :: cs => some cs
      | c :: _ =>
        if c = ' ' ∨ c = '\t' then some (cs.dropWhile fun c ↦ c = ' ' || c = '\t') else none
      | [] => none
    let cs ← takeDigits? 1 2 cs
    let cs ← takeChar? ':' cs
    let cs ← takeDigits? 2 2 cs
    let cs ← takeChar? ':' cs
    let cs ← takeDigits? 2 2 cs
    match cs with
    | '.' :: cs => some (cs.dropWhile Char.isDigit)
    | cs => some cs
  day == some [] || clock.any isZone

/-- What a plain scalar means. -/
def meaning (s : String) : Meaning :=
  if nullWords.contains s then .null
  else
    match truthWords.lookup s with
    | some b => .bool b
    | none =>
      let (negative, cs) := Binary64.readSign s.toList
      let signed := cs.length < s.length
      match pointed? negative signed cs, natural? cs with
      | some x, _ => .float x
      | none, some n => .int (if negative then -(n : Int) else n)
      | none, none =>
        if isTime s.toList then .time
        else if s = "=" ∨ s = "<<" then .mark
        else .text

/-- The value of a plain scalar. -/
def plainValue (s : String) : Value :=
  match meaning s with
  | .null => .null
  | .bool b => .bool b
  | .int i => .int i
  | .float x => .float x
  | _ => .str s

end DeclClosure.Yaml

import DeclClosure.Json.Literal
import DeclClosure.Json.Reader
import DeclClosure.Yaml.Scalar

/-!
# Reading indented documents

A document is a scalar, a mapping or a sequence. Collections are written in brackets, or as blocks
whose extent is given by the column in which they start. A block mapping starts at a column where a
new entry may stand, with a key on one line; its values lie further to the right, except that a
block sequence may start in the column of the key that it belongs to.

The reader walks through the characters with a cursor that knows its column. Every function answers
`none` for a text that cannot be read: brackets that are not closed, a second colon on a line, a
tabulator where a token should start, a second document, a character that no text may hold.
-/

namespace DeclClosure.Yaml

open Json (Value)

/-- A position in a text: what is left to read, and the column. -/
structure Cursor where
  /-- What is left. -/
  rest : List Char
  /-- How many characters precede on the line. -/
  column : Nat

/-- The characters that may stand in a text. -/
def isAllowed (c : Char) : Bool :=
  let n := c.toNat
  n == 0x09 || n == 0x0A || n == 0x0D || (0x20 ≤ n && n ≤ 0x7E) || n == 0x85
    || (0xA0 ≤ n && n ≤ 0xD7FF) || (0xE000 ≤ n && n ≤ 0xFFFD) || 0x10000 ≤ n

/-- The characters that end a line. -/
def isBreak (c : Char) : Bool :=
  c == '\n' || c == '\x85' || c == '\u2028' || c == '\u2029'

/-- A blank, the end of a line, or the end of the text. -/
def endsToken : List Char → Bool
  | [] => true
  | c :: _ => c == ' ' || c == '\t' || isBreak c

/-- The cursor after `n` characters of the same line. -/
def Cursor.forward (k : Cursor) (n : Nat) : Cursor :=
  ⟨k.rest.drop n, k.column + n⟩

/-- The cursor after the blanks that follow. -/
def Cursor.skipBlanks (k : Cursor) : Cursor :=
  k.forward (k.rest.takeWhile (· == ' ')).length

/-- The cursor at the next token, past blanks, remarks and line ends, and whether a line ended. -/
def Cursor.toToken : Nat → Bool → Cursor → Cursor × Bool
  | 0, crossed, k => (k, crossed)
  | n + 1, crossed, k =>
    let k := k.skipBlanks
    let k := match k.rest with
      | '#' :: _ => k.forward (k.rest.takeWhile fun c ↦ !isBreak c).length
      | _ => k
    match k.rest with
    | c :: cs => if isBreak c then toToken n true ⟨cs, 0⟩ else (k, crossed)
    | [] => (k, crossed)

/-- The cursor at the next token, and whether a line ended on the way. -/
def Cursor.next (k : Cursor) : Cursor × Bool :=
  k.toToken (k.rest.length + 1) false

/-- A line that marks the start or the end of a document. -/
def Cursor.atMark (k : Cursor) : Bool :=
  k.column == 0 &&
    match k.rest with
    | '-' :: '-' :: '-' :: cs => endsToken cs
    | '.' :: '.' :: '.' :: cs => endsToken cs
    | _ => false

/-- Nothing more of the document follows. -/
def Cursor.atEnd (k : Cursor) : Bool :=
  k.rest.isEmpty || k.atMark

/-- A dash that starts an entry of a block sequence. -/
def Cursor.atDash (k : Cursor) : Bool :=
  match k.rest with
  | '-' :: cs => endsToken cs
  | _ => false

/-! ### Scalars -/

/-- The characters of a plain scalar up to a blank or its end. -/
def plainChunk (flow : Bool) : List Char → Nat
  | [] => 0
  | c :: cs =>
    if c == ' ' || c == '\t' || isBreak c then 0
    else if c == ':' && (endsToken cs || (flow && cs.head?.any (",[]\x7b\x7d".toList.contains ·))) then
      0
    else if flow && ",?[]\x7b\x7d".toList.contains c then 0
    else plainChunk flow cs + 1

/-- The blanks and line ends after a piece of a scalar: the text they fold to, the cursor after
them, and whether a line ended. A single line end folds to a blank, each further one stays. -/
def foldSpace (k : Cursor) : List Char × Cursor × Bool :=
  let after := k.skipBlanks
  match after.rest with
  | c :: cs =>
    if isBreak c then
      let rec go : Nat → Nat → List Char → Nat × Cursor
        | 0, breaks, cs => (breaks, ⟨cs, 0⟩)
        | n + 1, breaks, cs =>
          let line := (Cursor.mk cs 0).skipBlanks
          match line.rest with
          | d :: ds => if isBreak d then go n (breaks + 1) ds else (breaks, line)
          | [] => (breaks, line)
      let (breaks, line) := go cs.length 0 cs
      (if breaks = 0 then [' '] else List.replicate breaks '\n', line, true)
    else (List.replicate (after.column - k.column) ' ', after, false)
  | [] => ([], after, false)

/-- A plain scalar continued from the characters in `acc`: its text, the cursor after it, and
whether it takes more than one line. Lines that continue it must start at `least` or further right.
-/
def readPlain (flow : Bool) (least : Nat) : Nat → List Char → Bool → Cursor →
    List Char × Cursor × Bool
  | 0, acc, lines, k => (acc, k, lines)
  | n + 1, acc, lines, k =>
    let length := plainChunk flow k.rest
    if length = 0 then (acc, k, lines)
    else
      let acc := acc ++ k.rest.take length
      let here := k.forward length
      let (space, line, crossed) := foldSpace here
      if space.isEmpty || line.rest.isEmpty || line.rest.head? == some '#' || line.atMark
          || (!flow && line.column < least && crossed) || plainChunk flow line.rest = 0 then
        (acc, here, lines)
      else readPlain flow least n (acc ++ space) (lines || crossed) line

/-- The rest of a scalar in single quotes: its text, the cursor after it, and whether it takes more
than one line. -/
def readSingle : Nat → List Char → Bool → Cursor → Option (List Char × Cursor × Bool)
  | 0, _, _, _ => none
  | n + 1, acc, lines, k =>
    if k.atMark then none
    else
      match k.rest with
      | [] => none
      | '\'' :: '\'' :: _ => readSingle n (acc ++ ['\'']) lines (k.forward 2)
      | '\'' :: _ => some (acc, k.forward 1, lines)
      | c :: _ =>
        if c == ' ' || isBreak c then
          let (space, line, crossed) := foldSpace k
          readSingle n (acc ++ space) (lines || crossed) line
        else readSingle n (acc ++ [c]) lines (k.forward 1)

/-- The characters that an escape by letter stands for. -/
def escapes : List (Char × Char) :=
  [('0', '\x00'), ('a', '\x07'), ('b', '\x08'), ('t', '\t'), ('\t', '\t'), ('n', '\n'),
    ('v', '\x0b'), ('f', '\x0c'), ('r', '\r'), ('e', '\x1b'), (' ', ' '), ('"', '"'), ('/', '/'),
    ('\\', '\\'), ('N', '\x85'), ('_', '\u00a0'), ('L', '\u2028'), ('P', '\u2029')]

/-- The character with a number of that many hexadecimal digits. -/
def readNumbered (width : Nat) (cs : List Char) : Option Char := do
  let digits ← (cs.take width).mapM Json.hexValue?
  if digits.length = width then some (Char.ofNat (digits.foldl (fun a d ↦ a * 16 + d) 0)) else none

/-- The rest of a scalar in double quotes: its text, the cursor after it, and whether it takes more
than one line. -/
def readDouble : Nat → List Char → Bool → Cursor → Option (List Char × Cursor × Bool)
  | 0, _, _, _ => none
  | n + 1, acc, lines, k =>
    if k.atMark then none
    else
      match k.rest with
      | [] => none
      | '"' :: _ => some (acc, k.forward 1, lines)
      | '\\' :: 'x' :: cs =>
        (readNumbered 2 cs).bind fun c ↦ readDouble n (acc ++ [c]) lines (k.forward 4)
      | '\\' :: 'u' :: cs =>
        (Json.readEscapedUnit cs).bind fun (c, rest) ↦
          readDouble n (acc ++ [c]) lines (k.forward (cs.length - rest.length + 2))
      | '\\' :: 'U' :: cs =>
        (readNumbered 8 cs).bind fun c ↦ readDouble n (acc ++ [c]) lines (k.forward 10)
      | '\\' :: c :: _ =>
        if isBreak c then
          let (space, line, _) := foldSpace (k.forward 1)
          readDouble n (acc ++ space.filter (· == '\n')) true line
        else (escapes.lookup c).bind fun d ↦ readDouble n (acc ++ [d]) lines (k.forward 2)
      | c :: _ =>
        if c == ' ' || isBreak c then
          let (space, line, crossed) := foldSpace k
          readDouble n (acc ++ space) (lines || crossed) line
        else readDouble n (acc ++ [c]) lines (k.forward 1)

/-- A plain scalar may start here. -/
def startsPlain (flow : Bool) : List Char → Bool
  | [] => false
  | c :: cs =>
    if "-?:".toList.contains c then !endsToken cs && (c == '-' || !flow)
    else !(",[]\x7b\x7d#&*!|>'\"%@".toList.contains c || c.toNat == 0x60 || c == ' ' || c == '\t'
      || isBreak c)

/-! ### Collections in brackets -/

/-- The text under which a value can be a key. -/
def keyText? : Value → Option String
  | .str s => some s
  | .null => some "null"
  | .bool b => some (if b then "true" else "false")
  | .int i => some (toString i)
  | .float x => some x.write
  | _ => none

mutual

/-- A scalar or a collection in brackets: its value, the cursor after it, and whether it takes more
than one line. -/
def readAtom (flow : Bool) (least : Nat) : Nat → Cursor → Option (Value × Cursor × Bool)
  | 0, _ => none
  | n + 1, k =>
    match k.rest with
    | '"' :: _ =>
      (readDouble k.rest.length [] false (k.forward 1)).map fun (s, k, lines) ↦
        (.str (String.ofList s), k, lines)
    | '\'' :: _ =>
      (readSingle k.rest.length [] false (k.forward 1)).map fun (s, k, lines) ↦
        (.str (String.ofList s), k, lines)
    | '\x5b' :: _ => readFlowItems n [] false (k.forward 1)
    | '\x7b' :: _ => readFlowMembers n [] false (k.forward 1)
    | cs =>
      if startsPlain flow cs then
        let (s, k, lines) := readPlain flow least (cs.length + 1) [] false k
        some (plainValue (String.ofList s), k, lines)
      else none

/-- The items of a bracketed list up to its end. An item may be a single member. -/
def readFlowItems : Nat → List Value → Bool → Cursor → Option (Value × Cursor × Bool)
  | 0, _, _, _ => none
  | n + 1, acc, lines, k =>
    let (k, crossed) := k.next
    let lines := lines || crossed
    if k.atEnd then none
    else
      match k.rest with
      | '\x5d' :: _ => some (.list acc, k.forward 1, lines)
      | _ =>
        match readFlowEntry n k with
        | none => none
        | some ((key, value?), k, more) =>
          let item := match value? with
            | none => some key
            | some v => (keyText? key).map fun t ↦ .object [(t, v)]
          let (k, crossed) := k.next
          let lines := lines || more || crossed
          match item, k.rest with
          | some item, ',' :: _ => readFlowItems n (acc ++ [item]) lines (k.forward 1)
          | some item, '\x5d' :: _ => some (.list (acc ++ [item]), k.forward 1, lines)
          | _, _ => none

/-- The members of a bracketed mapping up to its end. -/
def readFlowMembers : Nat → List (String × Value) → Bool → Cursor → Option (Value × Cursor × Bool)
  | 0, _, _, _ => none
  | n + 1, acc, lines, k =>
    let (k, crossed) := k.next
    let lines := lines || crossed
    if k.atEnd then none
    else
      match k.rest with
      | '\x7d' :: _ => some (.object acc, k.forward 1, lines)
      | _ =>
        match readFlowEntry n k with
        | none => none
        | some ((key, value?), k, more) =>
          let (k, crossed) := k.next
          let lines := lines || more || crossed
          match keyText? key, k.rest with
          | some t, ',' :: _ =>
            readFlowMembers n (Json.putMember acc t (value?.getD .null)) lines (k.forward 1)
          | some t, '\x7d' :: _ =>
            some (.object (Json.putMember acc t (value?.getD .null)), k.forward 1, lines)
          | _, _ => none

/-- A value in brackets, and the value after its colon if it has one. -/
def readFlowEntry : Nat → Cursor → Option ((Value × Option Value) × Cursor × Bool)
  | 0, _ => none
  | n + 1, k =>
    match readAtom true 0 n k with
    | none => none
    | some (key, k, lines) =>
      let (colon, crossed) := k.next
      match colon.rest with
      | ':' :: _ =>
        let (after, crossed') := (colon.forward 1).next
        let lines := lines || crossed || crossed'
        if after.atEnd then none
        else
          match after.rest with
          | c :: _ =>
            if c == ',' || c == '\x5d' || c == '\x7d' then some ((key, some .null), after, lines)
            else
              (readAtom true 0 n after).map fun (v, k, more) ↦ ((key, some v), k, lines || more)
          | [] => none
      | _ => some ((key, none), k, lines)

end

/-! ### Blocks -/

mutual

/-- The node at the cursor. `least` is the column that continuation lines must reach, `block` tells
whether a block may start here. -/
def readNode (least : Nat) (block : Bool) : Nat → Cursor → Option (Value × Cursor)
  | 0, _ => none
  | n + 1, k =>
    if k.atDash then (if block then readSequence k.column n [] k else none)
    else
      match readAtom false least n k with
      | none => none
      | some (v, after, lines) =>
        let colon := after.skipBlanks
        match colon.rest with
        | ':' :: cs =>
          if !endsToken cs || lines || !block then none
          else
            match keyText? v with
            | some t => readMapping k.column n [] t (colon.forward 1)
            | none => none
        | _ => some (v, after)

/-- The entries of a block sequence that stands in a column, after those in `acc`. The cursor is at
a dash. -/
def readSequence (column : Nat) : Nat → List Value → Cursor → Option (Value × Cursor)
  | 0, _, _ => none
  | n + 1, acc, k =>
    let (item, crossed) := (k.forward 1).next
    let entry : Option (Value × Cursor) :=
      if item.atEnd || (crossed && item.column ≤ column) then some (.null, k.forward 1)
      else readNode (column + 1) true n item
    match entry with
    | none => none
    | some (v, after) =>
      let (next, crossed) := after.next
      if next.atEnd || (crossed && next.column < column) then some (.list (acc ++ [v]), after)
      else if !crossed || column < next.column then none
      else if next.atDash then readSequence column n (acc ++ [v]) next
      else some (.list (acc ++ [v]), after)

/-- The entries of a block mapping that stands in a column, after those in `acc`. The cursor is
after the colon of a key. -/
def readMapping (column : Nat) : Nat → List (String × Value) → String → Cursor →
    Option (Value × Cursor)
  | 0, _, _, _ => none
  | n + 1, acc, key, k =>
    let (item, crossed) := k.next
    let entry : Option (Value × Cursor) :=
      if item.atEnd then some (.null, k)
      else if !crossed then readNode (column + 1) false n item
      else if column < item.column then readNode (column + 1) true n item
      else if column = item.column && item.atDash then readSequence column n [] item
      else some (.null, k)
    match entry with
    | none => none
    | some (v, after) =>
      let acc := Json.putMember acc key v
      let (next, crossed) := after.next
      if next.atEnd || (crossed && next.column < column) then some (.object acc, after)
      else if !crossed || column < next.column || next.atDash then none
      else
        match readAtom false (column + 1) n next with
        | none => none
        | some (v, after, lines) =>
          let colon := after.skipBlanks
          match colon.rest, keyText? v with
          | ':' :: cs, some t =>
            if !endsToken cs || lines then none else readMapping column n acc t (colon.forward 1)
          | _, _ => none

end

/-- The document that a text holds; a text without one means nothing at all. -/
def read? (text : String) : Option Value :=
  if !text.toList.all isAllowed then none
  else
    let chars := match text.toList with
      | '\ufeff' :: cs => cs
      | cs => cs
    let (start, _) := (Cursor.mk chars 0).next
    let (k, block) :=
      if start.atMark && start.rest.head? == some '-' then (start.forward 3).next else (start, true)
    let node : Option (Value × Cursor) :=
      if k.atEnd then some (.null, k) else readNode 0 block (2 * chars.length + 4) k
    match node with
    | none => none
    | some (v, after) =>
      let (next, _) := after.next
      let next := if next.atMark && next.rest.head? == some '.' then (next.forward 3).next.1 else next
      if next.rest.isEmpty then some v else none

end DeclClosure.Yaml

import DeclClosure.Text.Printable

/-!
# Quoted texts and bytes

The written form of a text or a byte string as a literal. The quote is the single one, unless the
text holds a single and no double quote; the quote in use and the backslash are escaped, and so is
everything that is not printable, by the shortest escape that fits the code point.
-/

namespace DeclClosure.Text

/-- The last `width` hexadecimal digits of `n`, in small letters. -/
def hexDigits (width n : Nat) : String :=
  let digits := Nat.toDigits 16 n
  String.ofList (List.replicate (width - digits.length) '0' ++ digits)

/-- The quote that needs fewer escapes, the single one on a tie. -/
def quoteFor (hasSingle hasDouble : Bool) : Char :=
  if hasSingle && !hasDouble then '"' else '\''

/-- The escapes that texts and bytes share, `none` where the character stands for itself or needs
an escape by number. -/
def shortEscape? (quote c : Char) : Option String :=
  if c = quote ∨ c = '\\' then some (String.ofList ['\\', c])
  else if c = '\t' then some "\\t"
  else if c = '\n' then some "\\n"
  else if c = '\r' then some "\\r"
  else none

/-- A character within quotes. -/
def quotedChar (quote c : Char) : String :=
  match shortEscape? quote c with
  | some e => e
  | none =>
    if isPrintable c then c.toString
    else if c.toNat < 0x100 then "\\x" ++ hexDigits 2 c.toNat
    else if c.toNat < 0x10000 then "\\u" ++ hexDigits 4 c.toNat
    else "\\U" ++ hexDigits 8 c.toNat

/-- The literal of a text. -/
def quoted (s : String) : String :=
  let quote := quoteFor (s.toList.contains '\'') (s.toList.contains '"')
  quote.toString ++ String.join (s.toList.map (quotedChar quote)) ++ quote.toString

/-- A byte within quotes: only the printable half of the first 128 codes stands for itself. -/
def quotedByte (quote : Char) (b : UInt8) : String :=
  let c := Char.ofNat b.toNat
  match shortEscape? quote c with
  | some e => e
  | none => if 32 ≤ b.toNat ∧ b.toNat < 127 then c.toString else "\\x" ++ hexDigits 2 b.toNat

/-- The literal of a byte string. -/
def quotedBytes (bs : List UInt8) : String :=
  let quote := quoteFor (bs.contains 39) (bs.contains 34)
  "b" ++ quote.toString ++ String.join (bs.map (quotedByte quote)) ++ quote.toString

end DeclClosure.Text

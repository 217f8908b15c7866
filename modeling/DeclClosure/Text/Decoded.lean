import DeclClosure.Text.Quoted

/-!
# Texts and bytes

The encoding of texts by one to four bytes a character, with only the shortest form of each
character allowed and no surrogates. `decode` stops at the first bytes that begin no character and
tells which they are and why. Bytes at the end that wait for more are set aside until it is certain
that no more will come, so a complaint about them counts from the first of them.
-/

namespace DeclClosure.Text

/-- Why some bytes are no text. -/
inductive DecodeReason where
  | invalidStart
  | invalidContinuation
  | unexpectedEnd
deriving DecidableEq, Repr

/-- The wording of the reason. -/
def DecodeReason.message : DecodeReason → String
  | .invalidStart => "invalid start byte"
  | .invalidContinuation => "invalid continuation byte"
  | .unexpectedEnd => "unexpected end of data"

/-- The bytes that are no text: where they start, what they are, and why. -/
structure DecodeError where
  /-- How many bytes precede. -/
  position : Nat
  /-- The bytes at fault. -/
  bytes : List UInt8
  /-- Why they are at fault. -/
  reason : DecodeReason
deriving DecidableEq, Repr

/-- The wording of the error. -/
def DecodeError.message (e : DecodeError) : String :=
  let place := match e.bytes with
    | [b] => "byte 0x" ++ hexDigits 2 b.toNat ++ " in position " ++ toString e.position
    | bs =>
      "bytes in position " ++ toString e.position ++ "-"
        ++ toString (e.position + bs.length - 1)
  "'utf-8' codec can't decode " ++ place ++ ": " ++ e.reason.message

/-- How many bytes follow a first byte, the bounds of the second one, and what the first one
contributes; `none` for a byte that starts no character. -/
def startByte? (b : Nat) : Option (Nat × Nat × Nat × Nat) :=
  if b < 0x80 then some (0, 0, 0, b)
  else if b < 0xC2 then none
  else if b < 0xE0 then some (1, 0x80, 0xBF, b - 0xC0)
  else if b < 0xF0 then
    some (2, if b = 0xE0 then 0xA0 else 0x80, if b = 0xED then 0x9F else 0xBF, b - 0xE0)
  else if b < 0xF5 then
    some (3, if b = 0xF0 then 0x90 else 0x80, if b = 0xF4 then 0x8F else 0xBF, b - 0xF0)
  else none

/-- Reads the bytes that continue a character: its number, or how many of them are sound and why the
next one is not. -/
def continueChar (n low high acc : Nat) : Nat → List UInt8 → Except (Nat × DecodeReason) Nat
  | sound, bytes =>
    match n with
    | 0 => .ok acc
    | n + 1 =>
      match bytes with
      | [] => .error (sound, .unexpectedEnd)
      | b :: bs =>
        if low ≤ b.toNat ∧ b.toNat ≤ high then
          continueChar n 0x80 0xBF (acc * 64 + (b.toNat - 0x80)) (sound + 1) bs
        else .error (sound, .invalidContinuation)

/-- The bytes at the end wait for more: their character is unfinished, or they are the first two of
the three bytes of a surrogate. -/
def waits (bytes : List UInt8) : DecodeReason → Bool
  | .unexpectedEnd => true
  | .invalidContinuation =>
    match bytes with
    | [a, b] => a.toNat == 0xED && 0xA0 ≤ b.toNat && b.toNat ≤ 0xBF
    | _ => false
  | .invalidStart => false

/-- The characters of some bytes, which start at a position; `fuel` bounds their number. -/
def decodeFrom : Nat → Nat → List Char → List UInt8 → Except DecodeError (List Char)
  | 0, _, acc, _ => .ok acc.reverse
  | _, _, acc, [] => .ok acc.reverse
  | fuel + 1, position, acc, b :: bs =>
    match startByte? b.toNat with
    | none => .error ⟨position, [b], .invalidStart⟩
    | some (n, low, high, first) =>
      match continueChar n low high first 0 bs with
      | .ok c => decodeFrom fuel (position + n + 1) (Char.ofNat c :: acc) (bs.drop n)
      | .error (sound, reason) =>
        let position := if waits (b :: bs) reason then 0 else position
        .error ⟨position, b :: bs.take sound, reason⟩

/-- The bytes of a text. -/
def encode (s : String) : List UInt8 :=
  s.toList.flatMap String.utf8EncodeChar

/-- The text of some bytes. -/
def decode (bytes : List UInt8) : Except DecodeError String :=
  (decodeFrom bytes.length 0 [] bytes).map String.ofList

end DeclClosure.Text

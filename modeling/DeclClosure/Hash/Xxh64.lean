import DeclClosure.Text.Quoted

/-!
# A 64-bit fingerprint of bytes

The non-cryptographic hash with four lanes of eight bytes, seed 0: whole stripes of 32 bytes go
through the lanes, the rest is mixed in by eight, four and single bytes, and a final avalanche
spreads every bit. All arithmetic is that of 64-bit words.
-/

namespace DeclClosure.Hash

/-- The five odd constants of the mixing steps. -/
def prime1 : UInt64 := 0x9E3779B185EBCA87
@[inherit_doc prime1] def prime2 : UInt64 := 0xC2B2AE3D27D4EB4F
@[inherit_doc prime1] def prime3 : UInt64 := 0x165667B19E3779F9
@[inherit_doc prime1] def prime4 : UInt64 := 0x85EBCA77C2B2AE63
@[inherit_doc prime1] def prime5 : UInt64 := 0x27D4EB2F165667C5

/-- Rotation to the left by less than a whole word. -/
def rotateLeft (x n : UInt64) : UInt64 :=
  (x <<< n) ||| (x >>> (64 - n))

/-- The word that some bytes spell, least byte first. -/
def littleEndian (bytes : List UInt8) : UInt64 :=
  bytes.foldr (fun b acc ↦ (acc <<< 8) ||| b.toUInt64) 0

/-- One step of a lane. -/
def round (acc input : UInt64) : UInt64 :=
  rotateLeft (acc + input * prime2) 31 * prime1

/-- Mixes a lane into the sum of the lanes. -/
def mergeRound (acc lane : UInt64) : UInt64 :=
  (acc ^^^ round 0 lane) * prime1 + prime4

/-- The four lanes. -/
structure Lanes where
  /-- The first lane. -/
  v1 : UInt64
  /-- The second lane. -/
  v2 : UInt64
  /-- The third lane. -/
  v3 : UInt64
  /-- The fourth lane. -/
  v4 : UInt64

/-- The lanes before the first stripe. -/
def Lanes.start : Lanes :=
  ⟨prime1 + prime2, prime2, 0, 0 - prime1⟩

/-- The lanes after a stripe of 32 bytes. -/
def Lanes.absorb (l : Lanes) (stripe : List UInt8) : Lanes where
  v1 := round l.v1 (littleEndian (stripe.take 8))
  v2 := round l.v2 (littleEndian ((stripe.drop 8).take 8))
  v3 := round l.v3 (littleEndian ((stripe.drop 16).take 8))
  v4 := round l.v4 (littleEndian ((stripe.drop 24).take 8))

/-- The sum of the lanes. -/
def Lanes.converge (l : Lanes) : UInt64 :=
  let sum := rotateLeft l.v1 1 + rotateLeft l.v2 7 + rotateLeft l.v3 12 + rotateLeft l.v4 18
  mergeRound (mergeRound (mergeRound (mergeRound sum l.v1) l.v2) l.v3) l.v4

/-- A number of stripes through the lanes, and the bytes that are left. -/
def absorbAll : Nat → Lanes → List UInt8 → Lanes × List UInt8
  | 0, l, bytes => (l, bytes)
  | n + 1, l, bytes => absorbAll n (l.absorb bytes) (bytes.drop 32)

/-- Mixes in a number of words of eight bytes. -/
def mixWords : Nat → UInt64 → List UInt8 → UInt64 × List UInt8
  | 0, acc, bytes => (acc, bytes)
  | n + 1, acc, bytes =>
    let acc := acc ^^^ round 0 (littleEndian (bytes.take 8))
    mixWords n (rotateLeft acc 27 * prime1 + prime4) (bytes.drop 8)

/-- Mixes in four bytes, if there are as many, and the others one by one. -/
def mixBytes (acc : UInt64) (bytes : List UInt8) : UInt64 :=
  let (acc, bytes) :=
    if 4 ≤ bytes.length then
      let acc := acc ^^^ (littleEndian (bytes.take 4) * prime1)
      (rotateLeft acc 23 * prime2 + prime3, bytes.drop 4)
    else (acc, bytes)
  bytes.foldl (fun acc b ↦ rotateLeft (acc ^^^ (b.toUInt64 * prime5)) 11 * prime1) acc

/-- Spreads every bit over the whole word. -/
def avalanche (acc : UInt64) : UInt64 :=
  let acc := (acc ^^^ (acc >>> 33)) * prime2
  let acc := (acc ^^^ (acc >>> 29)) * prime3
  acc ^^^ (acc >>> 32)

/-- The fingerprint of some bytes. -/
def xxh64 (bytes : List UInt8) : UInt64 :=
  let length := bytes.length
  let (start, rest) :=
    if 32 ≤ length then
      let (lanes, rest) := absorbAll (length / 32) Lanes.start bytes
      (lanes.converge, rest)
    else (prime5, bytes)
  let (acc, rest) := mixWords (rest.length / 8) (start + length.toUInt64) rest
  avalanche (mixBytes acc rest)

/-- The fingerprint of a text in its encoding by bytes, as sixteen hexadecimal digits. -/
def fingerprint (s : String) : String :=
  Text.hexDigits 16 (xxh64 s.toUTF8.toList).toNat

end DeclClosure.Hash

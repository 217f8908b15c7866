import DeclClosure.Number.Binary64

/-!
# The shortest decimal that reads back

A finite number stands for every real number that rounds to it. Of the decimals among those, the
written form takes one with the fewest digits, and of these the one nearest to the number. The
search goes through the decimal grids with one, two, … seventeen digits: if a point of a grid rounds
to the number, so does one of the number's two neighbours on that grid, so testing those two is
enough.
-/

namespace DeclClosure.Number

/-- The reals that round to a number, in quarters of its last place: the number itself, the two
ends, and whether the ends belong to it. -/
structure RoundingInterval where
  /-- The number. -/
  value : Nat
  /-- The lower end. -/
  low : Nat
  /-- The upper end. -/
  high : Nat
  /-- The ends round to the number too. -/
  closed : Bool
  /-- The power of two that a quarter of the last place stands for. -/
  exponent : Int
deriving DecidableEq, Repr

/-- The interval of a mantissa and an exponent. Below a power of two the numbers lie closer. -/
def RoundingInterval.of (m : Nat) (e : Int) : RoundingInterval where
  value := 4 * m
  low := if m = Nat.pow 2 52 ∧ e > -1074 then 4 * m - 1 else 4 * m - 2
  high := 4 * m + 2
  closed := m % 2 == 0
  exponent := e - 2

/-- A decimal: `digits * 10 ^ power`. -/
structure Decimal where
  /-- All digits as one number. -/
  digits : Nat
  /-- The power of ten of the last digit. -/
  power : Int
deriving DecidableEq, Repr, Inhabited

/-- The fraction `num / den` times `10 ^ p`, as a fraction. -/
def scaleUpTen (num den : Nat) : Int → Nat × Nat
  | .ofNat p => (num * Nat.pow 10 p, den)
  | .negSucc p => (num, den * Nat.pow 10 (p + 1))

namespace RoundingInterval

/-- `n` quarters of the last place as a multiple of `10 ^ p`. -/
def inGrid (i : RoundingInterval) (p : Int) (n : Nat) : Nat × Nat :=
  let (a, b) := scaleDown n 1 (-i.exponent)
  scaleUpTen a b (-p)

/-- The decimal `d * 10 ^ p` rounds to the number. -/
def contains (i : RoundingInterval) (d : Nat) (p : Int) : Bool :=
  let (ln, ld) := i.inGrid p i.low
  let (hn, hd) := i.inGrid p i.high
  if i.closed then ln ≤ d * ld && d * hd ≤ hn else ln < d * ld && d * hd < hn

/-- The place of the first digit of the number: the greatest `k` with `10 ^ k` at most the
number. -/
def firstPlace (i : RoundingInterval) : Int :=
  let (n, d) := i.inGrid 0 i.value
  let k : Int := ((Nat.toDigits 10 n).length : Int) - (Nat.toDigits 10 d).length
  let (a, b) := scaleUpTen n d (-k)
  if b ≤ a then k else k - 1

/-- The decimal on the grid of `n` digits that rounds to the number: the nearer of the number's
neighbours, the even one of two equally near. -/
def onGrid? (i : RoundingInterval) (n : Nat) : Option Decimal :=
  let p := i.firstPlace - n + 1
  let (a, b) := i.inGrid p i.value
  let d := a / b
  match i.contains d p, i.contains (d + 1) p with
  | true, true =>
    let twice := 2 * (a % b)
    some ⟨if b < twice ∨ (twice = b ∧ d % 2 = 1) then d + 1 else d, p⟩
  | true, false => some ⟨d, p⟩
  | false, true => some ⟨d + 1, p⟩
  | false, false => none

/-- The first grid with a decimal that rounds to the number. Seventeen digits always do. -/
def shortest (i : RoundingInterval) : Decimal :=
  ((List.range' 1 17).findSome? i.onGrid?).getD ⟨i.value, 0⟩

end RoundingInterval

/-- The digits of a decimal without zeros at the end, and the place of the point counted from the
first of them. -/
def Decimal.digitsAndPoint (x : Decimal) : List Char × Int :=
  let all := Nat.toDigits 10 x.digits
  let kept := (all.reverse.dropWhile (· == '0')).reverse
  (if kept.isEmpty then ['0'] else kept, x.power + all.length)

/-- How decimals are written: positionally while the point lies within the two bounds, otherwise
with a power of ten of at least two digits. A whole number keeps its point if `wholePoint`. -/
structure DecimalStyle where
  /-- The least place of the point that is written positionally. -/
  least : Int
  /-- The greatest place of the point that is written positionally. -/
  greatest : Int
  /-- A whole number is written with a point and a zero. -/
  wholePoint : Bool
deriving DecidableEq, Repr

/-- A power of ten: the mark, the sign, and at least two digits. -/
def writePower (p : Int) : String :=
  let digits := toString p.natAbs
  "e" ++ (if p < 0 then "-" else "+") ++ (if digits.length < 2 then "0" ++ digits else digits)

/-- A list of digits with the point at a place. -/
def DecimalStyle.write (style : DecimalStyle) (digits : List Char) (point : Int) : String :=
  if point < style.least ∨ style.greatest < point then
    let rest := digits.drop 1
    String.ofList (digits.take 1 ++ (if rest.isEmpty then [] else '.' :: rest))
      ++ writePower (point - 1)
  else if point ≤ 0 then
    String.ofList ('0' :: '.' :: (List.replicate (-point).toNat '0' ++ digits))
  else
    let n := point.toNat
    if digits.length ≤ n then
      String.ofList (digits ++ List.replicate (n - digits.length) '0')
        ++ (if style.wholePoint then ".0" else "")
    else String.ofList (digits.take n ++ '.' :: digits.drop n)

/-- Numbers stand positionally from `0.0001` up to, but not including, `10 ^ 16`. -/
def numberStyle : DecimalStyle := ⟨-3, 16, true⟩

/-- The parts of a complex number are written like numbers, but without the point of whole ones. -/
def partStyle : DecimalStyle := ⟨-3, 16, false⟩

namespace Binary64

/-- The number without its sign, in a style. -/
def writeMagnitude (style : DecimalStyle) : Binary64 → String
  | .nan => "nan"
  | .infinite _ => "inf"
  | .finite _ m e _ =>
    if m = 0 then (if style.wholePoint then "0.0" else "0")
    else
      let (digits, point) := (RoundingInterval.of m e).shortest.digitsAndPoint
      style.write digits point

/-- The number bears a minus sign. -/
def isNegative : Binary64 → Bool
  | .nan => false
  | .infinite negative => negative
  | .finite negative _ _ _ => negative

/-- The number in a style. -/
def writeIn (style : DecimalStyle) (a : Binary64) : String :=
  (if a.isNegative then "-" else "") ++ a.writeMagnitude style

/-- The written form of a number. -/
def write (a : Binary64) : String :=
  a.writeIn numberStyle

/-- The written form of a complex number: the imaginary part alone if the real part is the
positive zero, otherwise both parts in parentheses. -/
def writeComplex (re im : Binary64) : String :=
  let imaginary := im.writeMagnitude partStyle ++ "j"
  if re = .zero false then (if im.isNegative then "-" else "") ++ imaginary
  else
    "(" ++ re.writeIn partStyle ++ (if im.isNegative then "-" else "+") ++ imaginary ++ ")"

end Binary64

end DeclClosure.Number

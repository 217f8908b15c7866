/-!
# Binary floating-point numbers of 64 bits

A number is a sign, a mantissa below `2 ^ 53` and a power of two, so that every finite number is an
exact fraction. `ofRatio` is the rounding rule: to the nearest number, a half to the even mantissa.
It looks for the exponent at which the mantissa has 53 bits (`binade_spec`).
Nothing here depends on the floating-point operations of the machine, hence every value and every
comparison can be reasoned about in the integers.
-/

namespace DeclClosure.Number

/-- The mantissas and exponents of finite numbers. Of the ways to write a number it is the one with
the least exponent, so that every number is written in one way. -/
structure Fits (m : Nat) (e : Int) : Prop where
  /-- A mantissa has 53 bits. -/
  lt : m < Nat.pow 2 53
  /-- It needs all of them, unless the exponent is the least. -/
  normal : Nat.pow 2 52 ≤ m ∨ e = -1074
  least : -1074 ≤ e
  greatest : e ≤ 971

theorem fits_zero : Fits 0 (-1074) :=
  ⟨by decide, .inr rfl, by decide, by decide⟩

/-- A binary floating-point number. A finite one stands for `± mantissa * 2 ^ exponent`. -/
inductive Binary64 where
  | nan
  | infinite (negative : Bool)
  | finite (negative : Bool) (mantissa : Nat) (exponent : Int) (fits : Fits mantissa exponent)
deriving DecidableEq, Repr

/-- The zero of either sign. -/
def Binary64.zero (negative : Bool) : Binary64 :=
  .finite negative 0 (-1074) fits_zero

instance : Inhabited Binary64 :=
  ⟨.zero false⟩

/-! ### Rounding -/

/-- The quotient rounded to the nearest natural number, a half to the even one. -/
def roundDiv (num den : Nat) : Nat :=
  let q := num / den
  let r := num % den
  if den < 2 * r ∨ (2 * r = den ∧ q % 2 = 1) then q + 1 else q

theorem le_roundDiv (num den : Nat) : num / den ≤ roundDiv num den := by
  simp only [roundDiv]
  split
  · exact Nat.le_succ _
  · exact Nat.le_refl _

theorem roundDiv_le (num den : Nat) : roundDiv num den ≤ num / den + 1 := by
  simp only [roundDiv]
  split
  · exact Nat.le_refl _
  · exact Nat.le_succ _

/-- The fraction `num / den`, divided by `2 ^ e`, as a fraction. -/
def scaleDown (num den : Nat) : Int → Nat × Nat
  | .ofNat e => (num, den * Nat.pow 2 e)
  | .negSucc e => (num * Nat.pow 2 (e + 1), den)

/-- The fraction `num / den` is at least `c * 2 ^ e`. -/
def Reaches (num den c : Nat) (e : Int) : Prop :=
  c * (scaleDown num den e).2 ≤ (scaleDown num den e).1

section Reaches

variable {num den c : Nat} {e e' : Int}

theorem scaleDown_snd_pos (hden : den ≠ 0) (e : Int) : 0 < (scaleDown num den e).2 := by
  cases e with
  | ofNat e => exact Nat.mul_pos (Nat.pos_of_ne_zero hden) (Nat.pow_pos Nat.zero_lt_two)
  | negSucc e => exact Nat.pos_of_ne_zero hden

theorem reaches_iff_le_div (hden : den ≠ 0) :
    Reaches num den c e ↔ c ≤ (scaleDown num den e).1 / (scaleDown num den e).2 :=
  (Nat.le_div_iff_mul_le (scaleDown_snd_pos hden e)).symm

theorem reaches_succ : Reaches num den c (e + 1) ↔ Reaches num den (2 * c) e := by
  match e with
  | .ofNat e =>
    show c * (den * Nat.pow 2 (e + 1)) ≤ num ↔ 2 * c * (den * Nat.pow 2 e) ≤ num
    have hpow : Nat.pow 2 (e + 1) = Nat.pow 2 e * 2 := rfl
    rw [hpow]
    ac_nf
  | .negSucc 0 =>
    show c * (den * 1) ≤ num ↔ 2 * c * den ≤ num * 2
    rw [Nat.mul_one, Nat.mul_comm 2, Nat.mul_right_comm]
    exact (Nat.mul_le_mul_right_iff Nat.zero_lt_two).symm
  | .negSucc (e + 1) =>
    show c * den ≤ num * Nat.pow 2 (e + 1) ↔ 2 * c * den ≤ num * (Nat.pow 2 (e + 1) * 2)
    rw [Nat.mul_comm 2, Nat.mul_right_comm, ← Nat.mul_assoc]
    exact (Nat.mul_le_mul_right_iff Nat.zero_lt_two).symm

theorem Reaches.of_succ (h : Reaches num den c (e + 1)) : Reaches num den c e :=
  Nat.le_trans (Nat.mul_le_mul_right _ (Nat.le_mul_of_pos_left c Nat.zero_lt_two)) (reaches_succ.mp h)

theorem Reaches.of_le (h : Reaches num den c e') (hle : e ≤ e') : Reaches num den c e := by
  obtain ⟨k, rfl⟩ := Int.le.dest hle
  induction k with
  | zero => rwa [Int.natCast_zero, Int.add_zero] at h
  | succ k ih =>
    rw [Int.natCast_succ, ← Int.add_assoc] at h
    exact ih h.of_succ (Int.le_add_of_nonneg_right (Int.natCast_nonneg k))

end Reaches


/-- The exponent at which the mantissa of `num / den` has 53 bits, or the least exponent. -/
def binade (num den : Nat) : Int :=
  let guess : Int := max ((num.log2 : Int) - den.log2 - 53) (-1074)
  let (n, d) := scaleDown num den guess
  if n / d < Nat.pow 2 53 then guess else guess + 1

/-- The mantissa and the exponent of the number nearest to `num / den`, were there room for any
exponent. -/
def rounded (num den : Nat) : Nat × Int :=
  let e := binade num den
  let (n, d) := scaleDown num den e
  let m := roundDiv n d
  if m = Nat.pow 2 53 then (Nat.pow 2 52, e + 1) else (m, e)

section Rounded

variable {num den : Nat}

/-- The exponent that the numbers of digits suggest is the right one or one too small. -/
theorem reaches_log2 (hnum : num ≠ 0) (hden : den ≠ 0) :
    Reaches num den (Nat.pow 2 52) ((num.log2 : Int) - den.log2 - 53) ∧
      ¬Reaches num den (Nat.pow 2 54) ((num.log2 : Int) - den.log2 - 53) := by
  have hlow : Nat.pow 2 num.log2 ≤ num := Nat.log2_self_le hnum
  have hhigh : num < Nat.pow 2 (num.log2 + 1) := Nat.lt_log2_self
  have hlow' : Nat.pow 2 den.log2 ≤ den := Nat.log2_self_le hden
  have hhigh' : den < Nat.pow 2 (den.log2 + 1) := Nat.lt_log2_self
  generalize num.log2 = a at *
  generalize den.log2 = b at *
  have hadd : ∀ i j, Nat.pow 2 (i + j) = Nat.pow 2 i * Nat.pow 2 j := Nat.pow_add 2
  rcases he : (a : Int) - b - 53 with k | k
  · obtain rfl : a = 52 + (b + 1) + k := by
      have he : (a : Int) - b - 53 = k := he
      omega
    constructor
    · show Nat.pow 2 52 * (den * Nat.pow 2 k) ≤ num
      rw [hadd, hadd 52, Nat.mul_assoc] at hlow
      exact Nat.le_trans (Nat.mul_le_mul_left _ (Nat.mul_le_mul_right _ (Nat.le_of_lt hhigh'))) hlow
    · show ¬Nat.pow 2 54 * (den * Nat.pow 2 k) ≤ num
      have hsum : 52 + (b + 1) + k + 1 = 54 + (b + k) := by omega
      rw [hsum, hadd, hadd b] at hhigh
      exact Nat.not_le_of_lt (Nat.lt_of_lt_of_le hhigh
        (Nat.mul_le_mul_left _ (Nat.mul_le_mul_right _ hlow')))
  · have hsum : a + (k + 1) = 52 + (b + 1) := by omega
    constructor
    · show Nat.pow 2 52 * den ≤ num * Nat.pow 2 (k + 1)
      have hlow := Nat.mul_le_mul_right (Nat.pow 2 (k + 1)) hlow
      rw [← hadd, hsum, hadd] at hlow
      exact Nat.le_trans (Nat.mul_le_mul_left _ (Nat.le_of_lt hhigh')) hlow
    · show ¬Nat.pow 2 54 * den ≤ num * Nat.pow 2 (k + 1)
      have hhigh := Nat.mul_lt_mul_of_pos_right hhigh (Nat.pow_pos (n := k + 1) Nat.zero_lt_two)
      have hsum : a + 1 + (k + 1) = 54 + b := by omega
      refine Nat.not_le_of_lt (Nat.lt_of_lt_of_le hhigh ?_)
      have hpow : Nat.pow 2 (a + 1) * 2 ^ (k + 1) = Nat.pow 2 54 * Nat.pow 2 b := by
        rw [← hadd, ← hsum]
        exact (hadd (a + 1) (k + 1)).symm
      rw [hpow]
      exact Nat.mul_le_mul_left _ hlow'

/-- At its exponent a fraction needs no more than 53 bits, and no fewer unless the exponent is the
least. -/
theorem binade_spec (hnum : num ≠ 0) (hden : den ≠ 0) :
    ¬Reaches num den (Nat.pow 2 53) (binade num den) ∧
      (Reaches num den (Nat.pow 2 52) (binade num den) ∨ binade num den = -1074) ∧
        -1074 ≤ binade num den := by
  obtain ⟨hlow, hhigh⟩ := reaches_log2 hnum hden
  simp only [binade]
  generalize (num.log2 : Int) - den.log2 - 53 = g at *
  by_cases h : (scaleDown num den (max g (-1074))).1 / (scaleDown num den (max g (-1074))).2 <
      Nat.pow 2 53
  · rw [if_pos h]
    refine ⟨fun hreaches ↦ ?_, ?_, Int.le_max_right _ _⟩
    · exact Nat.not_le_of_lt h ((reaches_iff_le_div hden).mp hreaches)
    · rcases Int.le_total (-1074) g with hg | hg
      · rw [Int.max_eq_left hg]
        exact .inl hlow
      · exact .inr (Int.max_eq_right hg)
  · rw [if_neg h]
    refine ⟨fun hreaches ↦ ?_, .inl ?_, Int.le_trans (Int.le_max_right g _) (Int.le_add_one (Int.le_refl _))⟩
    · exact hhigh ((reaches_succ.mp hreaches).of_le (Int.le_max_left _ _))
    · exact reaches_succ.mpr ((reaches_iff_le_div hden).mpr (Nat.le_of_not_lt h))

/-- What has room is a mantissa and an exponent of a finite number. -/
theorem fits_rounded (hnum : num ≠ 0) (hden : den ≠ 0) (h : (rounded num den).2 ≤ 971) :
    Fits (rounded num den).1 (rounded num den).2 := by
  obtain ⟨hhigh, hlow, hleast⟩ := binade_spec hnum hden
  rw [reaches_iff_le_div hden] at hhigh hlow
  have hq := le_roundDiv (scaleDown num den (binade num den)).1 (scaleDown num den (binade num den)).2
  have hq' := roundDiv_le (scaleDown num den (binade num den)).1 (scaleDown num den (binade num den)).2
  simp only [rounded] at h ⊢
  split at h
  · rw [if_pos ‹_›]
    have hlt : Nat.pow 2 52 < Nat.pow 2 53 := by decide
    exact ⟨hlt, .inl (Nat.le_refl _), Int.le_trans hleast (Int.le_add_one (Int.le_refl _)), h⟩
  · rw [if_neg ‹_›]
    refine ⟨?_, hlow.imp_left fun hlow ↦ Nat.le_trans hlow hq, hleast, h⟩
    exact Nat.lt_of_le_of_ne (Nat.le_trans hq' (Nat.lt_of_not_le hhigh)) ‹_›

end Rounded

namespace Binary64

/-- The number nearest to `± num / den`. -/
def ofRatio (negative : Bool) (num den : Nat) : Binary64 :=
  if hzero : num = 0 ∨ den = 0 then .zero negative
  else if hlarge : 971 < (rounded num den).2 then .infinite negative
  else .finite negative (rounded num den).1 (rounded num den).2
    (fits_rounded (not_or.mp hzero).1 (not_or.mp hzero).2 (Int.not_lt.mp hlarge))

/-- The number nearest to `± digits * 10 ^ power`. -/
def ofDecimal (negative : Bool) (digits : Nat) : Int → Binary64
  | .ofNat p => ofRatio negative (digits * Nat.pow 10 p) 1
  | .negSucc p => ofRatio negative digits (Nat.pow 10 (p + 1))

/-- The value as a fraction with a positive denominator, `none` for what is not finite. -/
def ratio? : Binary64 → Option (Int × Nat)
  | .finite negative m e _ =>
    let (n, d) := scaleDown m 1 (-e)
    some (if negative then -(n : Int) else n, d)
  | _ => none

/-- Neither of the two zeros. -/
def isNonzero : Binary64 → Bool
  | .finite _ m _ _ => m != 0
  | _ => true

/-- Equality of numbers: a number that is no number equals none, and the two zeros are equal. -/
def equals : Binary64 → Binary64 → Bool
  | .nan, _ => false
  | _, .nan => false
  | .infinite a, .infinite b => a == b
  | a, b =>
    match a.ratio?, b.ratio? with
    | some (n, d), some (n', d') => n * d' == n' * d
    | _, _ => false

/-- Equality with an integer. -/
def equalsInt (a : Binary64) (i : Int) : Bool :=
  match a.ratio? with
  | some (n, d) => n == i * d
  | none => false

/-- The integer part, toward zero; `none` for what is not finite. -/
def truncate? (a : Binary64) : Option Int :=
  a.ratio?.map fun (n, d) ↦ n.tdiv d

/-! ### Reading -/

/-- The digits at the start of `cs`: their value continued from `acc`, how many there are, and the
rest. -/
def readDigits (acc count : Nat) : List Char → Nat × Nat × List Char
  | [] => (acc, count, [])
  | c :: cs =>
    if c.isDigit then readDigits (acc * 10 + (c.toNat - 48)) (count + 1) cs
    else (acc, count, c :: cs)

/-- A sign at the start of `cs`: whether it is the minus sign, and the rest. -/
def readSign : List Char → Bool × List Char
  | '-' :: cs => (true, cs)
  | '+' :: cs => (false, cs)
  | cs => (false, cs)

/-- The power of ten that ends a decimal: nothing, or a marked integer and then nothing. -/
def readPower? : List Char → Option Int
  | [] => some 0
  | c :: cs =>
    if c = 'e' ∨ c = 'E' then
      let (negative, cs) := readSign cs
      match readDigits 0 0 cs with
      | (p, n + 1, []) => let _ := n; some (if negative then -(p : Int) else p)
      | _ => none
    else none

/-- Reads a decimal, or one of the words for what is not finite. -/
def ofText? (s : String) : Option Binary64 :=
  let (negative, cs) := readSign s.toList
  let word := String.ofList (cs.map Char.toLower)
  if word = "inf" ∨ word = "infinity" then some (.infinite negative)
  else if word = "nan" then some .nan
  else
    let (whole, n, cs) := readDigits 0 0 cs
    let (digits, k, cs) := match cs with
      | '.' :: cs => readDigits whole 0 cs
      | cs => (whole, 0, cs)
    if n + k = 0 then none
    else (readPower? cs).map fun p ↦ ofDecimal negative digits (p - k)

end Binary64

end DeclClosure.Number

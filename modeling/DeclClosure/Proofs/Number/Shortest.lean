import DeclClosure.Proofs.Number.Rounding
import Mathlib.Algebra.Order.Field.Power

/-!
# The shortest decimal is a decimal of the number

The search through the decimal grids ends in the interval of the number (`shortest_holds`), so the number
is read back from its shortest decimal. A grid has a point in the interval as soon as its steps are
shorter than the interval. With seventeen digits they are: a step is no longer than the number divided by
`10 ^ 16`, which is more than `2 ^ 53`.
-/

namespace DeclClosure.Number

/-- The fraction that a decimal is. -/
def Decimal.ratio (x : Decimal) : ℚ :=
  x.digits * 10 ^ x.power

theorem scaleUpTen_ratio (num den : ℕ) (p : ℤ) :
    ((scaleUpTen num den p).1 : ℚ) / (scaleUpTen num den p).2 = num / den * 10 ^ p := by
  cases p with
  | ofNat p =>
    show ((num * 10 ^ p : ℕ) : ℚ) / den = num / den * 10 ^ (p : ℤ)
    rw [Nat.cast_mul, Nat.cast_pow, Nat.cast_ofNat, zpow_natCast, mul_div_right_comm]
  | negSucc p =>
    show (num : ℚ) / ((den * 10 ^ (p + 1) : ℕ) : ℚ) = num / den * 10 ^ Int.negSucc p
    rw [Nat.cast_mul, Nat.cast_pow, Nat.cast_ofNat, zpow_negSucc, ← div_eq_mul_inv, div_div]

theorem scaleUpTen_snd_pos {n d : ℕ} (hden : 0 < d) (p : ℤ) : 0 < (scaleUpTen n d p).2 := by
  cases p with
  | ofNat p => exact hden
  | negSucc p => exact Nat.mul_pos hden (Nat.pow_pos (by decide))

/-- The first digit of a natural number is not zero. -/
theorem pow_length_toDigits_le {n : ℕ} (hn : n ≠ 0) : 10 ^ ((Nat.toDigits 10 n).length - 1) ≤ n := by
  rcases Nat.eq_zero_or_pos ((Nat.toDigits 10 n).length - 1) with h | h
  · rw [h]
    omega
  · have := (Nat.length_toDigits_le_iff (b := 10) (n := n) (by decide) h).not
    omega

theorem lt_pow_length_toDigits (n : ℕ) : n < 10 ^ (Nat.toDigits 10 n).length :=
  (Nat.length_toDigits_le_iff (by decide) Nat.length_toDigits_pos).mp le_rfl

namespace RoundingInterval

variable {i : RoundingInterval} {p : ℤ} {d n : ℕ}

theorem inGrid_snd_pos (i : RoundingInterval) (p : ℤ) (n : ℕ) : 0 < (i.inGrid p n).2 :=
  scaleUpTen_snd_pos (scaleDown_snd_pos one_ne_zero _) _

theorem inGrid_ratio (i : RoundingInterval) (p : ℤ) (n : ℕ) :
    ((i.inGrid p n).1 : ℚ) / (i.inGrid p n).2 = n * 2 ^ i.exponent / 10 ^ p := by
  have heq : i.inGrid p n =
      scaleUpTen (scaleDown n 1 (-i.exponent)).1 (scaleDown n 1 (-i.exponent)).2 (-p) := rfl
  rw [heq, scaleUpTen_ratio, scaleDown_ratio, Nat.cast_one, div_one, zpow_neg, zpow_neg, div_inv_eq_mul,
    div_eq_mul_inv]

/-- The two tests of a decimal are the two halves of lying in the interval. -/
theorem contains_iff : i.contains d p ↔ i.Holds (Decimal.ratio ⟨d, p⟩) := by
  have hten : (0 : ℚ) < 10 ^ p := by positivity
  have hpos : ∀ n, (0 : ℚ) < (i.inGrid p n).2 := fun n ↦ Nat.cast_pos.mpr (i.inGrid_snd_pos p n)
  have hle : ∀ n : ℕ, (i.inGrid p n).1 ≤ d * (i.inGrid p n).2 ↔
      n * 2 ^ i.exponent ≤ Decimal.ratio ⟨d, p⟩ := fun n ↦ by
    rw [Decimal.ratio, ← div_le_iff₀ hten, ← inGrid_ratio, div_le_iff₀ (hpos n)]
    exact_mod_cast Iff.rfl
  have hge : ∀ n : ℕ, d * (i.inGrid p n).2 ≤ (i.inGrid p n).1 ↔
      Decimal.ratio ⟨d, p⟩ ≤ n * 2 ^ i.exponent := fun n ↦ by
    rw [Decimal.ratio, ← le_div_iff₀ hten, ← inGrid_ratio, le_div_iff₀ (hpos n)]
    exact_mod_cast Iff.rfl
  have heq : i.contains d p =
      if i.closed then decide ((i.inGrid p i.low).1 ≤ d * (i.inGrid p i.low).2) &&
        decide (d * (i.inGrid p i.high).2 ≤ (i.inGrid p i.high).1)
      else decide ((i.inGrid p i.low).1 < d * (i.inGrid p i.low).2) &&
        decide (d * (i.inGrid p i.high).2 < (i.inGrid p i.high).1) := rfl
  rw [heq, Holds]
  split
  · simp only [Bool.and_eq_true, decide_eq_true_eq, hle, hge]
  · simp only [Bool.and_eq_true, decide_eq_true_eq, ← not_le, hle, hge]

/-- What lies between the ends lies in the interval. -/
theorem holds_of_between {x : ℚ} (hlow : i.low * 2 ^ i.exponent < x) (hhigh : x < i.high * 2 ^ i.exponent) :
    i.Holds x := by
  rw [Holds]
  split
  · exact ⟨hlow.le, hhigh.le⟩
  · exact ⟨hlow, hhigh⟩

/-- The place of the first digit is none above that digit. -/
theorem firstPlace_le (hvalue : i.value ≠ 0) : (10 : ℚ) ^ i.firstPlace ≤ i.value * 2 ^ i.exponent := by
  have hvalue' : (i.value * 2 ^ i.exponent : ℚ) = (i.inGrid 0 i.value).1 / (i.inGrid 0 i.value).2 := by
    rw [inGrid_ratio, zpow_zero, div_one]
  have hd : 0 < (i.inGrid 0 i.value).2 := i.inGrid_snd_pos 0 i.value
  have hn : (i.inGrid 0 i.value).1 ≠ 0 := by
    intro hzero
    rw [hzero, Nat.cast_zero, zero_div] at hvalue'
    have hpos : (0 : ℚ) < i.value * 2 ^ i.exponent :=
      mul_pos (Nat.cast_pos.mpr (Nat.pos_of_ne_zero hvalue)) (zpow_pos two_pos _)
    exact hpos.ne' hvalue'
  rw [hvalue']
  simp only [firstPlace]
  generalize (i.inGrid 0 i.value).1 = n at *
  generalize (i.inGrid 0 i.value).2 = d at *
  have hd' : (0 : ℚ) < d := Nat.cast_pos.mpr hd
  split
  · next hle =>
    have hten : (0 : ℚ) < 10 ^ (((Nat.toDigits 10 n).length : ℤ) - (Nat.toDigits 10 d).length) := by
      positivity
    have hscaled := scaleUpTen_ratio n d (-(((Nat.toDigits 10 n).length : ℤ) - (Nat.toDigits 10 d).length))
    have hone := (one_le_div (Nat.cast_pos.mpr (scaleUpTen_snd_pos (n := n) hd _))).mpr
      (Nat.cast_le (α := ℚ).mpr hle)
    rw [hscaled, zpow_neg, ← div_eq_mul_inv, one_le_div hten] at hone
    exact hone
  · have hlow : ((10 ^ ((Nat.toDigits 10 n).length - 1) : ℕ) : ℚ) ≤ n :=
      Nat.cast_le.mpr (pow_length_toDigits_le hn)
    have hhigh : (d : ℚ) ≤ ((10 ^ (Nat.toDigits 10 d).length : ℕ) : ℚ) :=
      Nat.cast_le.mpr (lt_pow_length_toDigits d).le
    rw [le_div_iff₀ hd']
    refine le_trans (mul_le_mul_of_nonneg_left hhigh (by positivity)) (le_trans (le_of_eq ?_) hlow)
    have hlength : 0 < (Nat.toDigits 10 n).length := Nat.length_toDigits_pos
    rw [Nat.cast_pow, Nat.cast_pow, Nat.cast_ofNat, ← zpow_natCast, ← zpow_natCast,
      ← zpow_add₀ (by norm_num)]
    congr 1
    omega

/-- What a grid offers lies in the interval. -/
theorem holds_of_onGrid? {x : Decimal} (h : i.onGrid? n = some x) : i.Holds x.ratio := by
  simp only [onGrid?] at h
  split at h
  · next hfirst hsecond =>
    obtain rfl := Option.some.inj h
    split
    · exact contains_iff.mp hsecond
    · exact contains_iff.mp hfirst
  · next hfirst _ =>
    obtain rfl := Option.some.inj h
    exact contains_iff.mp hfirst
  · next _ hsecond =>
    obtain rfl := Option.some.inj h
    exact contains_iff.mp hsecond
  · cases h

/-- A grid has a point in an interval that is wider than its steps. -/
theorem exists_onGrid? (hlow : i.low ≤ i.value) (hhigh : i.value < i.high)
    (hwide : (10 : ℚ) ^ (i.firstPlace - n + 1) < (i.high - i.low) * 2 ^ i.exponent) :
    ∃ x, i.onGrid? n = some x := by
  have hpow : (0 : ℚ) < 2 ^ i.exponent := zpow_pos two_pos _
  have hlow' : (i.low : ℚ) * 2 ^ i.exponent ≤ i.value * 2 ^ i.exponent :=
    mul_le_mul_of_nonneg_right (Nat.cast_le.mpr hlow) hpow.le
  have hhigh' : (i.value : ℚ) * 2 ^ i.exponent < i.high * 2 ^ i.exponent :=
    mul_lt_mul_of_pos_right (Nat.cast_lt.mpr hhigh) hpow
  simp only [onGrid?]
  generalize i.firstPlace - n + 1 = p at *
  have hten : (0 : ℚ) < 10 ^ p := by positivity
  have hratio := i.inGrid_ratio p i.value
  have hpos := i.inGrid_snd_pos p i.value
  generalize (i.inGrid p i.value).1 = a at *
  generalize (i.inGrid p i.value).2 = b at *
  have hpos' : (0 : ℚ) < b := Nat.cast_pos.mpr hpos
  -- The number lies between two neighbours on the grid.
  have hbelow : ((a / b : ℕ) : ℚ) * 10 ^ p ≤ i.value * 2 ^ i.exponent := by
    rw [← le_div_iff₀ hten, ← hratio, le_div_iff₀ hpos']
    exact_mod_cast Nat.div_mul_le_self a b
  have habove : i.value * 2 ^ i.exponent < ((a / b + 1 : ℕ) : ℚ) * 10 ^ p := by
    rw [← div_lt_iff₀ hten, ← hratio, div_lt_iff₀ hpos']
    exact_mod_cast (Nat.div_lt_iff_lt_mul hpos).mp (Nat.lt_succ_self (a / b))
  generalize a / b = d at *
  cases hfirst : i.contains d p with
  | true => cases i.contains (d + 1) p <;> exact ⟨_, rfl⟩
  | false =>
    cases hsecond : i.contains (d + 1) p with
    | true => exact ⟨_, rfl⟩
    | false =>
      have hout : ↑d * 10 ^ p ≤ (i.low : ℚ) * 2 ^ i.exponent := by
        by_contra! hlt
        have := contains_iff.mpr (holds_of_between hlt (hbelow.trans_lt hhigh'))
        rw [hfirst] at this
        cases this
      have hout' : (i.high : ℚ) * 2 ^ i.exponent ≤ ((d + 1 : ℕ) : ℚ) * 10 ^ p := by
        by_contra! hlt
        have := contains_iff.mpr (holds_of_between (hlow'.trans_lt habove) hlt)
        rw [hsecond] at this
        cases this
      push_cast at hout'
      linarith

/-- Seventeen digits are enough: the interval is wider than the `10 ^ 16`th part of its number. -/
theorem exists_onGrid?_seventeen (hvalue : i.value ≠ 0) (hlow : i.low ≤ i.value) (hhigh : i.value < i.high)
    (hwide : (i.value : ℚ) < 10 ^ 16 * (i.high - i.low)) : ∃ x, i.onGrid? 17 = some x := by
  refine exists_onGrid? hlow hhigh ?_
  have hpow : (0 : ℚ) < 2 ^ i.exponent := zpow_pos two_pos _
  have hplace := firstPlace_le hvalue
  have hstep : (10 : ℚ) ^ (i.firstPlace - (17 : ℕ) + 1) = 10 ^ i.firstPlace / 10 ^ 16 := by
    rw [show i.firstPlace - (17 : ℕ) + 1 = i.firstPlace - (16 : ℕ) by push_cast; ring,
      zpow_sub₀ (by norm_num), zpow_natCast]
  rw [hstep, div_lt_iff₀ (by positivity)]
  calc (10 : ℚ) ^ i.firstPlace ≤ i.value * 2 ^ i.exponent := hplace
    _ < 10 ^ 16 * (i.high - i.low) * 2 ^ i.exponent := mul_lt_mul_of_pos_right hwide hpow
    _ = (i.high - i.low) * 2 ^ i.exponent * 10 ^ 16 := by ring

/-- The shortest decimal lies in the interval if any grid has a point there. -/
theorem holds_shortest (h : ∃ x, i.onGrid? 17 = some x) : i.Holds i.shortest.ratio := by
  obtain ⟨x, hx⟩ := h
  have hsome : ((List.range' 1 17).findSome? i.onGrid?).isSome := by
    rw [List.findSome?_isSome_iff]
    exact ⟨17, by decide, by rw [hx]; rfl⟩
  obtain ⟨y, hy⟩ := Option.isSome_iff_exists.mp hsome
  rw [shortest, hy]
  obtain ⟨n, -, hn⟩ := List.exists_of_findSome?_eq_some hy
  exact holds_of_onGrid? hn

/-- **The shortest decimal of a number is one of its decimals.** -/
theorem holds_shortest_of_fits {m : ℕ} {e : ℤ} (hfits : Fits m e) (hm : m ≠ 0) :
    (RoundingInterval.of m e).Holds (RoundingInterval.of m e).shortest.ratio := by
  have hlt : m < 2 ^ 53 := hfits.lt
  by_cases hcorner : m = Nat.pow 2 52 ∧ e > -1074
  · obtain ⟨rfl, he⟩ := hcorner
    have hof : RoundingInterval.of (Nat.pow 2 52) e = ⟨2 ^ 54, 2 ^ 54 - 1, 2 ^ 54 + 2, true, e - 2⟩ := by
      rw [RoundingInterval.of, if_pos ⟨rfl, he⟩]
      rfl
    rw [hof]
    refine holds_shortest (exists_onGrid?_seventeen ?_ ?_ ?_ ?_) <;> norm_num
  · refine holds_shortest (exists_onGrid?_seventeen ?_ ?_ ?_ ?_)
    all_goals simp only [RoundingInterval.of, if_neg hcorner]
    · omega
    · omega
    · omega
    · have hm' : (m : ℚ) < 2 ^ 53 := by exact_mod_cast hlt
      rw [Nat.cast_sub (by omega)]
      push_cast
      linarith

end RoundingInterval

/-- Every finite number other than zero is read back from its shortest decimal, and from every other
spelling of the same fraction. -/
theorem Binary64.ofRatio_of_ratio_eq {m num den : ℕ} {e : ℤ} (negative : Bool) (hfits : Fits m e) (hm : m ≠ 0)
    (h : (num : ℚ) / den = (RoundingInterval.of m e).shortest.ratio) :
    ofRatio negative num den = .finite negative m e hfits :=
  ofRatio_of_holds negative hfits hm (h ▸ RoundingInterval.holds_shortest_of_fits hfits hm)

end DeclClosure.Number

import DeclClosure.Number.Shortest
import Mathlib.Algebra.Order.Field.Basic
import Mathlib.Data.Rat.Cast.Order
import Mathlib.Tactic.FieldSimp
import Mathlib.Tactic.Linarith
import Mathlib.Tactic.NormNum
import Mathlib.Tactic.Positivity
import Mathlib.Tactic.Ring

/-!
# Rounding to a number

A finite number has an interval of fractions around it. The main result is that all of them round to
the number (`rounded_of_holds`).

At the exponent of the number a fraction of the interval is at most half a step from the mantissa, and
exactly half a step only if the mantissa is even. The one place where this is not the exponent at which
the fraction is rounded is below a power of two: there the steps are half as large, and so is the part of
the interval, and rounding carries over into the next exponent.
-/

namespace DeclClosure.Number

/-! ### Fractions and powers of two -/

section Reaches

variable {num den c : ℕ} {e : ℤ}

theorem scaleDown_ratio (num den : ℕ) (e : ℤ) :
    ((scaleDown num den e).1 : ℚ) / (scaleDown num den e).2 = num / den / 2 ^ e := by
  cases e with
  | ofNat e =>
    show (num : ℚ) / ((den * 2 ^ e : ℕ) : ℚ) = num / den / 2 ^ (e : ℤ)
    rw [Nat.cast_mul, Nat.cast_pow, Nat.cast_ofNat, zpow_natCast, div_div]
  | negSucc e =>
    show ((num * 2 ^ (e + 1) : ℕ) : ℚ) / den = num / den / 2 ^ Int.negSucc e
    rw [Nat.cast_mul, Nat.cast_pow, Nat.cast_ofNat, zpow_negSucc, div_inv_eq_mul, mul_div_right_comm]

theorem reaches_iff (hden : den ≠ 0) : Reaches num den c e ↔ c * 2 ^ e ≤ (num : ℚ) / den := by
  have hpos : (0 : ℚ) < (scaleDown num den e).2 := Nat.cast_pos.mpr (scaleDown_snd_pos hden e)
  rw [Reaches, ← Nat.cast_le (α := ℚ), Nat.cast_mul, ← le_div_iff₀ hpos, scaleDown_ratio,
    le_div_iff₀ (zpow_pos two_pos e)]

end Reaches

/-- A number is the rounded quotient if it is at most a half away from the quotient, and even if it is
exactly a half away. -/
theorem roundDiv_eq {n d m : ℕ} (hd : 0 < d) (hlow : m - 1 / 2 ≤ (n : ℚ) / d)
    (hhigh : (n : ℚ) / d ≤ m + 1 / 2)
    (heven : (n : ℚ) / d = m - 1 / 2 ∨ (n : ℚ) / d = m + 1 / 2 → m % 2 = 0) : roundDiv n d = m := by
  have hd' : (0 : ℚ) < d := Nat.cast_pos.mpr hd
  rw [le_div_iff₀ hd'] at hlow
  rw [div_le_iff₀ hd'] at hhigh
  rw [div_eq_iff hd'.ne', div_eq_iff hd'.ne'] at heven
  have hn : n = d * (n / d) + n % d := (Nat.div_add_mod n d).symm
  have hr : n % d < d := Nat.mod_lt n hd
  rw [roundDiv]
  generalize n / d = q at *
  generalize n % d = r at *
  subst hn
  push_cast at hlow hhigh heven
  have hr' : (r : ℚ) < d := Nat.cast_lt.mpr hr
  have hle : q ≤ m := by
    by_contra! hlt
    have hlt : (m : ℚ) + 1 ≤ q := by exact_mod_cast hlt
    nlinarith
  have hge : m ≤ q + 1 := by
    by_contra! hlt
    have hlt : (q : ℚ) + 2 ≤ m := by exact_mod_cast hlt
    nlinarith
  rcases Nat.lt_or_ge q m with hlt | hge'
  · obtain rfl : m = q + 1 := by omega
    push_cast at hlow hhigh heven
    have hhalf : d ≤ 2 * r := by
      have : (d : ℚ) ≤ 2 * r := by linarith
      exact_mod_cast this
    rw [if_pos]
    rcases hhalf.lt_or_eq with h | h
    · exact .inl h
    · have h' : (d : ℚ) = 2 * r := by exact_mod_cast h
      have := heven (.inl (by rw [h']; ring))
      exact .inr ⟨h.symm, by omega⟩
  · obtain rfl : m = q := by omega
    have hhalf : 2 * r ≤ d := by
      have : 2 * (r : ℚ) ≤ d := by linarith
      exact_mod_cast this
    rw [if_neg]
    rintro (h | ⟨h, hodd⟩)
    · omega
    · have h' : (d : ℚ) = 2 * r := by exact_mod_cast h.symm
      have := heven (.inr (by rw [h']; ring))
      omega

/-! ### The exponent of a fraction -/

section Rounded

variable {num den m : ℕ} {e : ℤ}

/-- The exponent at which the mantissa of a fraction has 53 bits, or the least one if it has no more
there, is the one at which the fraction is rounded. -/
theorem binade_eq (hnum : num ≠ 0) (hden : den ≠ 0) (hhigh : (num : ℚ) / den < 2 ^ 53 * 2 ^ e)
    (hlow : 2 ^ 52 * 2 ^ e ≤ (num : ℚ) / den ∨ e = -1074) (hleast : -1074 ≤ e) : binade num den = e := by
  obtain ⟨hhigh', hlow', hleast'⟩ := binade_spec hnum hden
  rw [reaches_iff hden] at hhigh' hlow'
  have h52 : ((Nat.pow 2 52 : ℕ) : ℚ) = 2 ^ 52 := by norm_num
  have h53 : ((Nat.pow 2 53 : ℕ) : ℚ) = 2 ^ 53 := by norm_num
  rw [h52] at hlow'
  rw [h53, not_le] at hhigh'
  generalize binade num den = b at *
  have hstep : ∀ {i j : ℤ}, i < j → (2 : ℚ) ^ 53 * 2 ^ i ≤ 2 ^ 52 * 2 ^ j := fun {i j} hij ↦ by
    have hpow : (2 : ℚ) ^ (i + 1) ≤ 2 ^ j := zpow_le_zpow_right₀ one_le_two hij
    rw [zpow_add_one₀ two_ne_zero] at hpow
    linarith
  rcases lt_trichotomy b e with hlt | heq | hgt
  · rcases hlow with hlow | rfl
    · linarith [hstep hlt]
    · omega
  · exact heq
  · rcases hlow' with hlow' | rfl
    · linarith [hstep hgt]
    · omega

/-- How a fraction is rounded, if the mantissa is known. -/
theorem rounded_eq (hden : den ≠ 0) (he : binade num den = e)
    (hlow : m - 1 / 2 ≤ (num : ℚ) / den / 2 ^ e) (hhigh : (num : ℚ) / den / 2 ^ e ≤ m + 1 / 2)
    (heven : (num : ℚ) / den / 2 ^ e = m - 1 / 2 ∨ (num : ℚ) / den / 2 ^ e = m + 1 / 2 → m % 2 = 0) :
    rounded num den = if m = Nat.pow 2 53 then (Nat.pow 2 52, e + 1) else (m, e) := by
  rw [← scaleDown_ratio] at hlow hhigh heven
  simp only [rounded, he, roundDiv_eq (scaleDown_snd_pos hden e) hlow hhigh heven]

/-! ### The interval of a number -/

/-- The fraction lies in the interval of a number. -/
def RoundingInterval.Holds (i : RoundingInterval) (x : ℚ) : Prop :=
  if i.closed then i.low * 2 ^ i.exponent ≤ x ∧ x ≤ i.high * 2 ^ i.exponent
  else i.low * 2 ^ i.exponent < x ∧ x < i.high * 2 ^ i.exponent

/-- The interval reaches half a step to either side, with its ends if the mantissa is even; below a power of
two it reaches a quarter of a step. -/
theorem RoundingInterval.Holds.bounds {x : ℚ} (hm : m ≠ 0) (h : (RoundingInterval.of m e).Holds x) :
    m - 1 / 2 ≤ x / 2 ^ e ∧ x / 2 ^ e ≤ m + 1 / 2 ∧
      (x / 2 ^ e = m - 1 / 2 ∨ x / 2 ^ e = m + 1 / 2 → m % 2 = 0) ∧
        (m = Nat.pow 2 52 → -1074 < e → m - 1 / 4 ≤ x / 2 ^ e) := by
  have hpos : (0 : ℚ) < 2 ^ e := zpow_pos two_pos e
  have hpow : (2 : ℚ) ^ (e - 2) = 2 ^ e / 4 := by
    rw [zpow_sub₀ two_ne_zero]
    norm_num
  obtain ⟨y, rfl⟩ : ∃ y, x = y * 2 ^ e := ⟨x / 2 ^ e, (div_mul_cancel₀ x hpos.ne').symm⟩
  rw [mul_div_cancel_right₀ y hpos.ne']
  have hquarters : ∀ c : ℚ, c * 2 ^ (e - 2) = c / 4 * 2 ^ e := fun c ↦ by rw [hpow]; ring
  simp only [Holds, RoundingInterval.of, hquarters, mul_le_mul_iff_left₀ hpos,
    mul_lt_mul_iff_left₀ hpos, beq_iff_eq] at h
  have hhigh : ((4 * m + 2 : ℕ) : ℚ) / 4 = m + 1 / 2 := by push_cast; ring
  have htwo : ((4 * m - 2 : ℕ) : ℚ) / 4 = m - 1 / 2 := by
    rw [Nat.cast_sub (by omega)]
    push_cast
    ring
  have hone : ((4 * m - 1 : ℕ) : ℚ) / 4 = m - 1 / 4 := by
    rw [Nat.cast_sub (by omega)]
    push_cast
    ring
  rw [hhigh] at h
  by_cases hcorner : m = Nat.pow 2 52 ∧ e > -1074
  · have heven : m % 2 = 0 := by rw [hcorner.1]
    rw [if_pos heven, if_pos hcorner, hone] at h
    exact ⟨by linarith, h.2, fun _ ↦ heven, fun _ _ ↦ h.1⟩
  · rw [if_neg hcorner, htwo] at h
    have hnever : m = Nat.pow 2 52 → -1074 < e → m - 1 / 4 ≤ y := fun hm he ↦ absurd ⟨hm, he⟩ hcorner
    split at h
    · next heven => exact ⟨h.1, h.2, fun _ ↦ heven, hnever⟩
    · exact ⟨h.1.le, h.2.le, fun hends ↦ hends.elim (absurd · h.1.ne') (absurd · h.2.ne), hnever⟩

theorem RoundingInterval.Holds.pos {x : ℚ} (hm : m ≠ 0) (h : (RoundingInterval.of m e).Holds x) :
    0 < x := by
  have hpos : (0 : ℚ) < 2 ^ e := zpow_pos two_pos e
  have hone : (1 : ℚ) ≤ m := Nat.one_le_cast.mpr (Nat.one_le_iff_ne_zero.mpr hm)
  have hscaled : 0 < x / 2 ^ e := by linarith [(h.bounds hm).1]
  exact (div_pos_iff_of_pos_right hpos).mp hscaled

/-- **What rounds to a number.** Take a mantissa and an exponent of a finite number, which is not zero. Every
fraction in its interval is rounded to it. -/
theorem rounded_of_holds (hfits : Fits m e) (hm : m ≠ 0)
    (h : (RoundingInterval.of m e).Holds ((num : ℚ) / den)) : rounded num den = (m, e) := by
  obtain ⟨hlow, hhigh, heven, hcorner⟩ := h.bounds hm
  have hpos : (0 : ℚ) < 2 ^ e := zpow_pos two_pos e
  have hlt : (m : ℚ) ≤ 2 ^ 53 - 1 := by
    have : m + 1 ≤ 2 ^ 53 := hfits.lt
    have : (m : ℚ) + 1 ≤ 2 ^ 53 := by exact_mod_cast this
    linarith
  have hx := h.pos hm
  have hnum : num ≠ 0 := by
    rintro rfl
    simp at hx
  have hden : den ≠ 0 := by
    rintro rfl
    simp at hx
  by_cases hplace : 2 ^ 52 * 2 ^ e ≤ (num : ℚ) / den ∨ e = -1074
  · have hupper : (num : ℚ) / den < 2 ^ 53 * 2 ^ e := by
      rw [← div_lt_iff₀ hpos]
      linarith
    rw [rounded_eq hden (binade_eq hnum hden hupper hplace hfits.least) hlow hhigh heven,
      if_neg hfits.lt.ne]
  · -- The number is a power of two, and the fraction lies below it.
    obtain ⟨hbelow, hleast⟩ := not_or.mp hplace
    have hgreater : -1074 < e := lt_of_le_of_ne hfits.least (Ne.symm hleast)
    rw [not_le, ← div_lt_iff₀ hpos] at hbelow
    have hpower : m = Nat.pow 2 52 := by
      have hge : Nat.pow 2 52 ≤ m := hfits.normal.resolve_right hleast
      have hle : (m : ℚ) < 2 ^ 52 + 1 := by linarith
      have hle : m < 2 ^ 52 + 1 := by exact_mod_cast hle
      exact Nat.le_antisymm (Nat.le_of_lt_succ hle) hge
    have hquarter := hcorner hpower hgreater
    have hm' : (m : ℚ) = 2 ^ 52 := by rw [hpower]; norm_num
    rw [hm'] at hquarter
    have hhalf : (num : ℚ) / den / 2 ^ (e - 1) = 2 * (num / den / 2 ^ e) := by
      rw [zpow_sub_one₀ two_ne_zero]
      field_simp
    have hpos' : (0 : ℚ) < 2 ^ (e - 1) := zpow_pos two_pos _
    have hbinade : binade num den = e - 1 := by
      refine binade_eq hnum hden ?_ (.inl ?_) (by omega)
      · rw [← div_lt_iff₀ hpos', hhalf]
        linarith
      · rw [← le_div_iff₀ hpos', hhalf]
        linarith
    have h53 : ((Nat.pow 2 53 : ℕ) : ℚ) = 2 ^ 53 := by norm_num
    have hrounded := rounded_eq (m := Nat.pow 2 53) hden hbinade
      (by rw [hhalf, h53]; linarith) (by rw [hhalf, h53]; linarith) fun _ ↦ rfl
    rw [hrounded, if_pos rfl, sub_add_cancel, hpower]

/-- Every fraction in the interval of a finite number other than zero is read as that number. -/
theorem Binary64.ofRatio_of_holds (negative : Bool) (hfits : Fits m e) (hm : m ≠ 0)
    (h : (RoundingInterval.of m e).Holds ((num : ℚ) / den)) :
    ofRatio negative num den = .finite negative m e hfits := by
  have hrounded := rounded_of_holds hfits hm h
  have hx : (0 : ℚ) < num / den := h.pos hm
  have hnonzero : ¬(num = 0 ∨ den = 0) := by
    rintro (rfl | rfl) <;> simp at hx
  have hroom : ¬971 < (rounded num den).2 := by
    rw [hrounded, not_lt]
    exact hfits.greatest
  rw [ofRatio, dif_neg hnonzero, dif_neg hroom]
  congr 1 <;> rw [hrounded]

end Rounded

end DeclClosure.Number

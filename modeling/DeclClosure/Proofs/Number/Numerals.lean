import DeclClosure.Proofs.Number.Shortest

/-!
# Numbers as they are spelled

A reader of unsigned numbers, which takes as many characters as belong to the number: digits, a point
with further digits, and a power of ten (`takeNumeral?`). Digits without a point and a power are a whole
number, and do not begin with a zero.

A decimal that is written in a style is read back: the numeral stands for the fraction that the decimal is
(`takeNumeral?_write`). The style decides where the point stands and how many zeros are added, and none of
that changes the fraction: there is one lemma for each way to place the point (`ReadsAs`).
-/

namespace DeclClosure.Number

open Binary64 (readDigits readSign)

/-- A number as it is spelled. -/
structure Numeral where
  /-- The decimal. -/
  decimal : Decimal
  /-- It has neither a point nor a power. -/
  whole : Bool
deriving DecidableEq, Repr

/-- What follows some digits if it is a point with further digits, and the rest. -/
def takeFraction (digits : ℕ) : List Char → Numeral × List Char
  | '.' :: cs =>
    let (n, k, rest) := readDigits digits 0 cs
    (⟨⟨n, -k⟩, false⟩, rest)
  | cs => (⟨⟨digits, 0⟩, true⟩, cs)

/-- What follows a number if it is a power of ten, and the rest. -/
def takePower (x : Numeral) : List Char → Numeral × List Char
  | 'e' :: cs =>
    let (negative, ds) := readSign cs
    match readDigits 0 0 ds with
    | (_, 0, _) => (x, 'e' :: cs)
    | (p, _ + 1, rest) =>
      (⟨⟨x.decimal.digits, x.decimal.power + if negative then -(p : ℤ) else p⟩, false⟩, rest)
  | cs => (x, cs)

/-- An unsigned number at the start of some characters, and the rest. -/
def takeNumeral? (cs : List Char) : Option (Numeral × List Char) :=
  match readDigits 0 0 cs with
  | (_, 0, _) => none
  | (n, _ + 1, rest) =>
    let (x, rest) := takeFraction n rest
    let (x, rest) := takePower x rest
    if x.whole && x.decimal.digits != 0 && cs.head? == some '0' then none else some (x, rest)

/-- No number goes on here. -/
def EndsNumeral (cs : List Char) : Prop :=
  ∀ c ∈ cs.head?, ¬c.isDigit ∧ c ≠ '.' ∧ c ≠ 'e'

/-! ### Digits -/

section Digits

variable {ds fs rest : List Char}

/-- The reader of digits ends where they do. -/
theorem readDigits_append (hds : ∀ c ∈ ds, c.isDigit) (hrest : ∀ c ∈ rest.head?, ¬c.isDigit) (acc k : ℕ) :
    readDigits acc k (ds ++ rest) = (Nat.ofDigitChars 10 ds acc, k + ds.length, rest) := by
  induction ds generalizing acc k with
  | nil =>
    cases rest with
    | nil => rfl
    | cons c cs =>
      rw [List.nil_append, readDigits, if_neg (hrest c rfl)]
      rfl
  | cons c ds ih =>
    rw [List.cons_append, readDigits, if_pos (hds c List.mem_cons_self),
      ih fun d hd ↦ hds d (List.mem_cons_of_mem c hd), Nat.ofDigitChars_cons, Nat.mul_comm acc,
      List.length_cons, Nat.add_assoc, Nat.add_comm 1]
    rfl

/-- The first digit of a number other than zero is not zero. -/
theorem head?_toDigits {n : ℕ} (hn : n ≠ 0) : (Nat.toDigits 10 n).head? ≠ some '0' := by
  induction n using Nat.strong_induction_on with
  | _ n ih =>
    rw [Nat.toDigits_eq_if (by decide)]
    split
    · next hlt =>
      have hdigits : ∀ k < 10, k ≠ 0 → [Nat.digitChar k].head? ≠ some '0' := by decide
      exact hdigits n hlt hn
    · next hge =>
      rw [List.head?_append_of_ne_nil _ Nat.toDigits_ne_nil]
      exact ih (n / 10) (by omega) (by omega)

theorem isDigit_of_mem_toDigits {n : ℕ} {c : Char} (h : c ∈ Nat.toDigits 10 n) : c.isDigit :=
  Nat.isDigit_of_mem_toDigits (by decide) (by decide) h

/-- Zeros at the end of some digits are a power of ten. -/
theorem ofDigitChars_append_zeros (ds : List Char) (k : ℕ) :
    Nat.ofDigitChars 10 (ds ++ List.replicate k '0') 0 = 10 ^ k * Nat.ofDigitChars 10 ds 0 := by
  rw [Nat.ofDigitChars_append, Nat.ofDigitChars_replicate_zero]

/-- Zeros at the start of some digits change nothing. -/
theorem ofDigitChars_zeros_append (ds : List Char) (k : ℕ) :
    Nat.ofDigitChars 10 (List.replicate k '0' ++ ds) 0 = Nat.ofDigitChars 10 ds 0 := by
  rw [Nat.ofDigitChars_append, Nat.ofDigitChars_replicate_zero, Nat.mul_zero]

/-! ### Reading a number -/

theorem EndsNumeral.not_isDigit (h : EndsNumeral rest) : ∀ c ∈ rest.head?, ¬c.isDigit :=
  fun c hc ↦ (h c hc).1

/-- A number is read by its digits, then by what follows them. -/
theorem takeNumeral?_append (hds : ∀ c ∈ ds, c.isDigit) (hne : ds ≠ [])
    (hrest : ∀ c ∈ rest.head?, ¬c.isDigit) {x : Numeral} {cs cs' : List Char}
    (hfraction : takeFraction (Nat.ofDigitChars 10 ds 0) rest = (x, cs)) {y : Numeral}
    (hpower : takePower x cs = (y, cs'))
    (hzero : y.whole → ds.head? = some '0' → y.decimal.digits = 0) :
    takeNumeral? (ds ++ rest) = some (y, cs') := by
  obtain ⟨c, ds, rfl⟩ := List.exists_cons_of_ne_nil hne
  rw [takeNumeral?, readDigits_append hds hrest]
  simp only [List.length_cons, Nat.zero_add, hfraction, hpower]
  refine if_neg fun h ↦ ?_
  simp only [Bool.and_eq_true, bne_iff_ne, beq_iff_eq] at h
  exact h.1.2 (hzero h.1.1 h.2)

theorem takeFraction_point (hfs : ∀ c ∈ fs, c.isDigit) (hrest : ∀ c ∈ rest.head?, ¬c.isDigit) (n : ℕ) :
    takeFraction n ('.' :: (fs ++ rest)) = (⟨⟨Nat.ofDigitChars 10 fs n, -fs.length⟩, false⟩, rest) := by
  rw [takeFraction, readDigits_append hfs hrest, Nat.zero_add]

theorem takeFraction_of_ne (hrest : ∀ c ∈ rest.head?, c ≠ '.') (n : ℕ) :
    takeFraction n rest = (⟨⟨n, 0⟩, true⟩, rest) := by
  rw [takeFraction.eq_def]
  split
  · exact absurd rfl (hrest _ rfl)
  · rfl

theorem takePower_of_ne (hrest : ∀ c ∈ rest.head?, c ≠ 'e') (x : Numeral) : takePower x rest = (x, rest) := by
  rw [takePower.eq_def]
  split
  · exact absurd rfl (hrest _ rfl)
  · rfl

/-- A written power is read back. -/
theorem takePower_writePower (hrest : ∀ c ∈ rest.head?, ¬c.isDigit) (x : Numeral) (p : ℤ) :
    takePower x ((writePower p).toList ++ rest) =
      (⟨⟨x.decimal.digits, x.decimal.power + p⟩, false⟩, rest) := by
  obtain ⟨ds, hwritten, hds, hne, hvalue⟩ : ∃ ds, (writePower p).toList =
      'e' :: (if p < 0 then '-' else '+') :: ds ∧ (∀ c ∈ ds, c.isDigit) ∧ ds ≠ [] ∧
        Nat.ofDigitChars 10 ds 0 = p.natAbs := by
    have hdigits : (toString p.natAbs).toList = Nat.toDigits 10 p.natAbs := by
      rw [Nat.toString_eq_ofList_toDigits, String.toList_ofList]
    by_cases hlength : (toString p.natAbs).length < 2
    · refine ⟨'0' :: Nat.toDigits 10 p.natAbs, ?_, ?_, List.cons_ne_nil _ _, ?_⟩
      · simp only [writePower, if_pos hlength, String.toList_append, hdigits]
        split <;> rfl
      · exact List.forall_mem_cons.mpr ⟨by decide, fun c ↦ isDigit_of_mem_toDigits⟩
      · exact (ofDigitChars_zeros_append _ 1).trans Nat.ofDigitChars_ten_toDigits
    · refine ⟨Nat.toDigits 10 p.natAbs, ?_, fun c ↦ isDigit_of_mem_toDigits, Nat.toDigits_ne_nil,
        Nat.ofDigitChars_ten_toDigits⟩
      simp only [writePower, if_neg hlength, String.toList_append, hdigits]
      split <;> rfl
  obtain ⟨d, ds, rfl⟩ := List.exists_cons_of_ne_nil hne
  rw [hwritten, List.cons_append, List.cons_append, takePower]
  have hread : readDigits 0 0 (d :: ds ++ rest) = (p.natAbs, ds.length + 1, rest) := by
    rw [readDigits_append hds hrest, hvalue, Nat.zero_add, List.length_cons]
  split_ifs with hp
  · have hsign : -(p.natAbs : ℤ) = p := by omega
    simp only [readSign, hread, if_true, hsign]
  · have hsign : (p.natAbs : ℤ) = p := by omega
    simp only [readSign, hread, Bool.false_eq_true, if_false, hsign]

theorem not_isDigit_power (p : ℤ) (rest : List Char) :
    ∀ c ∈ ((writePower p).toList ++ rest).head?, c = 'e' := by
  intro c hc
  simp only [writePower, String.toList_append] at hc
  exact (Option.mem_some_iff.mp hc).symm

theorem isDigit_zero : ∀ c ∈ ['0'], c.isDigit :=
  List.forall_mem_singleton.mpr rfl

theorem takeNumeral?_whole (hds : ∀ c ∈ ds, c.isDigit) (hne : ds ≠ []) (hrest : EndsNumeral rest)
    (hzero : ds.head? = some '0' → Nat.ofDigitChars 10 ds 0 = 0) :
    takeNumeral? (ds ++ rest) = some (⟨⟨Nat.ofDigitChars 10 ds 0, 0⟩, true⟩, rest) :=
  takeNumeral?_append hds hne hrest.not_isDigit (takeFraction_of_ne (fun c hc ↦ (hrest c hc).2.1) _)
    (takePower_of_ne (fun c hc ↦ (hrest c hc).2.2) _) fun _ ↦ hzero

theorem takeNumeral?_point (hds : ∀ c ∈ ds, c.isDigit) (hne : ds ≠ []) (hfs : ∀ c ∈ fs, c.isDigit)
    (hrest : EndsNumeral rest) : takeNumeral? (ds ++ '.' :: (fs ++ rest)) =
      some (⟨⟨Nat.ofDigitChars 10 (ds ++ fs) 0, -fs.length⟩, false⟩, rest) := by
  rw [Nat.ofDigitChars_append]
  exact takeNumeral?_append hds hne (by rintro _ ⟨⟩; decide) (takeFraction_point hfs hrest.not_isDigit _)
    (takePower_of_ne (fun c hc ↦ (hrest c hc).2.2) _) nofun

theorem takeNumeral?_power (hds : ∀ c ∈ ds, c.isDigit) (hne : ds ≠ []) (hrest : EndsNumeral rest) (p : ℤ) :
    takeNumeral? (ds ++ ((writePower p).toList ++ rest)) =
      some (⟨⟨Nat.ofDigitChars 10 ds 0, 0 + p⟩, false⟩, rest) := by
  have hhead := not_isDigit_power p rest
  exact takeNumeral?_append hds hne (fun c hc ↦ hhead c hc ▸ by decide)
    (takeFraction_of_ne (fun c hc ↦ hhead c hc ▸ by decide) _)
    (takePower_writePower hrest.not_isDigit _ p) nofun

theorem takeNumeral?_point_power (hds : ∀ c ∈ ds, c.isDigit) (hne : ds ≠ []) (hfs : ∀ c ∈ fs, c.isDigit)
    (hrest : EndsNumeral rest) (p : ℤ) :
    takeNumeral? (ds ++ '.' :: (fs ++ ((writePower p).toList ++ rest))) =
      some (⟨⟨Nat.ofDigitChars 10 (ds ++ fs) 0, -fs.length + p⟩, false⟩, rest) := by
  have hhead := not_isDigit_power p rest
  rw [Nat.ofDigitChars_append]
  exact takeNumeral?_append hds hne (by rintro _ ⟨⟩; decide)
    (takeFraction_point hfs (fun c hc ↦ hhead c hc ▸ by decide) _)
    (takePower_writePower hrest.not_isDigit _ p) nofun

/-! ### Reading what was written -/

/-- Zeros may be moved between the digits and the power of ten. -/
theorem Decimal.ratio_mul_pow (n k : ℕ) (p : ℤ) :
    Decimal.ratio ⟨10 ^ k * n, p⟩ = Decimal.ratio ⟨n, p + k⟩ := by
  rw [ratio, ratio, zpow_add₀ (by norm_num), zpow_natCast]
  push_cast
  ring

theorem Decimal.ratio_congr {n n' : ℕ} {p p' : ℤ} (hn : n = n') (hp : p = p') :
    Decimal.ratio ⟨n, p⟩ = Decimal.ratio ⟨n', p'⟩ := by
  rw [hn, hp]

/-- A text is read as a number that ends where the text does and is the same fraction as a decimal. -/
def ReadsAs (text rest : List Char) (x : Decimal) (whole : Bool) : Prop :=
  ∃ y, takeNumeral? (text ++ rest) = some (y, rest) ∧ y.decimal.ratio = x.ratio ∧ y.whole = whole

/-- With a power of ten: one digit before the point, if there is a point. -/
theorem readsAs_power {d : Char} (hds : ∀ c ∈ d :: fs, c.isDigit) (hrest : EndsNumeral rest) (point : ℤ) :
    ReadsAs (d :: (if fs.isEmpty then [] else '.' :: fs) ++ (writePower (point - 1)).toList) rest
      ⟨Nat.ofDigitChars 10 (d :: fs) 0, point - (d :: fs).length⟩ false := by
  have hd : ∀ c ∈ [d], c.isDigit := fun c hc ↦ hds c (List.mem_cons.mpr (.inl (List.mem_singleton.mp hc)))
  have hfs : ∀ c ∈ fs, c.isDigit := fun c hc ↦ hds c (List.mem_cons_of_mem d hc)
  rw [ReadsAs, List.append_assoc]
  cases fs with
  | nil =>
    have hread := takeNumeral?_power hd (List.cons_ne_nil _ _) hrest (point - 1)
    refine ⟨_, hread, ?_, rfl⟩
    rw [zero_add]
    rfl
  | cons f fs =>
    have hread := takeNumeral?_point_power hd (List.cons_ne_nil _ _) hfs hrest (point - 1)
    refine ⟨_, hread, Decimal.ratio_congr rfl ?_, rfl⟩
    simp only [List.length_cons]
    push_cast
    ring

/-- With zeros between the point and the digits. -/
theorem readsAs_zeros_before (hds : ∀ c ∈ ds, c.isDigit) (hrest : EndsNumeral rest) {point : ℤ}
    (hpoint : point ≤ 0) :
    ReadsAs ('0' :: '.' :: (List.replicate (-point).toNat '0' ++ ds)) rest
      ⟨Nat.ofDigitChars 10 ds 0, point - ds.length⟩ false := by
  have hfs : ∀ c ∈ List.replicate (-point).toNat '0' ++ ds, c.isDigit := fun c hc ↦
    (List.mem_append.mp hc).elim (fun h ↦ (List.mem_replicate.mp h).2 ▸ by decide) (hds c)
  have hread := takeNumeral?_point isDigit_zero (List.cons_ne_nil _ _) hfs hrest
  refine ⟨_, hread, Decimal.ratio_congr ?_ ?_, rfl⟩
  · exact ofDigitChars_zeros_append ds ((-point).toNat + 1)
  · simp only [List.length_append, List.length_replicate]
    omega

theorem isDigit_append_zeros (hds : ∀ c ∈ ds, c.isDigit) (k : ℕ) :
    ∀ c ∈ ds ++ List.replicate k '0', c.isDigit := fun c hc ↦
  (List.mem_append.mp hc).elim (hds c) fun h ↦ (List.mem_replicate.mp h).2 ▸ by decide

/-- With zeros after the digits and the point of a whole number. -/
theorem readsAs_zeros_after (hds : ∀ c ∈ ds, c.isDigit) (hne : ds ≠ []) (hrest : EndsNumeral rest)
    {n : ℕ} (hlength : ds.length ≤ n) :
    ReadsAs (ds ++ List.replicate (n - ds.length) '0' ++ ['.', '0']) rest
      ⟨Nat.ofDigitChars 10 ds 0, n - ds.length⟩ false := by
  have hread := takeNumeral?_point (isDigit_append_zeros hds (n - ds.length))
    (List.append_ne_nil_of_left_ne_nil hne _) isDigit_zero hrest
  rw [ReadsAs, List.append_assoc]
  refine ⟨_, hread, ?_, rfl⟩
  rw [List.append_assoc, ← List.replicate_one, List.replicate_append_replicate,
    ofDigitChars_append_zeros, Decimal.ratio_mul_pow]
  refine Decimal.ratio_congr rfl ?_
  simp only [List.length_replicate]
  omega

/-- With zeros after the digits and no point. -/
theorem readsAs_whole (hds : ∀ c ∈ ds, c.isDigit) (hne : ds ≠ []) (hzero : ds.head? ≠ some '0')
    (hrest : EndsNumeral rest) {n : ℕ} (hlength : ds.length ≤ n) :
    ReadsAs (ds ++ List.replicate (n - ds.length) '0') rest
      ⟨Nat.ofDigitChars 10 ds 0, n - ds.length⟩ true := by
  have hhead : (ds ++ List.replicate (n - ds.length) '0').head? = some '0' →
      Nat.ofDigitChars 10 (ds ++ List.replicate (n - ds.length) '0') 0 = 0 := by
    rw [List.head?_append_of_ne_nil _ hne]
    exact fun h ↦ absurd h hzero
  have hread := takeNumeral?_whole (isDigit_append_zeros hds (n - ds.length))
    (List.append_ne_nil_of_left_ne_nil hne _) hrest hhead
  refine ⟨_, hread, ?_, rfl⟩
  rw [ofDigitChars_append_zeros, Decimal.ratio_mul_pow]
  refine Decimal.ratio_congr rfl ?_
  omega

/-- With the point between the digits. -/
theorem readsAs_within (hds : ∀ c ∈ ds, c.isDigit) (hrest : EndsNumeral rest) {n : ℕ} (hn : 0 < n)
    (hlength : n < ds.length) :
    ReadsAs (ds.take n ++ '.' :: ds.drop n) rest ⟨Nat.ofDigitChars 10 ds 0, n - ds.length⟩ false := by
  have htake : ∀ c ∈ ds.take n, c.isDigit := fun c hc ↦ hds c (List.mem_of_mem_take hc)
  have hdrop : ∀ c ∈ ds.drop n, c.isDigit := fun c hc ↦ hds c (List.mem_of_mem_drop hc)
  have hne : ds.take n ≠ [] := by
    rw [← List.length_pos_iff, List.length_take]
    omega
  have hread := takeNumeral?_point htake hne hdrop hrest
  rw [ReadsAs, List.append_assoc]
  refine ⟨_, hread, ?_, rfl⟩
  rw [List.take_append_drop]
  refine Decimal.ratio_congr rfl ?_
  simp only [List.length_drop]
  omega

/-- **Decimals are read back.** Digits that do not begin with a zero, with a point at some place, are
written in a style. The number that is read there ends where the writing ends, and it is the fraction that
was written. It is a whole number only if the style leaves whole numbers without a point. -/
theorem takeNumeral?_write (style : DecimalStyle) (hds : ∀ c ∈ ds, c.isDigit) (hne : ds ≠ [])
    (hzero : ds.head? ≠ some '0') (point : ℤ) (hrest : EndsNumeral rest) :
    ∃ x, takeNumeral? ((style.write ds point).toList ++ rest) = some (x, rest) ∧
      x.decimal.ratio = Decimal.ratio ⟨Nat.ofDigitChars 10 ds 0, point - ds.length⟩ ∧
        (x.whole → style.wholePoint = false) := by
  suffices h : ∃ whole, ReadsAs (style.write ds point).toList rest
      ⟨Nat.ofDigitChars 10 ds 0, point - ds.length⟩ whole ∧ (whole → style.wholePoint = false) by
    obtain ⟨whole, ⟨x, hread, hratio, rfl⟩, hwhole⟩ := h
    exact ⟨x, hread, hratio, hwhole⟩
  rw [DecimalStyle.write]
  split
  · obtain ⟨d, fs, rfl⟩ := List.exists_cons_of_ne_nil hne
    rw [String.toList_append, String.toList_ofList]
    exact ⟨false, readsAs_power hds hrest point, nofun⟩
  split
  · next hpoint =>
    rw [String.toList_ofList]
    exact ⟨false, readsAs_zeros_before hds hrest hpoint, nofun⟩
  next hpoint =>
  have hnat : (point.toNat : ℤ) = point := by omega
  dsimp only
  rw [← hnat, Int.toNat_natCast]
  split
  · next hlength =>
    rw [String.toList_append, String.toList_ofList]
    split
    · exact ⟨false, readsAs_zeros_after hds hne hrest hlength, nofun⟩
    · next hwhole =>
      rw [String.toList_empty, List.append_nil]
      exact ⟨true, readsAs_whole hds hne hzero hrest hlength, fun _ ↦ Bool.eq_false_iff.mpr hwhole⟩
  · next hlength =>
    rw [String.toList_ofList]
    exact ⟨false, readsAs_within hds hrest (by omega) (Nat.lt_of_not_le hlength), nofun⟩

/-- The digits of a decimal, without the zeros at their end, are those of the same fraction. -/
theorem Decimal.digitsAndPoint_spec {x : Decimal} (hx : x.digits ≠ 0) :
    (∀ c ∈ x.digitsAndPoint.1, c.isDigit) ∧ x.digitsAndPoint.1 ≠ [] ∧
      x.digitsAndPoint.1.head? ≠ some '0' ∧
        Decimal.ratio ⟨Nat.ofDigitChars 10 x.digitsAndPoint.1 0,
          x.digitsAndPoint.2 - x.digitsAndPoint.1.length⟩ = x.ratio := by
  simp only [digitsAndPoint]
  have hhead := head?_toDigits hx
  have hvalue : Nat.ofDigitChars 10 (Nat.toDigits 10 x.digits) 0 = x.digits := Nat.ofDigitChars_ten_toDigits
  have hdigits : ∀ c ∈ Nat.toDigits 10 x.digits, c.isDigit := fun c ↦ isDigit_of_mem_toDigits
  have hfirst : Nat.toDigits 10 x.digits ≠ [] := Nat.toDigits_ne_nil
  generalize Nat.toDigits 10 x.digits = all at *
  obtain ⟨k, hall⟩ : ∃ k, all = (all.reverse.dropWhile (· == '0')).reverse ++ List.replicate k '0' := by
    refine ⟨(all.reverse.takeWhile (· == '0')).length, ?_⟩
    have hzeros : all.reverse.takeWhile (· == '0') =
        List.replicate (all.reverse.takeWhile (· == '0')).length '0' :=
      List.eq_replicate_iff.mpr ⟨rfl, fun c hc ↦ beq_iff_eq.mp (List.all_eq_true.mp List.all_takeWhile c hc)⟩
    conv_lhs => rw [← all.reverse_reverse, ← List.takeWhile_append_dropWhile (p := (· == '0'))
      (l := all.reverse), List.reverse_append, hzeros, List.reverse_replicate]
  generalize (all.reverse.dropWhile (· == '0')).reverse = kept at *
  have hkept : kept ≠ [] := by
    rintro rfl
    rw [List.nil_append] at hall
    cases k with
    | zero => exact hfirst hall
    | succ k => exact hhead (hall ▸ rfl)
  rw [if_neg (by rwa [List.isEmpty_iff])]
  refine ⟨fun c hc ↦ hdigits c (hall ▸ List.mem_append_left _ hc), hkept, ?_, ?_⟩
  · rwa [hall, List.head?_append_of_ne_nil _ hkept] at hhead
  · have hratio : x.ratio = (10 ^ k * Nat.ofDigitChars 10 kept 0 : ℕ) * 10 ^ x.power := by
      rw [ratio, ← hvalue, hall, ofDigitChars_append_zeros]
    have hlength : all.length = kept.length + k := by rw [hall, List.length_append, List.length_replicate]
    have hpower : x.power + (all.length : ℤ) - kept.length = x.power + k := by
      rw [hlength]
      push_cast
      ring
    rw [hratio, ratio, hpower, zpow_add₀ (by norm_num), zpow_natCast]
    push_cast
    ring

end Digits

/-! ### Reading binary numbers -/

/-- The number that a numeral stands for, with a sign. -/
def Numeral.float (negative : Bool) (x : Numeral) : Binary64 :=
  .ofDecimal negative x.decimal.digits x.decimal.power

/-- Neither an infinity nor what is no number. -/
def Binary64.isFinite : Binary64 → Bool
  | .finite _ _ _ _ => true
  | _ => false

theorem Binary64.ofDecimal_eq (negative : Bool) (digits : ℕ) (p : ℤ) :
    ofDecimal negative digits p =
      ofRatio negative (scaleUpTen digits 1 p).1 (scaleUpTen digits 1 p).2 := by
  cases p with
  | ofNat p => rfl
  | negSucc p =>
    show ofRatio negative digits (Nat.pow 10 (p + 1)) = ofRatio negative digits (1 * Nat.pow 10 (p + 1))
    rw [Nat.one_mul]

/-- **Finite numbers are read back.** A number without its sign is written in a style. The numeral that is
read there ends where the writing ends, and with the sign of the number it stands for the number. -/
theorem takeNumeral?_writeMagnitude (style : DecimalStyle) {a : Binary64} (ha : a.isFinite)
    {rest : List Char} (hrest : EndsNumeral rest) :
    ∃ x, takeNumeral? ((a.writeMagnitude style).toList ++ rest) = some (x, rest) ∧
      x.float a.isNegative = a ∧ (x.whole → style.wholePoint = false) := by
  obtain ⟨negative, m, e, hfits, rfl⟩ : ∃ negative m e hfits, a = .finite negative m e hfits := by
    cases a with
    | finite => exact ⟨_, _, _, _, rfl⟩
    | _ => cases ha
  rw [Binary64.writeMagnitude]
  split
  · next hm =>
    subst hm
    obtain rfl : e = -1074 := hfits.normal.resolve_left (by decide)
    have hzero : ∀ (p : ℤ) (whole : Bool), Numeral.float negative ⟨⟨0, p⟩, whole⟩ = .zero negative := by
      intro p whole
      rw [Numeral.float, Binary64.ofDecimal_eq, Binary64.ofRatio, dif_pos]
      cases p
      · exact .inl (Nat.zero_mul _)
      · exact .inl rfl
    split
    · have hread := takeNumeral?_point isDigit_zero (List.cons_ne_nil _ _) isDigit_zero hrest
      exact ⟨_, hread, hzero _ _, fun hpoint ↦ absurd hpoint Bool.false_ne_true⟩
    · next hwhole =>
      have hread := takeNumeral?_whole isDigit_zero (List.cons_ne_nil _ _) hrest fun _ ↦ rfl
      exact ⟨_, hread, hzero _ _, fun _ ↦ Bool.eq_false_iff.mpr hwhole⟩
  · next hm =>
    have hholds := RoundingInterval.holds_shortest_of_fits hfits hm
    have hdigits : (RoundingInterval.of m e).shortest.digits ≠ 0 := by
      intro hzero
      have hpos := hholds.pos hm
      rw [Decimal.ratio, hzero, Nat.cast_zero, zero_mul] at hpos
      exact lt_irrefl _ hpos
    obtain ⟨hds, hne, hhead, hratio⟩ := Decimal.digitsAndPoint_spec hdigits
    obtain ⟨x, hread, hx, hwhole⟩ := takeNumeral?_write style hds hne hhead
      (RoundingInterval.of m e).shortest.digitsAndPoint.2 hrest
    refine ⟨x, hread, ?_, hwhole⟩
    rw [Numeral.float, Binary64.ofDecimal_eq]
    refine Binary64.ofRatio_of_ratio_eq negative hfits hm ?_
    rw [scaleUpTen_ratio, Nat.cast_one, div_one]
    exact hx.trans hratio

/-- The words for what is not finite are no numerals. -/
theorem takeNumeral?_of_not_finite (style : DecimalStyle) {a : Binary64} (ha : ¬a.isFinite)
    (rest : List Char) : takeNumeral? ((a.writeMagnitude style).toList ++ rest) = none := by
  cases a with
  | nan =>
    rw [Binary64.writeMagnitude]
    show takeNumeral? ('n' :: 'a' :: 'n' :: rest) = none
    rfl
  | infinite =>
    rw [Binary64.writeMagnitude]
    show takeNumeral? ('i' :: 'n' :: 'f' :: rest) = none
    rfl
  | finite => exact absurd rfl ha

end DeclClosure.Number

import DeclClosure.Proofs.Number.Numerals
import DeclClosure.Proofs.Text.Quoting
import DeclClosure.Universe.Written

/-!
# Literals

A reader of literals: names of the three constants, numbers, quoted texts and byte strings, and tuples of
them in parentheses (`Literal.ofText?`). A sum of a number and an imaginary one is a complex number. The
signs of zeros are read as they are spelled; no comparison sees them.

A value without parts that has a literal is read back from its written form, and the written form of any
other is no literal (`reads_written`): numbers that are not finite show a word, and so do the constants that
are no values. Both halves hold whatever follows the written form (`Reads`), so they carry over to the items
of tuples (`ofText?_tupleText`).
-/

namespace DeclClosure

open Number

/-- The value has a literal: it is neither a number that is not finite nor one of the constants that are no
values. -/
def Atom.hasLiteral : Atom → Bool
  | .float x => x.isFinite
  | .complex re im => re.isFinite && im.isFinite
  | .ellipsis | .notImplemented | .missing => false
  | _ => true

namespace Literal

open Json (skipSpace isSpace)

/-- The number that a signed numeral stands for. -/
def ofNumeral (negative : Bool) (x : Numeral) : Atom :=
  if x.whole then .int (if negative then -x.decimal.digits else x.decimal.digits)
  else .float (x.float negative)

/-- The complex number whose imaginary part comes next, and the rest. -/
def takeImaginary? (re : Binary64) (negative : Bool) (cs : List Char) : Option (Atom × List Char) :=
  match takeNumeral? cs with
  | some (x, 'j' :: cs) => some (.complex re (x.float negative), cs)
  | _ => none

/-- The number that a numeral begins, and the rest. -/
def finishNumber? (negative : Bool) (x : Numeral) : List Char → Option (Atom × List Char)
  | 'j' :: cs => some (.complex (.zero false) (x.float negative), cs)
  | '+' :: cs => takeImaginary? (x.float negative) false cs
  | '-' :: cs => takeImaginary? (x.float negative) true cs
  | cs => some (ofNumeral negative x, cs)

/-- A number, and the rest. -/
def takeNumber? (cs : List Char) : Option (Atom × List Char) :=
  let (negative, cs) := Binary64.readSign cs
  (takeNumeral? cs).bind fun (x, cs) ↦ finishNumber? negative x cs

/-- The constants that have a name. -/
def constants : List (List Char × Atom) :=
  [("None".toList, .none), ("True".toList, .bool true), ("False".toList, .bool false)]

/-- A constant, and the rest. -/
def takeConstant? (cs : List Char) : Option (Atom × List Char) :=
  constants.findSome? fun (word, a) ↦ if word.isPrefixOf cs then some (a, cs.drop word.length) else none

/-- What begins a quoted text. -/
def isQuote (c : Char) : Bool :=
  c == '\'' || c == '"'

/-- A value without parts, and the rest. Its first character tells what it is. -/
def takeAtom? : List Char → Option (Atom × List Char)
  | [] => none
  | c :: cs =>
    if isQuote c then
      (Text.takeQuoted? Text.takeChar? c cs).map fun (s, cs) ↦ (.text (String.ofList s), cs)
    else if c = 'b' then
      (cs.head?.filter isQuote).bind fun quote ↦
        (Text.takeQuoted? Text.takeByte? quote cs.tail).map fun (bs, cs) ↦ (.bytes bs, cs)
    else if c.isAlpha then takeConstant? (c :: cs)
    else takeNumber? (c :: cs)

mutual

/-- A value, and the rest. The first number bounds the descent into parentheses and the items within. -/
def takeValue? : ℕ → List Char → Option (Object × List Char)
  | 0, _ => none
  | n + 1, cs =>
    match cs with
    | '(' :: cs => takeItems? n [] cs
    | cs => (takeAtom? cs).map fun (a, cs) ↦ (.atom 0 a, cs)

/-- The items of a tuple up to the closing parenthesis, after those in `acc`, and the rest. A single value
that no comma follows is just in parentheses. -/
def takeItems? : ℕ → List Object → List Char → Option (Object × List Char)
  | 0, _, _ => none
  | n + 1, acc, cs =>
    match skipSpace cs with
    | ')' :: cs => some (.tuple 0 acc.reverse, cs)
    | cs =>
      match takeValue? n cs with
      | none => none
      | some (v, cs) =>
        match skipSpace cs with
        | ',' :: cs => takeItems? n (v :: acc) cs
        | ')' :: cs => some (if acc.isEmpty then v else .tuple 0 (v :: acc).reverse, cs)
        | _ => none

end

/-- The value of a literal. -/
def ofText? (s : String) : Option Object :=
  match takeValue? (s.length + 2) s.toList with
  | some (v, []) => some v
  | _ => none

/-! ### Numbers -/

/-- An item of a tuple ends here, and so does a value in parentheses or the whole text. -/
def Stops (cs : List Char) : Prop :=
  ∀ c ∈ cs.head?, c = ',' ∨ c = ')'

variable {rest : List Char}

theorem Stops.endsNumeral (h : Stops rest) : EndsNumeral rest := by
  intro c hc
  rcases h c hc with rfl | rfl <;> decide

theorem finishNumber?_of_stops (h : Stops rest) (negative : Bool) (x : Numeral) :
    finishNumber? negative x rest = some (ofNumeral negative x, rest) := by
  rw [finishNumber?.eq_def]
  split
  · exact absurd (h _ rfl) (by decide)
  · exact absurd (h _ rfl) (by decide)
  · exact absurd (h _ rfl) (by decide)
  · rfl

/-- A numeral begins with a digit. -/
theorem exists_cons_of_takeNumeral? {cs : List Char} {r : Numeral × List Char}
    (h : takeNumeral? cs = some r) : ∃ c cs', cs = c :: cs' ∧ c.isDigit := by
  cases cs with
  | nil => cases h
  | cons c cs =>
    refine ⟨c, cs, rfl, ?_⟩
    by_contra hc
    rw [takeNumeral?, Binary64.readDigits, if_neg hc] at h
    cases h

/-- The sign of a number as it is written. -/
def sign (negative : Bool) : List Char :=
  if negative then ['-'] else []

/-- A number is read by its sign and by its numeral. -/
theorem takeNumber?_sign (negative : Bool) {cs : List Char} {x : Numeral}
    (h : takeNumeral? cs = some (x, rest)) :
    takeNumber? (sign negative ++ cs) = finishNumber? negative x rest := by
  cases negative with
  | true =>
    show (takeNumeral? cs).bind _ = _
    rw [h]
    rfl
  | false =>
    obtain ⟨c, cs, rfl, hc⟩ := exists_cons_of_takeNumeral? h
    have hsign : Binary64.readSign (c :: cs) = (false, c :: cs) := by
      rw [Binary64.readSign.eq_def]
      split
      · next heq => cases heq; cases hc
      · next heq => cases heq; cases hc
      · rfl
    show takeNumber? (c :: cs) = _
    rw [takeNumber?, hsign]
    simp only [h, Option.bind_some]

/-- What begins with a digit is read as a number. -/
theorem takeAtom?_of_isDigit {c : Char} {cs : List Char} (h : c.isDigit) :
    takeAtom? (c :: cs) = takeNumber? (c :: cs) := by
  have hbounds : 48 ≤ c.toNat ∧ c.toNat ≤ 57 := by
    simpa [Char.isDigit, Bool.and_eq_true, UInt32.le_iff_toNat_le] using h
  have hquote : ¬isQuote c := by
    rw [isQuote, Bool.or_eq_true, beq_iff_eq, beq_iff_eq]
    rintro (rfl | rfl) <;> revert hbounds <;> decide
  have hbytes : c ≠ 'b' := by
    rintro rfl
    revert hbounds
    decide
  have halpha : ¬c.isAlpha := by
    intro halpha
    have hletter : 65 ≤ c.toNat := by
      obtain hupper | hlower : c.isUpper ∨ c.isLower := Bool.or_eq_true_iff.mp halpha
      · exact (of_decide_eq_true hupper).1
      · have hbound : 97 ≤ c.toNat := of_decide_eq_true (Bool.and_elim_left hlower)
        omega
    omega
  rw [takeAtom?, if_neg hquote, if_neg hbytes, if_neg halpha]

theorem takeAtom?_minus (cs : List Char) : takeAtom? ('-' :: cs) = takeNumber? ('-' :: cs) :=
  rfl

/-- A signed numeral is read as a number. -/
theorem takeAtom?_sign (negative : Bool) {cs : List Char} {x : Numeral}
    (h : takeNumeral? cs = some (x, rest)) :
    takeAtom? (sign negative ++ cs) = finishNumber? negative x rest := by
  rw [← takeNumber?_sign negative h]
  cases negative with
  | true => exact takeAtom?_minus cs
  | false =>
    obtain ⟨c, cs, rfl, hc⟩ := exists_cons_of_takeNumeral? h
    exact takeAtom?_of_isDigit hc

/-- The words for what is not finite are nothing that can be read, whatever their sign. -/
theorem takeAtom?_of_not_finite (style : DecimalStyle) {x : Binary64} (hx : ¬x.isFinite) (cs : List Char) :
    takeAtom? (sign x.isNegative ++ ((x.writeMagnitude style).toList ++ cs)) = none := by
  cases x with
  | nan =>
    rw [Binary64.writeMagnitude]
    show takeAtom? ('n' :: 'a' :: 'n' :: cs) = none
    rfl
  | infinite negative =>
    rw [Binary64.writeMagnitude]
    cases negative with
    | true =>
      show takeNumber? ('-' :: 'i' :: 'n' :: 'f' :: cs) = none
      rfl
    | false =>
      show takeAtom? ('i' :: 'n' :: 'f' :: cs) = none
      rfl
  | finite => exact absurd rfl hx

theorem toList_writeIn (style : DecimalStyle) (x : Binary64) :
    (x.writeIn style).toList = sign x.isNegative ++ (x.writeMagnitude style).toList := by
  rw [Binary64.writeIn, String.toList_append, sign]
  split <;> rfl

/-! ### Values without parts -/

/-- A text begins with neither a blank nor a closing parenthesis. -/
def StartsItem (t : List Char) : Prop :=
  ∃ c cs, t = c :: cs ∧ ¬isSpace c ∧ c ≠ ')'

theorem StartsItem.append {t : List Char} (h : StartsItem t) (rest : List Char) : StartsItem (t ++ rest) := by
  obtain ⟨c, cs, rfl, hspace, hclose⟩ := h
  exact ⟨c, cs ++ rest, rfl, hspace, hclose⟩

/-- Whatever follows a text, reading takes the text alone and makes this value of it, or fails if there is
none. A text that can be read so may be an item of a tuple. -/
structure Reads (t : List Char) (v? : Option Object) : Prop where
  start : StartsItem t
  /-- What reading makes of it. -/
  take : ∀ n rest, Stops rest → takeValue? (n + 3) (t ++ rest) = v?.map (·, rest)

theorem takeValue?_of_ne {c : Char} (hopen : c ≠ '(') (n : ℕ) (cs : List Char) :
    takeValue? (n + 1) (c :: cs) = (takeAtom? (c :: cs)).map fun (a, cs) ↦ (.atom 0 a, cs) := by
  rw [takeValue?.eq_def]
  dsimp only
  split
  · next heq =>
    cases heq
    exact absurd rfl hopen
  · rfl

/-- What begins like an item and with no parenthesis is read as a value without parts. -/
theorem Reads.of_takeAtom? {t : List Char} (a? : Option Atom)
    (hstart : ∃ c cs, t = c :: cs ∧ ¬isSpace c ∧ c ≠ ')' ∧ c ≠ '(')
    (htake : ∀ rest, Stops rest → takeAtom? (t ++ rest) = a?.map (·, rest)) :
    Reads t (a?.map (.atom 0)) := by
  obtain ⟨c, cs, rfl, hspace, hclose, hopen⟩ := hstart
  refine ⟨⟨c, cs, rfl, hspace, hclose⟩, fun n rest hrest ↦ ?_⟩
  have hread := htake rest hrest
  rw [List.cons_append] at hread
  rw [List.cons_append, takeValue?_of_ne hopen, hread, Option.map_map, Option.map_map]
  rfl

theorem toList_toString_int (i : ℤ) :
    (toString i).toList = sign (decide (i < 0)) ++ Nat.toDigits 10 i.natAbs := by
  cases i with
  | ofNat n =>
    show (toString n).toList = _
    rw [Nat.toString_eq_ofList_toDigits, String.toList_ofList]
    rfl
  | negSucc n =>
    show ("-" ++ toString (n + 1)).toList = _
    have hminus : "-".toList = ['-'] := rfl
    have hnegative : decide (Int.negSucc n < 0) = true := decide_eq_true (Int.negSucc_lt_zero n)
    rw [String.toList_append, hminus, Nat.toString_eq_ofList_toDigits, String.toList_ofList, hnegative]
    rfl

/-- What a signed numeral begins with. -/
theorem exists_sign_append_eq (negative : Bool) {c : Char} (cs : List Char) (hc : c.isAlphanum) :
    ∃ d ds, sign negative ++ c :: cs = d :: ds ∧ ¬isSpace d ∧ d ≠ ')' ∧ d ≠ '(' := by
  cases negative with
  | true => exact ⟨'-', c :: cs, rfl, by decide, by decide, by decide⟩
  | false =>
    refine ⟨c, cs, rfl, ?_, ?_, ?_⟩
    · intro hspace
      simp only [isSpace, Bool.or_eq_true, decide_eq_true_eq] at hspace
      rcases hspace with ((rfl | rfl) | rfl) | rfl <;> revert hc <;> decide
    all_goals
      rintro rfl
      revert hc
      decide

theorem reads_int (i : ℤ) : Reads (toString i).toList (some (.atom 0 (.int i))) := by
  rw [toList_toString_int]
  have hdigits : ∀ c ∈ Nat.toDigits 10 i.natAbs, c.isDigit := fun c ↦ isDigit_of_mem_toDigits
  refine Reads.of_takeAtom? (some (.int i)) ?_ fun rest hrest ↦ ?_
  · obtain ⟨c, cs, hcs⟩ := List.exists_cons_of_ne_nil (Nat.toDigits_ne_nil (n := i.natAbs) (b := 10))
    have hc : c.isAlphanum := by
      rw [Char.isAlphanum, hdigits c (hcs ▸ List.mem_cons_self), Bool.or_true]
    rw [hcs]
    exact exists_sign_append_eq _ cs hc
  · have hzero : (Nat.toDigits 10 i.natAbs).head? = some '0' →
        Nat.ofDigitChars 10 (Nat.toDigits 10 i.natAbs) 0 = 0 := by
      intro hhead
      rw [Nat.ofDigitChars_ten_toDigits]
      by_contra hne
      exact head?_toDigits hne hhead
    have hread := takeNumeral?_whole hdigits Nat.toDigits_ne_nil hrest.endsNumeral hzero
    rw [List.append_assoc, takeAtom?_sign _ hread, finishNumber?_of_stops hrest, Option.map_some, ofNumeral,
      if_pos rfl, Nat.ofDigitChars_ten_toDigits]
    congr 3
    split <;> simp only [decide_eq_true_eq] at * <;> omega

/-- The magnitude of a number begins with a digit or with a letter. -/
theorem exists_writeMagnitude_eq (style : DecimalStyle) (x : Binary64) :
    ∃ c cs, (x.writeMagnitude style).toList = c :: cs ∧ c.isAlphanum := by
  by_cases hx : x.isFinite
  · obtain ⟨y, hread, -⟩ := takeNumeral?_writeMagnitude style hx (show EndsNumeral [] from nofun)
    rw [List.append_nil] at hread
    obtain ⟨c, cs, hcs, hc⟩ := exists_cons_of_takeNumeral? hread
    exact ⟨c, cs, hcs, by rw [Char.isAlphanum, hc, Bool.or_true]⟩
  · cases x with
    | nan => exact ⟨'n', ['a', 'n'], by rw [Binary64.writeMagnitude]; rfl, rfl⟩
    | infinite => exact ⟨'i', ['n', 'f'], by rw [Binary64.writeMagnitude]; rfl, rfl⟩
    | finite => exact absurd rfl hx

theorem reads_float (x : Binary64) :
    Reads x.write.toList (if x.isFinite then some (.atom 0 (.float x)) else none) := by
  rw [Binary64.write, toList_writeIn]
  have hreads : Reads (sign x.isNegative ++ (x.writeMagnitude numberStyle).toList)
      ((if x.isFinite then some (.float x) else none).map (.atom 0)) := by
    refine Reads.of_takeAtom? _ ?_ fun rest hrest ↦ ?_
    · obtain ⟨c, cs, hcs, hc⟩ := exists_writeMagnitude_eq numberStyle x
      rw [hcs]
      exact exists_sign_append_eq _ cs hc
    · rw [List.append_assoc]
      split
      · next hx =>
        obtain ⟨y, hread, hy, hwhole⟩ := takeNumeral?_writeMagnitude numberStyle hx hrest.endsNumeral
        have hwhole : ¬y.whole := fun h ↦ Bool.noConfusion (hwhole h)
        rw [takeAtom?_sign _ hread, finishNumber?_of_stops hrest, ofNumeral, if_neg hwhole, hy]
        rfl
      · next hx => exact takeAtom?_of_not_finite numberStyle hx rest
  rwa [apply_ite (Option.map (Object.atom 0))] at hreads

/-- A numeral ends at the mark of an imaginary part. -/
theorem endsNumeral_mark (rest : List Char) : EndsNumeral ('j' :: rest) := by
  rintro _ ⟨⟩
  decide

/-- The imaginary part is read up to its mark, and fails to be read if it is not finite. -/
theorem takeImaginary?_written (re im : Binary64) (rest : List Char) :
    takeImaginary? re im.isNegative ((im.writeMagnitude partStyle).toList ++ 'j' :: rest) =
      if im.isFinite then some (.complex re im, rest) else none := by
  rw [takeImaginary?]
  split_ifs with him
  · obtain ⟨y, hread, hy, -⟩ := takeNumeral?_writeMagnitude partStyle him (endsNumeral_mark rest)
    simp only [hread, hy]
  · rw [takeNumeral?_of_not_finite partStyle him]

/-- A complex number without a real part is read as an imaginary one. -/
theorem reads_imaginary (im : Binary64) :
    Reads (sign im.isNegative ++ (im.writeMagnitude partStyle).toList ++ ['j'])
      (if im.isFinite then some (.atom 0 (.complex (.zero false) im)) else none) := by
  have hreads : Reads (sign im.isNegative ++ (im.writeMagnitude partStyle).toList ++ ['j'])
      ((if im.isFinite then some (.complex (.zero false) im) else none).map (.atom 0)) := by
    refine Reads.of_takeAtom? _ ?_ fun rest hrest ↦ ?_
    · obtain ⟨c, cs, hcs, hc⟩ := exists_writeMagnitude_eq partStyle im
      rw [hcs, List.append_assoc]
      exact exists_sign_append_eq _ (cs ++ ['j']) hc
    · rw [List.append_assoc, List.append_assoc]
      split
      · next him =>
        obtain ⟨y, hread, hy, -⟩ := takeNumeral?_writeMagnitude partStyle him (endsNumeral_mark rest)
        rw [List.singleton_append, takeAtom?_sign _ hread, finishNumber?, hy]
        rfl
      · next him => exact takeAtom?_of_not_finite partStyle him _
  rwa [apply_ite (Option.map (Object.atom 0))] at hreads

/-- The sum of two parts is read as a complex number, if both are finite. -/
theorem takeAtom?_sum (re im : Binary64) (rest : List Char) :
    takeAtom? (sign re.isNegative ++ ((re.writeMagnitude partStyle).toList ++
      (if im.isNegative then '-' else '+') :: ((im.writeMagnitude partStyle).toList ++ 'j' :: rest))) =
        if re.isFinite && im.isFinite then some (.complex re im, rest) else none := by
  by_cases hre : re.isFinite
  · have hends : EndsNumeral ((if im.isNegative then '-' else '+') ::
        ((im.writeMagnitude partStyle).toList ++ 'j' :: rest)) := by
      rintro _ ⟨⟩
      split <;> decide
    obtain ⟨y, hread, hy, -⟩ := takeNumeral?_writeMagnitude partStyle hre hends
    rw [takeAtom?_sign _ hread, hre, Bool.true_and, ← takeImaginary?_written]
    cases him : im.isNegative with
    | true => rw [if_pos rfl, finishNumber?, hy]
    | false => rw [if_neg Bool.false_ne_true, finishNumber?, hy]
  · rw [takeAtom?_of_not_finite partStyle hre, if_neg]
    rw [Bool.and_eq_true]
    exact fun h ↦ hre h.1

/-! ### Items -/

section Items

variable {n : ℕ} {acc : List Object} {t cs : List Char} {v : Object}

theorem takeItems?_blank : takeItems? (n + 1) acc (' ' :: cs) = takeItems? (n + 1) acc cs := by
  rw [takeItems?, takeItems?]
  rfl

theorem takeItems?_of_start (ht : StartsItem t) :
    takeItems? (n + 1) acc t =
      match takeValue? n t with
      | none => none
      | some (v, cs) =>
        match skipSpace cs with
        | ',' :: cs => takeItems? n (v :: acc) cs
        | ')' :: cs => some (if acc.isEmpty then v else .tuple 0 (v :: acc).reverse, cs)
        | _ => none := by
  obtain ⟨c, cs, rfl, hspace, hclose⟩ := ht
  have hskip : skipSpace (c :: cs) = c :: cs := List.dropWhile_cons_of_neg hspace
  rw [takeItems?.eq_def]
  simp only [hskip]
  split
  · next heq =>
    cases heq
    exact absurd rfl hclose
  · rfl

/-- The items fail to be read with any of them. -/
theorem takeItems?_of_none (ht : StartsItem t) (h : takeValue? n t = none) :
    takeItems? (n + 1) acc t = none := by
  rw [takeItems?_of_start ht, h]

theorem takeItems?_of_close (ht : StartsItem t) (h : takeValue? n t = some (v, ')' :: cs)) :
    takeItems? (n + 1) acc t = some (if acc.isEmpty then v else .tuple 0 (v :: acc).reverse, cs) := by
  rw [takeItems?_of_start ht, h]
  rfl

theorem takeItems?_of_comma (ht : StartsItem t) (h : takeValue? n t = some (v, ',' :: cs)) :
    takeItems? (n + 1) acc t = takeItems? n (v :: acc) cs := by
  rw [takeItems?_of_start ht, h]
  rfl

end Items

/-- A sum in parentheses is read as a complex number. -/
theorem reads_sum (re im : Binary64) :
    Reads ('(' :: (sign re.isNegative ++ ((re.writeMagnitude partStyle).toList ++
      (if im.isNegative then '-' else '+') :: ((im.writeMagnitude partStyle).toList ++ ['j', ')']))))
        (if re.isFinite && im.isFinite then some (.atom 0 (.complex re im)) else none) := by
  refine ⟨⟨'(', _, rfl, by decide, by decide⟩, fun n rest _ ↦ ?_⟩
  have htake := takeAtom?_sum re im (')' :: rest)
  have hstart : ∃ c cs, sign re.isNegative ++ ((re.writeMagnitude partStyle).toList ++
      (if im.isNegative then '-' else '+') ::
        ((im.writeMagnitude partStyle).toList ++ 'j' :: ')' :: rest)) = c :: cs ∧
          ¬isSpace c ∧ c ≠ ')' ∧ c ≠ '(' := by
    obtain ⟨c, cs, hcs, hc⟩ := exists_writeMagnitude_eq partStyle re
    rw [hcs]
    exact exists_sign_append_eq _ _ hc
  have hshape : sign re.isNegative ++ ((re.writeMagnitude partStyle).toList ++
      (if im.isNegative then '-' else '+') :: ((im.writeMagnitude partStyle).toList ++ ['j', ')'])) ++ rest =
        sign re.isNegative ++ ((re.writeMagnitude partStyle).toList ++
          (if im.isNegative then '-' else '+') ::
            ((im.writeMagnitude partStyle).toList ++ 'j' :: ')' :: rest)) := by
    simp only [List.append_assoc, List.cons_append, List.nil_append]
  rw [List.cons_append, hshape]
  obtain ⟨c, cs, hcs, hspace, hclose, hopen⟩ := hstart
  rw [hcs] at htake ⊢
  show takeItems? (n + 2) [] (c :: cs) = _
  have hvalue := takeValue?_of_ne hopen n cs
  rw [htake] at hvalue
  split_ifs at hvalue ⊢
  · exact takeItems?_of_close ⟨c, cs, rfl, hspace, hclose⟩ hvalue
  · exact takeItems?_of_none ⟨c, cs, rfl, hspace, hclose⟩ hvalue

theorem reads_complex (re im : Binary64) :
    Reads (Binary64.writeComplex re im).toList
      (if re.isFinite && im.isFinite then some (.atom 0 (.complex re im)) else none) := by
  have hsign : ∀ negative : Bool, (if negative then "-" else "").toList = sign negative := by decide
  have hmark : ∀ negative : Bool,
      (if negative then "-" else "+").toList = [if negative then '-' else '+'] := by decide
  have hopen : "(".toList = ['('] := rfl
  have hclose : ")".toList = [')'] := rfl
  have himaginary : "j".toList = ['j'] := rfl
  rw [Binary64.writeComplex]
  split
  · next hre =>
    subst hre
    rw [String.toList_append, String.toList_append, hsign, himaginary, ← List.append_assoc]
    exact reads_imaginary im
  · simp only [String.toList_append, toList_writeIn, hmark, hopen, hclose, himaginary, List.append_assoc,
      List.cons_append, List.nil_append]
    exact reads_sum re im

/-! ### Written forms -/

theorem reads_text (s : String) : Reads (Text.quoted s).toList (some (.atom 0 (.text s))) := by
  obtain ⟨quote, cs, hquote, hwritten, -⟩ := Text.takeQuoted?_quoted s []
  have his : isQuote quote := by rcases hquote with rfl | rfl <;> rfl
  refine Reads.of_takeAtom? (some (.text s)) ?_ fun rest hrest ↦ ?_
  · refine ⟨quote, cs, hwritten, ?_⟩
    rcases hquote with rfl | rfl <;> decide
  · obtain ⟨quote', cs', -, hwritten', hread⟩ := Text.takeQuoted?_quoted s rest
    rw [hwritten] at hwritten'
    obtain ⟨rfl, rfl⟩ := List.cons.inj hwritten'
    rw [hwritten, List.cons_append, takeAtom?, if_pos his, hread, Option.map_some, Option.map_some]
    show some (Atom.text (String.ofList s.toList), rest) = _
    rw [String.ofList_toList]

theorem reads_bytes (bs : List UInt8) : Reads (Text.quotedBytes bs).toList (some (.atom 0 (.bytes bs))) := by
  obtain ⟨quote, cs, hquote, hwritten, -⟩ := Text.takeQuoted?_quotedBytes bs []
  have his : isQuote quote := by rcases hquote with rfl | rfl <;> rfl
  refine Reads.of_takeAtom? (some (.bytes bs)) ?_ fun rest hrest ↦ ?_
  · exact ⟨'b', quote :: cs, hwritten, by decide, by decide, by decide⟩
  · obtain ⟨quote', cs', -, hwritten', hread⟩ := Text.takeQuoted?_quotedBytes bs rest
    rw [hwritten] at hwritten'
    obtain ⟨rfl, rfl⟩ := List.cons.inj (List.cons.inj hwritten').2
    have hnot : ¬isQuote 'b' := by decide
    rw [hwritten, List.cons_append, takeAtom?, if_neg hnot, if_pos rfl, List.cons_append, List.head?_cons,
      Option.filter_some, if_pos his, Option.bind_some, List.tail_cons, hread, Option.map_some,
      Option.map_some]

/-- **Literals are read back, and nothing else is read.** -/
theorem reads_written (a : Atom) :
    Reads a.written.toList (if a.hasLiteral then some (.atom 0 a) else none) := by
  have hword : ∀ (word : List Char) (a? : Option Atom), (∃ c cs, word = c :: cs ∧ ¬isSpace c ∧ c ≠ ')' ∧
      c ≠ '(') → (∀ rest, takeAtom? (word ++ rest) = a?.map (·, rest)) → Reads word (a?.map (.atom 0)) :=
    fun _ _ hstart htake ↦ .of_takeAtom? _ hstart fun rest _ ↦ htake rest
  cases a with
  | none => exact hword _ (some .none) ⟨_, _, rfl, by decide, by decide, by decide⟩ fun _ ↦ rfl
  | ellipsis => exact hword _ none ⟨_, _, rfl, by decide, by decide, by decide⟩ fun _ ↦ rfl
  | notImplemented => exact hword _ none ⟨_, _, rfl, by decide, by decide, by decide⟩ fun _ ↦ rfl
  | missing => exact hword _ none ⟨_, _, rfl, by decide, by decide, by decide⟩ fun _ ↦ rfl
  | bool b =>
    cases b with
    | true => exact hword _ (some (.bool true)) ⟨_, _, rfl, by decide, by decide, by decide⟩ fun _ ↦ rfl
    | false => exact hword _ (some (.bool false)) ⟨_, _, rfl, by decide, by decide, by decide⟩ fun _ ↦ rfl
  | int i => exact reads_int i
  | float x => exact reads_float x
  | complex re im => exact reads_complex re im
  | text s => exact reads_text s
  | bytes bs => exact reads_bytes bs

/-! ### Tuples -/

/-- What follows the first item of a tuple that has several: the others, and the closing parenthesis. -/
def tailText : List (List Char) → List Char
  | [] => [')']
  | t :: ts => ',' :: ' ' :: (t ++ tailText ts)

theorem stops_tailText (ts : List (List Char)) (rest : List Char) : Stops (tailText ts ++ rest) := by
  cases ts with
  | nil =>
    rintro _ ⟨⟩
    exact .inr rfl
  | cons t ts =>
    rintro _ ⟨⟩
    exact .inl rfl

variable {t : List Char} {ts : List (List Char)} {v? : Option Object} {vs : List (Option Object)}

theorem mapM_id_cons (v : Object) (vs : List (Option Object)) :
    (some v :: vs).mapM id = (vs.mapM id).map (v :: ·) := by
  rw [List.mapM_cons]
  simp only [id_eq, Option.bind_eq_bind, Option.bind_some, Option.pure_def]
  cases vs.mapM id <;> rfl

/-- The items of a tuple are read one after the other, and none if one of them fails. -/
theorem takeItems?_tailText (ht : Reads t v?) (hts : List.Forall₂ Reads ts vs) {acc : List Object}
    (hacc : acc ≠ []) {n : ℕ} (hn : ts.length + 4 ≤ n) (rest : List Char) :
    takeItems? n acc (t ++ (tailText ts ++ rest)) =
      ((v? :: vs).mapM id).map fun us ↦ (.tuple 0 (acc.reverse ++ us), rest) := by
  induction hts generalizing t v? acc n with
  | nil =>
    obtain ⟨n, rfl⟩ : ∃ k, n = k + 4 := ⟨n - 4, by rw [List.length_nil] at hn; omega⟩
    have hread := ht.take n (tailText [] ++ rest) (stops_tailText [] rest)
    cases v? with
    | none => exact takeItems?_of_none (ht.start.append _) hread
    | some v =>
      have hempty : ¬acc.isEmpty := by rwa [List.isEmpty_iff]
      refine (takeItems?_of_close (ht.start.append _) hread).trans ?_
      rw [if_neg hempty, List.reverse_cons]
      rfl
  | @cons t' v'? ts vs ht' hts ih =>
    obtain ⟨n, rfl⟩ : ∃ k, n = k + 4 := ⟨n - 4, by omega⟩
    have hread := ht.take n (tailText (t' :: ts) ++ rest) (stops_tailText (t' :: ts) rest)
    cases v? with
    | none => exact takeItems?_of_none (ht.start.append _) hread
    | some v =>
      have hnext : takeItems? (n + 3) (v :: acc) (' ' :: (t' ++ (tailText ts ++ rest))) =
          ((v'? :: vs).mapM id).map fun us ↦ (.tuple 0 ((v :: acc).reverse ++ us), rest) := by
        rw [takeItems?_blank]
        exact ih ht' (List.cons_ne_nil v acc) (by rw [List.length_cons] at hn; omega)
      refine (takeItems?_of_comma (ht.start.append _) (hread.trans ?_)).trans (hnext.trans ?_)
      · rw [tailText, List.cons_append, List.cons_append, List.append_assoc]
        rfl
      · simp only [mapM_id_cons, Option.map_map, Function.comp_def, List.reverse_cons, List.append_assoc,
          List.singleton_append]

/-- The text of a tuple with the texts of its items. -/
def tupleText : List String → String
  | [s] => "(" ++ s ++ ",)"
  | ss => "(" ++ ", ".intercalate ss ++ ")"

theorem toList_intercalate (s : String) (ss : List String) :
    (", ".intercalate (s :: ss)).toList ++ [')'] = s.toList ++ tailText (ss.map String.toList) := by
  induction ss generalizing s with
  | nil => rw [String.intercalate_singleton, List.map_nil, tailText]
  | cons t ss ih =>
    have hcomma : ", ".toList = [',', ' '] := rfl
    rw [String.intercalate_cons_cons, String.toList_append, String.toList_append, List.append_assoc, ih t,
      hcomma, List.map_cons, tailText, List.append_assoc]
    rfl

theorem length_tailText (ts : List (List Char)) : 2 * ts.length < (tailText ts).length := by
  induction ts with
  | nil => decide
  | cons t ts ih =>
    simp only [tailText, List.length_cons, List.length_append]
    omega

/-- A text that can be read is a literal of its value, or none. -/
theorem ofText?_of_reads {s : String} (h : Reads s.toList v?) : ofText? s = v? := by
  obtain ⟨c, cs, hcs, -⟩ := h.start
  have hlength : s.length + 2 = cs.length + 3 := by
    rw [← String.length_toList, hcs]
    rfl
  have hread := h.take cs.length [] nofun
  rw [List.append_nil] at hread
  rw [ofText?, hlength, hread]
  cases v? <;> rfl

/-- **The text of a tuple is a literal if its items have literals.** It is read as the tuple of their
values. -/
theorem ofText?_tupleText {ss : List String} (h : List.Forall₂ (fun s v? ↦ Reads s.toList v?) ss vs) :
    ofText? (tupleText ss) = (vs.mapM id).map (.tuple 0) := by
  have hopen : "(".toList = ['('] := rfl
  have hclose : ")".toList = [')'] := rfl
  have hcomma : ",)".toList = [',', ')'] := rfl
  match ss, vs, h with
  | [], [], _ => rfl
  | [s], [v?], .cons hs .nil =>
    have htext : (tupleText [s]).toList = '(' :: (s.toList ++ [',', ')']) := by
      rw [tupleText, String.toList_append, String.toList_append, hopen, hcomma]
      rfl
    have hlength : (tupleText [s]).length = s.toList.length + 3 := by
      rw [← String.length_toList, htext, List.length_cons, List.length_append]
      rfl
    have hread := hs.take s.toList.length [',', ')'] (by rintro _ ⟨⟩; exact .inl rfl)
    rw [ofText?, htext, hlength, takeValue?]
    cases v? with
    | none =>
      rw [takeItems?_of_none (hs.start.append _) hread]
      rfl
    | some v =>
      rw [takeItems?_of_comma (hs.start.append _) hread]
      rfl
  | s :: s' :: ss, v? :: v'? :: vs, .cons hs (.cons hs' hss) =>
    have htext : (tupleText (s :: s' :: ss)).toList =
        '(' :: (s.toList ++ tailText ((s' :: ss).map String.toList)) := by
      rw [tupleText, String.toList_append, String.toList_append, hopen, hclose, List.append_assoc,
        toList_intercalate]
      · rfl
      · exact fun _ h ↦ List.cons_ne_nil _ _ (List.cons.inj h).2
    have hss' : List.Forall₂ Reads (ss.map String.toList) vs := by
      rwa [List.forall₂_map_left_iff]
    obtain ⟨n, hn, hlength⟩ : ∃ n, ss.length + 1 ≤ n ∧ (tupleText (s :: s' :: ss)).length + 2 = n + 5 := by
      have htail := length_tailText ((s' :: ss).map String.toList)
      rw [← String.length_toList, htext, List.length_cons, List.length_append]
      rw [List.length_map, List.length_cons] at htail
      exact ⟨(s.toList.length + (tailText ((s' :: ss).map String.toList)).length) - 2, by omega, by omega⟩
    have hread := hs.take n (tailText ((s' :: ss).map String.toList))
      (by rw [← List.append_nil (tailText _)]; exact stops_tailText _ [])
    rw [ofText?, htext, hlength, takeValue?]
    cases v? with
    | none =>
      rw [takeItems?_of_none (hs.start.append _) hread]
      rfl
    | some v =>
      have htail := takeItems?_tailText hs' hss' (List.cons_ne_nil v []) (n := n + 3)
        (by rw [List.length_map]; omega) []
      rw [List.append_nil] at htail
      rw [takeItems?_of_comma (hs.start.append _) hread, takeItems?_blank, htail, mapM_id_cons]
      cases (v'? :: vs).mapM id <;> rfl

end Literal

end DeclClosure

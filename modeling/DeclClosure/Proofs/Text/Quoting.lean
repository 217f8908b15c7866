import DeclClosure.Json.Reader
import DeclClosure.Text.Quoted
import Mathlib.Data.List.Basic
import Mathlib.Tactic.Ring

/-!
# Quoted texts are read back

A reader of quoted texts and byte strings, which takes one character or one byte at a time, as it stands or
escaped, up to the closing quote. What `quoted` and `quotedBytes` write is read back, whatever follows it
(`takeQuoted?_quoted`, `takeQuoted?_quotedBytes`). The two differ only in what stands for itself and in the
numbers that may be escaped, so the loop is one, and so is its lemma.
-/

namespace DeclClosure.Text

open Json (hexValue?)

/-- The characters that are escaped by a letter or by themselves. -/
def letterEscapes : List (Char × Char) :=
  [('\\', '\\'), ('\'', '\''), ('"', '"'), ('t', '\t'), ('n', '\n'), ('r', '\r')]

/-- The letters that escape a character by its number, with the digits that they take. -/
def numberEscapes : List (Char × ℕ) :=
  [('x', 2), ('u', 4), ('U', 8)]

/-- The number in so many hexadecimal digits, continued from `acc`, and the rest. -/
def takeHex? : ℕ → ℕ → List Char → Option (ℕ × List Char)
  | 0, acc, cs => some (acc, cs)
  | width + 1, acc, c :: cs => (hexValue? c).bind fun d ↦ takeHex? width (acc * 16 + d) cs
  | _ + 1, _, [] => none

/-- The character of a number, if there is one. -/
def charOf? (n : ℕ) : Option Char :=
  if n.isValidChar then some (Char.ofNat n) else none

/-- What an escape in a text stands for, and the rest. -/
def takeEscape? (c : Char) (cs : List Char) : Option (Char × List Char) :=
  match letterEscapes.lookup c with
  | some d => some (d, cs)
  | none => do
    let width ← numberEscapes.lookup c
    let (n, cs) ← takeHex? width 0 cs
    let d ← charOf? n
    return (d, cs)

/-- What an escape in a byte string stands for, and the rest. -/
def takeByteEscape? (c : Char) (cs : List Char) : Option (UInt8 × List Char) :=
  match letterEscapes.lookup c with
  | some d => some (UInt8.ofNat d.toNat, cs)
  | none => if c = 'x' then (takeHex? 2 0 cs).map fun (n, cs) ↦ (UInt8.ofNat n, cs) else none

/-- A character of a text, and the rest. -/
def takeChar? : List Char → Option (Char × List Char)
  | [] => none
  | c :: cs =>
    if c = '\\' then cs.head?.bind fun d ↦ takeEscape? d cs.tail
    else if c = '\n' ∨ c = '\r' then none
    else some (c, cs)

/-- A byte of a byte string, and the rest. -/
def takeByte? : List Char → Option (UInt8 × List Char)
  | [] => none
  | c :: cs =>
    if c = '\\' then cs.head?.bind fun d ↦ takeByteEscape? d cs.tail
    else if c = '\n' ∨ c = '\r' ∨ 128 ≤ c.toNat then none
    else some (UInt8.ofNat c.toNat, cs)

/-- What stands before the closing quote, read one by one after what is in `acc`, and the rest after the
quote. -/
def takeQuotedAfter? {α : Type} (take? : List Char → Option (α × List Char)) (quote : Char) :
    ℕ → List α → List Char → Option (List α × List Char)
  | 0, _, _ => none
  | n + 1, acc, cs =>
    if cs.head? = some quote then some (acc.reverse, cs.tail)
    else (take? cs).bind fun (a, rest) ↦ takeQuotedAfter? take? quote n (a :: acc) rest

/-- What stands before the closing quote, read one by one, and the rest after the quote. Every step takes
at least one character, so their number bounds the steps. -/
def takeQuoted? {α : Type} (take? : List Char → Option (α × List Char)) (quote : Char) (cs : List Char) :
    Option (List α × List Char) :=
  takeQuotedAfter? take? quote (cs.length + 1) [] cs

/-! ### Numbers in hexadecimal digits -/

variable {ds rest : List Char} {quote : Char}

theorem takeHex?_append {i acc a : ℕ} (h : takeHex? i acc ds = some (a, [])) (j : ℕ) (cs : List Char) :
    takeHex? (i + j) acc (ds ++ cs) = takeHex? j a cs := by
  induction i generalizing acc ds with
  | zero =>
    obtain ⟨rfl, rfl⟩ := Prod.mk.inj (Option.some.inj h)
    rw [Nat.zero_add, List.nil_append]
  | succ i ih =>
    cases ds with
    | nil => cases h
    | cons c ds =>
      rw [takeHex?, Option.bind_eq_some_iff] at h
      obtain ⟨d, hd, h⟩ := h
      rw [Nat.add_right_comm, List.cons_append, takeHex?, hd, Option.bind_some, ih h]

theorem takeHex?_zeros (k : ℕ) : takeHex? k 0 (List.replicate k '0') = some (0, []) := by
  induction k with
  | zero => rfl
  | succ k ih => exact ih

theorem takeHex?_toDigits (n acc : ℕ) :
    takeHex? (Nat.toDigits 16 n).length acc (Nat.toDigits 16 n) =
      some (acc * 16 ^ (Nat.toDigits 16 n).length + n, []) := by
  have hdigit : ∀ k < 16, hexValue? (Nat.digitChar k) = some k := by decide
  have hone : ∀ k < 16, ∀ acc, takeHex? 1 acc [Nat.digitChar k] = some (acc * 16 + k, []) := by
    intro k hk acc
    rw [takeHex?, hdigit k hk]
    rfl
  induction n using Nat.strong_induction_on with
  | _ n ih =>
    rw [Nat.toDigits_eq_if (by decide)]
    split
    · next hlt => exact hone n hlt acc
    · next hge =>
      rw [List.length_append, List.length_singleton, takeHex?_append (ih (n / 16) (by omega)),
        hone (n % 16) (Nat.mod_lt n (by decide))]
      congr 2
      rw [pow_succ]
      have := Nat.div_add_mod n 16
      ring_nf
      omega

/-- A number that fits into so many digits is read back from them. -/
theorem takeHex?_hexDigits {width n : ℕ} (hwidth : 0 < width) (hn : n < 16 ^ width) :
    takeHex? width 0 ((hexDigits width n).toList ++ rest) = some (n, rest) := by
  have hlength : (Nat.toDigits 16 n).length ≤ width :=
    (Nat.length_toDigits_le_iff (by decide) hwidth).mpr hn
  simp only [hexDigits, String.toList_ofList, List.append_assoc]
  have hzeros := takeHex?_append (takeHex?_zeros (width - (Nat.toDigits 16 n).length))
    (Nat.toDigits 16 n).length (Nat.toDigits 16 n ++ rest)
  rw [Nat.sub_add_cancel hlength] at hzeros
  have hdigits := takeHex?_append (takeHex?_toDigits n 0) 0 rest
  rw [Nat.add_zero, Nat.zero_mul, Nat.zero_add] at hdigits
  exact hzeros.trans hdigits

/-! ### Characters and bytes -/

/-- A short escape is the backslash and one character, by which the reader finds the one escaped. -/
theorem exists_of_shortEscape?_eq_some (hquote : quote = '\'' ∨ quote = '"') {c : Char} {e : String}
    (h : shortEscape? quote c = some e) :
    ∃ d, e.toList = ['\\', d] ∧ letterEscapes.lookup d = some c := by
  rw [shortEscape?] at h
  split at h
  · next hself =>
    obtain rfl := Option.some.inj h
    refine ⟨c, String.toList_ofList, ?_⟩
    rcases hself with rfl | rfl
    · rcases hquote with rfl | rfl <;> rfl
    · rfl
  · split_ifs at h with ht hn hr
    · obtain rfl := Option.some.inj h
      exact ⟨'t', rfl, ht ▸ rfl⟩
    · obtain rfl := Option.some.inj h
      exact ⟨'n', rfl, hn ▸ rfl⟩
    · obtain rfl := Option.some.inj h
      exact ⟨'r', rfl, hr ▸ rfl⟩

theorem of_shortEscape?_eq_none {c : Char} (h : shortEscape? quote c = none) :
    c ≠ quote ∧ c ≠ '\\' ∧ c ≠ '\n' ∧ c ≠ '\r' := by
  rw [shortEscape?] at h
  split_ifs at h with hself ht hn hr
  exact ⟨fun hc ↦ hself (.inl hc), fun hc ↦ hself (.inr hc), hn, hr⟩

theorem charOf?_toNat (c : Char) : charOf? c.toNat = some c := by
  have hvalid : c.toNat.isValidChar := c.valid
  rw [charOf?, if_pos hvalid, Char.ofNat_toNat]

/-- A character that is escaped by its number is read back. -/
theorem takeEscape?_hexDigits {letter c : Char} {width : ℕ} (hletter : letterEscapes.lookup letter = none)
    (hwidth : numberEscapes.lookup letter = some width) (hpos : 0 < width) (hc : c.toNat < 16 ^ width) :
    takeEscape? letter ((hexDigits width c.toNat).toList ++ rest) = some (c, rest) := by
  simp only [takeEscape?, hletter, hwidth, takeHex?_hexDigits hpos hc, charOf?_toNat, Option.bind_eq_bind,
    Option.bind_some, Option.pure_def]

theorem takeChar?_escape (c : Char) (cs : List Char) : takeChar? ('\\' :: c :: cs) = takeEscape? c cs :=
  rfl

theorem takeByte?_escape (c : Char) (cs : List Char) : takeByte? ('\\' :: c :: cs) = takeByteEscape? c cs :=
  rfl

/-- A quoted character is read back. -/
theorem takeChar?_quotedChar (hquote : quote = '\'' ∨ quote = '"') (c : Char) :
    takeChar? ((quotedChar quote c).toList ++ rest) = some (c, rest) := by
  rw [quotedChar]
  split
  · next e he =>
    obtain ⟨d, hd, hlookup⟩ := exists_of_shortEscape?_eq_some hquote he
    rw [hd, List.cons_append, List.cons_append, List.nil_append, takeChar?_escape]
    simp only [takeEscape?, hlookup]
  · next he =>
    obtain ⟨-, hback, hn, hr⟩ := of_shortEscape?_eq_none he
    have hlt : c.toNat < 16 ^ 8 := by
      have hvalid : c.toNat.isValidChar := c.valid
      rcases hvalid with h | h <;> omega
    split_ifs with hprintable hbyte hunit
    · rw [Char.toString, String.toList_singleton, List.singleton_append, takeChar?, if_neg hback,
        if_neg (not_or.mpr ⟨hn, hr⟩)]
    · have hletter : "\\x".toList = ['\\', 'x'] := rfl
      rw [String.toList_append, hletter, List.append_assoc, List.cons_append, List.cons_append,
        List.nil_append, takeChar?_escape]
      exact takeEscape?_hexDigits rfl rfl (by decide) hbyte
    · have hletter : "\\u".toList = ['\\', 'u'] := rfl
      rw [String.toList_append, hletter, List.append_assoc, List.cons_append, List.cons_append,
        List.nil_append, takeChar?_escape]
      exact takeEscape?_hexDigits rfl rfl (by decide) hunit
    · have hletter : "\\U".toList = ['\\', 'U'] := rfl
      rw [String.toList_append, hletter, List.append_assoc, List.cons_append, List.cons_append,
        List.nil_append, takeChar?_escape]
      exact takeEscape?_hexDigits rfl rfl (by decide) hlt

theorem toNat_ofNat_byte (b : UInt8) : (Char.ofNat b.toNat).toNat = b.toNat := by
  have hvalid : b.toNat.isValidChar := .inl (by have := b.toNat_lt; omega)
  rw [Char.ofNat, dif_pos hvalid]
  rfl

/-- A quoted byte is read back. -/
theorem takeByte?_quotedByte (hquote : quote = '\'' ∨ quote = '"') (b : UInt8) :
    takeByte? ((quotedByte quote b).toList ++ rest) = some (b, rest) := by
  have hb : UInt8.ofNat (Char.ofNat b.toNat).toNat = b := by
    rw [toNat_ofNat_byte, UInt8.ofNat_toNat]
  simp only [quotedByte]
  split
  · next e he =>
    obtain ⟨d, hd, hlookup⟩ := exists_of_shortEscape?_eq_some hquote he
    rw [hd, List.cons_append, List.cons_append, List.nil_append, takeByte?_escape]
    simp only [takeByteEscape?, hlookup, hb]
  · next he =>
    obtain ⟨-, hback, hn, hr⟩ := of_shortEscape?_eq_none he
    split_ifs with hprintable
    · have hascii : ¬128 ≤ (Char.ofNat b.toNat).toNat := by
        rw [toNat_ofNat_byte]
        omega
      rw [Char.toString, String.toList_singleton, List.singleton_append, takeByte?, if_neg hback,
        if_neg (not_or.mpr ⟨hn, not_or.mpr ⟨hr, hascii⟩⟩), hb]
    · have hletter : "\\x".toList = ['\\', 'x'] := rfl
      have hlookup : letterEscapes.lookup 'x' = none := rfl
      rw [String.toList_append, hletter, List.append_assoc, List.cons_append, List.cons_append,
        List.nil_append, takeByte?_escape]
      simp only [takeByteEscape?, hlookup, if_true, takeHex?_hexDigits Nat.zero_lt_two b.toNat_lt,
        Option.map_some, UInt8.ofNat_toNat]

/-! ### Up to the closing quote -/

/-- What is written one by one is read back one by one, if none of it begins with the quote. -/
theorem takeQuotedAfter?_flatMap {α : Type} {take? : List Char → Option (α × List Char)}
    {write : α → List Char} (htake : ∀ a rest, take? (write a ++ rest) = some (a, rest))
    (hwrite : ∀ a, ∃ c cs, write a = c :: cs ∧ c ≠ quote) (as : List α) {n : ℕ}
    (hn : (as.flatMap write).length < n) (acc : List α) :
    takeQuotedAfter? take? quote n acc (as.flatMap write ++ quote :: rest) =
      some (acc.reverse ++ as, rest) := by
  induction as generalizing n acc with
  | nil =>
    obtain ⟨n, rfl⟩ := Nat.exists_eq_succ_of_ne_zero (Nat.ne_zero_of_lt hn)
    rw [List.append_nil]
    exact if_pos rfl
  | cons a as ih =>
    obtain ⟨n, rfl⟩ := Nat.exists_eq_succ_of_ne_zero (Nat.ne_zero_of_lt hn)
    obtain ⟨c, cs, hc, hne⟩ := hwrite a
    have hhead : ¬((a :: as).flatMap write ++ quote :: rest).head? = some quote := by
      rw [List.flatMap_cons, hc]
      exact fun h ↦ hne (Option.some.inj h)
    have hshorter : (as.flatMap write).length < n := by
      rw [List.flatMap_cons, hc, List.length_append, List.length_cons] at hn
      omega
    rw [takeQuotedAfter?, if_neg hhead, List.flatMap_cons, List.append_assoc, htake, Option.bind_some]
    show takeQuotedAfter? take? quote n (a :: acc) _ = _
    rw [ih hshorter, List.reverse_cons, List.append_assoc, List.singleton_append]

theorem takeQuoted?_flatMap {α : Type} {take? : List Char → Option (α × List Char)} {write : α → List Char}
    (htake : ∀ a rest, take? (write a ++ rest) = some (a, rest))
    (hwrite : ∀ a, ∃ c cs, write a = c :: cs ∧ c ≠ quote) (as : List α) (rest : List Char) :
    takeQuoted? take? quote ((as.flatMap write ++ [quote]) ++ rest) = some (as, rest) := by
  rw [List.append_assoc, List.singleton_append]
  refine takeQuotedAfter?_flatMap htake hwrite as ?_ []
  rw [List.length_append]
  omega

theorem backslash_ne (hquote : quote = '\'' ∨ quote = '"') : '\\' ≠ quote := by
  rcases hquote with rfl | rfl <;> decide

/-- A quoted character begins with itself, if it is not the quote, or with the backslash. -/
theorem exists_quotedChar_eq (hquote : quote = '\'' ∨ quote = '"') (c : Char) :
    ∃ d cs, (quotedChar quote c).toList = d :: cs ∧ d ≠ quote := by
  rw [quotedChar]
  split
  · next e he =>
    obtain ⟨d, hd, -⟩ := exists_of_shortEscape?_eq_some hquote he
    exact ⟨_, _, hd, backslash_ne hquote⟩
  · next he =>
    split_ifs
    · exact ⟨c, [], String.toList_singleton c, (of_shortEscape?_eq_none he).1⟩
    all_goals exact ⟨'\\', _, String.toList_append, backslash_ne hquote⟩

theorem exists_quotedByte_eq (hquote : quote = '\'' ∨ quote = '"') (b : UInt8) :
    ∃ d cs, (quotedByte quote b).toList = d :: cs ∧ d ≠ quote := by
  simp only [quotedByte]
  split
  · next e he =>
    obtain ⟨d, hd, -⟩ := exists_of_shortEscape?_eq_some hquote he
    exact ⟨_, _, hd, backslash_ne hquote⟩
  · next he =>
    split_ifs
    · exact ⟨_, [], String.toList_singleton _, (of_shortEscape?_eq_none he).1⟩
    · exact ⟨'\\', _, String.toList_append, backslash_ne hquote⟩

theorem quoteFor_eq (hasSingle hasDouble : Bool) :
    quoteFor hasSingle hasDouble = '\'' ∨ quoteFor hasSingle hasDouble = '"' := by
  rw [quoteFor]
  split
  · exact .inr rfl
  · exact .inl rfl

/-- **Quoted texts are read back.** -/
theorem takeQuoted?_quoted (s : String) (rest : List Char) :
    ∃ quote cs, (quote = '\'' ∨ quote = '"') ∧ (quoted s).toList = quote :: cs ∧
      takeQuoted? takeChar? quote (cs ++ rest) = some (s.toList, rest) := by
  have hquote := quoteFor_eq (s.toList.contains '\'') (s.toList.contains '"')
  have hread := takeQuoted?_flatMap (fun c rest ↦ takeChar?_quotedChar hquote c)
    (exists_quotedChar_eq hquote) s.toList rest
  refine ⟨_, _, hquote, ?_, hread⟩
  simp only [quoted, String.toList_append, String.toList_join, List.flatMap_map, Char.toString,
    String.toList_singleton, List.cons_append, List.nil_append]

/-- **Quoted byte strings are read back.** -/
theorem takeQuoted?_quotedBytes (bs : List UInt8) (rest : List Char) :
    ∃ quote cs, (quote = '\'' ∨ quote = '"') ∧ (quotedBytes bs).toList = 'b' :: quote :: cs ∧
      takeQuoted? takeByte? quote (cs ++ rest) = some (bs, rest) := by
  have hquote := quoteFor_eq (bs.contains 39) (bs.contains 34)
  have hread := takeQuoted?_flatMap (fun b rest ↦ takeByte?_quotedByte hquote b)
    (exists_quotedByte_eq hquote) bs rest
  refine ⟨_, _, hquote, ?_, hread⟩
  have hmark : "b".toList = ['b'] := rfl
  simp only [quotedBytes, String.toList_append, String.toList_join, List.flatMap_map, Char.toString,
    String.toList_singleton, hmark, List.cons_append, List.nil_append]

end DeclClosure.Text

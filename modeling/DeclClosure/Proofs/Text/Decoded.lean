import DeclClosure.Text.Decoded
import Mathlib.Order.Nat

/-!
# Bytes that are a text

Reading bytes as a text and writing the text are inverse to each other (`decode_eq_ok_iff`): the
bytes that are read are exactly those that some text is written as, so no character has two forms.

Both directions go through one character. Its first byte tells how many follow and within which
bounds the second one lies; these bounds are what shuts out the longer forms of a character and the
surrogates (`encodeChar_of_firstChar?`).
-/

namespace DeclClosure.Text

open String (utf8EncodeChar)

variable {b : UInt8} {bs bytes rest : List UInt8} {c : Char} {low high acc sound n k v : Nat}

/-! ### The bytes that follow -/

theorem continueChar_cons (hb : b.toNat = v + 0x80) (hlow : low ≤ v + 0x80)
    (hhigh : v + 0x80 ≤ high) : continueChar (n + 1) low high acc sound (b :: bs) =
      continueChar n 0x80 0xBF (acc * 64 + v) (sound + 1) bs := by
  rw [continueChar, hb, Nat.add_sub_cancel]
  exact if_pos ⟨hlow, hhigh⟩

theorem exists_cons_of_continueChar (hleast : 0x80 ≤ low)
    (h : continueChar (n + 1) low high acc sound bytes = .ok k) :
    ∃ b bs v, bytes = b :: bs ∧ b.toNat = v + 0x80 ∧ low ≤ v + 0x80 ∧ v + 0x80 ≤ high ∧
      continueChar n 0x80 0xBF (acc * 64 + v) (sound + 1) bs = .ok k := by
  cases bytes with
  | nil => cases h
  | cons b bs =>
    rw [continueChar] at h
    split at h
    · next hb =>
      obtain ⟨v, hv⟩ := Nat.exists_eq_add_of_le' (hleast.trans hb.1)
      rw [hv, Nat.add_sub_cancel] at h
      exact ⟨b, bs, v, rfl, hv, hv ▸ hb.1, hv ▸ hb.2, h⟩
    · cases h

/-! ### The first byte -/

/-- The bounds of the byte after one that starts a character of three bytes. -/
def bounds₃ (v : Nat) : Nat × Nat :=
  (if v = 0 then 0xA0 else 0x80, if v = 0xD then 0x9F else 0xBF)

/-- The bounds of the byte after one that starts a character of four bytes. -/
def bounds₄ (v : Nat) : Nat × Nat :=
  (if v = 0 then 0x90 else 0x80, if v = 4 then 0x8F else 0xBF)

variable {b' w : Nat} {x : Nat × Nat × Nat × Nat}

theorem le_bounds₃ (v : Nat) : 0x80 ≤ (bounds₃ v).1 := by
  rw [bounds₃]
  split <;> omega

theorem le_bounds₄ (v : Nat) : 0x80 ≤ (bounds₄ v).1 := by
  rw [bounds₄]
  split <;> omega

/-- The bounds shut out what two bytes can say, and the surrogates. -/
theorem within_bounds₃_iff : ((bounds₃ v).1 ≤ w + 0x80 ∧ w + 0x80 ≤ (bounds₃ v).2) ↔
    w < 0x40 ∧ (v = 0 → 0x20 ≤ w) ∧ (v = 0xD → w < 0x20) := by
  rw [bounds₃]
  dsimp only
  split <;> split <;> omega

/-- The bounds shut out what three bytes can say, and what is beyond the last character. -/
theorem within_bounds₄_iff : ((bounds₄ v).1 ≤ w + 0x80 ∧ w + 0x80 ≤ (bounds₄ v).2) ↔
    w < 0x40 ∧ (v = 0 → 0x10 ≤ w) ∧ (v = 4 → w < 0x10) := by
  rw [bounds₄]
  dsimp only
  split <;> split <;> omega

theorem startByte?_of_one (h : b' < 0x80) : startByte? b' = some (0, 0, 0, b') :=
  if_pos h

theorem startByte?_of_two (hb : b' = v + 0xC0) (h : 2 ≤ v) (h' : v < 0x20) :
    startByte? b' = some (1, 0x80, 0xBF, v) := by
  rw [startByte?, if_neg (by omega), if_neg (by omega), if_pos (by omega), hb, Nat.add_sub_cancel]

theorem startByte?_of_three (hb : b' = v + 0xE0) (h : v < 0x10) :
    startByte? b' = some (2, (bounds₃ v).1, (bounds₃ v).2, v) := by
  rw [startByte?, if_neg (by omega), if_neg (by omega), if_neg (by omega), if_pos (by omega), hb,
    Nat.add_sub_cancel]
  simp only [bounds₃, Nat.add_eq_right, Nat.reduceEqDiff]

theorem startByte?_of_four (hb : b' = v + 0xF0) (h : v < 5) :
    startByte? b' = some (3, (bounds₄ v).1, (bounds₄ v).2, v) := by
  rw [startByte?, if_neg (by omega), if_neg (by omega), if_neg (by omega), if_neg (by omega),
    if_pos (by omega), hb, Nat.add_sub_cancel]
  simp only [bounds₄, Nat.add_eq_right, Nat.reduceEqDiff]

/-- The bytes that start a character. -/
theorem startByte?_cases (h : startByte? b' = some x) :
    (b' < 0x80 ∧ x = (0, 0, 0, b')) ∨
    (∃ v, b' = v + 0xC0 ∧ 2 ≤ v ∧ v < 0x20 ∧ x = (1, 0x80, 0xBF, v)) ∨
    (∃ v, b' = v + 0xE0 ∧ v < 0x10 ∧ x = (2, (bounds₃ v).1, (bounds₃ v).2, v)) ∨
    (∃ v, b' = v + 0xF0 ∧ v < 5 ∧ x = (3, (bounds₄ v).1, (bounds₄ v).2, v)) := by
  by_cases h₁ : b' < 0x80
  · rw [startByte?_of_one h₁] at h
    exact .inl ⟨h₁, (Option.some.inj h).symm⟩
  by_cases h₂ : b' < 0xC2
  · rw [startByte?, if_neg h₁, if_pos h₂] at h
    cases h
  refine .inr ?_
  by_cases h₃ : b' < 0xE0
  · obtain ⟨v, hb⟩ := Nat.exists_eq_add_of_le' (show 0xC0 ≤ b' by omega)
    rw [startByte?_of_two hb (by omega) (by omega)] at h
    exact .inl ⟨v, hb, by omega, by omega, (Option.some.inj h).symm⟩
  by_cases h₄ : b' < 0xF0
  · obtain ⟨v, hb⟩ := Nat.exists_eq_add_of_le' (show 0xE0 ≤ b' by omega)
    rw [startByte?_of_three hb (by omega)] at h
    exact .inr (.inl ⟨v, hb, by omega, (Option.some.inj h).symm⟩)
  by_cases h₅ : b' < 0xF5
  · obtain ⟨v, hb⟩ := Nat.exists_eq_add_of_le' (show 0xF0 ≤ b' by omega)
    rw [startByte?_of_four hb (by omega)] at h
    exact .inr (.inr ⟨v, hb, by omega, (Option.some.inj h).symm⟩)
  · rw [startByte?, if_neg h₁, if_neg h₂, if_neg h₃, if_neg h₄, if_neg h₅] at h
    cases h

/-! ### One character -/

/-- The first character of some bytes, with the number of bytes after its first one. -/
def firstChar? (b : UInt8) (bs : List UInt8) : Option (Char × Nat) :=
  match startByte? b.toNat with
  | none => none
  | some (n, low, high, first) =>
    match continueChar n low high first 0 bs with
    | .ok k => some (Char.ofNat k, n)
    | .error _ => none

theorem firstChar?_of_continueChar {first : Nat}
    (hstart : startByte? b.toNat = some (n, low, high, first))
    (hmore : continueChar n low high first 0 bs = .ok k) :
    firstChar? b bs = some (Char.ofNat k, n) := by
  rw [firstChar?, hstart]
  dsimp only
  rw [hmore]

theorem exists_of_firstChar?_eq_some (h : firstChar? b bs = some (c, n)) :
    ∃ low high first k, startByte? b.toNat = some (n, low, high, first) ∧
      continueChar n low high first 0 bs = .ok k ∧ Char.ofNat k = c := by
  rw [firstChar?] at h
  split at h
  · cases h
  · next m low high first hstart =>
    split at h
    · next k hmore =>
      obtain ⟨rfl, rfl⟩ := Prod.mk.inj (Option.some.inj h)
      exact ⟨low, high, first, k, hstart, hmore, rfl⟩
    · cases h

theorem toNat_val_ofNat (h : v.isValidChar) : (Char.ofNat v).val.toNat = v := by
  rw [Char.ofNat, dif_pos h]
  exact BitVec.toNat_ofNatLT ..

theorem toNat_ofNat_of_lt (h : v < 256) : (UInt8.ofNat v).toNat = v :=
  UInt8.toNat_ofNat_of_lt' h

/-- The bytes of a character are read as this character. -/
theorem exists_firstChar?_encodeChar (c : Char) (rest : List UInt8) :
    ∃ b bs n, utf8EncodeChar c ++ rest = b :: bs ∧ firstChar? b bs = some (c, n) ∧
      bs.drop n = rest := by
  obtain ⟨v, hv⟩ : ∃ v, c.val.toNat = v := ⟨_, rfl⟩
  have hvalid : v < 0xD800 ∨ 0xDFFF < v ∧ v < 0x110000 := hv ▸ c.valid
  have hc : Char.ofNat v = c := hv ▸ Char.ofNat_toNat c
  simp only [utf8EncodeChar, hv]
  rw [← hc]
  split
  · next h =>
    have hb := toNat_ofNat_of_lt (v := v) (by omega)
    refine ⟨_, rest, 0, rfl, ?_, rfl⟩
    refine firstChar?_of_continueChar (startByte?_of_one (by omega)) ?_
    rw [continueChar, hb]
  split
  · next h₁ h₂ =>
    have hb := toNat_ofNat_of_lt (v := v / 64 % 32 + 192) (by omega)
    have hb₁ := toNat_ofNat_of_lt (v := v % 64 + 128) (by omega)
    refine ⟨_, _ :: rest, 1, rfl, ?_, rfl⟩
    refine firstChar?_of_continueChar (startByte?_of_two hb (by omega) (by omega)) ?_
    rw [continueChar_cons hb₁ (by omega) (by omega), continueChar]
    congr 1
    omega
  split
  · next h₁ h₂ h₃ =>
    have hb := toNat_ofNat_of_lt (v := v / 4096 % 16 + 224) (by omega)
    have hb₁ := toNat_ofNat_of_lt (v := v / 64 % 64 + 128) (by omega)
    have hb₂ := toNat_ofNat_of_lt (v := v % 64 + 128) (by omega)
    refine ⟨_, _ :: _ :: rest, 2, rfl, ?_, rfl⟩
    refine firstChar?_of_continueChar (startByte?_of_three hb (by omega)) ?_
    have hwithin := within_bounds₃_iff (v := v / 4096 % 16) (w := v / 64 % 64)
    obtain ⟨hlow, hhigh⟩ := hwithin.mpr ⟨by omega, by omega, by omega⟩
    rw [continueChar_cons hb₁ hlow hhigh, continueChar_cons hb₂ (by omega) (by omega), continueChar]
    congr 1
    omega
  · next h₁ h₂ h₃ =>
    have hb := toNat_ofNat_of_lt (v := v / 262144 % 8 + 240) (by omega)
    have hb₁ := toNat_ofNat_of_lt (v := v / 4096 % 64 + 128) (by omega)
    have hb₂ := toNat_ofNat_of_lt (v := v / 64 % 64 + 128) (by omega)
    have hb₃ := toNat_ofNat_of_lt (v := v % 64 + 128) (by omega)
    refine ⟨_, _ :: _ :: _ :: rest, 3, rfl, ?_, rfl⟩
    refine firstChar?_of_continueChar (startByte?_of_four hb (by omega)) ?_
    have hwithin := within_bounds₄_iff (v := v / 262144 % 8) (w := v / 4096 % 64)
    obtain ⟨hlow, hhigh⟩ := hwithin.mpr ⟨by omega, by omega, by omega⟩
    rw [continueChar_cons hb₁ hlow hhigh, continueChar_cons hb₂ (by omega) (by omega),
      continueChar_cons hb₃ (by omega) (by omega), continueChar]
    congr 1
    omega

/-- What is read as a character are its bytes. -/
theorem encodeChar_of_firstChar? (h : firstChar? b bs = some (c, n)) :
    utf8EncodeChar c ++ bs.drop n = b :: bs := by
  obtain ⟨low, high, first, k, hstart, hmore, rfl⟩ := exists_of_firstChar?_eq_some h
  have hbyte : ∀ {b : UInt8} {v : Nat}, v = b.toNat → UInt8.ofNat v = b := by
    rintro b _ rfl
    exact UInt8.ofNat_toNat
  rcases startByte?_cases hstart with ⟨hb, hx⟩ | ⟨v, hb, hv, hv', hx⟩ | ⟨v, hb, hv, hx⟩ |
    ⟨v, hb, hv, hx⟩
  · cases hx
    cases hmore
    simp only [utf8EncodeChar]
    rw [toNat_val_ofNat (.inl (by omega)), if_pos (by omega), hbyte rfl]
    rfl
  · cases hx
    obtain ⟨b₁, bs, v₁, rfl, hb₁, hlow, hhigh, hk⟩ := exists_cons_of_continueChar (by omega) hmore
    cases hk
    simp only [utf8EncodeChar]
    rw [toNat_val_ofNat (.inl (by omega)), if_neg (by omega), if_pos (by omega),
      hbyte (b := b) (by omega), hbyte (b := b₁) (by omega)]
    rfl
  · cases hx
    obtain ⟨b₁, bs, v₁, rfl, hb₁, hlow, hhigh, hk⟩ :=
      exists_cons_of_continueChar (le_bounds₃ first) hmore
    obtain ⟨b₂, bs, v₂, rfl, hb₂, -, hhigh₂, hk⟩ := exists_cons_of_continueChar (by omega) hk
    obtain ⟨hlt, hleast, hmost⟩ := within_bounds₃_iff.mp ⟨hlow, hhigh⟩
    cases hk
    have hvalid : ((first * 64 + v₁) * 64 + v₂).isValidChar := by
      rw [Nat.isValidChar]
      omega
    simp only [utf8EncodeChar]
    rw [toNat_val_ofNat hvalid, if_neg (by omega), if_neg (by omega), if_pos (by omega),
      hbyte (b := b) (by omega), hbyte (b := b₁) (by omega), hbyte (b := b₂) (by omega)]
    rfl
  · cases hx
    obtain ⟨b₁, bs, v₁, rfl, hb₁, hlow, hhigh, hk⟩ :=
      exists_cons_of_continueChar (le_bounds₄ first) hmore
    obtain ⟨b₂, bs, v₂, rfl, hb₂, -, hhigh₂, hk⟩ := exists_cons_of_continueChar (by omega) hk
    obtain ⟨b₃, bs, v₃, rfl, hb₃, -, hhigh₃, hk⟩ := exists_cons_of_continueChar (by omega) hk
    obtain ⟨hlt, hleast, hmost⟩ := within_bounds₄_iff.mp ⟨hlow, hhigh⟩
    cases hk
    have hvalid : (((first * 64 + v₁) * 64 + v₂) * 64 + v₃).isValidChar := by
      rw [Nat.isValidChar]
      omega
    simp only [utf8EncodeChar]
    rw [toNat_val_ofNat hvalid, if_neg (by omega), if_neg (by omega), if_neg (by omega),
      hbyte (b := b) (by omega), hbyte (b := b₁) (by omega), hbyte (b := b₂) (by omega),
      hbyte (b := b₃) (by omega)]
    rfl

/-! ### Whole texts -/

theorem decodeFrom_cons {fuel position : Nat} {acc : List Char}
    (h : firstChar? b bs = some (c, n)) : decodeFrom (fuel + 1) position acc (b :: bs) =
      decodeFrom fuel (position + n + 1) (c :: acc) (bs.drop n) := by
  obtain ⟨low, high, first, k, hstart, hmore, rfl⟩ := exists_of_firstChar?_eq_some h
  rw [decodeFrom, hstart]
  dsimp only
  rw [hmore]

theorem firstChar?_of_decodeFrom {fuel position : Nat} {acc cs : List Char}
    (h : decodeFrom (fuel + 1) position acc (b :: bs) = .ok cs) :
    ∃ c n, firstChar? b bs = some (c, n) := by
  rw [decodeFrom] at h
  split at h
  · cases h
  · next n low high first hstart =>
    split at h
    · next k hmore => exact ⟨_, _, firstChar?_of_continueChar hstart hmore⟩
    · cases h

theorem flatMap_encodeChar_eq_nil {cs : List Char} (h : cs.flatMap utf8EncodeChar = []) :
    cs = [] := by
  cases cs with
  | nil => rfl
  | cons c cs =>
    obtain ⟨b, bs, -, hbytes, -⟩ := exists_firstChar?_encodeChar c (cs.flatMap utf8EncodeChar)
    rw [List.flatMap_cons, hbytes] at h
    cases h

/-- The characters that are read are those that the bytes are written from. -/
theorem decodeFrom_eq_ok_iff {fuel position : Nat} {acc cs : List Char}
    (hfuel : bytes.length ≤ fuel) : decodeFrom fuel position acc bytes = .ok cs ↔
      ∃ ds, cs = acc.reverse ++ ds ∧ ds.flatMap utf8EncodeChar = bytes := by
  induction fuel generalizing position acc bytes with
  | zero =>
    obtain rfl := List.length_eq_zero_iff.mp (Nat.le_zero.mp hfuel)
    rw [decodeFrom, Except.ok.injEq]
    constructor
    · rintro rfl
      exact ⟨[], (List.append_nil _).symm, rfl⟩
    · rintro ⟨ds, rfl, hds⟩
      rw [flatMap_encodeChar_eq_nil hds, List.append_nil]
  | succ fuel ih =>
    cases bytes with
    | nil =>
      rw [decodeFrom, Except.ok.injEq]
      · constructor
        · rintro rfl
          exact ⟨[], (List.append_nil _).symm, rfl⟩
        · rintro ⟨ds, rfl, hds⟩
          rw [flatMap_encodeChar_eq_nil hds, List.append_nil]
      · simp
    | cons b bs =>
      have hdrop : ∀ n, (bs.drop n).length ≤ fuel := by
        intro n
        rw [List.length_drop]
        rw [List.length_cons] at hfuel
        omega
      constructor
      · intro h
        obtain ⟨c, n, hchar⟩ := firstChar?_of_decodeFrom h
        rw [decodeFrom_cons hchar] at h
        obtain ⟨ds, rfl, hds⟩ := (ih (hdrop n)).mp h
        refine ⟨c :: ds, by rw [List.reverse_cons, List.append_assoc, List.singleton_append], ?_⟩
        rw [List.flatMap_cons, hds, encodeChar_of_firstChar? hchar]
      · rintro ⟨ds, rfl, hds⟩
        cases ds with
        | nil => cases hds
        | cons c ds =>
          rw [List.flatMap_cons] at hds
          obtain ⟨b', bs', n, hbytes, hchar, hrest⟩ :=
            exists_firstChar?_encodeChar c (ds.flatMap utf8EncodeChar)
          obtain ⟨rfl, rfl⟩ := List.cons.inj (hbytes.symm.trans hds)
          rw [decodeFrom_cons hchar]
          refine (ih (hdrop n)).mpr ⟨ds, ?_, hrest.symm⟩
          rw [List.reverse_cons, List.append_assoc, List.singleton_append]

/-- Bytes are read as the text that they are written from, if there is one. -/
theorem decode_eq_ok_iff {s : String} : decode bytes = .ok s ↔ encode s = bytes := by
  rw [decode, encode]
  constructor
  · intro h
    cases hcs : decodeFrom bytes.length 0 [] bytes with
    | error e =>
      rw [hcs] at h
      cases h
    | ok cs =>
      rw [hcs] at h
      cases h
      obtain ⟨ds, rfl, hds⟩ := (decodeFrom_eq_ok_iff le_rfl).mp hcs
      rw [String.toList_ofList]
      exact hds
  · intro h
    rw [(decodeFrom_eq_ok_iff le_rfl).mpr ⟨s.toList, rfl, h⟩]
    exact congrArg Except.ok String.ofList_toList

theorem decode_encode (s : String) : decode (encode s) = .ok s :=
  decode_eq_ok_iff.mpr rfl

end DeclClosure.Text

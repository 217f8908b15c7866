import DeclClosure.Text.Blank

/-!
# Marks outside of brackets and quotes

A comma in `Dict[str, int]` or in `"a, b"` does not end an item of the list that it stands in. Who reads
a list of expressions keeps count of the brackets that are open and knows whether it is within quotes
(`Text.Cursor`); only outside of both a mark ends anything. A text encloses some marks if none of
them stands outside and all its brackets and quotes are closed again (`Text.Encloses`); such a text
is passed over when one of these marks is looked for, and the reader is as before behind it.
-/

namespace DeclClosure.Text

/-- Where a reader of expressions is: within how many brackets, and within which quotes, and there
whether the next character is escaped. -/
inductive Cursor where
  | code (depth : Nat)
  | quoted (depth : Nat) (quote : Char) (escaped : Bool)
deriving DecidableEq

/-- The single and the double quote. -/
def quotes : List Char := ['\x27', '\x22']

/-- The brackets that open. -/
def openers : List Char := ['(', '[', '\x7b']

/-- The brackets that close. -/
def closers : List Char := [')', ']', '\x7d']

namespace Cursor

/-- Outside of all brackets and quotes. -/
abbrev outside : Cursor := code 0

/-- The reader goes on by one character. -/
def step : Cursor → Char → Cursor
  | code n, c =>
    if c ∈ quotes then quoted n c false
    else if c ∈ openers then code (n + 1)
    else if c ∈ closers then code (n - 1)
    else code n
  | quoted n q true, _ => quoted n q false
  | quoted n q false, c =>
    if c = '\x5c' then quoted n q true else if c = q then code n else quoted n q false

end Cursor

/-- What stands before the first mark outside of brackets and quotes, and what stands after it, if there
is one. -/
def cutOutside (mark : Char) : Cursor → List Char → List Char × Option (List Char)
  | _, [] => ([], none)
  | k, c :: cs =>
    if c = mark ∧ k = .outside then ([], some cs)
    else (cutOutside mark (k.step c) cs).map (List.cons c) id

/-- The pieces between the marks outside of brackets and quotes. There is always one piece more than
marks. -/
def splitOutside (mark : Char) : Cursor → List Char → List (List Char)
  | _, [] => [[]]
  | k, c :: cs =>
    if c = mark ∧ k = .outside then [] :: splitOutside mark k cs
    else (splitOutside mark (k.step c) cs).modifyHead (List.cons c)

/-- None of the marks stands outside, and the reader is outside at the end. -/
def Encloses (marks : List Char) : Cursor → List Char → Prop
  | k, [] => k = .outside
  | k, c :: cs => (c ∈ marks → k ≠ .outside) ∧ Encloses marks (k.step c) cs

instance decidableEncloses (marks : List Char) :
    ∀ (k : Cursor) (cs : List Char), Decidable (Encloses marks k cs)
  | k, [] => inferInstanceAs (Decidable (k = .outside))
  | k, c :: cs =>
    have := decidableEncloses marks (k.step c) cs
    inferInstanceAs (Decidable ((c ∈ marks → k ≠ .outside) ∧ Encloses marks (k.step c) cs))

variable {mark c : Char} {marks marks' : List Char} {k : Cursor} {cs ds : List Char}

namespace Encloses

theorem append (h : Encloses marks k cs) (h' : Encloses marks .outside ds) :
    Encloses marks k (cs ++ ds) := by
  induction cs generalizing k with
  | nil => exact h ▸ h'
  | cons c cs ih => exact ⟨h.1, ih h.2⟩

theorem mono (hsub : marks' ⊆ marks) (h : Encloses marks k cs) : Encloses marks' k cs := by
  induction cs generalizing k with
  | nil => exact h
  | cons c cs ih => exact ⟨fun hc ↦ h.1 (hsub hc), ih h.2⟩

/-- A blank opens nothing. -/
theorem space_cons (hblank : ' ' ∉ marks) (h : Encloses marks .outside cs) :
    Encloses marks .outside (' ' :: cs) :=
  ⟨fun hmem ↦ absurd hmem hblank, h⟩

theorem append_space (hblank : ' ' ∉ marks) (h : Encloses marks k cs) :
    Encloses marks k (cs ++ [' ']) :=
  h.append (space_cons hblank rfl)

/-- Characters that are no marks and open nothing. -/
theorem of_plain (h : ∀ c ∈ cs, c ∉ marks ∧ c ∉ quotes ∧ c ∉ openers ∧ c ∉ closers) :
    Encloses marks .outside cs := by
  induction cs with
  | nil => rfl
  | cons c cs ih =>
    obtain ⟨⟨hmark, hquote, hopen, hclose⟩, hcs⟩ := List.forall_mem_cons.mp h
    refine ⟨fun hc ↦ absurd hc hmark, ?_⟩
    rw [Cursor.step, if_neg hquote, if_neg hopen, if_neg hclose]
    exact ih hcs

theorem not_outside_or (h : c ∈ marks → k ≠ .outside) (hmark : mark ∈ marks) :
    ¬(c = mark ∧ k = .outside) := by
  rintro ⟨rfl, hk⟩
  exact h hmark hk

theorem cutOutside_append_mark (h : Encloses marks k cs) (hmark : mark ∈ marks) :
    cutOutside mark k (cs ++ mark :: ds) = (cs, some ds) := by
  induction cs generalizing k with
  | nil => rw [List.nil_append, cutOutside, if_pos ⟨rfl, h⟩]
  | cons c cs ih =>
    rw [List.cons_append, cutOutside, if_neg (not_outside_or h.1 hmark), ih h.2]
    rfl

theorem cutOutside_eq (h : Encloses marks k cs) (hmark : mark ∈ marks) :
    cutOutside mark k cs = (cs, none) := by
  induction cs generalizing k with
  | nil => rfl
  | cons c cs ih =>
    rw [cutOutside, if_neg (not_outside_or h.1 hmark), ih h.2]
    rfl

theorem splitOutside_append_mark (h : Encloses marks k cs) (hmark : mark ∈ marks) :
    splitOutside mark k (cs ++ mark :: ds) = cs :: splitOutside mark .outside ds := by
  induction cs generalizing k with
  | nil => rw [List.nil_append, splitOutside, if_pos ⟨rfl, h⟩, h]
  | cons c cs ih =>
    rw [List.cons_append, splitOutside, if_neg (not_outside_or h.1 hmark), ih h.2]
    rfl

theorem splitOutside_eq (h : Encloses marks k cs) (hmark : mark ∈ marks) :
    splitOutside mark k cs = [cs] := by
  induction cs generalizing k with
  | nil => rfl
  | cons c cs ih =>
    rw [splitOutside, if_neg (not_outside_or h.1 hmark), ih h.2]
    rfl

end Encloses

/-- A list of texts that enclose commas, with a comma and a blank between two of them, is cut at the
commas between them. -/
theorem splitOutside_intercalate {x : List Char} {xs : List (List Char)}
    (h : ∀ y ∈ x :: xs, Encloses [','] .outside y) :
    splitOutside ',' .outside ([',', ' '].intercalate (x :: xs)) = x :: xs.map (List.cons ' ') := by
  obtain ⟨hx, hxs⟩ := List.forall_mem_cons.mp h
  induction xs generalizing x with
  | nil => rw [List.intercalate_singleton, hx.splitOutside_eq (List.mem_singleton_self _), List.map_nil]
  | cons y ys ih =>
    obtain ⟨hy, hys⟩ := List.forall_mem_cons.mp hxs
    have hblank (zs : List Char) : splitOutside ',' .outside (' ' :: zs)
        = (splitOutside ',' .outside zs).modifyHead (List.cons ' ') := rfl
    rw [List.intercalate_cons_cons, List.append_assoc, List.cons_append, List.singleton_append,
      hx.splitOutside_append_mark (List.mem_singleton_self _), hblank, ih hxs hy hys]
    rfl

end DeclClosure.Text

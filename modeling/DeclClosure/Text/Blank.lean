import DeclClosure.Text.Ranges

/-!
# Blanks

The blanks of all scripts, and what can be cut off the ends of a text. The law that printed
comments rest on is `not_isBlank_of_getLast?`: a trimmed text does not end in a blank.
-/

namespace DeclClosure.Text

/-- The code points that count as blanks: the plain blank, the control characters that move the
writing position, the four information separators, and the spaces of other scripts. -/
def blankRanges : Array (Nat × Nat) := #[
  (0x09, 0x0D), (0x1C, 0x20), (0x85, 0x85), (0xA0, 0xA0), (0x1680, 0x1680), (0x2000, 0x200A),
  (0x2028, 0x2029), (0x202F, 0x202F), (0x205F, 0x205F), (0x3000, 0x3000)]

/-- The character is a blank. -/
def isBlank (c : Char) : Bool :=
  inRanges blankRanges c

/-- A list of characters without the blanks at its end. -/
def dropBlanksEnd (cs : List Char) : List Char :=
  (cs.reverse.dropWhile isBlank).reverse

/-- The text without the blanks at its start. -/
def trimStart (s : String) : String :=
  String.ofList (s.toList.dropWhile isBlank)

/-- The text without the blanks at its end. -/
def trimEnd (s : String) : String :=
  String.ofList (dropBlanksEnd s.toList)

/-- The text without the blanks at both ends. -/
def trim (s : String) : String :=
  trimEnd (trimStart s)

/-- The text holds blanks only, or nothing. -/
def isBlankText (s : String) : Bool :=
  s.toList.all isBlank

theorem not_isBlank_of_getLast? {cs : List Char} {c : Char}
    (h : (dropBlanksEnd cs).getLast? = some c) : isBlank c = false := by
  rw [dropBlanksEnd, List.getLast?_reverse] at h
  have := List.head?_dropWhile_not isBlank cs.reverse
  simpa [h] using this

theorem isBlank_space : isBlank ' ' = true := by
  decide +kernel

/-- Only what comes after the last character that is no blank is cut off. -/
theorem dropBlanksEnd_append_cons {c : Char} (hc : isBlank c = false) (cs ds : List Char) :
    dropBlanksEnd (cs ++ c :: ds) = cs ++ c :: dropBlanksEnd ds := by
  have hstop : (c :: cs.reverse).dropWhile isBlank = c :: cs.reverse := by
    rw [List.dropWhile_cons, hc]
    rfl
  simp only [dropBlanksEnd, List.reverse_append, List.reverse_cons, List.append_assoc,
    List.singleton_append, List.dropWhile_append]
  split
  · next hnil => simp [hstop, List.isEmpty_iff.mp hnil]
  · simp

theorem mem_of_mem_dropBlanksEnd {c : Char} {cs : List Char} (h : c ∈ dropBlanksEnd cs) : c ∈ cs :=
  List.mem_reverse.mp ((List.dropWhile_suffix isBlank).mem (List.mem_reverse.mp h))

theorem dropBlanksEnd_append_space (cs : List Char) :
    dropBlanksEnd (cs ++ [' ']) = dropBlanksEnd cs := by
  simp only [dropBlanksEnd, List.reverse_append, List.reverse_singleton, List.singleton_append,
    List.dropWhile_cons, isBlank_space, if_true]

theorem trimStart_space_cons (cs : List Char) :
    trimStart (String.ofList (' ' :: cs)) = trimStart (String.ofList cs) := by
  simp only [trimStart, String.toList_ofList, List.dropWhile_cons, isBlank_space, if_true]

theorem trimStart_of_not_isBlank {c : Char} (hc : isBlank c = false) (cs : List Char) :
    trimStart (String.ofList (c :: cs)) = String.ofList (c :: cs) := by
  simp only [trimStart, String.toList_ofList, List.dropWhile_cons, hc]
  rfl

theorem trim_space_cons (cs : List Char) :
    trim (String.ofList (' ' :: cs)) = trim (String.ofList cs) := by
  rw [trim, trim, trimStart_space_cons]

theorem trim_append_space (cs : List Char) :
    trim (String.ofList (cs ++ [' '])) = trim (String.ofList cs) := by
  simp only [trim, trimEnd, trimStart, String.toList_ofList, List.dropWhile_append]
  split
  · next hnil => simp [List.isEmpty_iff.mp hnil, isBlank_space]
  · rw [dropBlanksEnd_append_space]

end DeclClosure.Text

import DeclClosure.Text.Lines

/-!
# Texts that are read line by line

A line feed always ends a line, so a text can be read up to a line feed and from there on, and both
halves know nothing of each other. There are two ways to read a text, at the line feeds only or at all
line boundaries of all scripts, and the law holds for both (`Text.readsRows_lines`,
`Text.readsRows_splitAt`). What may be told apart by it is a text that was put together from rows,
each with a line feed after it (`Text.ended`): it is read row by row, and a row without line breaks is
one line.
-/

namespace DeclClosure.Text

/-- No character of the text ends a line. -/
def Unbroken (l : String) : Prop :=
  ∀ c ∈ l.toList, isLineBreak c = false

theorem isLineBreak_lineFeed : isLineBreak '\n' = true := by
  decide +kernel

theorem isLineBreak_carriageReturn : isLineBreak '\r' = true := by
  decide +kernel

theorem Unbroken.lineFeed_notMem {l : String} (h : Unbroken l) : '\n' ∉ l.toList :=
  fun hmem ↦ Bool.noConfusion ((h _ hmem).symm.trans isLineBreak_lineFeed)

/-! ### Lines at all boundaries -/

section LinesFrom

variable {c : Char} {line cs ds : List Char}

theorem linesFrom_break (hc : isLineBreak c = true) (h : c = '\r' → cs.head? ≠ some '\n') :
    linesFrom line (c :: cs) = String.ofList line.reverse :: linesFrom [] cs := by
  rw [linesFrom]
  · exact if_pos hc
  · rintro ds rfl rfl
    exact h rfl rfl

theorem linesFrom_lineFeed :
    linesFrom line ('\n' :: cs) = String.ofList line.reverse :: linesFrom [] cs :=
  linesFrom_break isLineBreak_lineFeed fun h ↦ absurd h (by decide)

theorem linesFrom_unbroken (hc : isLineBreak c = false) :
    linesFrom line (c :: cs) = linesFrom (c :: line) cs := by
  rw [linesFrom]
  · rw [if_neg (by simp [hc])]
  · rintro ds rfl -
    exact Bool.noConfusion (hc.symm.trans isLineBreak_carriageReturn)

/-- What comes after a line feed is read as if it stood alone. -/
theorem linesFrom_append_lineFeed (line cs ds : List Char) :
    linesFrom line (cs ++ '\n' :: ds) = linesFrom line (cs ++ ['\n']) ++ linesFrom [] ds := by
  fun_induction linesFrom line cs with
  | case1 => simp [linesFrom_lineFeed, linesFrom]
  | case2 => simp [linesFrom_lineFeed, linesFrom]
  | case3 line cs ih =>
    simp only [List.cons_append, linesFrom]
    rw [ih]
  | case4 line c cs hpair hc ih =>
    by_cases hcr : c = '\r' ∧ cs = []
    · -- the line feed belongs to the carriage return before it
      obtain ⟨rfl, rfl⟩ := hcr
      simp [linesFrom]
    · have hhead : ∀ es, c = '\r' → (cs ++ '\n' :: es).head? ≠ some '\n' := by
        rintro es rfl
        cases cs with
        | nil => exact absurd ⟨rfl, rfl⟩ hcr
        | cons d cs =>
          intro hd
          exact hpair cs rfl (by rw [Option.some.inj hd])
      rw [List.cons_append, List.cons_append, linesFrom_break hc (hhead ds),
        linesFrom_break hc (hhead []), ih, List.cons_append]
  | case5 line c cs hpair hc ih =>
    have hc : isLineBreak c = false := by simpa using hc
    rw [List.cons_append, List.cons_append, linesFrom_unbroken hc, linesFrom_unbroken hc, ih]

theorem unbroken_ofList_reverse (hline : ∀ c ∈ line, isLineBreak c = false) :
    Unbroken (String.ofList line.reverse) :=
  fun c hc ↦ hline c (List.mem_reverse.mp (by simpa using hc))

/-- No line has a line break in it. -/
theorem unbroken_of_mem_linesFrom {l : String} (hline : ∀ c ∈ line, isLineBreak c = false)
    (h : l ∈ linesFrom line cs) : Unbroken l := by
  fun_induction linesFrom line cs with
  | case1 => cases h
  | case2 => exact List.mem_singleton.mp h ▸ unbroken_ofList_reverse hline
  | case3 line cs ih =>
    rcases List.mem_cons.mp h with rfl | h
    · exact unbroken_ofList_reverse hline
    · exact ih (List.forall_mem_nil _) h
  | case4 line c cs hpair hc ih =>
    rcases List.mem_cons.mp h with rfl | h
    · exact unbroken_ofList_reverse hline
    · exact ih (List.forall_mem_nil _) h
  | case5 line c cs hpair hc ih =>
    exact ih (List.forall_mem_cons.mpr ⟨by simpa using hc, hline⟩) h

theorem linesFrom_append_of_unbroken (hcs : ∀ c ∈ cs, isLineBreak c = false) :
    linesFrom line (cs ++ ds) = linesFrom (cs.reverse ++ line) ds := by
  induction cs generalizing line with
  | nil => rfl
  | cons c cs ih =>
    obtain ⟨hc, hcs⟩ := List.forall_mem_cons.mp hcs
    rw [List.cons_append, linesFrom_unbroken hc, ih hcs, List.reverse_cons, List.append_assoc,
      List.singleton_append]

end LinesFrom

theorem unbroken_of_mem_lines {s l : String} (h : l ∈ lines s) : Unbroken l :=
  unbroken_of_mem_linesFrom (List.forall_mem_nil _) h

/-! ### Lines at the separators only -/

section SplitCharsAt

variable {sep c : Char} {piece cs ds : List Char}

theorem splitCharsAt_append_sep (sep : Char) (piece cs ds : List Char) :
    splitCharsAt sep piece (cs ++ sep :: ds)
      = splitCharsAt sep piece cs ++ splitCharsAt sep [] ds := by
  induction cs generalizing piece with
  | nil => simp [splitCharsAt]
  | cons c cs ih =>
    simp only [List.cons_append, splitCharsAt]
    split
    · rw [ih, List.cons_append]
    · exact ih _

theorem splitCharsAt_of_notMem (h : sep ∉ cs) :
    splitCharsAt sep piece cs = [piece.reverse ++ cs] := by
  induction cs generalizing piece with
  | nil => rw [splitCharsAt, List.append_nil]
  | cons c cs ih =>
    obtain ⟨hc, hcs⟩ := not_or.mp (mt List.mem_cons.mpr h)
    rw [splitCharsAt, if_neg (Ne.symm hc), ih hcs, List.reverse_cons, List.append_assoc,
      List.singleton_append]

end SplitCharsAt

/-! ### Rows -/

/-- A text is read row by row: what a row with a line feed after it is read as depends on this row
only, and a row without line breaks is one line. -/
def ReadsRows (read : String → List String) : Prop :=
  ∃ readRow : String → List String, (∀ l s, read (l ++ "\n" ++ s) = readRow l ++ read s) ∧
    ∀ l, Unbroken l → readRow l = [l]

theorem readsRows_lines : ReadsRows lines := by
  refine ⟨fun l ↦ lines (l ++ "\n"), fun l s ↦ ?_, fun l hl ↦ ?_⟩
  · simp only [lines, String.toList_append, List.append_assoc]
    exact linesFrom_append_lineFeed [] l.toList s.toList
  · have hfeed : ("\n" : String).toList = ['\n'] := rfl
    simp only [lines, String.toList_append]
    rw [linesFrom_append_of_unbroken hl, hfeed, linesFrom_lineFeed]
    simp [linesFrom]

theorem readsRows_splitAt : ReadsRows (splitAt '\n') := by
  refine ⟨splitAt '\n', fun l s ↦ ?_, fun l hl ↦ ?_⟩
  · simp only [splitAt, String.toList_append, List.append_assoc]
    rw [← List.map_append]
    exact congrArg _ (splitCharsAt_append_sep '\n' [] l.toList s.toList)
  · rw [splitAt, splitCharsAt_of_notMem hl.lineFeed_notMem]
    simp

/-- Rows with a line feed after each. -/
def ended : List String → String
  | [] => ""
  | l :: ls => l ++ "\n" ++ ended ls

theorem ended_append (ls ms : List String) : ended (ls ++ ms) = ended ls ++ ended ms := by
  induction ls with
  | nil => rw [List.nil_append, ended, String.empty_append]
  | cons l ls ih => rw [List.cons_append, ended, ended, ih, ← String.append_assoc]

/-- Rows with line feeds between them lack one at the end. -/
theorem intercalate_append_lineFeed {ls : List String} (h : ls ≠ []) :
    "\n".intercalate ls ++ "\n" = ended ls := by
  induction ls with
  | nil => exact absurd rfl h
  | cons l ls ih =>
    cases ls with
    | nil => rw [String.intercalate_singleton, ended, ended, String.append_empty]
    | cons m ms =>
      rw [String.intercalate_cons_cons, String.append_assoc, ih (List.cons_ne_nil _ _)]
      rfl

end DeclClosure.Text

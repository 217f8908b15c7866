import DeclClosure.Proofs.Text.Lines
import DeclClosure.Proofs.Tree.Comments
import DeclClosure.Proofs.Tree.Headlines

/-!
# Comments are nothing but remarks

A comment is any text, and it is listed at any depth. It is cut at all line boundaries, each part is
put behind a `#`, and blanks at the end are cut off, so every line that comes from a comment is read as
a remark (`isRemark_of_mem_commentLines`). The rows that a tree is listed in are those of the same tree
without comments with remarks put in (`Tree.remarked_rows`). The listing is made of these rows with a
line feed after each, so it makes no difference whether remarks are put in among the rows or among the
lines that are read from the listing (`Tree.remarked_listing`).
-/

namespace DeclClosure

open Text (isBlank dropBlanksEnd isLineBreak)

/-! ### Remarks -/

/-- The line is read as a remark: its first character that is no blank is `#`. It does not end in a
blank, and it is one line for every reader. -/
structure IsRemark (l : String) : Prop where
  /-- Blanks and then a `#`. -/
  head_eq : (l.toList.dropWhile isBlank).head? = some '#'
  /-- No blanks at the end. -/
  getLast_not_blank : ∀ c, l.toList.getLast? = some c → isBlank c = false
  /-- No line breaks. -/
  unbroken : Text.Unbroken l

namespace Text

theorem not_isBlank_sharp : isBlank '#' = false := by
  decide +kernel

theorem not_isLineBreak_space : isLineBreak ' ' = false := by
  decide +kernel

theorem not_isLineBreak_sharp : isLineBreak '#' = false := by
  decide +kernel

end Text

theorem mem_toList_pad {c : Char} {depth : Nat} (h : c ∈ (pad depth).toList) : c = ' ' := by
  rw [pad, String.toList_ofList] at h
  exact (List.mem_replicate.mp h).2

/-- Some text without line breaks, put behind a `#`, is a remark. -/
theorem isRemark_trimEnd (depth : Nat) {l : String} (hl : Text.Unbroken l) :
    IsRemark (Text.trimEnd (pad depth ++ "# " ++ l)) := by
  have hchars : (Text.trimEnd (pad depth ++ "# " ++ l)).toList
      = (pad depth).toList ++ '#' :: dropBlanksEnd (' ' :: l.toList) := by
    rw [Text.trimEnd, String.toList_ofList, ← Text.dropBlanksEnd_append_cons Text.not_isBlank_sharp]
    simp [String.toList_append]
  refine ⟨?_, fun c hc ↦ ?_, fun c hc ↦ ?_⟩
  · rw [hchars, List.dropWhile_append_of_pos fun c hc ↦ mem_toList_pad hc ▸ Text.isBlank_space,
      List.dropWhile_cons, Text.not_isBlank_sharp]
    rfl
  · rw [Text.trimEnd, String.toList_ofList] at hc
    exact Text.not_isBlank_of_getLast? hc
  · rw [hchars, List.mem_append, List.mem_cons] at hc
    rcases hc with hc | rfl | hc
    · exact mem_toList_pad hc ▸ Text.not_isLineBreak_space
    · exact Text.not_isLineBreak_sharp
    · rcases List.mem_cons.mp (Text.mem_of_mem_dropBlanksEnd hc) with rfl | hc
      · exact Text.not_isLineBreak_space
      · exact hl c hc

/-- Every line that comes from a comment is a remark, whatever the comment. -/
theorem isRemark_of_mem_commentLines {depth : Nat} {comment l : String}
    (h : l ∈ commentLines depth comment) : IsRemark l := by
  obtain ⟨piece, hpiece, rfl⟩ := List.mem_map.mp h
  refine isRemark_trimEnd depth ?_
  split at hpiece
  · rw [List.mem_singleton.mp hpiece]
    exact List.forall_mem_nil _
  · exact Text.unbroken_of_mem_lines hpiece

theorem Head.isRemark_of_mem_commentLines {depth : Nat} {h : Head} {l : String}
    (hl : l ∈ h.commentLines depth) : IsRemark l := by
  obtain ⟨comment, -, hl⟩ := List.mem_flatMap.mp hl
  exact DeclClosure.isRemark_of_mem_commentLines hl

@[simp]
theorem Head.commentLines_uncommented (depth : Nat) (h : Head) :
    h.uncommented.commentLines depth = [] :=
  rfl

/-! ### Lines with remarks put in -/

/-- The second lines are the first ones, all of them and in this order, with remarks put in. -/
inductive Remarked : List String → List String → Prop
  | nil : Remarked [] []
  | line (l : String) {ls ms : List String} : Remarked ls ms → Remarked (l :: ls) (l :: ms)
  | remark {l : String} {ls ms : List String} : IsRemark l → Remarked ls ms → Remarked ls (l :: ms)

namespace Remarked

variable {ls ls' ms ms' rs : List String}

theorem refl : ∀ ls : List String, Remarked ls ls
  | [] => .nil
  | l :: ls => .line l (refl ls)

theorem append (h : Remarked ls ms) (h' : Remarked ls' ms') :
    Remarked (ls ++ ls') (ms ++ ms') := by
  induction h with
  | nil => exact h'
  | line l _ ih => exact .line l ih
  | remark hl _ ih => exact .remark hl ih

theorem append_left (h : ∀ l ∈ rs, IsRemark l) (hls : Remarked ls ms) : Remarked ls (rs ++ ms) := by
  induction rs with
  | nil => exact hls
  | cons r rs ih =>
    obtain ⟨hr, hrs⟩ := List.forall_mem_cons.mp h
    exact .remark hr (ih hrs)

/-- Remarks among the rows of a text are remarks among its lines. -/
theorem read_ended {read : String → List String} (hread : Text.ReadsRows read)
    (h : Remarked ls ms) : Remarked (read (Text.ended ls)) (read (Text.ended ms)) := by
  obtain ⟨readRow, hrow, hone⟩ := hread
  induction h with
  | nil => exact refl _
  | line l _ ih =>
    rw [Text.ended, Text.ended, hrow, hrow]
    exact (refl _).append ih
  | remark hl _ ih =>
    rw [Text.ended, hrow, hone _ hl.unbroken]
    exact .remark hl ih

end Remarked

/-! ### The rows of a tree -/

namespace Node

mutual

theorem remarked_lines (scope : Option String) (depth : Nat) :
    ∀ n : Node, Remarked (n.uncommented.lines scope depth) (n.lines scope depth)
  | .leaf h d =>
    .append_left (fun _ ↦ Head.isRemark_of_mem_commentLines) (.refl _)
  | .scope h f cs => by
    simp only [uncommented, lines, Head.commentLines_uncommented, List.nil_append,
      List.append_assoc]
    refine .append_left (fun _ ↦ Head.isRemark_of_mem_commentLines) (.append (.refl _) ?_)
    cases cs with
    | nil => exact .refl _
    | cons c cs => exact remarked_linesAll h.name (depth + 1) (c :: cs)

theorem remarked_linesAll (scope : String) (depth : Nat) : ∀ ns : List Node,
    Remarked (linesAll scope depth (uncommentedAll ns)) (linesAll scope depth ns)
  | [] => .nil
  | n :: ns => (remarked_lines (some scope) depth n).append (remarked_linesAll scope depth ns)

end

theorem lines_ne_nil (scope : Option String) (depth : Nat) (n : Node) : n.lines scope depth ≠ [] := by
  obtain ⟨above, below, hlines, -⟩ := n.exists_lines_eq scope depth
  rw [hlines]
  exact List.append_ne_nil_of_right_ne_nil _ (List.cons_ne_nil _ _)

/-- The node has something to list, as every scope, constant, field and callable has: if it declares
nothing but a name, the name is not empty. -/
def HasText (n : Node) : Prop :=
  ∀ h, n = leaf h .plain → h.name ≠ ""

theorem HasText.uncommented {n : Node} (h : n.HasText) : n.uncommented.HasText := by
  rintro hd heq
  cases n with
  | leaf hn d =>
    obtain ⟨rfl, rfl⟩ := Node.leaf.inj heq
    exact h hn rfl
  | scope => cases heq

theorem HasText.exists_line {n : Node} (h : n.HasText) : ∃ l ∈ n.lines none 0, l ≠ "" := by
  cases n with
  | leaf hd d =>
    suffices ∃ l ∈ d.lines 0 hd.name hd.name, l ≠ "" by
      obtain ⟨l, hl, hne⟩ := this
      exact ⟨l, List.mem_append_right _ hl, hne⟩
    cases d with
    | plain => exact ⟨_, List.mem_singleton_self _, by simpa using fun _ ↦ h hd rfl⟩
    | const value ascription =>
      simp only [Leaf.lines]
      split <;> exact ⟨_, List.mem_singleton_self _, by simp⟩
    | «attribute» => exact ⟨_, List.mem_singleton_self _, by simp⟩
    | method => exact ⟨_, List.mem_append_right _ (List.mem_singleton_self _), by simp⟩
  | scope hd f cs =>
    suffices ∃ l ∈ f.headerLines 0 hd.name, l ≠ "" by
      obtain ⟨l, hl, hne⟩ := this
      exact ⟨l, List.mem_append_left _ (List.mem_append_right _ hl), hne⟩
    simp only [ScopeFacts.headerLines]
    split
    · exact ⟨_, List.mem_append_right _ (List.mem_singleton_self _), by simp⟩
    · exact ⟨_, List.mem_append_right _ (List.mem_append_right _ (List.mem_singleton_self _)),
        by simp⟩

end Node

namespace Tree

/-- The rows of the listing: those of the roots, with an empty row between two roots. -/
def rows (t : Tree) : List String :=
  [""].intercalate (t.roots.map fun n ↦ n.lines none 0)

theorem remarked_rows (t : Tree) : Remarked t.uncommented.rows t.rows := by
  have hroots (ns : List Node) : Remarked
      ([""].intercalate ((ns.map Node.uncommented).map fun n ↦ n.lines none 0))
      ([""].intercalate (ns.map fun n ↦ n.lines none 0)) := by
    induction ns with
    | nil => exact .nil
    | cons n ns ih =>
      have hn := n.remarked_lines none 0
      cases ns with
      | nil => simpa only [List.map_cons, List.map_nil, List.intercalate_singleton] using hn
      | cons m ms =>
        simp only [List.map_cons, List.intercalate_cons_cons] at ih ⊢
        exact (hn.append (.refl _)).append ih
  rw [rows, rows]
  simp only [uncommented, Node.uncommentedAll_eq_map]
  exact hroots t.roots

/-- Blocks of rows with an empty line between two of them. -/
theorem intercalate_blocks {blocks : List (List String)} (hne : blocks ≠ [])
    (h : ∀ ls ∈ blocks, ls ≠ []) : "\n\n".intercalate (blocks.map ("\n".intercalate ·)) ++ "\n"
      = Text.ended ([""].intercalate blocks) := by
  induction blocks with
  | nil => exact absurd rfl hne
  | cons ls blocks ih =>
    obtain ⟨hls, hblocks⟩ := List.forall_mem_cons.mp h
    cases blocks with
    | nil =>
      rw [List.map_singleton, String.intercalate_singleton, List.intercalate_singleton,
        Text.intercalate_append_lineFeed hls]
    | cons ms blocks =>
      have hfeeds : ("\n\n" : String) = "\n" ++ "\n" := rfl
      have ih := ih (List.cons_ne_nil _ _) hblocks
      rw [List.map_cons] at ih
      rw [List.map_cons, List.map_cons, String.intercalate_cons_cons, List.intercalate_cons_cons,
        String.append_assoc, ih, Text.ended_append, Text.ended_append,
        ← Text.intercalate_append_lineFeed hls, hfeeds, ← String.append_assoc]
      rfl

/-- If all roots have something to list, the listing is the rows of the tree with a line feed after
each. -/
theorem listing_eq_ended {t : Tree} (h : ∀ r ∈ t.roots, r.HasText) :
    t.listing = Text.ended t.rows := by
  cases hroots : t.roots with
  | nil => simp only [listing, rows, hroots]; rfl
  | cons r rs =>
    have hmem : r ∈ t.roots := hroots ▸ List.mem_cons_self
    have htext : "\n\n".intercalate (t.roots.map fun n ↦ "\n".intercalate (n.lines none 0)) ≠ "" := by
      obtain ⟨l, hl, hne⟩ := (h r hmem).exists_line
      obtain ⟨front, back, hblock⟩ := Text.exists_intercalate_eq "\n" hl
      obtain ⟨before, after, hwhole⟩ := Text.exists_intercalate_eq "\n\n"
        (List.mem_map_of_mem (f := fun n : Node ↦ "\n".intercalate (n.lines none 0)) hmem)
      rw [hwhole, hblock]
      simp [hne]
    have hne : t.roots.map (fun n ↦ n.lines none 0) ≠ [] := by simp [hroots]
    have hblocks := intercalate_blocks hne (by simpa using fun n _ ↦ n.lines_ne_nil none 0)
    rw [List.map_map] at hblocks
    simp only [listing]
    rw [if_neg htext]
    exact hblocks

/-- **Comments declare nothing.** Let all roots have something to list. Whether a listing is read at
line feeds or at all line boundaries of all scripts, its lines are those of the listing of the same tree
without comments, none of them changed, split or lost, with lines put in that are read as remarks. -/
theorem remarked_listing (t : Tree) (h : ∀ r ∈ t.roots, r.HasText) :
    Remarked (Text.lines t.uncommented.listing) (Text.lines t.listing) ∧
      Remarked (Text.splitAt '\n' t.uncommented.listing) (Text.splitAt '\n' t.listing) := by
  have huncommented : ∀ r ∈ t.uncommented.roots, r.HasText := by
    simp only [uncommented, Node.uncommentedAll_eq_map, List.forall_mem_map]
    exact fun r hr ↦ (h r hr).uncommented
  rw [listing_eq_ended huncommented, listing_eq_ended h]
  exact ⟨t.remarked_rows.read_ended Text.readsRows_lines,
    t.remarked_rows.read_ended Text.readsRows_splitAt⟩

/-- A class whose comments would declare another class and a constant if they were not cut. -/
def forgingTree : Tree where
  roots := [
    .scope ⟨0, "pkg.C", ["One.\u2028class D:\r\n    x = 1  ", ""]⟩ { kind := .class none } [
      .leaf ⟨1, "pkg.C.K", ["\x0by = 2\t"]⟩ (.const (some "1") none)]]

/-- What the comments would declare is listed as remarks. -/
theorem remarked_listing_of_forging : (∀ r ∈ forgingTree.roots, r.HasText) ∧
    Remarked (Text.lines forgingTree.uncommented.listing) (Text.lines forgingTree.listing) ∧
    Remarked (Text.splitAt '\n' forgingTree.uncommented.listing)
      (Text.splitAt '\n' forgingTree.listing) ∧
    forgingTree.listing = "# One.\n# class D:\n#     x = 1\n#\nclass pkg.C:\n"
      ++ "    #\n    # y = 2\n    K = 1\n" := by
  have htext : ∀ r ∈ forgingTree.roots, r.HasText := by
    rintro r hr hd rfl
    cases List.mem_singleton.mp hr
  obtain ⟨hlines, hpieces⟩ := remarked_listing forgingTree htext
  exact ⟨htext, hlines, hpieces, by decide +kernel⟩

end Tree

end DeclClosure

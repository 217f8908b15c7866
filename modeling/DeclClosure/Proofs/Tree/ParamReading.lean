import DeclClosure.Proofs.Text.Outside
import DeclClosure.Proofs.Tree.ParamGroups
import DeclClosure.Tree.Params

/-!
# Parameter lists that are read back

A parameter list is written piece by piece, and the pieces are those of its layout
(`Param.Groups.pieces_params`). A piece is recognised by its first characters: no name contains a mark,
so it makes no difference which texts stand for types and defaults
(`Param.Piece.ofText_text`). So who reads the pieces finds the parameters with their names and kinds.

Who reads the whole list has to find the pieces first. If the texts of types and defaults are
expressions, that is if their commas and equality signs are enclosed in brackets or quotes
(`Param.IsClosed`), then the list is cut between the pieces, a piece is cut before and after its type,
and all that is read differs from what was written in blanks only (`Param.trimmed`).
-/

namespace DeclClosure.Param

open Text (Encloses cutOutside isBlank splitOutside)

/-! ### Lists as they are written -/

/-- What is declared by a parameter, whatever its kind. -/
structure Declarator where
  /-- The name. -/
  name : String
  /-- The text of its type. -/
  ascription : Option String := none
  /-- The text of its default. -/
  default : Option String := none
deriving DecidableEq, Repr

namespace Declarator

/-- The parameter of a kind. -/
def as (d : Declarator) (kind : ParamKind) : Param :=
  ⟨d.name, kind, d.ascription, d.default⟩

/-- What is written after the name. -/
def suffix (d : Declarator) : String :=
  match nonempty? d.ascription, d.default with
  | some a, some e => ": " ++ a ++ " = " ++ e
  | some a, none => ": " ++ a
  | none, some e => "=" ++ e
  | none, none => ""

/-- The text without stars. -/
def text (d : Declarator) : String :=
  d.name ++ d.suffix

variable (d : Declarator)

theorem text_as (kind : ParamKind) : (d.as kind).text = (d.as kind).starred ++ d.suffix := by
  simp only [Param.text, suffix, as]
  cases nonempty? d.ascription <;> cases d.default <;> simp [String.append_assoc]

theorem text_as_positionalOnly : (d.as .positionalOnly).text = d.text :=
  d.text_as _

theorem text_as_positionalOrKeyword : (d.as .positionalOrKeyword).text = d.text :=
  d.text_as _

theorem text_as_keywordOnly : (d.as .keywordOnly).text = d.text :=
  d.text_as _

theorem text_as_varPositional : (d.as .varPositional).text = "*" ++ d.text :=
  (d.text_as _).trans String.append_assoc

theorem text_as_varKeyword : (d.as .varKeyword).text = "**" ++ d.text :=
  (d.text_as _).trans String.append_assoc

end Declarator

/-- The text of a mark. -/
def Mark.text : Mark → String
  | slash => "/"
  | star => "*"

/-- The text of a piece. -/
def Piece.text : Piece Declarator → String
  | mark m => m.text
  | plain d => d.text
  | starred d => "*" ++ d.text
  | doubleStarred d => "**" ++ d.text

section Pieces

variable (pending starred : Bool) (d : Declarator) (ds : List Declarator) (ps : List Param)

/-! #### One parameter -/

/-- The slash stands before the first parameter that takes more than a position, or at the end. -/
theorem pieces_slash {ps : List Param} (h : ∀ p ∈ ps, p.kind ≠ .positionalOnly) :
    pieces true starred ps = "/" :: pieces false starred ps := by
  cases ps with
  | nil => rfl
  | cons p ps => simp [pieces, h p List.mem_cons_self]

theorem pieces_positionalOnly : pieces pending starred (d.as .positionalOnly :: ps)
    = d.text :: pieces true starred ps := by
  rw [← d.text_as_positionalOnly]
  cases pending <;> cases starred <;> rfl

theorem pieces_positionalOrKeyword : pieces false starred (d.as .positionalOrKeyword :: ps)
    = d.text :: pieces false starred ps := by
  rw [← d.text_as_positionalOrKeyword]
  cases starred <;> rfl

theorem pieces_varPositional : pieces false starred (d.as .varPositional :: ps)
    = ("*" ++ d.text) :: pieces false true ps := by
  rw [← d.text_as_varPositional]
  cases starred <;> rfl

theorem pieces_star : pieces false false (d.as .keywordOnly :: ps)
    = "*" :: pieces false true (d.as .keywordOnly :: ps) :=
  rfl

theorem pieces_keywordOnly : pieces false true (d.as .keywordOnly :: ps)
    = d.text :: pieces false true ps := by
  rw [← d.text_as_keywordOnly]
  rfl

theorem pieces_varKeyword : pieces false starred [d.as .varKeyword] = ["**" ++ d.text] := by
  rw [← d.text_as_varKeyword]
  cases starred <;> rfl

/-! #### One group -/

theorem pieces_map_positionalOnly : pieces pending starred (ds.map (·.as .positionalOnly) ++ ps)
    = ds.map Declarator.text ++ pieces (pending || !ds.isEmpty) starred ps := by
  induction ds generalizing pending with
  | nil => simp
  | cons d ds ih =>
    rw [List.map_cons, List.cons_append, pieces_positionalOnly, ih]
    simp

theorem pieces_map_positionalOrKeyword :
    pieces false starred (ds.map (·.as .positionalOrKeyword) ++ ps)
      = ds.map Declarator.text ++ pieces false starred ps := by
  induction ds with
  | nil => rfl
  | cons d ds ih =>
    rw [List.map_cons, List.cons_append, pieces_positionalOrKeyword, ih, List.map_cons,
      List.cons_append]

theorem pieces_map_keywordOnly : pieces false true (ds.map (·.as .keywordOnly) ++ ps)
    = ds.map Declarator.text ++ pieces false true ps := by
  induction ds with
  | nil => rfl
  | cons d ds ih =>
    rw [List.map_cons, List.cons_append, pieces_keywordOnly, ih, List.map_cons, List.cons_append]

theorem pieces_toList (d? : Option Declarator) :
    pieces false starred (d?.toList.map (·.as .varKeyword))
      = d?.toList.map fun d ↦ "**" ++ d.text := by
  cases d? with
  | none => rfl
  | some d => exact pieces_varKeyword starred d

end Pieces

namespace Groups

variable (g : Groups Declarator)

/-- The parameter list. -/
def params : List Param :=
  g.entries.map fun e ↦ e.1.as e.2

theorem pieces_keywordEntries : pieces false false (g.keywordEntries.map fun e ↦ e.1.as e.2)
    = g.keywordPart.map Piece.text := by
  obtain ⟨_, _, v?, ks, w?⟩ := g
  simp only [keywordEntries, keywordPart, stars, List.map_append, List.map_map, Function.comp_def,
    Piece.text]
  cases v? with
  | some v =>
    rw [Option.toList_some, List.map_singleton, List.append_assoc, List.singleton_append,
      pieces_varPositional, pieces_map_keywordOnly, pieces_toList]
    rfl
  | none =>
    cases ks with
    | nil => exact pieces_toList false w?
    | cons k ks =>
      simp only [Option.toList_none, List.map_nil, List.nil_append, List.map_cons, List.cons_append]
      rw [pieces_star, pieces_keywordOnly, pieces_map_keywordOnly, pieces_toList]
      rfl

/-- What is written is the layout. -/
theorem pieces_params : pieces false false g.params = g.layout.map Piece.text := by
  have hparams : g.params = g.positionalOnly.map (·.as .positionalOnly)
      ++ (g.positional.map (·.as .positionalOrKeyword)
        ++ g.keywordEntries.map fun e ↦ e.1.as e.2) := by
    simp only [params, entries, List.map_append, List.map_map, Function.comp_def, List.append_assoc]
  have hrest : ∀ p ∈ g.positional.map (·.as .positionalOrKeyword)
      ++ g.keywordEntries.map fun e ↦ e.1.as e.2, p.kind ≠ .positionalOnly := by
    simp only [keywordEntries, List.forall_mem_append, List.forall_mem_map, Declarator.as]
    simp
  rw [hparams, pieces_map_positionalOnly, layout, slashes]
  cases g.positionalOnly with
  | nil =>
    rw [List.isEmpty_nil, Bool.not_true, Bool.or_false, pieces_map_positionalOrKeyword,
      pieces_keywordEntries]
    simp [Piece.text, Function.comp_def]
  | cons d ds =>
    rw [List.isEmpty_cons, Bool.not_false, Bool.or_true, pieces_slash false hrest,
      pieces_map_positionalOrKeyword, pieces_keywordEntries]
    simp [Piece.text, Mark.text, Function.comp_def]

end Groups

/-! ### How it is read -/

/-- A name ends before these characters. -/
def endsName (c : Char) : Bool :=
  c == ':' || c == '='

/-- The declarator that a text is read as: the name up to a colon or an equality sign, the type up to
an equality sign outside of brackets and quotes, and the default. -/
def Declarator.ofChars (cs : List Char) : Declarator :=
  let name := String.ofList (cs.takeWhile (!endsName ·))
  let text (cs : List Char) : String := Text.trim (String.ofList cs)
  match cs.dropWhile (!endsName ·) with
  | ':' :: rest =>
    ⟨name, some (text (cutOutside '=' .outside rest).1), (cutOutside '=' .outside rest).2.map text⟩
  | '=' :: rest => ⟨name, none, some (text rest)⟩
  | _ => ⟨name, none, none⟩

/-- The piece that a text is read as. -/
def Piece.ofText (s : String) : Piece Declarator :=
  match s.toList with
  | ['/'] => .mark .slash
  | ['*'] => .mark .star
  | '*' :: '*' :: cs => .doubleStarred (.ofChars cs)
  | '*' :: cs => .starred (.ofChars cs)
  | cs => .plain (.ofChars cs)

/-- The parameters that pieces are read as. -/
def readPieces (pieces : List String) : Option (List Param) :=
  (readKinds (pieces.map Piece.ofText)).map fun es ↦ es.map fun e ↦ e.1.as e.2

/-- The pieces that are found between the parentheses of a list: it is cut at the commas outside of
brackets and quotes, and blanks after a comma are passed over. -/
def cutPieces (cs : List Char) : List String :=
  match splitOutside ',' .outside cs with
  | [[]] => []
  | pieces => pieces.map fun cs ↦ Text.trimStart (String.ofList cs)

/-- The parameters that a list in parentheses is read as. -/
def readList (s : String) : Option (List Param) :=
  if s.toList.head? = some '(' ∧ s.toList.getLast? = some ')' then
    readPieces (cutPieces s.toList.tail.dropLast)
  else none

/-- The characters that have a meaning of their own in a parameter list. -/
def signs : List Char :=
  Text.quotes ++ Text.openers ++ Text.closers ++ [',', ':', '=', '*', '/']

/-- The text may stand for a name in a parameter list, as every identifier may: it is not empty, and
without blanks and signs. -/
def IsName (s : String) : Prop :=
  s ≠ "" ∧ ∀ c ∈ s.toList, isBlank c = false ∧ c ∉ signs

instance : DecidablePred IsName := fun s ↦
  -- only the characters of the text are gone through, not all that there are
  have : Decidable (∀ c ∈ s.toList, isBlank c = false ∧ c ∉ signs) :=
    List.decidableBAll (fun c ↦ isBlank c = false ∧ c ∉ signs) s.toList
  inferInstanceAs (Decidable (s ≠ "" ∧ ∀ c ∈ s.toList, isBlank c = false ∧ c ∉ signs))

/-- The texts of the type and the default are expressions: all their brackets and quotes are closed, and
no comma stands outside of them; neither does an equality sign in the type. -/
structure IsClosed (p : Param) : Prop where
  /-- The type. -/
  ascription : ∀ a, nonempty? p.ascription = some a → Encloses [',', '='] .outside a.toList
  /-- The default. -/
  default : ∀ e, p.default = some e → Encloses [','] .outside e.toList

instance : DecidablePred IsClosed := fun p ↦
  decidable_of_iff ((∀ a ∈ nonempty? p.ascription, Encloses [',', '='] .outside a.toList) ∧
    ∀ e ∈ p.default, Encloses [','] .outside e.toList)
    ⟨fun h ↦ ⟨h.1, h.2⟩, fun h ↦ ⟨h.ascription, h.default⟩⟩

/-- The parameter without blanks around its texts. An empty text stands for no type. -/
def trimmed (p : Param) : Param :=
  { p with
    ascription := (nonempty? p.ascription).map Text.trim
    default := p.default.map Text.trim }

/-! ### Declarators are read back -/

namespace Declarator

variable {d : Declarator}

/-- What is read when the declarator was written. -/
def reread (d : Declarator) : Declarator :=
  ofChars d.text.toList

theorem suffix_cases (d : Declarator) :
    d.suffix.toList = [] ∨ ∃ c cs, d.suffix.toList = c :: cs ∧ endsName c = true := by
  rw [suffix]
  split
  · exact .inr ⟨':', _, by simp; rfl, rfl⟩
  · exact .inr ⟨':', _, by simp; rfl, rfl⟩
  · exact .inr ⟨'=', _, by simp; rfl, rfl⟩
  · exact .inl rfl

theorem not_endsName_of_isName (h : IsName d.name) : ∀ c ∈ d.name.toList, (!endsName c) = true := by
  intro c hc
  have hsigns := (h.2 c hc).2
  simp only [signs, List.mem_append, List.mem_cons, not_or] at hsigns
  simp [endsName, hsigns]

theorem takeWhile_text (h : IsName d.name) : d.text.toList.takeWhile (!endsName ·) = d.name.toList := by
  rw [text, String.toList_append, List.takeWhile_append_of_pos (not_endsName_of_isName h)]
  rcases d.suffix_cases with hsuffix | ⟨c, cs, hsuffix, hc⟩
  · rw [hsuffix, List.takeWhile_nil, List.append_nil]
  · rw [hsuffix, List.takeWhile_cons, hc]
    exact List.append_nil _

theorem dropWhile_text (h : IsName d.name) : d.text.toList.dropWhile (!endsName ·) = d.suffix.toList := by
  rw [text, String.toList_append, List.dropWhile_append_of_pos (not_endsName_of_isName h)]
  rcases d.suffix_cases with hsuffix | ⟨c, cs, hsuffix, hc⟩
  · rw [hsuffix, List.dropWhile_nil]
  · rw [hsuffix, List.dropWhile_cons, hc]
    rfl

/-- The name is read back whatever follows it. -/
theorem name_reread (h : IsName d.name) : d.reread.name = d.name := by
  simp only [reread, ofChars, takeWhile_text h, String.ofList_toList]
  split <;> rfl

/-- Types and defaults are read back if they are expressions. -/
theorem reread_as {kind : ParamKind} (h : IsName d.name) (hclosed : (d.as kind).IsClosed) :
    d.reread.as kind = (d.as kind).trimmed := by
  simp only [reread, ofChars, takeWhile_text h, dropWhile_text h, String.ofList_toList, trimmed, as]
  cases hascription : nonempty? d.ascription with
  | none =>
    cases hdefault : d.default with
    | none =>
      have hsuffix : d.suffix.toList = [] := by simp [suffix, hascription, hdefault]
      rw [hsuffix]
      rfl
    | some e =>
      have hsuffix : d.suffix.toList = '=' :: e.toList := by simp [suffix, hascription, hdefault]
      rw [hsuffix]
      simp
  | some a =>
    have hblank : ' ' ∉ [',', '='] := by decide
    have hsign : '=' ∈ [',', '='] := by decide
    have hbefore : Encloses [',', '='] .outside (' ' :: a.toList) :=
      .space_cons hblank (hclosed.ascription a hascription)
    cases hdefault : d.default with
    | none =>
      have hsuffix : d.suffix.toList = ':' :: ' ' :: a.toList := by
        simp [suffix, hascription, hdefault]
      rw [hsuffix]
      simp only [hbefore.cutOutside_eq hsign, Text.trim_space_cons, String.ofList_toList,
        Option.map_none, Option.map_some]
    | some e =>
      have hsuffix : d.suffix.toList
          = ':' :: ((' ' :: a.toList ++ [' ']) ++ '=' :: ' ' :: e.toList) := by
        simp [suffix, hascription, hdefault]
      rw [hsuffix]
      simp only [(hbefore.append_space hblank).cutOutside_append_mark hsign, Text.trim_append_space,
        Text.trim_space_cons, String.ofList_toList, Option.map_some]

/-- The text of a parameter begins with the first character of its name. -/
theorem exists_text_eq (h : IsName d.name) :
    ∃ c cs, d.text.toList = c :: cs ∧ isBlank c = false ∧ c ∉ signs := by
  cases hname : d.name.toList with
  | nil => exact absurd (String.toList_eq_nil_iff.mp hname) h.1
  | cons c cs =>
    refine ⟨c, cs ++ d.suffix.toList, ?_, h.2 c (hname ▸ List.mem_cons_self)⟩
    rw [text, String.toList_append, hname, List.cons_append]

/-- No comma stands outside in the text of a parameter whose texts are expressions. -/
theorem encloses_text {kind : ParamKind} (h : IsName d.name) (hclosed : (d.as kind).IsClosed) :
    Encloses [','] .outside d.text.toList := by
  have hname : Encloses [','] .outside d.name.toList := .of_plain fun c hc ↦ by
    have hsigns := (h.2 c hc).2
    simp only [signs, List.mem_append, not_or] at hsigns
    exact ⟨fun hcomma ↦ hsigns.2 (by simp [List.mem_singleton.mp hcomma]), hsigns.1.1.1,
      hsigns.1.1.2, hsigns.1.2⟩
  have hascription {a : String} (ha : nonempty? d.ascription = some a) :
      Encloses [','] .outside (": ".toList ++ a.toList) :=
    .append (by decide) ((hclosed.ascription a ha).mono (by simp))
  have hdefault {mark e : String} (hmark : Encloses [','] .outside mark.toList)
      (he : d.default = some e) : Encloses [','] .outside (mark.toList ++ e.toList) :=
    hmark.append (hclosed.default e he)
  rw [text, String.toList_append]
  refine hname.append ?_
  rw [suffix]
  split
  · next a e ha he =>
    have hequals : Encloses [','] .outside (" = ".toList ++ e.toList) := hdefault (by decide) he
    simpa only [String.toList_append, List.append_assoc] using (hascription ha).append hequals
  · next a ha he => simpa only [String.toList_append] using hascription ha
  · next e ha he =>
    have hequals : Encloses [','] .outside ("=".toList ++ e.toList) := hdefault (by decide) he
    simpa only [String.toList_append] using hequals
  · rfl

end Declarator

/-! ### Pieces are read back -/

namespace Piece

variable {p : Piece Declarator}

/-- A piece is read as what it was written from. -/
theorem ofText_text (h : ∀ d, p.declared? = some d → IsName d.name) :
    ofText p.text = p.map Declarator.reread := by
  cases p with
  | mark m => cases m <;> rfl
  | plain d =>
    obtain ⟨c, cs, htext, -, hsign⟩ := Declarator.exists_text_eq (h d rfl)
    have hslash : c ≠ '/' := fun heq ↦ hsign (heq ▸ by decide)
    have hstar : c ≠ '*' := fun heq ↦ hsign (heq ▸ by decide)
    simp only [ofText, text, map, Declarator.reread, htext]
    split <;> simp_all
  | starred d =>
    obtain ⟨c, cs, htext, -, hsign⟩ := Declarator.exists_text_eq (h d rfl)
    have hstar : c ≠ '*' := fun heq ↦ hsign (heq ▸ by decide)
    have hwhole : (text (.starred d)).toList = '*' :: c :: cs := by simp [text, htext]
    simp only [ofText, map, Declarator.reread, htext, hwhole]
    split <;> simp_all
  | doubleStarred d =>
    obtain ⟨c, cs, htext, -, hsign⟩ := Declarator.exists_text_eq (h d rfl)
    have hwhole : (text (.doubleStarred d)).toList = '*' :: '*' :: c :: cs := by simp [text, htext]
    simp only [ofText, map, Declarator.reread, htext, hwhole]

theorem ofText_eq_mark_iff {s : String} {m : Mark} : ofText s = mark m ↔ s = m.text := by
  refine ⟨fun h ↦ ?_, fun h ↦ h ▸ by cases m <;> rfl⟩
  rw [ofText] at h
  split at h <;> cases h <;> exact String.toList_inj.mp ‹_›

theorem text_eq_mark_iff {m : Mark} (h : ∀ d, p.declared? = some d → IsName d.name) :
    p.text = m.text ↔ p = mark m := by
  rw [← ofText_eq_mark_iff, ofText_text h]
  cases p <;> simp [map]

end Piece

/-- A text that can be found in a list: it encloses its commas, and does not begin with a blank. -/
def IsPiece (s : String) : Prop :=
  Encloses [','] .outside s.toList ∧ ∃ c cs, s.toList = c :: cs ∧ isBlank c = false

theorem IsPiece.trimStart {s : String} (h : IsPiece s) :
    Text.trimStart (String.ofList s.toList) = s := by
  obtain ⟨-, c, cs, hchars, hblank⟩ := h
  rw [hchars, Text.trimStart_of_not_isBlank hblank, ← hchars, String.ofList_toList]

/-- Pieces are found again between commas and blanks. -/
theorem cutPieces_intercalate {ps : List String} (h : ∀ s ∈ ps, IsPiece s) :
    cutPieces ([',', ' '].intercalate (ps.map String.toList)) = ps := by
  cases ps with
  | nil => rfl
  | cons s ss =>
    obtain ⟨hs, hss⟩ := List.forall_mem_cons.mp h
    have hsplit : splitOutside ',' .outside
        ([',', ' '].intercalate (s.toList :: ss.map String.toList))
          = s.toList :: (ss.map String.toList).map (List.cons ' ') :=
      Text.splitOutside_intercalate (by simpa using ⟨hs.1, fun t ht ↦ (hss t ht).1⟩)
    have hrest : ss.map (fun t ↦ Text.trimStart (String.ofList (' ' :: t.toList))) = ss.map id := by
      refine List.map_congr_left fun t ht ↦ ?_
      rw [Text.trimStart_space_cons, (hss t ht).trimStart, id]
    rw [List.map_cons, cutPieces, hsplit]
    split
    · next hnil =>
      obtain ⟨-, c, cs, hchars, -⟩ := hs
      rw [hchars] at hnil
      cases hnil
    · rw [List.map_cons, hs.trimStart, List.map_map, List.map_map]
      exact congrArg _ (hrest.trans (List.map_id ss))

theorem readList_intercalate {ps : List String} (h : ∀ s ∈ ps, IsPiece s) :
    readList ("(" ++ ", ".intercalate ps ++ ")") = readPieces ps := by
  have hchars : ("(" ++ ", ".intercalate ps ++ ")").toList
      = '(' :: ([',', ' '].intercalate (ps.map String.toList) ++ [')']) := by
    simp [String.toList_intercalate]
  have hlast : ('(' :: ([',', ' '].intercalate (ps.map String.toList) ++ [')'])).getLast?
      = some ')' := by
    rw [← List.cons_append, List.getLast?_concat]
  rw [readList, hchars, if_pos ⟨rfl, hlast⟩, List.tail_cons, List.dropLast_concat,
    cutPieces_intercalate h]

namespace Groups

variable {g : Groups Declarator}

theorem isName_of_mem_layout (hnames : ∀ p ∈ g.params, IsName p.name) {p : Piece Declarator}
    (hp : p ∈ g.layout) (d : Declarator) (hd : p.declared? = some d) : IsName d.name := by
  obtain ⟨e, he, rfl⟩ := List.mem_map.mp (g.mem_fst_entries_of_mem_layout hp hd)
  exact hnames _ (List.mem_map_of_mem he)

/-- The parameters are read back from the pieces, each as what is read when it was written. -/
theorem readPieces_params (hnames : ∀ p ∈ g.params, IsName p.name) :
    readPieces (pieces false false g.params)
      = some (g.entries.map fun e ↦ e.1.reread.as e.2) := by
  have htexts : (g.layout.map Piece.text).map Piece.ofText = (g.map Declarator.reread).layout := by
    rw [List.map_map, layout_map]
    exact List.map_congr_left fun p hp ↦ Piece.ofText_text (isName_of_mem_layout hnames hp)
  rw [readPieces, pieces_params, htexts, readKinds_layout, entries_map, Option.map_some,
    List.map_map]
  rfl

/-- No mark stands twice among the pieces. -/
theorem count_mark_le (hnames : ∀ p ∈ g.params, IsName p.name) (m : Mark) :
    (pieces false false g.params).count m.text ≤ 1 := by
  rw [pieces_params, List.count, List.countP_map]
  refine Nat.le_trans (Nat.le_of_eq (List.countP_congr fun p hp ↦ ?_)) (g.countP_isMark_layout_le m)
  rw [Function.comp_apply, beq_iff_eq, Piece.text_eq_mark_iff (isName_of_mem_layout hnames hp)]
  cases p <;> simp [Piece.isMark]

/-- A mark that stands among the pieces is needed. -/
theorem needs_of_mem_pieces (hnames : ∀ p ∈ g.params, IsName p.name) {m : Mark}
    (h : m.text ∈ pieces false false g.params) : g.Needs m := by
  rw [pieces_params] at h
  obtain ⟨p, hp, htext⟩ := List.mem_map.mp h
  exact needs_of_mark_mem ((Piece.text_eq_mark_iff (isName_of_mem_layout hnames hp)).mp htext ▸ hp)

/-- A parameter with a star among the pieces is the one that takes all other positions. -/
theorem varPositional_of_ofText (hnames : ∀ p ∈ g.params, IsName p.name) {s : String}
    {d : Declarator} (hs : s ∈ pieces false false g.params) (h : Piece.ofText s = .starred d) :
    g.varPositional ≠ none := by
  rw [pieces_params] at hs
  obtain ⟨p, hp, rfl⟩ := List.mem_map.mp hs
  rw [Piece.ofText_text (isName_of_mem_layout hnames hp)] at h
  cases p with
  | starred d =>
    rw [varPositional_of_starred_mem hp]
    exact Option.some_ne_none d
  | _ => cases h

/-- Who reads some pieces with the kinds of a list finds the marks that these kinds need. -/
theorem marked_of_readPieces {qs : List String} {e : Declarator × ParamKind} (he : e ∈ g.entries)
    (h : (readPieces qs).map (·.map Param.kind) = some (g.params.map Param.kind)) :
    Marked (qs.map Piece.ofText) e.2 := by
  obtain ⟨ps, hread, hkinds⟩ := Option.map_eq_some_iff.mp h
  obtain ⟨es, hes, rfl⟩ := Option.map_eq_some_iff.mp hread
  rw [params, List.map_map, List.map_map] at hkinds
  have hmem : e.2 ∈ g.entries.map Prod.snd := List.mem_map_of_mem he
  have hsnd : es.map Prod.snd = g.entries.map Prod.snd := hkinds
  rw [← hsnd] at hmem
  obtain ⟨e', he', heq⟩ := List.mem_map.mp hmem
  exact heq ▸ marked_of_mem_readKinds hes he'

/-- Without one of its marks a list is read with other kinds, or not at all. -/
theorem readPieces_erase (hnames : ∀ p ∈ g.params, IsName p.name) {m : Mark}
    (hmem : m.text ∈ pieces false false g.params) :
    (readPieces ((pieces false false g.params).erase m.text)).map (·.map Param.kind)
      ≠ some (g.params.map Param.kind) := by
  intro heq
  have hneeds := needs_of_mem_pieces hnames hmem
  obtain ⟨d, hentry⟩ := hneeds.exists_entry
  have hmarked := marked_of_readPieces hentry heq
  -- the mark stood there once only
  have hgone : .mark m ∉ ((pieces false false g.params).erase m.text).map Piece.ofText := by
    intro hmark
    obtain ⟨s, hs, hpiece⟩ := List.mem_map.mp hmark
    rw [Piece.ofText_eq_mark_iff.mp hpiece, ← List.count_pos_iff, List.count_erase_self] at hs
    have hcount := count_mark_le hnames m
    omega
  cases m with
  | slash => exact hgone hmarked
  | star =>
    rcases hmarked with hmark | ⟨d, hstarred⟩
    · exact hgone hmark
    · obtain ⟨s, hs, hpiece⟩ := List.mem_map.mp hstarred
      exact varPositional_of_ofText hnames (List.mem_of_mem_erase hs) hpiece hneeds.2

theorem isPiece_of_mem_pieces (hnames : ∀ p ∈ g.params, IsName p.name)
    (hclosed : ∀ p ∈ g.params, p.IsClosed) : ∀ s ∈ pieces false false g.params, IsPiece s := by
  rw [pieces_params]
  rintro s hs
  obtain ⟨p, hp, rfl⟩ := List.mem_map.mp hs
  have hname := isName_of_mem_layout hnames hp
  have hencloses (d : Declarator) (hd : p.declared? = some d) :
      Encloses [','] .outside d.text.toList := by
    obtain ⟨e, he, rfl⟩ := List.mem_map.mp (g.mem_fst_entries_of_mem_layout hp hd)
    exact Declarator.encloses_text (hname _ hd) (hclosed _ (List.mem_map_of_mem he))
  cases p with
  | mark m =>
    cases m with
    | slash => exact ⟨by decide, '/', [], rfl, by decide +kernel⟩
    | star => exact ⟨by decide, '*', [], rfl, by decide +kernel⟩
  | plain d =>
    obtain ⟨c, cs, htext, hblank, -⟩ := Declarator.exists_text_eq (hname d rfl)
    exact ⟨hencloses d rfl, c, cs, htext, hblank⟩
  | starred d =>
    rw [IsPiece, Piece.text, String.toList_append]
    exact ⟨.append (by decide) (hencloses d rfl), '*', _, rfl, by decide +kernel⟩
  | doubleStarred d =>
    rw [IsPiece, Piece.text, String.toList_append]
    exact ⟨.append (by decide) (hencloses d rfl), '*', _, rfl, by decide +kernel⟩

/-- A list whose texts are expressions is read back as a whole. -/
theorem readList_params (hnames : ∀ p ∈ g.params, IsName p.name)
    (hclosed : ∀ p ∈ g.params, p.IsClosed) :
    readList (listText g.params) = some (g.params.map trimmed) := by
  rw [listText, readList_intercalate (isPiece_of_mem_pieces hnames hclosed),
    readPieces_params hnames, params, List.map_map]
  refine congrArg some (List.map_congr_left fun e he ↦ ?_)
  exact Declarator.reread_as (hnames _ (List.mem_map_of_mem he)) (hclosed _ (List.mem_map_of_mem he))

end Groups

/-- **The marks determine the kinds.** Let a list of parameters be given in the order in which a callable
may list them, with names, and with any texts for types and defaults. Who reads its pieces finds the
same names in the same order with the same kinds. There is at most one slash and at most one star that
stands for itself, and each of them is needed: without it other kinds are read, or none. If the texts
are expressions, then the whole list, cut at its commas, is read as the same parameters with their types
and defaults. -/
theorem pieces_determine_kinds (g : Groups Declarator) (hnames : ∀ p ∈ g.params, IsName p.name) :
    ((readPieces (pieces false false g.params)).map fun ps ↦ ps.map fun p ↦ (p.name, p.kind))
        = some (g.params.map fun p ↦ (p.name, p.kind)) ∧
      (∀ m : Mark, (pieces false false g.params).count m.text ≤ 1 ∧
        (m.text ∈ pieces false false g.params →
          (readPieces ((pieces false false g.params).erase m.text)).map (·.map Param.kind)
            ≠ some (g.params.map Param.kind))) ∧
      ((∀ p ∈ g.params, p.IsClosed) →
        readList (listText g.params) = some (g.params.map trimmed)) := by
  refine ⟨?_, fun m ↦ ⟨Groups.count_mark_le hnames m, Groups.readPieces_erase hnames⟩,
    Groups.readList_params hnames⟩
  rw [Groups.readPieces_params hnames, Option.map_some, Groups.params, List.map_map, List.map_map]
  refine congrArg some (List.map_congr_left fun e he ↦ Prod.ext ?_ rfl)
  exact Declarator.name_reread (hnames _ (List.mem_map_of_mem he))

/-- A list that needs both marks. -/
def markedGroups : Groups Declarator where
  positionalOnly := [⟨"a", none, none⟩]
  positional := [⟨"b", some "Dict[str, int]", some "max(1, 2)"⟩]
  keywordOnly := [⟨"c", none, some "..."⟩]
  varKeyword := some ⟨"rest", some "int", none⟩

/-- It is read back with all that it declares. -/
theorem pieces_determine_kinds_of_marked :
    (∀ p ∈ markedGroups.params, IsName p.name) ∧ (∀ p ∈ markedGroups.params, p.IsClosed) ∧
      listText markedGroups.params
        = "(a, /, b: Dict[str, int] = max(1, 2), *, c=..., **rest: int)" ∧
      readList (listText markedGroups.params) = some markedGroups.params := by
  have hnames : ∀ p ∈ markedGroups.params, IsName p.name := by decide +kernel
  have hclosed : ∀ p ∈ markedGroups.params, p.IsClosed := by decide +kernel
  have htrimmed : markedGroups.params.map trimmed = markedGroups.params := by decide +kernel
  have hread := (pieces_determine_kinds markedGroups hnames).2.2 hclosed
  rw [htrimmed] at hread
  exact ⟨hnames, hclosed, by decide +kernel, hread⟩

end DeclClosure.Param

import DeclClosure.Tree.Node

/-!
# The layout of parameter lists

A callable lists its parameters in groups (`Param.Groups`): those that take a position only, those that
take a position or a keyword, at most one that takes the other positions, those that take a keyword
only, and at most one that takes the other keywords. Any of the groups may be empty. The kinds are not
written at the parameters. Who reads a list finds them from the marks alone: the stars at a
parameter, a slash, and a star that stands for itself (`Param.readKinds`).

`Param.Groups.layout` is a list with its marks, before it becomes a text. From it the kinds are read
back (`Param.Groups.readKinds_layout`), and without a mark that a kind needs nobody would read this kind
(`Param.marked_of_mem_readKinds`).
-/

namespace DeclClosure.Param

/-! ### Lists and their layout -/

/-- The parameters of a list, group by group. -/
structure Groups (α : Type) where
  /-- Those that take a position only. -/
  positionalOnly : List α := []
  /-- Those that take a position or a keyword. -/
  positional : List α := []
  /-- The one that takes all other positions. -/
  varPositional : Option α := none
  /-- Those that take a keyword only. -/
  keywordOnly : List α := []
  /-- The one that takes all other keywords. -/
  varKeyword : Option α := none

/-- The marks that stand for themselves between two commas. -/
inductive Mark where
  | slash
  | star
deriving DecidableEq, Repr

/-- The kind of parameters that a mark is written for. -/
def Mark.kind : Mark → ParamKind
  | slash => .positionalOnly
  | star => .keywordOnly

/-- What stands between two commas of a parameter list. -/
inductive Piece (α : Type) where
  | mark (m : Mark)
  | plain (d : α)
  | starred (d : α)
  | doubleStarred (d : α)

/-- The same piece with something else declared in it. -/
def Piece.map {α β : Type} (f : α → β) : Piece α → Piece β
  | mark m => mark m
  | plain d => plain (f d)
  | starred d => starred (f d)
  | doubleStarred d => doubleStarred (f d)

/-- What is declared in the piece, unless it is a mark. -/
def Piece.declared? {α : Type} : Piece α → Option α
  | mark _ => none
  | plain d | starred d | doubleStarred d => some d

/-- The piece is the mark. -/
def Piece.isMark {α : Type} (m : Mark) : Piece α → Bool
  | mark m' => m' == m
  | _ => false

namespace Groups

variable {α β : Type}

/-- The parameters from the one that takes all other positions on, each with its kind. -/
def keywordEntries (g : Groups α) : List (α × ParamKind) :=
  g.varPositional.toList.map (·, .varPositional) ++ g.keywordOnly.map (·, .keywordOnly)
    ++ g.varKeyword.toList.map (·, .varKeyword)

/-- The parameters in their order, each with its kind. -/
def entries (g : Groups α) : List (α × ParamKind) :=
  g.positionalOnly.map (·, .positionalOnly) ++ g.positional.map (·, .positionalOrKeyword)
    ++ g.keywordEntries

/-- The slash, if it is needed. -/
def slashes (g : Groups α) : List (Piece α) :=
  if g.positionalOnly = [] then [] else [.mark .slash]

/-- What stands before the parameters that take a keyword only. -/
def stars (g : Groups α) : List (Piece α) :=
  match g.varPositional with
  | some d => [.starred d]
  | none => if g.keywordOnly = [] then [] else [.mark .star]

/-- The list with its marks, from its first star on. -/
def keywordPart (g : Groups α) : List (Piece α) :=
  g.stars ++ g.keywordOnly.map .plain ++ g.varKeyword.toList.map .doubleStarred

/-- The list with its marks. -/
def layout (g : Groups α) : List (Piece α) :=
  g.positionalOnly.map .plain ++ g.slashes ++ g.positional.map .plain ++ g.keywordPart

/-- There are parameters that need the mark: some that take a position only, or some that take a keyword
only and come after no parameter with a star. -/
def Needs (g : Groups α) : Mark → Prop
  | .slash => g.positionalOnly ≠ []
  | .star => g.keywordOnly ≠ [] ∧ g.varPositional = none

/-- The same groups of something else. -/
def map (f : α → β) (g : Groups α) : Groups β where
  positionalOnly := g.positionalOnly.map f
  positional := g.positional.map f
  varPositional := g.varPositional.map f
  keywordOnly := g.keywordOnly.map f
  varKeyword := g.varKeyword.map f

section Layout

variable (g : Groups α) (f : α → β)

theorem layout_map : (g.map f).layout = g.layout.map (Piece.map f) := by
  obtain ⟨_ | _, _, _ | _, _ | _, _ | _⟩ := g <;>
    simp [layout, keywordPart, slashes, stars, map, Piece.map, Function.comp_def]

theorem entries_map : (g.map f).entries = g.entries.map fun e ↦ (f e.1, e.2) := by
  obtain ⟨_, _, _ | _, _, _ | _⟩ := g <;>
    simp [entries, keywordEntries, map, Function.comp_def]

/-- No mark stands twice in a list. -/
theorem countP_isMark_layout_le (m : Mark) : g.layout.countP (Piece.isMark m) ≤ 1 := by
  obtain ⟨_ | _, _, _ | _, _ | _, _ | _⟩ := g <;> cases m <;>
    simp [layout, keywordPart, slashes, stars, Piece.isMark, Function.comp_def]

variable {g}

/-- No mark stands in a list that does not need it. -/
theorem needs_of_mark_mem {m : Mark} (h : .mark m ∈ g.layout) : g.Needs m := by
  obtain ⟨_ | _, _, _ | _, _ | _, _ | _⟩ := g <;> cases m <;>
    simp_all [layout, keywordPart, slashes, stars, Needs]

theorem Needs.exists_entry {m : Mark} (h : g.Needs m) : ∃ d, (d, m.kind) ∈ g.entries := by
  cases m with
  | slash =>
    obtain ⟨d, hd⟩ := List.exists_mem_of_ne_nil _ h
    exact ⟨d, by simp [entries, Mark.kind, hd]⟩
  | star =>
    obtain ⟨d, hd⟩ := List.exists_mem_of_ne_nil _ h.1
    exact ⟨d, by simp [entries, keywordEntries, Mark.kind, hd]⟩

theorem varPositional_of_starred_mem {d : α} (h : .starred d ∈ g.layout) :
    g.varPositional = some d := by
  obtain ⟨_ | _, _, _ | _, _ | _, _ | _⟩ := g <;>
    simp_all [layout, keywordPart, slashes, stars]

variable (g)

/-- Nothing is declared in the layout but the parameters, in their order. -/
theorem filterMap_declared?_layout : g.layout.filterMap Piece.declared? = g.entries.map Prod.fst := by
  obtain ⟨_ | _, _, _ | _, _ | _, _ | _⟩ := g <;>
    simp [layout, keywordPart, slashes, stars, entries, keywordEntries, Piece.declared?,
      Function.comp_def, List.filterMap_cons, List.filterMap_map]

theorem mem_fst_entries_of_mem_layout {p : Piece α} {d : α} (hp : p ∈ g.layout)
    (hd : p.declared? = some d) : d ∈ g.entries.map Prod.fst :=
  g.filterMap_declared?_layout ▸ List.mem_filterMap.mpr ⟨p, hp, hd⟩

end Layout

end Groups

/-! ### How a list is read -/

section Grammar

variable {α : Type}

/-- The parameters without stars up to the next mark, and what follows them. -/
def plains : List (Piece α) → List α × List (Piece α)
  | .plain d :: ps => (plains ps).map (List.cons d) id
  | ps => ([], ps)

/-- The end of a list: nothing follows the parameter that takes all other keywords. -/
def readEnd : List (Piece α) → Option (List (α × ParamKind))
  | [] => some []
  | [.doubleStarred d] => some [(d, .varKeyword)]
  | _ => none

/-- A list from its first star on. A star that stands for itself needs a parameter after it. -/
def readStars : List (Piece α) → Option (List (α × ParamKind))
  | .mark .star :: ps =>
    match plains ps with
    | ([], _) => none
    | (ds, rest) => (readEnd rest).map (ds.map (·, .keywordOnly) ++ ·)
  | .starred d :: ps =>
    (readEnd (plains ps).2).map ((d, .varPositional) :: (plains ps).1.map (·, .keywordOnly) ++ ·)
  | ps => readEnd ps

/-- The parameters of a list with their kinds. A slash needs a parameter before it. -/
def readKinds (ps : List (Piece α)) : Option (List (α × ParamKind)) :=
  match plains ps with
  | (d :: ds, .mark .slash :: rest) =>
    (readStars (plains rest).2).map ((d :: ds).map (·, .positionalOnly)
      ++ (plains rest).1.map (·, .positionalOrKeyword) ++ ·)
  | (ds, rest) => (readStars rest).map (ds.map (·, .positionalOrKeyword) ++ ·)

end Grammar

/-! ### The kinds are read back from the layout -/

section Grammar

variable {α : Type} {ps : List (Piece α)} {es : List (α × ParamKind)}

theorem plains_append (ds : List α) (ps : List (Piece α)) :
    plains (ds.map .plain ++ ps) = (ds ++ (plains ps).1, (plains ps).2) := by
  induction ds with
  | nil => rfl
  | cons d ds ih => rw [List.map_cons, List.cons_append, plains, ih]; rfl

theorem eq_plains_append (ps : List (Piece α)) : ps = (plains ps).1.map .plain ++ (plains ps).2 := by
  fun_induction plains ps with
  | case1 d ps ih => exact congrArg _ ih
  | case2 => rfl

theorem readKinds_slash (d : α) (ds : List α) (ps : List (Piece α)) :
    readKinds ((d :: ds).map .plain ++ .mark .slash :: ps) =
      (readStars (plains ps).2).map ((d :: ds).map (·, .positionalOnly)
        ++ (plains ps).1.map (·, .positionalOrKeyword) ++ ·) := by
  rw [readKinds, plains_append]
  simp only [plains, List.append_nil]

theorem readKinds_of_ne_slash {ds : List α} {rest : List (Piece α)} (h : plains ps = (ds, rest))
    (hrest : ∀ qs, rest ≠ .mark .slash :: qs) :
    readKinds ps = (readStars rest).map (ds.map (·, .positionalOrKeyword) ++ ·) := by
  rw [readKinds, h]
  split
  · next heq => exact absurd (Prod.mk.inj heq).2 (hrest _)
  · next heq =>
    obtain ⟨rfl, rfl⟩ := Prod.mk.inj heq
    rfl

theorem readEnd_toList (d? : Option α) :
    readEnd (d?.toList.map .doubleStarred) = some (d?.toList.map (·, .varKeyword)) := by
  cases d? <;> rfl

theorem plains_toList (d? : Option α) : plains (d?.toList.map .doubleStarred)
    = ([], d?.toList.map .doubleStarred) := by
  cases d? <;> rfl

theorem plains_append_toList (ds : List α) (d? : Option α) :
    plains (ds.map .plain ++ d?.toList.map .doubleStarred)
      = (ds, d?.toList.map .doubleStarred) := by
  rw [plains_append, plains_toList, List.append_nil]

namespace Groups

variable (g : Groups α)

theorem plains_keywordPart : plains g.keywordPart = ([], g.keywordPart) := by
  obtain ⟨_, _, _ | d, _ | ⟨c, cs⟩, e⟩ := g
  · exact plains_toList e
  all_goals rfl

theorem readStars_keywordPart : readStars g.keywordPart = some g.keywordEntries := by
  obtain ⟨_, _, _ | d, ks, e⟩ := g
  · cases ks with
    | nil => cases e <;> rfl
    | cons k ks =>
      change readStars (.mark .star :: ((k :: ks).map .plain ++ e.toList.map .doubleStarred)) = _
      rw [readStars, plains_append_toList]
      dsimp only
      rw [readEnd_toList]
      rfl
  · change readStars (.starred d :: (ks.map .plain ++ e.toList.map .doubleStarred)) = _
    rw [readStars, plains_append_toList, readEnd_toList]
    rfl

theorem keywordPart_ne_slash (ps : List (Piece α)) : g.keywordPart ≠ .mark .slash :: ps := by
  obtain ⟨_, _, _ | d, _ | ⟨c, cs⟩, _ | e⟩ := g <;> exact nofun

/-- The kinds are read back from the marks. -/
theorem readKinds_layout : readKinds g.layout = some g.entries := by
  have hpositional : plains (g.positional.map .plain ++ g.keywordPart)
      = (g.positional, g.keywordPart) := by
    rw [plains_append, plains_keywordPart, List.append_nil]
  cases hfront : g.positionalOnly with
  | nil =>
    have hlayout : g.layout = g.positional.map .plain ++ g.keywordPart := by
      simp only [layout, slashes, hfront, if_true, List.map_nil, List.nil_append]
    rw [hlayout, readKinds_of_ne_slash hpositional g.keywordPart_ne_slash, readStars_keywordPart]
    simp only [entries, hfront, Option.map_some, List.map_nil, List.nil_append]
  | cons d ds =>
    have hlayout : g.layout
        = (d :: ds).map .plain ++ .mark .slash :: (g.positional.map .plain ++ g.keywordPart) := by
      simp only [layout, slashes, hfront, if_neg (List.cons_ne_nil d ds), List.append_assoc,
        List.cons_append, List.nil_append]
    rw [hlayout, readKinds_slash, hpositional]
    dsimp only
    rw [readStars_keywordPart]
    simp only [entries, hfront, Option.map_some]

end Groups

/-! ### The marks that a kind needs -/

section Marks

variable {qs : List (Piece α)} {e : α × ParamKind} {k : ParamKind}

/-- The marks that a kind needs are there: a slash for parameters that take a position only, a star of
some sort for those that take a keyword only. -/
def Marked (ps : List (Piece α)) : ParamKind → Prop
  | .positionalOnly => .mark .slash ∈ ps
  | .keywordOnly => .mark .star ∈ ps ∨ ∃ d, .starred d ∈ ps
  | _ => True

theorem Marked.mono (hsub : qs ⊆ ps) (h : Marked qs k) : Marked ps k := by
  cases k with
  | positionalOnly => exact hsub h
  | keywordOnly => exact h.imp (hsub ·) fun ⟨d, hd⟩ ↦ ⟨d, hsub hd⟩
  | _ => trivial

theorem plains_subset (ps : List (Piece α)) : (plains ps).2 ⊆ ps := by
  intro p hp
  rw [eq_plains_append ps]
  exact List.mem_append_right _ hp

theorem marked_of_mem_readEnd (h : readEnd ps = some es) (he : e ∈ es) : Marked ps e.2 := by
  rw [readEnd.eq_def] at h
  split at h
  · cases h
    cases he
  · cases h
    rw [List.mem_singleton.mp he]
    trivial
  · cases h

theorem marked_of_mem_readStars (h : readStars ps = some es) (he : e ∈ es) : Marked ps e.2 := by
  rw [readStars.eq_def] at h
  split at h
  · next qs =>
    split at h
    · cases h
    · next ds rest _ hplains =>
      obtain ⟨es, hend, rfl⟩ := Option.map_eq_some_iff.mp h
      rcases List.mem_append.mp he with he | he
      · obtain ⟨d, -, rfl⟩ := List.mem_map.mp he
        exact .inl List.mem_cons_self
      · have hrest : rest ⊆ qs := by
          simpa [hplains] using plains_subset qs
        exact (marked_of_mem_readEnd hend he).mono (List.subset_cons_of_subset _ hrest)
  · next d qs =>
    obtain ⟨es, hend, rfl⟩ := Option.map_eq_some_iff.mp h
    rcases List.mem_cons.mp he with rfl | he
    · trivial
    rcases List.mem_append.mp he with he | he
    · obtain ⟨d, -, rfl⟩ := List.mem_map.mp he
      exact .inr ⟨_, List.mem_cons_self⟩
    · exact (marked_of_mem_readEnd hend he).mono
        (List.subset_cons_of_subset _ (plains_subset qs))
  · exact marked_of_mem_readEnd h he

/-- No kind is read without the marks that it needs. -/
theorem marked_of_mem_readKinds (h : readKinds ps = some es) (he : e ∈ es) : Marked ps e.2 := by
  have hsub := plains_subset ps
  rw [readKinds] at h
  split at h
  · next d ds rest heq =>
    rw [heq] at hsub
    obtain ⟨es, hstars, rfl⟩ := Option.map_eq_some_iff.mp h
    rcases List.mem_append.mp he with he | he
    · rcases List.mem_append.mp he with he | he
      · obtain ⟨d, -, rfl⟩ := List.mem_map.mp he
        exact hsub List.mem_cons_self
      · obtain ⟨d, -, rfl⟩ := List.mem_map.mp he
        trivial
    · exact (marked_of_mem_readStars hstars he).mono
        (List.Subset.trans (List.subset_cons_of_subset _ (plains_subset rest)) hsub)
  · next ds rest _ heq =>
    rw [heq] at hsub
    obtain ⟨es, hstars, rfl⟩ := Option.map_eq_some_iff.mp h
    rcases List.mem_append.mp he with he | he
    · obtain ⟨d, -, rfl⟩ := List.mem_map.mp he
      trivial
    · exact (marked_of_mem_readStars hstars he).mono hsub

end Marks

end Grammar

end DeclClosure.Param

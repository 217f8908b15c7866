import DeclClosure.Symbol.Set
import Mathlib.Data.Finset.Max

/-!
# What a union contains

A set stores its names with one root qualifier taken off, and a name that is asked for is treated in the
same way. A union stores what its two sets have stored, but takes one more qualifier off
(`SymbolSet.mem_names_union_iff`). For names with at most one qualifier there is nothing left to take
off, and a union contains what one of its sets contains.

A name with two qualifiers or more is stored with a qualifier. In the union it loses this qualifier as
well, is not contained any more, and what is contained instead may be in neither of the sets
(`SymbolSet.contains_union_iff_or_iff`). That the law fails as soon as there is one such name, whatever
else is in the sets, rests on the longest of the names that are stored with a qualifier: nothing is
stored that would come to stand in its place.
-/

namespace DeclClosure

namespace Name

/-- The name carries a root qualifier. -/
def IsRooted (name : String) : Prop :=
  ∃ rest, name = rootQualifier ++ rest

theorem isRooted_iff {name : String} : IsRooted name ↔ startsWith rootQualifier name :=
  startsWith_iff_exists.symm

/-- What is left when a qualifier has been taken off was there behind the qualifier, or without one. -/
theorem stripRoot_eq_iff {name x : String} :
    stripRoot name = x ↔ name = rootQualifier ++ x ∨ (name = x ∧ ¬IsRooted name) := by
  by_cases h : IsRooted name
  · obtain ⟨rest, rfl⟩ := h
    have hrooted : IsRooted (rootQualifier ++ rest) := ⟨rest, rfl⟩
    rw [stripRoot_rootQualifier_append, String.append_right_inj]
    exact ⟨.inl, fun h ↦ h.resolve_right fun h ↦ h.2 hrooted⟩
  · rw [stripRoot_of_not_startsWith (isRooted_iff.not.mp h)]
    refine ⟨fun heq ↦ .inr ⟨heq, h⟩, ?_⟩
    rintro (rfl | ⟨heq, -⟩)
    · exact absurd ⟨x, rfl⟩ h
    · exact heq

theorem mem_map_stripRoot_iff {names : List String} {x : String} :
    x ∈ names.map stripRoot ↔ rootQualifier ++ x ∈ names ∨ (x ∈ names ∧ ¬IsRooted x) := by
  simp only [List.mem_map, stripRoot_eq_iff]
  constructor
  · rintro ⟨name, hmem, rfl | ⟨rfl, hrooted⟩⟩
    · exact .inl hmem
    · exact .inr ⟨hmem, hrooted⟩
  · rintro (hmem | ⟨hmem, hrooted⟩)
    · exact ⟨_, hmem, .inl rfl⟩
    · exact ⟨x, hmem, .inr ⟨rfl, hrooted⟩⟩

/-- A name that is stored with a qualifier was given with two. -/
theorem isRooted_stripRoot_iff {name : String} :
    IsRooted (stripRoot name) ↔ ∃ rest, name = rootQualifier ++ (rootQualifier ++ rest) := by
  constructor
  · rintro ⟨rest, hrest⟩
    rcases stripRoot_eq_iff.mp hrest with heq | ⟨rfl, hrooted⟩
    · exact ⟨rest, heq⟩
    · exact absurd ⟨rest, rfl⟩ hrooted
  · rintro ⟨rest, rfl⟩
    exact ⟨rest, stripRoot_rootQualifier_append _⟩

/-- Of some names with a qualifier, there is one that is not there with one more qualifier. -/
theorem exists_isRooted_outermost {names : List String} {x : String} (hx : x ∈ names)
    (hrooted : IsRooted x) : ∃ y ∈ names, IsRooted y ∧ rootQualifier ++ y ∉ names := by
  classical
  have hnonempty : (names.toFinset.filter IsRooted).Nonempty :=
    ⟨x, Finset.mem_filter.mpr ⟨List.mem_toFinset.mpr hx, hrooted⟩⟩
  obtain ⟨y, hy, hlongest⟩ := Finset.exists_max_image _ String.length hnonempty
  obtain ⟨hmem, hyrooted⟩ := Finset.mem_filter.mp hy
  refine ⟨y, List.mem_toFinset.mp hmem, hyrooted, fun houter ↦ ?_⟩
  have hle := hlongest _ (Finset.mem_filter.mpr ⟨List.mem_toFinset.mpr houter, y, rfl⟩)
  have hqualifier : rootQualifier.length = 9 := rfl
  rw [String.length_append, hqualifier] at hle
  omega

end Name

namespace SymbolSet

open Name

theorem contains_iff {set : SymbolSet} {n : String} : set.contains n ↔ stripRoot n ∈ set.names :=
  List.contains_iff_mem

/-- One of the sets of some names stores a name. -/
def EitherStores (as bs : List String) (x : String) : Prop :=
  x ∈ (ofNames as).names ∨ x ∈ (ofNames bs).names

/-- Asked for a name, the union answers what one of its two sets answers. -/
def UnionAgrees (as bs : List String) (n : String) : Prop :=
  ((ofNames as).union bs).contains n ↔ (ofNames as).contains n ∨ (ofNames bs).contains n

instance (as bs : List String) (n : String) : Decidable (UnionAgrees as bs n) :=
  inferInstanceAs (Decidable (_ ↔ _))

/-- What a union stores: the stored names of its sets, each without a qualifier that it still had. -/
theorem mem_names_union_iff {as bs : List String} {x : String} : x ∈ ((ofNames as).union bs).names ↔
    EitherStores as bs (rootQualifier ++ x) ∨ (EitherStores as bs x ∧ ¬IsRooted x) := by
  rw [EitherStores, EitherStores, ← List.mem_append, ← List.mem_append]
  exact mem_map_stripRoot_iff

theorem unionAgrees_iff {as bs : List String} {n : String} : UnionAgrees as bs n ↔
    (EitherStores as bs (rootQualifier ++ stripRoot n) → EitherStores as bs (stripRoot n)) ∧
      (IsRooted (stripRoot n) → EitherStores as bs (stripRoot n) →
        EitherStores as bs (rootQualifier ++ stripRoot n)) := by
  have hsets : (ofNames as).contains n ∨ (ofNames bs).contains n ↔ EitherStores as bs (stripRoot n) :=
    or_congr contains_iff contains_iff
  rw [UnionAgrees, contains_iff, mem_names_union_iff, hsets]
  constructor
  · intro hlaw
    exact ⟨fun houter ↦ hlaw.mp (.inl houter),
      fun hrooted hstored ↦ (hlaw.mpr hstored).resolve_right fun h ↦ h.2 hrooted⟩
  · rintro ⟨hinner, houter⟩
    refine ⟨fun h ↦ h.elim hinner And.left, fun hstored ↦ ?_⟩
    by_cases hrooted : IsRooted (stripRoot n)
    · exact .inl (houter hrooted hstored)
    · exact .inr ⟨hstored, hrooted⟩

/-- What is stored with a qualifier was given with two. -/
theorem exists_eitherStores_isRooted_iff {as bs : List String} :
    (∃ x, EitherStores as bs x ∧ IsRooted x) ↔
      ∃ name ∈ as ++ bs, ∃ rest, name = rootQualifier ++ (rootQualifier ++ rest) := by
  simp only [EitherStores, ← List.mem_append, ofNames, ← List.map_append]
  constructor
  · rintro ⟨x, hx, hrooted⟩
    obtain ⟨name, hname, rfl⟩ := List.mem_map.mp hx
    exact ⟨name, hname, isRooted_stripRoot_iff.mp hrooted⟩
  · rintro ⟨name, hname, htwice⟩
    exact ⟨_, List.mem_map_of_mem hname, isRooted_stripRoot_iff.mpr htwice⟩

/-- **What a union contains.** A union contains the names that one of its sets contains, and no others,
exactly if none of the names that the sets were made from carries two root qualifiers. One name, that is
`x` when one qualifier has been taken off, is answered by the union as by its sets exactly if one of the
sets stores `x` whenever one of them stores `x` behind a qualifier, and, where `x` still carries a
qualifier, the other way round. -/
theorem union_agrees_iff_unrooted (as bs : List String) :
    ((∀ n, UnionAgrees as bs n) ↔
      ∀ name ∈ as ++ bs, ∀ rest, name ≠ rootQualifier ++ (rootQualifier ++ rest)) ∧
    ∀ n, UnionAgrees as bs n ↔
      (EitherStores as bs (rootQualifier ++ stripRoot n) → EitherStores as bs (stripRoot n)) ∧
        (IsRooted (stripRoot n) → EitherStores as bs (stripRoot n) →
          EitherStores as bs (rootQualifier ++ stripRoot n)) := by
  refine ⟨⟨fun hagrees name hname rest heq ↦ ?_, fun hsingle n ↦ unionAgrees_iff.mpr ⟨?_, ?_⟩⟩,
    fun n ↦ unionAgrees_iff⟩
  · obtain ⟨x, hx, hrooted⟩ := exists_eitherStores_isRooted_iff.mpr ⟨name, hname, rest, heq⟩
    obtain ⟨y, hy, hyrooted, houter⟩ :=
      exists_isRooted_outermost (List.mem_append.mpr hx) hrooted
    -- asked for behind two qualifiers, the outermost name is contained in a set and not in the union
    have hmore := (unionAgrees_iff.mp (hagrees (rootQualifier ++ y))).2
    rw [stripRoot_rootQualifier_append] at hmore
    exact houter (List.mem_append.mpr (hmore hyrooted (List.mem_append.mp hy)))
  all_goals
    have hunrooted {x : String} (hx : EitherStores as bs x) : ¬IsRooted x := by
      intro hrooted
      obtain ⟨name, hname, rest, heq⟩ := exists_eitherStores_isRooted_iff.mp ⟨x, hx, hrooted⟩
      exact hsingle name hname rest heq
  · exact fun houter ↦ absurd ⟨_, rfl⟩ (hunrooted houter)
  · exact fun hrooted hstored ↦ absurd hrooted (hunrooted hstored)

/-- A name with two qualifiers is lost when nothing is added to its set, and the name within it is
contained instead. -/
theorem not_unionAgrees_of_twice : ¬UnionAgrees ["builtins.builtins.x"] [] "builtins.builtins.x" ∧
    ¬UnionAgrees ["builtins.builtins.x"] [] "x" := by
  decide

end SymbolSet

end DeclClosure

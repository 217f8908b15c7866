import DeclClosure.SourceUnit
import Mathlib.Logic.Basic
import Mathlib.Logic.ExistsUnique
import Mathlib.Logic.Relation

/-!
# What belongs to a unit

A path is a text, and it leads to a list of segments when it is folded: an empty segment and a point say
nothing, two points take the segment before them with them, and at the root they say nothing either.
Folding is given here as single steps that may be taken in any order (`Fold`), until only segments are
left that name something. However it is done, it ends with the same segments (`folds_iff`), which are
those that a place has when it is read off the text from left to right with a stack
(`segmentsOf_iff`).

With this, a unit contains a path iff the segments of one of its paths are the first segments of the
path (`SourceUnit.contains_iff_under`). Two points at the end of a path take off one whole segment, and
leave the root where it is, and a path whose last segment has just more letters than that of a unit is
beside the unit.
-/

namespace DeclClosure

/-! ### Folding -/

/-- The segment names something: it is not empty, nor where one is, nor what is above. -/
def NamesPlace (s : String) : Prop :=
  s ≠ "" ∧ s ≠ "." ∧ s ≠ ".."

instance (s : String) : Decidable (NamesPlace s) :=
  inferInstanceAs (Decidable (_ ∧ _))

theorem still_or_up_or_namesPlace (s : String) :
    (s = "" ∨ s = ".") ∨ s = ".." ∨ NamesPlace s := by
  by_cases hstill : s = "" ∨ s = "."
  · exact .inl hstill
  · by_cases hup : s = ".."
    · exact .inr (.inl hup)
    · exact .inr (.inr ⟨fun h ↦ hstill (.inl h), fun h ↦ hstill (.inr h), hup⟩)

/-- One step of folding an absolute path. -/
inductive Fold : List String → List String → Prop where
  /-- A segment that says nothing is left out. -/
  | still (before after : List String) {s : String} (hs : s = "" ∨ s = ".") :
      Fold (before ++ s :: after) (before ++ after)
  /-- Two points take off the segment before them. -/
  | back (before after : List String) {s : String} (hs : NamesPlace s) :
      Fold (before ++ s :: ".." :: after) (before ++ after)
  /-- Nothing is above the root. -/
  | top (after : List String) : Fold (".." :: after) after

/-- Some segments are folded to others, which all name something. -/
structure Folds (raw segments : List String) : Prop where
  /-- The steps. -/
  steps : Relation.ReflTransGen Fold raw segments
  /-- Nothing is left to fold. -/
  names : ∀ s ∈ segments, NamesPlace s

namespace Place

variable {s : String} {st raw segments : List String}

theorem push_of_still (st : List String) (hs : s = "" ∨ s = ".") : push st s = st :=
  if_pos hs

theorem push_of_namesPlace (st : List String) (hs : NamesPlace s) : push st s = s :: st := by
  obtain ⟨hempty, hpoint, hup⟩ := hs
  rw [push, if_neg (not_or.mpr ⟨hempty, hpoint⟩), if_neg hup]

theorem push_up (st : List String) : push st ".." = st.drop 1 :=
  rfl

/-- A step of folding makes no difference to where a path leads. -/
theorem foldl_push_of_fold {raw' : List String} (h : Fold raw raw') :
    raw.foldl push [] = raw'.foldl push [] := by
  cases h with
  | still before after hs =>
    rw [List.foldl_append, List.foldl_append, List.foldl_cons, push_of_still _ hs]
  | back before after hs =>
    rw [List.foldl_append, List.foldl_append, List.foldl_cons, List.foldl_cons,
      push_of_namesPlace _ hs, push_up, List.drop_one, List.tail_cons]
  | top after => rfl

theorem foldl_push_of_names (st : List String) (h : ∀ s ∈ segments, NamesPlace s) :
    segments.foldl push st = segments.reverse ++ st := by
  induction segments generalizing st with
  | nil => rfl
  | cons s ss ih =>
    rw [List.foldl_cons, push_of_namesPlace st (h s List.mem_cons_self),
      ih _ fun s hs ↦ h s (List.mem_cons_of_mem _ hs), List.reverse_cons, List.append_assoc,
      List.singleton_append]

theorem names_foldl_push (raw : List String) (h : ∀ s ∈ st, NamesPlace s) :
    ∀ s ∈ raw.foldl push st, NamesPlace s := by
  induction raw generalizing st with
  | nil => exact h
  | cons r raw ih =>
    rw [List.foldl_cons]
    refine ih ?_
    rcases still_or_up_or_namesPlace r with hstill | rfl | hnames
    · rwa [push_of_still st hstill]
    · exact fun s hs ↦ h s (List.mem_of_mem_drop hs)
    · rw [push_of_namesPlace st hnames]
      exact List.forall_mem_cons.mpr ⟨hnames, h⟩

/-- What has been read stands folded before what is still to be read, and a segment that is read is a
step of folding, unless it names something. -/
theorem fold_foldl_push (raw : List String) (h : ∀ s ∈ st, NamesPlace s) :
    Relation.ReflTransGen Fold (st.reverse ++ raw) (raw.foldl push st).reverse := by
  induction raw generalizing st with
  | nil => rw [List.append_nil, List.foldl_nil]
  | cons r raw ih =>
    rw [List.foldl_cons]
    rcases still_or_up_or_namesPlace r with hstill | rfl | hnames
    · rw [push_of_still st hstill]
      exact .head (.still _ _ hstill) (ih h)
    · rw [push_up]
      cases st with
      | nil => exact .head (.top raw) (ih h)
      | cons s st =>
        obtain ⟨hs, hst⟩ := List.forall_mem_cons.mp h
        rw [List.drop_one, List.tail_cons, List.reverse_cons, List.append_assoc,
          List.singleton_append]
        exact .head (.back _ _ hs) (ih hst)
    · rw [push_of_namesPlace st hnames]
      have htail := ih (List.forall_mem_cons.mpr ⟨hnames, h⟩)
      rwa [List.reverse_cons, List.append_assoc, List.singleton_append] at htail

end Place

/-- However it is done, folding ends where reading from left to right does. -/
theorem folds_iff {raw segments : List String} :
    Folds raw segments ↔ segments = (raw.foldl Place.push []).reverse := by
  constructor
  · rintro ⟨hsteps, hnames⟩
    have hsame : raw.foldl Place.push [] = segments.foldl Place.push [] := by
      clear hnames
      induction hsteps with
      | refl => rfl
      | tail _ hstep ih => exact ih.trans (Place.foldl_push_of_fold hstep)
    rw [hsame, Place.foldl_push_of_names [] hnames, List.append_nil, List.reverse_reverse]
  · rintro rfl
    have hempty : ∀ s ∈ ([] : List String), NamesPlace s := List.forall_mem_nil _
    exact ⟨Place.fold_foldl_push raw hempty,
      fun s hs ↦ Place.names_foldl_push raw hempty s (List.mem_reverse.mp hs)⟩

/-! ### Paths -/

/-- The segments of a path, as it is written: what stands between its slashes. -/
def writtenSegments (path : String) : List String :=
  (path.toList.splitOn '/').map String.ofList

/-- The path leads to these segments when it is folded. -/
def SegmentsOf (path : String) (segments : List String) : Prop :=
  Folds (writtenSegments path) segments

/-- The second path leads to the place of the first one or to one below it. -/
def Under (p q : String) : Prop :=
  ∃ ps qs, SegmentsOf p ps ∧ SegmentsOf q qs ∧ ps <+: qs

theorem Place.pieces_eq_splitOn (cs : List Char) : pieces cs = cs.splitOn '/' := by
  induction cs with
  | nil => rfl
  | cons c cs ih =>
    rw [pieces, List.splitOn_cons_eq_if_modifyHead, ih]
    by_cases hc : c = '/'
    · rw [if_pos hc, if_pos (beq_iff_eq.mpr hc)]
    · rw [if_neg hc, if_neg fun h ↦ hc (beq_iff_eq.mp h)]
      cases hsplit : cs.splitOn '/' with
      | nil => exact absurd hsplit (List.splitOn_ne_nil '/' cs)
      | cons p ps => rfl

theorem segmentsOf_iff {path : String} {segments : List String} :
    SegmentsOf path segments ↔ segments = (Place.ofText path).segments := by
  rw [SegmentsOf, folds_iff, writtenSegments, Place.ofText, Place.pieces_eq_splitOn]

theorem under_iff {p q : String} :
    Under p q ↔ (Place.ofText p).segments <+: (Place.ofText q).segments := by
  simp only [Under, segmentsOf_iff, exists_and_left, exists_eq_left]

theorem writtenSegments_append_slash (dir rest : String) :
    writtenSegments (dir ++ "/" ++ rest) = writtenSegments dir ++ writtenSegments rest := by
  have hlist : (dir ++ "/" ++ rest).toList = dir.toList ++ '/' :: rest.toList := by
    rw [String.toList_append, String.toList_append, List.append_assoc]
    rfl
  rw [writtenSegments, hlist, List.splitOn_append_cons_self, List.map_append]
  rfl

theorem writtenSegments_of_notMem {s : String} (h : '/' ∉ s.toList) : writtenSegments s = [s] := by
  rw [writtenSegments, List.splitOn_eq_singleton h, List.map_singleton, String.ofList_toList]

/-- A path with one more segment leads to the place that the segment is pushed to. -/
theorem segments_append_slash (dir : String) {s : String} (h : '/' ∉ s.toList) :
    (Place.ofText (dir ++ "/" ++ s)).segments =
      (Place.push (Place.ofText dir).segments.reverse s).reverse := by
  have hplace (path : String) :
      (Place.ofText path).segments = ((writtenSegments path).foldl Place.push []).reverse :=
    folds_iff.mp (segmentsOf_iff.mpr rfl)
  rw [hplace, hplace, writtenSegments_append_slash, writtenSegments_of_notMem h, List.foldl_append,
    List.reverse_reverse]
  rfl

/-- Two points behind a path take off its last segment, and nothing at the root. -/
theorem segmentsOf_climb {dir : String} {segments : List String} (h : SegmentsOf dir segments) :
    SegmentsOf (dir ++ "/" ++ "..") segments.dropLast := by
  rw [segmentsOf_iff] at h ⊢
  rw [segments_append_slash dir (by decide), ← h, Place.push_up, List.drop_one, List.tail_reverse,
    List.reverse_reverse]

theorem NamesPlace.append {s tail : String} (hs : NamesPlace s) (htail : tail ≠ "") :
    NamesPlace (s ++ tail) := by
  obtain ⟨hempty, hpoint, -⟩ := hs
  obtain ⟨c, cs, hs⟩ := List.exists_cons_of_ne_nil (mt String.toList_eq_nil_iff.mp hempty)
  obtain ⟨d, ds, ht⟩ := List.exists_cons_of_ne_nil (mt String.toList_eq_nil_iff.mp htail)
  have hlist : (s ++ tail).toList = c :: (cs ++ d :: ds) := by
    rw [String.toList_append, hs, ht, List.cons_append]
  -- at least two letters, and if there are just two, the first one is the whole segment
  refine ⟨fun h ↦ ?_, fun h ↦ ?_, fun h ↦ ?_⟩
  all_goals
    have hletters := congrArg String.toList h
    rw [hlist] at hletters
  · cases hletters
  · have htwo := congrArg List.length hletters
    simp at htwo
  · obtain ⟨rfl, hrest⟩ := List.cons.inj hletters
    obtain ⟨rfl, -⟩ | ⟨-, hnil⟩ := List.append_eq_singleton_iff.mp hrest
    · exact hpoint (String.toList_inj.mp hs)
    · cases hnil

/-- A path whose last segment goes on where that of another path ends does not lead below it. -/
theorem not_under_sibling (dir : String) {s tail : String} (hs : NamesPlace s)
    (hslash : '/' ∉ s.toList) (htail : tail ≠ "") (htailslash : '/' ∉ tail.toList) :
    ¬Under (dir ++ "/" ++ s) (dir ++ "/" ++ (s ++ tail)) := by
  have hslash' : '/' ∉ (s ++ tail).toList := by
    rw [String.toList_append, List.mem_append]
    exact not_or.mpr ⟨hslash, htailslash⟩
  rw [under_iff, segments_append_slash dir hslash, segments_append_slash dir hslash',
    Place.push_of_namesPlace _ hs, Place.push_of_namesPlace _ (hs.append htail), List.reverse_cons,
    List.reverse_cons, List.prefix_append_right_inj]
  intro hstart
  have heq := congrArg String.toList (List.singleton_inj.mp (hstart.eq_of_length rfl))
  rw [String.toList_append, List.self_eq_append_right, String.toList_eq_nil_iff] at heq
  exact htail heq

namespace SourceUnit

theorem hasZero_iff {path : String} : hasZero path ↔ '\x00' ∈ path.toList := by
  rw [hasZero, List.contains_iff_mem]

/-- A unit is made of paths that can name a file. -/
theorem create_eq_ok {paths : List String} (name : String) (h : ∀ p ∈ paths, '\x00' ∉ p.toList) :
    create name paths = .ok ⟨name, paths.map Place.ofText⟩ := by
  refine if_neg fun hany ↦ ?_
  obtain ⟨p, hp, hzero⟩ := List.any_eq_true.mp hany
  exact h p hp (hasZero_iff.mp hzero)

/-- One path that cannot name a file is enough for there to be no unit. -/
theorem create_eq_error {paths : List String} (name : String) (h : ∃ p ∈ paths, '\x00' ∈ p.toList) :
    create name paths = .error ⟨⟩ := by
  obtain ⟨p, hp, hzero⟩ := h
  exact if_pos (List.any_eq_true.mpr ⟨p, hp, hasZero_iff.mpr hzero⟩)

/-- **What belongs to a unit.** A unit is made of some paths unless one of them holds the zero
character, and then it contains a path exactly if the path does not hold this character and the
segments of one of the unit's paths, when both are folded, are its first segments. Every path folds to
one list of segments; two points behind it take off the last one, and none at the root, and a path with
more letters behind its last segment leads elsewhere. -/
theorem contains_iff_under (name : String) (paths : List String) :
    ((∃ p ∈ paths, '\x00' ∈ p.toList) → create name paths = .error ⟨⟩) ∧
    ((∀ p ∈ paths, '\x00' ∉ p.toList) → ∃ u, create name paths = .ok u ∧
      ∀ q, u.contains q ↔ '\x00' ∉ q.toList ∧ ∃ p ∈ paths, Under p q) ∧
    (∀ path, ∃! segments, SegmentsOf path segments) ∧
    (∀ dir segments, SegmentsOf dir segments → SegmentsOf (dir ++ "/" ++ "..") segments.dropLast) ∧
    ∀ dir s tail, NamesPlace s → '/' ∉ s.toList → tail ≠ "" → '/' ∉ tail.toList →
      ¬Under (dir ++ "/" ++ s) (dir ++ "/" ++ (s ++ tail)) := by
  refine ⟨create_eq_error name, fun hpaths ↦ ⟨_, create_eq_ok name hpaths, fun q ↦ ?_⟩, fun path ↦ ?_,
    fun _ _ ↦ segmentsOf_climb, fun dir _ _ ↦ not_under_sibling dir⟩
  · rw [contains_iff, Bool.eq_false_iff, ne_eq, hasZero_iff]
    simp only [List.mem_map, exists_exists_and_eq_and, under_iff]
  · exact ⟨_, segmentsOf_iff.mpr rfl, fun segments h ↦ segmentsOf_iff.mp h⟩

/-- The unit of a path with a detour contains what lies below the place that the path leads to, and
neither what is beside it nor what climbs out of it. -/
theorem contains_iff_under_of_detour : (∀ p ∈ ["/srv/x/../app/"], '\x00' ∉ p.toList) ∧
    ∃ u, create "unit" ["/srv/x/../app/"] = .ok u ∧ u.contains "//srv/app/pkg/./a.src" ∧
      ¬u.contains "/srv/app2/a.src" ∧ ¬u.contains "/srv/app/../app2/a.src" := by
  have hpaths : ∀ p ∈ ["/srv/x/../app/"], '\x00' ∉ p.toList := by decide
  obtain ⟨u, hu, hcontains⟩ := (contains_iff_under "unit" ["/srv/x/../app/"]).2.1 hpaths
  refine ⟨hpaths, u, hu, ?_⟩
  simp only [hcontains, under_iff]
  decide

/-- A path that cannot name a file is in the way of a unit that would contain a file by its other
path. -/
theorem not_contains_iff_under_of_zero :
    ¬∀ paths q, (∃ u, create "unit" paths = .ok u ∧ u.contains q) ↔
      '\x00' ∉ q.toList ∧ ∃ p ∈ paths, Under p q := by
  intro hlaw
  have hunder : Under "/srv" "/srv/x" := under_iff.mpr (by decide)
  obtain ⟨u, hu, -⟩ := (hlaw ["/srv", "/a\x00b"] "/srv/x").mpr ⟨by decide, "/srv", by decide, hunder⟩
  have hzero : ∃ p ∈ ["/srv", "/a\x00b"], '\x00' ∈ p.toList := by decide
  rw [create_eq_error "unit" hzero] at hu
  cases hu

end SourceUnit

end DeclClosure

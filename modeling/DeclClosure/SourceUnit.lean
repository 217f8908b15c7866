/-!
# Units of source files

A unit owns one or more places in the file system. A place is the list of segments of an absolute
path, folded: `.` and empty segments say nothing, `..` takes off the segment before it and stays at
the root. A path belongs to the unit if one of its places is the path itself or one of the places above
it. That is so iff the segments of the place are the first segments of the path
(`Place.covers_iff`), so a neighbour that merely shares some letters is outside.
-/

namespace DeclClosure

/-- A folded absolute path. -/
structure Place where
  /-- The segments from the root on. -/
  segments : List String
deriving DecidableEq, Repr

namespace Place

/-- The pieces of a text between slashes. -/
def pieces : List Char → List (List Char)
  | [] => [[]]
  | c :: cs =>
    if c = '/' then [] :: pieces cs
    else
      match pieces cs with
      | [] => [[c]]
      | p :: ps => (c :: p) :: ps

/-- One more segment on a folded path, which is given last segment first. -/
def push (folded : List String) (segment : String) : List String :=
  if segment = "" ∨ segment = "." then folded
  else if segment = ".." then folded.drop 1
  else segment :: folded

/-- The place that a path leads to from the root. Relative paths start there too. -/
def ofText (path : String) : Place :=
  ⟨(((pieces path.toList).map String.ofList).foldl push []).reverse⟩

/-- The path of a place. -/
def text (p : Place) : String :=
  "/" ++ "/".intercalate p.segments

/-- The places above a place, the nearest first. -/
def parents (p : Place) : List Place :=
  (List.range p.segments.length).reverse.map fun k ↦ ⟨p.segments.take k⟩

/-- The place `q` is `p` itself or lies below it. -/
def covers (p q : Place) : Bool :=
  q == p || q.parents.contains p

theorem mem_parents_iff {p q : Place} :
    p ∈ q.parents ↔ ∃ k < q.segments.length, q.segments.take k = p.segments := by
  obtain ⟨ps⟩ := p
  simp [parents]

/-- A place covers another one iff its segments are the first segments of the other. -/
theorem covers_iff {p q : Place} : p.covers q ↔ p.segments <+: q.segments := by
  rw [covers, Bool.or_eq_true, beq_iff_eq, List.contains_iff_mem, mem_parents_iff]
  constructor
  · rintro (rfl | ⟨k, -, hk⟩)
    · exact List.prefix_rfl
    · exact hk ▸ List.take_prefix k q.segments
  · intro h
    have htake := List.prefix_iff_eq_take.mp h
    rcases Nat.lt_or_ge p.segments.length q.segments.length with hlt | hge
    · exact .inr ⟨_, hlt, htake.symm⟩
    · rw [List.take_of_length_le hge] at htake
      obtain ⟨ps⟩ := p
      obtain ⟨qs⟩ := q
      exact .inl (congrArg Place.mk htake.symm)

end Place

/-- A path that cannot name a file: it holds the zero character. -/
structure ZeroInPath where
deriving DecidableEq, Repr

/-- The wording of the error. -/
def ZeroInPath.message (_ : ZeroInPath) : String := "embedded null byte"

/-- The path holds the zero character. -/
def hasZero (path : String) : Bool :=
  path.toList.contains '\x00'

/-- A unit: its name and the places it owns. -/
structure SourceUnit where
  /-- The name of the unit. -/
  name : String
  /-- The places, in the order given. -/
  places : List Place
deriving DecidableEq, Repr

namespace SourceUnit

/-- The unit with some paths, or the complaint about one that cannot be. -/
def create (name : String) (paths : List String) : Except ZeroInPath SourceUnit :=
  if paths.any hasZero then .error ⟨⟩ else .ok ⟨name, paths.map Place.ofText⟩

/-- The path belongs to the unit. -/
def contains (u : SourceUnit) (path : String) : Bool :=
  !hasZero path && u.places.any fun p ↦ p.covers (Place.ofText path)

theorem contains_iff {u : SourceUnit} {path : String} :
    u.contains path = true ↔
      hasZero path = false ∧
        ∃ p ∈ u.places, p.segments <+: (Place.ofText path).segments := by
  simp [contains, Place.covers_iff]

end SourceUnit

end DeclClosure

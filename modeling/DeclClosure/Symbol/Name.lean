/-!
# Qualified names

A qualified name is a text of segments joined by points. Names of the root namespace may be written
with the root qualifier; `stripRoot` takes off one such qualifier and no more, so it is not
idempotent, and every place that compares names strips each side exactly once.

The segments of a name are never none: the empty name has one empty segment.
-/

namespace DeclClosure.Name

/-- The text `p` is the start of the text `s`. -/
def startsWith (p s : String) : Bool :=
  p.toList.isPrefixOf s.toList

theorem startsWith_iff {p s : String} : startsWith p s ↔ p.toList <+: s.toList :=
  List.isPrefixOf_iff_prefix

theorem startsWith_iff_exists {p s : String} : startsWith p s ↔ ∃ rest, s = p ++ rest := by
  rw [startsWith_iff]
  constructor
  · rintro ⟨cs, hcs⟩
    refine ⟨String.ofList cs, String.toList_inj.mp ?_⟩
    rw [String.toList_append, String.toList_ofList, hcs]
  · rintro ⟨rest, rfl⟩
    exact ⟨rest.toList, (String.toList_append ..).symm⟩

/-- The qualifier of the root namespace. -/
def rootQualifier : String := "builtins."

/-- The name of the root namespace. -/
def rootName : String := "builtins"

/-- The name without one leading root qualifier. -/
def stripRoot (name : String) : String :=
  if startsWith rootQualifier name then String.ofList (name.toList.drop rootQualifier.length)
  else name

theorem stripRoot_of_not_startsWith {name : String} (h : ¬startsWith rootQualifier name) :
    stripRoot name = name :=
  if_neg h

theorem stripRoot_rootQualifier_append (name : String) : stripRoot (rootQualifier ++ name) = name := by
  have hstarts : startsWith rootQualifier (rootQualifier ++ name) :=
    startsWith_iff_exists.mpr ⟨name, rfl⟩
  rw [stripRoot, if_pos hstarts, String.toList_append]
  exact (congrArg String.ofList (List.drop_left' rfl)).trans String.ofList_toList

/-- Splits at the last point: the characters before it, if there is a point, and those after it. -/
def cutLast : List Char → Option (List Char) × List Char
  | [] => (none, [])
  | c :: cs =>
    match cutLast cs with
    | (some before, after) => (some (c :: before), after)
    | (none, after) => if c = '.' then (some [], after) else (none, c :: after)

/-- The name of the enclosing namespace, if the name has a point. -/
def parent? (name : String) : Option String :=
  (cutLast name.toList).1.map String.ofList

/-- The name of the enclosing namespace, empty at the root. -/
def parent (name : String) : String :=
  (parent? name).getD ""

/-- The last segment. -/
def leaf (name : String) : String :=
  String.ofList (cutLast name.toList).2

/-- Splits characters at every point. -/
def segmentsFrom : List Char → List (List Char)
  | [] => [[]]
  | c :: cs =>
    if c = '.' then [] :: segmentsFrom cs
    else
      match segmentsFrom cs with
      | [] => [[c]]
      | s :: ss => (c :: s) :: ss

/-- The segments of a name. -/
def segments (name : String) : List String :=
  (segmentsFrom name.toList).map String.ofList

/-- The name that some segments make. -/
def ofSegments (segments : List String) : String :=
  ".".intercalate segments

/-- The name of something within a namespace. -/
def within (scope name : String) : String :=
  scope ++ "." ++ name

theorem toList_within (scope name : String) :
    (within scope name).toList = scope.toList ++ '.' :: name.toList := by
  rw [within, String.toList_append, String.toList_append, List.append_assoc]
  rfl

/-- What stands within a namespace has a longer name. -/
theorem within_ne (scope name : String) : within scope name ≠ name := by
  intro heq
  have hlength := congrArg (List.length ∘ String.toList) heq
  simp only [Function.comp_apply, toList_within, List.length_append, List.length_cons] at hlength
  omega

/-- What every name below a namespace starts with. -/
def namespacePrefix (scope : String) : String :=
  scope ++ "."

theorem cutLast_append {before after : List Char} (cs : List Char)
    (h : cutLast cs = (some before, after)) : cs = before ++ '.' :: after := by
  induction cs generalizing before with
  | nil => simp [cutLast] at h
  | cons c cs ih =>
    simp only [cutLast] at h
    split at h
    · next b a hb =>
      simp only [Prod.mk.injEq, Option.some.injEq] at h
      obtain ⟨rfl, rfl⟩ := h
      simp [ih hb]
    · next a hb =>
      split at h
      · next hc =>
        simp only [Prod.mk.injEq, Option.some.injEq] at h
        obtain ⟨rfl, rfl⟩ := h
        have : cs = a := by
          clear ih
          induction cs generalizing a with
          | nil => simpa [cutLast] using hb
          | cons d ds ih =>
            simp only [cutLast] at hb
            split at hb
            · simp at hb
            · next hd =>
              split at hb
              · simp at hb
              · simp only [Prod.mk.injEq, true_and] at hb
                rw [← hb, ih _ hd]
        simp [hc, this]
      · simp at h

/-- The enclosing namespace of a name is shorter, so walking outwards ends. -/
theorem length_parent_lt {name p : String} (h : parent? name = some p) :
    p.length < name.length := by
  simp only [parent?] at h
  obtain ⟨before, hb, rfl⟩ := Option.map_eq_some_iff.1 h
  obtain ⟨after, ha⟩ : ∃ after, cutLast name.toList = (some before, after) :=
    ⟨_, Prod.ext hb rfl⟩
  have := congrArg List.length (cutLast_append _ ha)
  simp only [List.length_append, List.length_cons, String.length_toList] at this
  simp only [String.length_ofList]
  omega

theorem segmentsFrom_ne_nil (cs : List Char) : segmentsFrom cs ≠ [] := by
  cases cs with
  | nil => nofun
  | cons c cs =>
    rw [segmentsFrom]
    split
    · nofun
    · split <;> nofun

theorem intercalate_segmentsFrom (cs : List Char) : ['.'].intercalate (segmentsFrom cs) = cs := by
  induction cs with
  | nil => rfl
  | cons c cs ih =>
    rw [segmentsFrom]
    split
    · next hc =>
      rw [List.intercalate_cons_of_ne_nil (segmentsFrom_ne_nil cs), ih, hc]
      rfl
    · next hc =>
      cases hsegments : segmentsFrom cs with
      | nil => exact absurd hsegments (segmentsFrom_ne_nil cs)
      | cons s ss =>
        rw [hsegments] at ih
        rw [← ih]
        cases ss with
        | nil => rfl
        | cons s' ss => rw [List.intercalate_cons_cons, List.intercalate_cons_cons]; rfl

/-- A name is made of its segments. -/
theorem ofSegments_segments (name : String) : ofSegments (segments name) = name := by
  have hsame : String.toList ∘ String.ofList = id := funext fun _ ↦ String.toList_ofList
  rw [ofSegments, segments, ← String.toList_inj, String.toList_intercalate, List.map_map, hsame,
    List.map_id]
  exact intercalate_segmentsFrom name.toList

end DeclClosure.Name

import DeclClosure.Proofs.Moves
import DeclClosure.Reflection.Naming

/-!
# Still worlds

In a still world no module is loaded when a name asks for it, and no module computes names. Such a
world answers questions for names without changing: what a name stands for is a function of the
world (`World.meaning?`), and so is whether the name that an object declares leads back to it
(`World.trueName?`). The questions `Query.resolve` and `Query.nameOf` give these values
(`Query.resolve_of_still`, `Query.nameOf_of_still`), and none of them fails.
-/

namespace DeclClosure

theorem Raised.isA_ofKind {kind ancestor : String} (message : String)
    (h : (Standard.kindsOf kind).contains ancestor) : (ofKind kind message).isA ancestor := by
  simp only [ofKind]
  split <;> exact h

namespace World

/-- Nothing is loaded, and nothing is computed. -/
structure Still (w : World) : Prop where
  /-- No module is loaded when a name asks for it. -/
  importing : w.importing = false
  /-- No module computes a name. -/
  answers : ∀ id e m, w.entity? id = some e → e.module? = some m → m.answers = []

/-- The object below another one along some names, as far as the world has it. -/
def below? (w : World) (o : Object) : List String → Option Object
  | [] => some o
  | n :: ns =>
    match w.attr? o n with
    | some next => w.below? next ns
    | none => none

/-- The object that the first way leads to that leads anywhere. -/
def firstBelow? (w : World) : List (String × List String) → Option Object
  | [] => none
  | (name, rest) :: others =>
    match (w.modules.lookup name).bind fun id ↦ w.below? (.entity id) rest with
    | some o => some o
    | none => w.firstBelow? others

/-- The object that a name without the root qualifier stands for, as far as the world has it. -/
def bareMeaning? (w : World) (name : String) : Option Object :=
  if name = "" then none
  else
    match w.firstBelow? (Query.splits (Name.segments name)) with
    | some o => some o
    | none => w.below? Query.rootModule (Name.segments name)

/-- The object that a name stands for, as far as the world has it. -/
def meaning? (w : World) (name : String) : Option Object :=
  w.bareMeaning? (Name.stripRoot name)

/-- The name that an object declares, if that name stands for it. -/
def trueName? (w : World) (o : Object) : Option String :=
  (w.canonicalName? o).filter fun name ↦ (w.meaning? name).any fun found ↦ found.same o

/-- No object declares a name that starts with the root qualifier. -/
def Unqualified (w : World) : Prop :=
  ∀ o name, w.canonicalName? o = some name → ¬Name.startsWith Name.rootQualifier name

theorem Unqualified.stripRoot {w : World} (h : w.Unqualified) {o : Object} {name : String}
    (hname : w.canonicalName? o = some name) : Name.stripRoot name = name :=
  Name.stripRoot_of_not_startsWith (h o name hname)

/-! ### Notes -/

/-- The world with other notes. -/
def withNotes (w : World) (notes : List Note) : World :=
  { w with notes }

section Notes

variable (w : World) (notes : List Note)

theorem Still.withNotes {w : World} (h : w.Still) (notes : List Note) : (w.withNotes notes).Still :=
  ⟨h.importing, h.answers⟩

@[simp]
theorem asModule?_withNotes : (w.withNotes notes).asModule? = w.asModule? := rfl

@[simp]
theorem asClass?_withNotes : (w.withNotes notes).asClass? = w.asClass? := rfl

@[simp]
theorem isClass_withNotes : (w.withNotes notes).isClass = w.isClass := rfl

@[simp]
theorem isNamespace_withNotes : (w.withNotes notes).isNamespace = w.isNamespace := rfl

@[simp]
theorem modules_withNotes : (w.withNotes notes).modules = w.modules := rfl

@[simp]
theorem entityAttr?_withNotes : (w.withNotes notes).entityAttr? = w.entityAttr? := rfl

@[simp]
theorem formAttr?_withNotes : (w.withNotes notes).formAttr? = w.formAttr? := rfl

@[simp]
theorem attr?_withNotes : (w.withNotes notes).attr? = w.attr? := by
  funext o name
  fun_induction World.attr? w o name <;> simp_all [attr?]

@[simp]
theorem canonicalName?_withNotes (o : Object) :
    (w.withNotes notes).canonicalName? o = w.canonicalName? o := by
  simp only [canonicalName?, attr?_withNotes, asModule?_withNotes, asClass?_withNotes]

@[simp]
theorem basesOf_withNotes (o : Object) : (w.withNotes notes).basesOf o = w.basesOf o := by
  simp only [basesOf, attr?_withNotes]

@[simp]
theorem below?_withNotes (o : Object) (names : List String) :
    (w.withNotes notes).below? o names = w.below? o names := by
  induction names generalizing o with
  | nil => rfl
  | cons n ns ih =>
    simp only [below?, attr?_withNotes]
    cases w.attr? o n with
    | some next => exact ih next
    | none => rfl

@[simp]
theorem firstBelow?_withNotes (ways : List (String × List String)) :
    (w.withNotes notes).firstBelow? ways = w.firstBelow? ways := by
  induction ways with
  | nil => rfl
  | cons way others ih => simp only [firstBelow?, modules_withNotes, below?_withNotes, ih]

@[simp]
theorem meaning?_withNotes (name : String) :
    (w.withNotes notes).meaning? name = w.meaning? name := by
  simp only [meaning?, bareMeaning?, firstBelow?_withNotes, below?_withNotes]

@[simp]
theorem trueName?_withNotes (o : Object) : (w.withNotes notes).trueName? o = w.trueName? o := by
  simp only [trueName?, canonicalName?_withNotes, meaning?_withNotes]

end Notes

end World

namespace Query

variable {w : World}

theorem isA_attributeError (name : String) :
    (Raised.ofKind "AttributeError" name).isA "AttributeError" :=
  Raised.isA_ofKind name (by decide +kernel)

/-- A name that stands for an object is the one that the object declares. -/
theorem canonicalName?_of_nameOf {v : World} {o : Object} {name : String}
    (h : nameOf o w = (.ok (some name), v)) : w.canonicalName? o = some name := by
  simp only [nameOf] at h
  rw [run_get_bind] at h
  cases hdeclared : w.canonicalName? o with
  | none =>
    rw [hdeclared] at h
    cases h
  | some declared =>
    rw [hdeclared] at h
    obtain ⟨found, v, -, hfound⟩ := run_bind_eq_ok_iff.mp h
    -- the name is given only if it leads back to the object
    cases found with
    | none => cases hfound
    | some found =>
      dsimp only at hfound
      split at hfound
      · cases hfound
        rfl
      · cases hfound

/-- In a still world an attribute is there or lacking, and nothing else happens. -/
theorem attr_of_still (h : w.Still) (o : Object) (name : String) :
    attr o name w = (match w.attr? o name with
      | some found => .ok found
      | none => .error (.ofKind "AttributeError" name), w) := by
  simp only [attr]
  rw [run_get_bind]
  cases w.attr? o name with
  | some found => rfl
  | none =>
    dsimp only
    cases hmodule : w.asModule? o with
    | none => rfl
    | some found =>
      obtain ⟨id, e⟩ := found
      dsimp only
      -- what could compute the name has no answers
      obtain ⟨id', -, hid⟩ := Option.bind_eq_some_iff.mp hmodule
      obtain ⟨e', he, he'⟩ := Option.bind_eq_some_iff.mp hid
      obtain ⟨facts, hfacts, heq⟩ := Option.bind_eq_some_iff.mp he'
      cases heq
      rw [hfacts]
      simp only [computed]
      rw [h.answers id e facts he hfacts]
      rfl

theorem run_catching {α : Type} (kinds : List String) (q : Query α) :
    catching kinds q w = match q w with
      | (.ok a, v) => (.ok (some a), v)
      | (.error r, v) =>
        (if kinds.any r.isA then pure none else throw r : Query (Option α)) v := by
  simp only [catching]
  rw [run_tryCatch]
  have hmap : (some <$> q) w = (q >>= fun a ↦ pure (some a)) w := rfl
  rw [hmap, run_bind]
  rcases q w with ⟨_ | _, _⟩ <;> rfl

theorem module?_of_still (h : w.Still) (name : String) :
    module? name w = (.ok (w.modules.lookup name), w) := by
  have hloaded : loaded? name w = (.ok (w.modules.lookup name), w) := rfl
  simp only [module?]
  rw [run_bind_ok hloaded]
  cases w.modules.lookup name with
  | some id => rfl
  | none =>
    dsimp only
    rw [run_get_bind, h.importing]
    rfl

theorem walk_of_still (h : w.Still) (o : Object) (names : List String) :
    walk o names w = (.ok (w.below? o names), w) := by
  induction names generalizing o with
  | nil => rfl
  | cons n ns ih =>
    have hattr := attr_of_still h o n
    simp only [walk, World.below?]
    rw [run_bind, run_catching, hattr]
    cases w.attr? o n with
    | some next => exact ih next
    | none =>
      have hany : ["AttributeError", "ImportError"].any
          (Raised.ofKind "AttributeError" n).isA = true :=
        List.any_eq_true.mpr ⟨_, List.mem_cons_self, isA_attributeError n⟩
      dsimp only
      rw [if_pos hany]
      rfl

theorem firstOf_of_still (h : w.Still) (ways : List (String × List String)) :
    firstOf ways w = (.ok (w.firstBelow? ways), w) := by
  induction ways with
  | nil => rfl
  | cons way others ih =>
    obtain ⟨name, rest⟩ := way
    simp only [firstOf, World.firstBelow?]
    rw [run_bind_ok (module?_of_still h name)]
    cases w.modules.lookup name with
    | none => exact ih
    | some id =>
      dsimp only [Option.bind_some]
      rw [run_bind_ok (walk_of_still h (.entity id) rest)]
      cases w.below? (.entity id) rest with
      | some o => rfl
      | none => exact ih

/-- What a name stands for in a still world. -/
theorem resolve_of_still (h : w.Still) (name : String) :
    resolve name w = (.ok (w.meaning? name), w) := by
  rw [resolve]
  simp only [World.meaning?, World.bareMeaning?]
  split
  · rfl
  · rw [run_bind_ok (firstOf_of_still h _)]
    cases w.firstBelow? (splits (Name.segments (Name.stripRoot name))) with
    | some o => rfl
    | none => exact walk_of_still h _ _

/-- The name that an object bears in a still world. -/
theorem nameOf_of_still (h : w.Still) (o : Object) :
    nameOf o w = (.ok (w.trueName? o), w) := by
  simp only [nameOf, World.trueName?]
  rw [run_get_bind]
  cases w.canonicalName? o with
  | none => rfl
  | some name =>
    dsimp only
    rw [run_bind_ok (resolve_of_still h name), Option.filter_some]
    cases w.meaning? name with
    | none => rfl
    | some found =>
      dsimp only [Option.any_some]
      split <;> rfl

end Query

end DeclClosure

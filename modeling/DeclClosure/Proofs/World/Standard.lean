import DeclClosure.Proofs.World.Classes
import DeclClosure.Symbol.Snapshot

/-!
# What a world has of its own

The modules of the standard environment compute no names, and no name that the standard environment
declares starts with the root qualifier (`Standard.answers_eq_nil`,
`Standard.not_startsWith_of_declaredName?`). So whether a world is still, and whether its names are
unqualified, can be decided by looking at the entities that it has of its own.

Names are told apart by their first byte wherever that is enough: there are many of them.
-/

namespace DeclClosure

/-- The first byte of a text. -/
def Name.firstByte? (s : String) : Option UInt8 :=
  s.toByteArray.data.toList.head?

namespace Name

theorem firstByte?_append {s : String} (t : String) {b : UInt8} (h : firstByte? s = some b) :
    firstByte? (s ++ t) = some b := by
  simp only [firstByte?] at h ⊢
  rw [String.toByteArray_append, ByteArray.data_append, Array.toList_append, List.head?_append, h]
  rfl

/-- A text that starts with another one starts with its first byte. -/
theorem firstByte?_of_startsWith {p s : String} {b : UInt8} (hp : firstByte? p = some b)
    (h : startsWith p s) : firstByte? s = some b := by
  obtain ⟨rest, hrest⟩ := List.isPrefixOf_iff_prefix.mp h
  have hs : s = p ++ String.ofList rest := by
    rw [← String.toList_inj, String.toList_append, String.toList_ofList, hrest]
  rw [hs]
  exact firstByte?_append _ hp

/-- A text starts with another one; its first byte is looked at first. -/
def startsWithByte (b : UInt8) (p s : String) : Bool :=
  firstByte? s == some b && startsWith p s

theorem startsWith_eq_startsWithByte {p : String} {b : UInt8} (hp : firstByte? p = some b)
    (s : String) : startsWith p s = startsWithByte b p s := by
  simp only [startsWithByte]
  cases hs : startsWith p s with
  | true => rw [firstByte?_of_startsWith hp hs, beq_self_eq_true, Bool.and_self]
  | false => rw [Bool.and_false]

theorem firstByte?_rootQualifier : firstByte? rootQualifier = some 98 := by
  decide +kernel

theorem toByteArray_within (scope name : String) : (within scope name).toByteArray =
    ⟨⟨scope.toByteArray.data.toList ++ 46 :: name.toByteArray.data.toList⟩⟩ := by
  refine ByteArray.ext (Array.toList_inj.mp ?_)
  rw [within, String.toByteArray_append, String.toByteArray_append, ByteArray.data_append,
    ByteArray.data_append, Array.toList_append, Array.toList_append, List.append_assoc]
  rfl

/-- A name within a scope, whose bytes are put together as lists: those that are not looked at are not
evaluated. -/
def withinBytes (scope name : String) : String :=
  .ofByteArray ⟨⟨scope.toByteArray.data.toList ++ 46 :: name.toByteArray.data.toList⟩⟩ <| by
    rw [← toByteArray_within]
    exact (within scope name).isValidUTF8

theorem within_eq_withinBytes : within = withinBytes := by
  funext scope name
  exact String.toByteArray_inj.mp (toByteArray_within scope name)

end Name

namespace Standard

/-! ### Modules -/

/-- What is no module of the standard environment is a class, or declares no name. -/
theorem exists_class_of_mem_namedEntities {x : String × Entity} (h : x ∈ namedEntities) :
    x.2.module? = none ∧ ((∃ c ∈ classes, x.2 = c.entity) ∨ x.2.declaredName? = none) := by
  have hmethod : ∀ key name abstract, (methodEntity key name abstract).module? = none ∧
      (methodEntity key name abstract).declaredName? = none := by
    intro key name abstract
    simp only [methodEntity]
    split <;> exact ⟨rfl, rfl⟩
  rcases List.mem_append.mp h with h | h
  · rcases List.mem_append.mp h with h | h
    · obtain ⟨c, hc, rfl⟩ := List.mem_map.mp h
      exact ⟨rfl, .inl ⟨c, hc, rfl⟩⟩
    · rcases List.mem_append.mp h with h | h
      · obtain ⟨⟨key, names⟩, -, h⟩ := List.mem_flatMap.mp h
        obtain ⟨name, -, rfl⟩ := List.mem_map.mp h
        exact (hmethod key name true).imp_right .inr
      · obtain ⟨⟨key, names⟩, -, h⟩ := List.mem_flatMap.mp h
        obtain ⟨name, -, rfl⟩ := List.mem_map.mp h
        exact (hmethod key name false).imp_right .inr
  · obtain ⟨⟨home, names⟩, -, h⟩ := List.mem_flatMap.mp h
    obtain ⟨⟨name, r⟩, -, h⟩ := List.mem_filterMap.mp h
    obtain ⟨e, he, rfl⟩ := Option.map_eq_some_iff.mp h
    cases r <;> cases he <;> exact ⟨rfl, .inr rfl⟩

/-- The modules of the standard environment compute no names. -/
theorem answers_eq_nil {id : EntityId} {e : Entity} {m : ModuleFacts} (h : entity? id = some e)
    (hm : e.module? = some m) : m.answers = [] := by
  cases id with
  | declared i => cases h
  | standard key =>
    rw [(exists_class_of_mem_namedEntities (Table.mem_of_lookup h)).1] at hm
    cases hm
  | standardModule key =>
    obtain ⟨⟨name, names⟩, -, heq⟩ := List.mem_map.mp (Table.mem_of_lookup h)
    cases heq
    cases hm
    rfl

/-! ### Names -/

set_option maxRecDepth 10000 in
theorem firstByte?_of_mem_classes : ∀ c ∈ classes,
    (Name.firstByte? c.name ≠ some 98 ∨ ¬Name.startsWith Name.rootQualifier c.name) ∧
      (c.home = Name.rootName ∨ (Name.firstByte? c.home).any fun b ↦ b != 98) := by
  decide +kernel

theorem not_startsWith_of_mem_modules :
    ∀ m ∈ modules, ¬Name.startsWith Name.rootQualifier m.1 := by
  decide +kernel

/-- The name that a class of the standard environment declares is its own name, or lies in a module
other than the root namespace. -/
theorem not_startsWith_of_mem_classes {c : StandardClass} (h : c ∈ classes) {name : String}
    (hname : c.entity.declaredName? = some name) : ¬Name.startsWith Name.rootQualifier name := by
  intro hstarts
  obtain ⟨hbare, hhome⟩ := firstByte?_of_mem_classes c h
  have hattr : c.entity.attr? "__module__" = some (text c.home) := rfl
  have hdeclared : c.entity.declaredName? = World.qualifiedName? c.name (some (text c.home)) := by
    rw [← hattr]
    rfl
  have hbyte := Name.firstByte?_of_startsWith Name.firstByte?_rootQualifier hstarts
  rw [hdeclared] at hname
  simp only [World.qualifiedName?, text] at hname
  split at hname
  · cases hname
  · split at hname
    · cases hname
      rcases hbare with hne | hnot
      · exact hne hbyte
      · exact hnot hstarts
    · next hroot =>
      cases hname
      obtain ⟨b, hb, hne⟩ := (Option.any_eq_true _ _).mp (hhome.resolve_left fun h ↦ hroot (.inr h))
      have hb' : Name.firstByte? (Name.within c.home c.name) = some b :=
        Name.firstByte?_append c.name (Name.firstByte?_append "." hb)
      rw [hbyte] at hb'
      cases hb'
      cases hne

/-- No name that the standard environment declares starts with the root qualifier. -/
theorem not_startsWith_of_declaredName? {id : EntityId} {e : Entity} {name : String}
    (h : entity? id = some e) (hname : e.declaredName? = some name) :
    ¬Name.startsWith Name.rootQualifier name := by
  cases id with
  | declared i => cases h
  | standard key =>
    obtain ⟨-, ⟨c, hc, heq⟩ | hnone⟩ := exists_class_of_mem_namedEntities (Table.mem_of_lookup h)
    · obtain rfl : e = c.entity := heq
      exact not_startsWith_of_mem_classes hc hname
    · rw [hname] at hnone
      cases hnone
  | standardModule key =>
    obtain ⟨⟨home, names⟩, hmem, heq⟩ := List.mem_map.mp (Table.mem_of_lookup h)
    cases heq
    cases hname
    exact not_startsWith_of_mem_modules _ hmem

end Standard

/-! ### Sets of names -/

/-- A name without its root qualifier; its first byte is looked at first. -/
def Name.stripRootByte (name : String) : String :=
  if startsWithByte 98 rootQualifier name then
    String.ofList (name.toList.drop rootQualifier.length)
  else name

theorem Name.stripRoot_eq_stripRootByte (name : String) : stripRoot name = stripRootByte name := by
  rw [stripRoot, stripRootByte, startsWith_eq_startsWithByte firstByte?_rootQualifier]

/-- Within the root namespace the qualifier is all that is added to a name. -/
theorem Name.stripRoot_within_bytes (home name : String) : stripRoot (within home name) =
    if home = rootName then name else stripRootByte (withinBytes home name) := by
  split
  · next hhome =>
    subst hhome
    exact stripRoot_rootQualifier_append name
  · rw [stripRoot_eq_stripRootByte, within_eq_withinBytes]

/-- The symbols of some modules, of which few need to be stripped. -/
theorem World.payloadSymbols_eq (w : World) (modules : List EntityId) : w.payloadSymbols modules =
    ⟨w.rootSymbols.map Name.stripRootByte ++ modules.flatMap fun id ↦
      Name.stripRootByte (w.moduleName id) :: (w.publicNames id).map fun n ↦
        if w.moduleName id = Name.rootName then n
        else Name.stripRootByte (Name.withinBytes (w.moduleName id) n)⟩ := by
  refine congrArg SymbolSet.mk ?_
  rw [List.map_append, List.map_flatMap, funext Name.stripRoot_eq_stripRootByte]
  simp only [List.map_cons, List.map_map, Function.comp_def, ← Name.stripRoot_within_bytes,
    Name.stripRoot_eq_stripRootByte]

/-- The public names of a module, of which most start with another byte than the private ones. -/
theorem World.publicNames_eq (w : World) (id : EntityId) : w.publicNames id
    = ((w.namesIn id).map (·.1)).filter fun n ↦ !Name.startsWithByte 95 "_" n := by
  refine List.filter_congr fun n _ ↦ ?_
  rw [Name.startsWith_eq_startsWithByte (b := 95) (by decide +kernel)]

/-! ### Deciding -/

/-- A world is still iff each of its modules is. -/
instance (w : World) : Decidable w.Still :=
  decidable_of_iff (w.importing = false ∧
    ∀ id ∈ w.ownIds, ((w.entity? id).bind Entity.module?).all fun m ↦ m.answers.isEmpty) <| by
    refine ⟨fun ⟨himporting, hall⟩ ↦ ⟨himporting, fun id e m he hm ↦ ?_⟩, fun h ↦
      ⟨h.importing, fun id _ ↦ ?_⟩⟩
    · rcases World.mem_ownIds_or he with hown | hstandard
      · have hid := hall id hown
        rw [he, Option.bind_some, hm] at hid
        exact List.isEmpty_iff.mp hid
      · exact Standard.answers_eq_nil hstandard hm
    · refine (Option.all_eq_true _ _).mpr fun m hm ↦ ?_
      obtain ⟨e, he, hm⟩ := Option.bind_eq_some_iff.mp hm
      exact List.isEmpty_iff.mpr (h.answers id e m he hm)

/-- Only entities declare names. -/
instance (w : World) : Decidable w.Unqualified :=
  decidable_of_iff (∀ id ∈ w.ownIds, ((w.entity? id).bind Entity.declaredName?).all fun name ↦
    !Name.startsWith Name.rootQualifier name) <| by
    refine ⟨fun hall o name hname ↦ ?_, fun h id _ ↦ ?_⟩
    · obtain ⟨id, e, rfl, he, hdeclared⟩ := World.exists_of_canonicalName? hname
      rcases World.mem_ownIds_or he with hown | hstandard
      · have hid := hall id hown
        rw [he, Option.bind_some, hdeclared, Option.all_some, Bool.not_eq_true'] at hid
        exact Bool.eq_false_iff.mp hid
      · exact Standard.not_startsWith_of_declaredName? hstandard hdeclared
    · refine (Option.all_eq_true _ _).mpr fun name hname ↦ ?_
      rw [← World.canonicalName?_entity] at hname
      rw [Bool.not_eq_true', Bool.eq_false_iff]
      exact h _ name hname

end DeclClosure

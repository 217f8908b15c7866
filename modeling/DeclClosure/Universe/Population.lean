import DeclClosure.Table
import DeclClosure.Universe.Standard.Basic

/-!
# Populations

The entities of a world are those of the standard environment, some of which were changed, and those
that were declared. Bases are given when a class is made and stay as they are, so a class is younger
than its bases. `EntityId.rank` counts ages, and a population is `Grounded` if every base of a class
is a class of smaller rank: no chain of bases comes back to where it began, and each ends. Classes
are made by calls of their metaclasses, which calls of enumerations cannot be, so in a grounded
population no class and no module is a member of an enumeration.

The standard environment is grounded (`grounded_standard`); to declare an entity whose bases are
there and to change entities without touching their kin keeps a population grounded.
-/

namespace DeclClosure

namespace Standard

/-- The class with a qualified name. -/
def class? (key : String) : Option StandardClass :=
  classes.find? fun c ↦ c.key == key

/-- How many classes lie above a class. -/
def depthOf (key : String) : Nat :=
  (class? key).elim 0 fun c ↦ c.ancestors.length

end Standard

/-- The age of a class: the classes of the standard environment come first, by how many classes lie
above them, then the declared ones in their order. -/
def EntityId.rank : EntityId → Nat
  | .standard key => Standard.depthOf key
  | .standardModule _ => 0
  | .declared i => Standard.classes.length + i

/-- The root of enumerations. -/
def enumRoot : EntityId := .standard "enum.Enum"

/-- The class is there and its instances are no members of enumerations. -/
def HasPlainInstances (kin? : EntityId → Option Kin) (id : EntityId) : Prop :=
  ∃ k, kin? id = some k ∧ enumRoot ∉ k.linearization

/-- Every class is younger than its bases, and neither classes nor modules are members of
enumerations. -/
structure Grounded (kin? : EntityId → Option Kin) : Prop where
  /-- Every base of a class is an older class. -/
  older : ∀ id k, kin? id = some k → ∀ b ∈ k.bases, (kin? b).isSome ∧ b.rank < id.rank
  /-- Classes are no members of enumerations. -/
  classes : ∀ id k, kin? id = some k → HasPlainInstances kin? k.metaclass
  /-- Modules are no members of enumerations. -/
  modules : HasPlainInstances kin? (.standard "module")

namespace Standard

set_option maxRecDepth 100000 in
/-- The table has the bases of each of its classes, and they have fewer ancestors. -/
theorem classes_bases : (classes.all fun c ↦ c.bases.all fun b ↦
    (class? b).any fun d ↦ d.ancestors.length < c.ancestors.length) = true := by
  decide +kernel

set_option maxRecDepth 100000 in
/-- The table has the metaclass of each of its classes and the class of modules, and no enumeration
is among them. -/
theorem classes_metaclass : (("module" :: classes.map StandardClass.metaclass).all fun m ↦
    (class? m).any fun d ↦ !(d.key :: d.ancestors).contains "enum.Enum") = true := by
  decide +kernel

set_option maxRecDepth 100000 in
theorem classes_ancestors : ∀ c ∈ classes, c.ancestors.length < classes.length := by
  decide +kernel

theorem depthOf_lt (key : String) : depthOf key < classes.length := by
  simp only [depthOf]
  cases h : class? key with
  | none => exact Nat.zero_lt_of_lt (classes_ancestors _ List.mem_cons_self)
  | some c => exact classes_ancestors c (List.mem_of_find?_eq_some h)

theorem lookup_map_key (key : String) (cs : List StandardClass) :
    (cs.map fun c ↦ (c.key, c.entity)).lookup key
      = (cs.find? fun c ↦ c.key == key).map StandardClass.entity := by
  induction cs with
  | nil => rfl
  | cons c cs ih =>
    rw [List.map_cons, List.lookup_cons, List.find?_cons]
    by_cases h : c.key = key
    · have h₁ : (key == c.key) = true := beq_iff_eq.mpr h.symm
      have h₂ : (c.key == key) = true := beq_iff_eq.mpr h
      rw [h₁, h₂]
      rfl
    · have h₁ : (key == c.key) = false := beq_eq_false_iff_ne.mpr fun e ↦ h e.symm
      have h₂ : (c.key == key) = false := beq_eq_false_iff_ne.mpr h
      rw [h₁, h₂]
      exact ih

/-- The kin of a class of the standard environment. -/
def StandardClass.kin (c : StandardClass) : Kin :=
  ⟨c.bases.map .standard, (c.key :: c.ancestors).map .standard, .standard c.metaclass⟩

/-- Methods are no classes. -/
theorem methodEntities_kin? : ∀ e ∈ methodEntities, e.2.kin? = none := by
  have one (key name : String) (abstract : Bool) :
      (methodEntity key name abstract).kin? = none := by
    simp only [methodEntity]
    split <;> rfl
  intro e he
  rcases List.mem_append.mp he with he | he
  all_goals
    obtain ⟨m, -, hm⟩ := List.mem_flatMap.mp he
    obtain ⟨n, -, rfl⟩ := List.mem_map.mp hm
    exact one m.1 n _

/-- What the names of modules stand for is no class unless it is in the table of classes. -/
theorem thingEntities_kin? : ∀ e ∈ thingEntities, e.2.kin? = none := by
  intro e he
  obtain ⟨m, -, hm⟩ := List.mem_flatMap.mp he
  obtain ⟨⟨n, r⟩, -, hr⟩ := List.mem_filterMap.mp hm
  obtain ⟨f, hf, rfl⟩ := Option.map_eq_some_iff.mp hr
  cases r <;> cases hf <;> rfl

theorem moduleEntities_kin? : ∀ e ∈ moduleEntities, e.2.kin? = none := by
  intro e he
  obtain ⟨m, -, rfl⟩ := List.mem_map.mp he
  rfl

/-- The kin of a class as the table of classes has it. -/
def kin? : EntityId → Option Kin
  | .standard key => (class? key).map StandardClass.kin
  | _ => none

/-- The table of classes lists all classes. -/
theorem entity?_bind_kin? (id : EntityId) : (entity? id).bind Entity.kin? = kin? id := by
  cases id with
  | declared i => rfl
  | standardModule name =>
    show (moduleEntities.lookup name).bind Entity.kin? = none
    cases h : moduleEntities.lookup name with
    | none => rfl
    | some e =>
      have hk := Table.mem_of_lookup h
      exact moduleEntities_kin? _ hk
  | standard key =>
    show (namedEntities.lookup key).bind Entity.kin? = _
    simp only [namedEntities]
    rw [List.append_assoc, List.lookup_append]
    have hc : classEntities.lookup key = (class? key).map StandardClass.entity :=
      lookup_map_key key classes
    rw [hc]
    show _ = (class? key).map StandardClass.kin
    cases class? key with
    | some c => rfl
    | none =>
      show ((methodEntities ++ thingEntities).lookup key).bind Entity.kin? = none
      cases he : (methodEntities ++ thingEntities).lookup key with
      | none => rfl
      | some e =>
        have hk := Table.mem_of_lookup he
        rcases List.mem_append.mp hk with hk | hk
        · exact methodEntities_kin? _ hk
        · exact thingEntities_kin? _ hk

end Standard

namespace Population

/-- The entity with an identity among those that were declared and changed. -/
def entity? (declared : Array Entity) (changed : List (EntityId × Entity)) :
    EntityId → Option Entity
  | .declared i => declared[i]?
  | id => (changed.lookup id).or (Standard.entity? id)

/-- The kin of a class. -/
def kin? (declared : Array Entity) (changed : List (EntityId × Entity)) (id : EntityId) :
    Option Kin :=
  (entity? declared changed id).bind Entity.kin?

theorem kin?_standard (id : EntityId) : kin? #[] [] id = Standard.kin? id := by
  rw [← Standard.entity?_bind_kin?]
  cases id <;> rfl

/-- What the table of classes says of a metaclass. -/
theorem hasPlainInstances_standard {m : String}
    (hm : m ∈ "module" :: Standard.classes.map Standard.StandardClass.metaclass) :
    HasPlainInstances (kin? #[] []) (.standard m) := by
  have hany := List.all_eq_true.mp Standard.classes_metaclass m hm
  cases hd : Standard.class? m with
  | none =>
    rw [hd] at hany
    cases hany
  | some d =>
    rw [hd] at hany
    refine ⟨d.kin, ?_, fun hmem ↦ ?_⟩
    · rw [kin?_standard]
      show (Standard.class? m).map _ = _
      rw [hd]
      rfl
    · obtain ⟨key, hkey, heq⟩ := List.mem_map.mp hmem
      cases heq
      have hnot : (!(d.key :: d.ancestors).contains "enum.Enum") = true := hany
      rw [List.contains_iff_mem.mpr hkey] at hnot
      cases hnot

theorem grounded_standard : Grounded (kin? #[] []) := by
  refine ⟨fun id k h b hb ↦ ?_, fun id k h ↦ ?_, hasPlainInstances_standard List.mem_cons_self⟩
  · rw [kin?_standard] at h
    cases id with
    | declared i => cases h
    | standardModule name => cases h
    | standard key =>
      obtain ⟨c, hc, rfl⟩ := Option.map_eq_some_iff.mp h
      obtain ⟨name, hname, rfl⟩ := List.mem_map.mp hb
      have hall := List.all_eq_true.mp Standard.classes_bases c (List.mem_of_find?_eq_some hc)
      have hany := List.all_eq_true.mp hall name hname
      cases hd : Standard.class? name with
      | none =>
        rw [hd] at hany
        cases hany
      | some d =>
        rw [hd] at hany
        refine ⟨?_, ?_⟩
        · rw [kin?_standard]
          show ((Standard.class? name).map _).isSome
          rw [hd]
          rfl
        · show Standard.depthOf name < Standard.depthOf key
          simp only [Standard.depthOf]
          rw [hd, hc]
          exact of_decide_eq_true hany
  · rw [kin?_standard] at h
    cases id with
    | declared i => cases h
    | standardModule name => cases h
    | standard key =>
      obtain ⟨c, hc, rfl⟩ := Option.map_eq_some_iff.mp h
      exact hasPlainInstances_standard
        (List.mem_cons_of_mem _ (List.mem_map_of_mem (List.mem_of_find?_eq_some hc)))

variable {declared : Array Entity} {changed : List (EntityId × Entity)}

/-- No class is older than the number of entities tells. -/
theorem rank_lt {id : EntityId} (h : (kin? declared changed id).isSome) :
    id.rank < Standard.classes.length + declared.size := by
  cases id with
  | standard key => exact Nat.lt_add_right _ (Standard.depthOf_lt key)
  | standardModule name => exact Nat.lt_add_right _ (Nat.zero_lt_of_lt (Standard.depthOf_lt name))
  | declared i =>
    have hi : i < declared.size := by
      refine Nat.lt_of_not_le fun hi ↦ ?_
      have hnone : kin? declared changed (.declared i) = none := by
        show declared[i]?.bind Entity.kin? = none
        rw [Array.getElem?_eq_none hi]
        rfl
      rw [hnone] at h
      cases h
    exact Nat.add_lt_add_left hi _

/-- An entity can be declared if its bases are classes, and its metaclass is one that makes classes.
-/
def Admits (declared : Array Entity) (changed : List (EntityId × Entity)) (e : Entity) : Prop :=
  ∀ k ∈ e.kin?, (∀ b ∈ k.bases, (kin? declared changed b).isSome) ∧
    ∃ m ∈ kin? declared changed k.metaclass, enumRoot ∉ m.linearization

instance (e : Entity) : Decidable (Admits declared changed e) :=
  inferInstanceAs (Decidable (∀ k ∈ e.kin?, (∀ b ∈ k.bases, (kin? declared changed b).isSome) ∧
    ∃ m ∈ kin? declared changed k.metaclass, enumRoot ∉ m.linearization))

theorem kin?_push {e : Entity} {id : EntityId} (h : id ≠ .declared declared.size) :
    kin? (declared.push e) changed id = kin? declared changed id := by
  cases id with
  | standard key => rfl
  | standardModule name => rfl
  | declared i =>
    have hi : i ≠ declared.size := fun hi ↦ h (hi ▸ rfl)
    show (declared.push e)[i]?.bind Entity.kin? = declared[i]?.bind Entity.kin?
    rw [Array.getElem?_push, if_neg hi]

theorem kin?_push_of_eq_some {e : Entity} {id : EntityId} {k : Kin}
    (h : kin? declared changed id = some k) : kin? (declared.push e) changed id = some k := by
  rwa [kin?_push fun hid ↦ ?_]
  have hlt := rank_lt (Option.isSome_of_eq_some h)
  rw [hid] at hlt
  exact Nat.lt_irrefl _ hlt

theorem grounded_push {e : Entity} (h : Grounded (kin? declared changed))
    (he : Admits declared changed e) : Grounded (kin? (declared.push e) changed) := by
  have old {b : EntityId} (hb : (kin? declared changed b).isSome) :
      (kin? (declared.push e) changed b).isSome := by
    obtain ⟨k, hk⟩ := Option.isSome_iff_exists.mp hb
    exact Option.isSome_of_eq_some (kin?_push_of_eq_some hk)
  have plain {m : EntityId} (hm : HasPlainInstances (kin? declared changed) m) :
      HasPlainInstances (kin? (declared.push e) changed) m := by
    obtain ⟨k, hk, hnot⟩ := hm
    exact ⟨k, kin?_push_of_eq_some hk, hnot⟩
  -- the kin of the new entity is what it is admitted with
  have new {k : Kin} (hk : kin? (declared.push e) changed (.declared declared.size) = some k) :
      e.kin? = some k := by
    have hget : (declared.push e)[declared.size]? = some e := by simp
    have hbind : ((declared.push e)[declared.size]?).bind Entity.kin? = some k := hk
    rwa [hget] at hbind
  refine ⟨fun id k hk b hb ↦ ?_, fun id k hk ↦ ?_, plain h.modules⟩
  · by_cases hid : id = .declared declared.size
    · subst hid
      have hsome := (he k (new hk)).1 b hb
      exact ⟨old hsome, rank_lt hsome⟩
    · rw [kin?_push hid] at hk
      obtain ⟨hsome, hlt⟩ := h.older id k hk b hb
      exact ⟨old hsome, hlt⟩
  · by_cases hid : id = .declared declared.size
    · subst hid
      obtain ⟨m, hm, hnot⟩ := (he k (new hk)).2
      exact plain ⟨m, hm, hnot⟩
    · rw [kin?_push hid] at hk
      exact plain (h.classes id k hk)

theorem kin?_modify {f : Entity → Entity} (hf : Entity.KeepsKin f) (i : Nat) :
    kin? (declared.modify i f) changed = kin? declared changed := by
  funext id
  cases id with
  | standard key => rfl
  | standardModule name => rfl
  | declared j =>
    show ((declared.modify i f)[j]?).bind Entity.kin? = declared[j]?.bind Entity.kin?
    rw [Array.getElem?_modify]
    split
    · cases declared[j]? with
      | none => rfl
      | some e => exact hf e
    · rfl

/-- The changed entities with one more, in the place of what it was before. -/
def change (id : EntityId) (e : Entity) (changed : List (EntityId × Entity)) :
    List (EntityId × Entity) :=
  (id, e) :: changed.filter fun c ↦ c.1 != id

theorem entity?_change {id : EntityId} (hid : ∀ i, id ≠ .declared i) (f : Entity) (j : EntityId) :
    entity? declared (change id f changed) j
      = if j = id then some f else entity? declared changed j := by
  have hlookup : (change id f changed).lookup j = if j = id then some f else changed.lookup j := by
    simp only [change]
    rw [List.lookup_cons]
    by_cases h : j = id
    · rw [if_pos h, beq_iff_eq.mpr h]
    · rw [if_neg h, beq_eq_false_iff_ne.mpr h]
      exact Table.lookup_filter_ne h changed
  cases j with
  | declared i => rw [if_neg fun h ↦ hid i h.symm]; rfl
  | standard key | standardModule name =>
    show ((change id f changed).lookup _).or _ = _
    rw [hlookup]
    split <;> rfl

theorem kin?_change {e f : Entity} {id : EntityId} (hid : ∀ i, id ≠ .declared i)
    (he : entity? declared changed id = some e) (hf : f.kin? = e.kin?) :
    kin? declared (change id f changed) = kin? declared changed := by
  funext j
  simp only [kin?]
  rw [entity?_change hid]
  split
  · next h =>
    rw [h, he]
    exact hf
  · rfl

end Population

end DeclClosure

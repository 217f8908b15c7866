import DeclClosure.Proofs.World.Evolution

/-!
# Classes and names in an evolving world

What classes and modules are known by rests on shapes, so it survives every question: a class stays
a class, and its bases stay what they were. Since every base is an older class, a walk from
superclass to superclass comes to an end (`World.isClass_superclass`).

The names that entities declare are finitely many for all times: those of a class are read off its
shape and one entry of its namespace, and an entry can only come to stand for an entity
(`World.mem_names_of_canonicalName?`).
-/

namespace DeclClosure

open World

variable {w v : World} {id : EntityId} {o : Object} {name : String}

/-! ### Classes -/

/-- How a class is related to other classes. -/
def World.kin? (w : World) (id : EntityId) : Option Kin :=
  Population.kin? w.declared w.changed id

theorem World.class?_map_kin (w : World) (id : EntityId) :
    (w.class? id).map ClassFacts.kin = w.kin? id := by
  unfold class? kin? Population.kin? entity? Entity.kin?
  cases Population.entity? w.declared w.changed id <;> rfl

theorem World.isClass_entity (w : World) (id : EntityId) :
    w.isClass (.entity id) = (w.kin? id).isSome := by
  rw [← class?_map_kin]
  simp only [isClass, asClass?]
  show ((w.class? id).map _).isSome = _
  rw [Option.isSome_map, Option.isSome_map]

/-- Only entities are classes. -/
theorem World.exists_of_isClass (h : w.isClass o) :
    ∃ id c, o = .entity id ∧ w.class? id = some c := by
  simp only [isClass, asClass?] at h
  obtain ⟨x, hx⟩ := Option.isSome_iff_exists.mp h
  obtain ⟨id, hid, hc⟩ := Option.bind_eq_some_iff.mp hx
  obtain ⟨c, hc, -⟩ := Option.map_eq_some_iff.mp hc
  cases o <;> cases hid
  exact ⟨_, c, rfl, hc⟩

/-- Only entities are modules. -/
theorem World.exists_of_isModule (h : w.isModule o) :
    ∃ id e, o = .entity id ∧ w.entity? id = some e ∧ ∃ m, e.shape = .module m := by
  obtain ⟨x, hx⟩ := Option.isSome_iff_exists.mp h
  obtain ⟨id, hid, hx⟩ := Option.bind_eq_some_iff.mp hx
  obtain ⟨e, he, hx⟩ := Option.bind_eq_some_iff.mp hx
  obtain ⟨m, hm, -⟩ := Option.bind_eq_some_iff.mp hx
  cases o <;> cases hid
  refine ⟨_, e, rfl, he, m, ?_⟩
  simp only [Entity.module?] at hm
  split at hm
  · next hshape =>
    cases hm
    exact hshape
  · cases hm

theorem World.Evolves.kin?_eq (h : w.Evolves v) (id : EntityId) : v.kin? id = w.kin? id := by
  show (v.entity? id).bind Entity.kin? = (w.entity? id).bind Entity.kin?
  cases hv : v.entity? id with
  | some f =>
    obtain ⟨e, he, hef⟩ := h.entity id f hv
    rw [he]
    exact Entity.kin?_congr hef.shape
  | none =>
    cases hw : w.entity? id with
    | none => rfl
    | some e =>
      have hsome := h.kept id e hw
      rw [hv] at hsome
      cases hsome

theorem World.Evolves.isClass_eq (h : w.Evolves v) (o : Object) : v.isClass o = w.isClass o := by
  cases o with
  | entity id => rw [isClass_entity, isClass_entity, h.kin?_eq]
  | _ => rfl

theorem World.shape_of_class? {c : ClassFacts} (h : w.class? id = some c) :
    ∃ e, w.entity? id = some e ∧ e.shape = .class c := by
  obtain ⟨e, he, hc⟩ := Option.bind_eq_some_iff.mp h
  refine ⟨e, he, ?_⟩
  simp only [Entity.class?] at hc
  split at hc
  · next hshape =>
    cases hc
    exact hshape
  · cases hc

theorem World.basesOf_entity {c : ClassFacts} (h : w.class? id = some c) :
    w.basesOf (.entity id) = c.bases.map .entity := by
  obtain ⟨e, he, hshape⟩ := shape_of_class? h
  show ((w.entityAttr? id "__bases__").bind Object.iterate?).getD [] = _
  simp only [entityAttr?]
  rw [he]
  simp [hshape, classAttr?, Object.iterate?]

/-- The bases of a class stay what they are. -/
theorem World.Evolves.basesOf_eq (h : w.Evolves v) (ho : w.isClass o) : v.basesOf o = w.basesOf o := by
  obtain ⟨id, c, rfl, hc⟩ := exists_of_isClass ho
  have hkin : (v.class? id).map ClassFacts.kin = some c.kin := by
    rw [class?_map_kin, h.kin?_eq, ← class?_map_kin, hc]
    rfl
  obtain ⟨d, hd, -⟩ := Option.map_eq_some_iff.mp hkin
  obtain ⟨f, hf, hshape⟩ := shape_of_class? hd
  obtain ⟨e, he, hef⟩ := h.entity id f hf
  obtain ⟨e', he', hshape'⟩ := shape_of_class? hc
  rw [he] at he'
  cases he'
  rw [hef.shape, hshape'] at hshape
  cases hshape
  rw [basesOf_entity hc, basesOf_entity hd]

/-- The age of a class; what is no class has none. -/
def Object.rank (o : Object) : Nat :=
  o.entity?.elim 0 EntityId.rank

/-- A base of a class is an older class. -/
theorem World.isClass_of_mem_basesOf {p : Object} (ho : w.isClass o) (h : p ∈ w.basesOf o) :
    w.isClass p ∧ p.rank < o.rank := by
  obtain ⟨id, c, rfl, hc⟩ := exists_of_isClass ho
  rw [basesOf_entity hc] at h
  obtain ⟨b, hb, rfl⟩ := List.mem_map.mp h
  have hkin : w.kin? id = some c.kin := by
    rw [← class?_map_kin, hc]
    rfl
  obtain ⟨hsome, hlt⟩ := w.grounded.older id c.kin hkin b hb
  exact ⟨(w.isClass_entity b).trans hsome, hlt⟩

/-- The superclass is one of the bases. -/
theorem World.mem_basesOf_of_superclass? {p : Object} (h : w.superclass? o = some p) :
    p ∈ w.basesOf o :=
  List.mem_of_find?_eq_some h

/-- The superclass of a class is an older class. -/
theorem World.isClass_superclass {p : Object} (ho : w.isClass o) (h : w.superclass? o = some p) :
    w.isClass p ∧ p.rank < o.rank :=
  isClass_of_mem_basesOf ho (mem_basesOf_of_superclass? h)

/-- A class whose instances are no members of enumerations, as a grounded population has it. -/
theorem World.not_isBelow_enumRoot {m : EntityId} (h : HasPlainInstances w.kin? m) :
    ¬w.isBelow m enumRoot := by
  obtain ⟨k, hk, hnot⟩ := h
  rw [← class?_map_kin] at hk
  obtain ⟨c, hc, rfl⟩ := Option.map_eq_some_iff.mp hk
  simp only [isBelow, linearization]
  rw [hc]
  exact fun hmem ↦ hnot (List.contains_iff_mem.mp hmem)

/-- No class and no module is a member of an enumeration. -/
theorem World.not_isEnumMember_of_isNamespace (h : w.isNamespace o) : ¬w.isEnumMember o := by
  simp only [isEnumMember, isInstance]
  rcases Bool.or_eq_true_iff.mp h with hclass | hmodule
  · obtain ⟨id, c, rfl, hc⟩ := exists_of_isClass hclass
    obtain ⟨e, he, hshape⟩ := shape_of_class? hc
    have hkin : w.kin? id = some c.kin := by
      rw [← class?_map_kin, hc]
      rfl
    have hof : w.classOf (.entity id) = c.metaclass := by
      simp only [classOf]
      rw [he, Option.map_some, hshape]
      rfl
    rw [hof]
    exact not_isBelow_enumRoot (w.grounded.classes id c.kin hkin)
  · obtain ⟨id, e, rfl, he, m, hshape⟩ := exists_of_isModule hmodule
    have hof : w.classOf (.entity id) = .standard "module" := by
      simp only [classOf]
      rw [he, Option.map_some, hshape]
      rfl
    rw [hof]
    exact not_isBelow_enumRoot w.grounded.modules

/-- There are fewer classes above a class than there are classes. -/
theorem World.rank_lt (h : w.isClass o) : o.rank < Standard.classes.length + w.declared.size := by
  obtain ⟨id, c, rfl, hc⟩ := exists_of_isClass h
  rw [isClass_entity] at h
  exact Population.rank_lt h

/-! ### Declared names -/

/-- The identities of the entities that a world has of its own: declared ones, and standard ones that
were changed. -/
def World.ownIds (w : World) : List EntityId :=
  (List.range w.declared.size).map .declared ++ w.changed.map (·.1)

/-- The identities under which there can be an entity. -/
def World.ids (w : World) : List EntityId :=
  w.ownIds ++ Standard.namedEntities.map (fun e ↦ .standard e.1)
    ++ Standard.moduleEntities.map (fun e ↦ .standardModule e.1)

/-- An entity that a world does not have of its own is one of the standard environment. -/
theorem World.mem_ownIds_or {e : Entity} (h : w.entity? id = some e) :
    id ∈ w.ownIds ∨ Standard.entity? id = some e := by
  have standard {id : EntityId} (h : (w.changed.lookup id).or (Standard.entity? id) = some e) :
      id ∈ w.ownIds ∨ Standard.entity? id = some e := by
    rcases Option.or_eq_some_iff.mp h with h | ⟨-, h⟩
    · exact .inl (List.mem_append_right _ (List.mem_map_of_mem (Table.mem_of_lookup h)))
    · exact .inr h
  cases id with
  | declared i =>
    have hi : i < w.declared.size := (Array.getElem?_eq_some_iff.mp h).1
    exact .inl (List.mem_append_left _ (List.mem_map_of_mem (List.mem_range.mpr hi)))
  | standard key => exact standard h
  | standardModule key => exact standard h

theorem World.mem_ids {e : Entity} (h : w.entity? id = some e) : id ∈ w.ids := by
  simp only [ids]
  rw [List.mem_append, List.mem_append]
  rcases mem_ownIds_or h with h | h
  · exact .inl (.inl h)
  · cases id with
    | declared i => cases h
    | standard key => exact .inl (.inr (List.mem_map.mpr ⟨_, Table.mem_of_lookup h, rfl⟩))
    | standardModule key => exact .inr (List.mem_map.mpr ⟨_, Table.mem_of_lookup h, rfl⟩)

/-- The names that an entity may ever declare for itself: a name of its namespace may be lost to an
entity. -/
def Entity.names (e : Entity) : List String :=
  match e.shape with
  | .module _ => ((e.attr? "__name__").bind Object.text?).toList
  | .class c =>
    (qualifiedName? c.qualname (e.attr? "__module__")).toList
      ++ (qualifiedName? c.qualname none).toList
  | _ => []

/-- The names that the entities of a world may ever declare for themselves. -/
def World.names (w : World) : List String :=
  w.ids.flatMap fun id ↦ (w.entity? id).elim [] Entity.names

/-- The name that an entity declares. -/
def Entity.declaredName? (e : Entity) : Option String :=
  match e.shape with
  | .module _ => (e.attr? "__name__").bind Object.text?
  | .class c => qualifiedName? c.qualname (e.attr? "__module__")
  | _ => none

theorem World.canonicalName?_entity (w : World) (id : EntityId) :
    w.canonicalName? (.entity id) = (w.entity? id).bind Entity.declaredName? := by
  simp only [canonicalName?]
  cases he : w.entity? id with
  | none =>
    have hm : w.asModule? (.entity id) = none := by
      show (w.entity? id).bind _ = none
      rw [he]
      rfl
    have hc : w.asClass? (.entity id) = none := by
      show ((w.entity? id).bind Entity.class?).map _ = none
      rw [he]
      rfl
    rw [hm, hc]
    rfl
  | some e =>
    have hm : w.asModule? (.entity id) = e.module?.map fun _ ↦ (id, e) := by
      show ((w.entity? id).bind fun e ↦ e.module?.bind fun _ ↦ some (id, e)) = _
      rw [he]
      show e.module?.bind _ = _
      cases e.module? <;> rfl
    have hc : w.asClass? (.entity id) = e.class?.map fun c ↦ (id, c) := by
      show ((w.entity? id).bind Entity.class?).map _ = _
      rw [he]
      rfl
    have ha (name : String) : w.attr? (.entity id) name = w.entityAttr? id name := rfl
    rw [hm, hc, ha, ha]
    show _ = e.declaredName?
    simp only [entityAttr?, Entity.declaredName?, Entity.module?, Entity.class?]
    rw [he]
    cases hshape : e.shape <;> simp [hshape, classAttr?]

/-- Only modules and classes declare names. -/
theorem World.exists_of_canonicalName? (h : w.canonicalName? o = some name) :
    ∃ id e, o = .entity id ∧ w.entity? id = some e ∧ e.declaredName? = some name := by
  cases o with
  | entity id =>
    rw [canonicalName?_entity] at h
    obtain ⟨e, he, hname⟩ := Option.bind_eq_some_iff.mp h
    exact ⟨id, e, rfl, he, hname⟩
  | _ => cases h

/-- What declares a name is a class or a module. -/
theorem World.isNamespace_of_canonicalName? (h : w.canonicalName? o = some name) :
    w.isNamespace o := by
  simp only [canonicalName?] at h
  simp only [isNamespace, isModule, isClass]
  split at h
  · next hm => rw [hm, Option.isSome_some, Bool.or_true]
  · split at h
    · next hc => rw [hc, Option.isSome_some, Bool.true_or]
    · cases h

theorem Object.same_entity_iff {p : Object} {id : EntityId} :
    p.same (.entity id) ↔ p = .entity id := by
  rw [Object.same_iff]
  refine ⟨fun h ↦ ?_, fun h ↦ h ▸ rfl⟩
  cases p with
  | entity j =>
    cases h
    rfl
  | bound inner => cases h
  | _ tag =>
    simp only [Object.key, Object.taggedKey] at h
    split at h <;> cases h

/-- An object bears a name iff it declares the name and the name stands for it. -/
theorem World.trueName?_eq_some_iff :
    w.trueName? o = some name ↔ w.canonicalName? o = some name ∧ w.meaning? name = some o := by
  simp only [trueName?]
  rw [Option.filter_eq_some_iff]
  refine and_congr_right fun hname ↦ ?_
  obtain ⟨id, e, rfl, -, -⟩ := exists_of_canonicalName? hname
  rw [Option.any_eq_true]
  constructor
  · rintro ⟨found, hfound, hsame⟩
    rw [hfound, Object.same_entity_iff.mp hsame]
  · exact fun h ↦ ⟨_, h, Object.same_entity_iff.mpr rfl⟩

theorem Entity.Evolves.declaredName?_mem {e f : Entity} (h : e.Evolves f)
    (hname : f.declaredName? = some name) : name ∈ e.names := by
  simp only [Entity.declaredName?] at hname
  simp only [Entity.names]
  rw [h.shape] at hname
  cases hshape : e.shape with
  | module m =>
    rw [hshape] at hname
    rcases h.attr "__name__" with hattr | ⟨id, hattr⟩
    · rw [hattr] at hname
      exact Option.mem_toList.mpr hname
    · rw [hattr] at hname
      cases hname
  | «class» c =>
    rw [hshape] at hname
    rcases h.attr "__module__" with hattr | ⟨id, hattr⟩
    · rw [hattr] at hname
      exact List.mem_append_left _ (Option.mem_toList.mpr hname)
    · -- its module is told by no text any more, so it goes by its bare name
      rw [hattr] at hname
      exact List.mem_append_right _ (Option.mem_toList.mpr hname)
  | _ =>
    rw [hshape] at hname
    cases hname

/-- Whatever questions are asked, no other names are ever declared. -/
theorem World.mem_names_of_canonicalName? (h : w.Evolves v)
    (hname : v.canonicalName? o = some name) : name ∈ w.names := by
  obtain ⟨id, f, rfl, hf, hname⟩ := exists_of_canonicalName? hname
  obtain ⟨e, he, hef⟩ := h.entity id f hf
  refine List.mem_flatMap.mpr ⟨id, mem_ids he, ?_⟩
  rw [he]
  exact hef.declaredName?_mem hname

end DeclClosure

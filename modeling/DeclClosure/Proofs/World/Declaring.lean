import DeclClosure.Proofs.World.Twins
import DeclClosure.Universe.Declaration.Universe

/-!
# Declared worlds

While a universe is declared, entities are made and changed, but what is a module stays one, and
nothing is loaded until the end (`World.Builds`). So in the world of a declared universe the table has
modules only (`World.tabled_declaredBy`), and nothing is remembered yet.
-/

namespace DeclClosure

/-- The change of an entity leaves a module a module. -/
def Entity.KeepsModules (f : Entity → Entity) : Prop :=
  ∀ e, e.module?.isSome → (f e).module?.isSome

namespace Entity

theorem keepsModules_of_shape {f : Entity → Entity} (h : ∀ e, (f e).shape = e.shape) :
    KeepsModules f := by
  intro e he
  simp only [module?] at he ⊢
  rwa [h e]

theorem keepsModules_setAttr (name : String) (value : Object) :
    KeepsModules fun e ↦ e.setAttr name value :=
  keepsModules_of_shape fun e ↦ e.shape_setAttr name value

theorem keepsModules_setAll (attrs : List (String × Object)) :
    KeepsModules fun e ↦ Query.setAll e attrs :=
  keepsModules_of_shape fun e ↦ Query.shape_setAll e attrs

/-- Only classes get fields. -/
theorem keepsModules_withFields (fields : List Field) (attrs : List (String × Object)) :
    KeepsModules fun e ↦ Query.setAll (Query.withFields fields e) attrs := by
  intro e he
  refine keepsModules_setAll attrs _ ?_
  rcases e with ⟨_ | _ | _ | _ | _ | _ | _ | _, _⟩ <;> exact he

theorem keepsModules_withAnswers (answers : List (String × List Answer)) :
    KeepsModules (Query.withAnswers answers) := by
  rintro ⟨_ | _ | _ | _ | _ | _ | _ | _, _⟩ he <;> first | rfl | cases he

/-- Only classes and functions have names beside their namespaces. -/
theorem keepsModules_withName (name : String) (value : Object) :
    KeepsModules (Query.withName name value) := by
  intro e he
  simp only [Query.withName]
  split
  · next hshape _ =>
    simp only [module?] at he
    rw [hshape] at he
    cases he
  · next hshape _ =>
    simp only [module?] at he
    rw [hshape] at he
    cases he
  · exact keepsModules_setAttr name value e he

end Entity

namespace World

/-- The world `v` is `w` after some declarations. -/
structure Builds (w v : World) : Prop where
  /-- Modules stay modules. -/
  isModule : ∀ id, w.isModule (.entity id) → v.isModule (.entity id)
  /-- Nothing is loaded. -/
  modules : v.modules = w.modules
  /-- Nothing can be loaded that could not be. -/
  dormant : v.dormant = w.dormant
  /-- Nothing is remembered. -/
  notModules : v.notModules = w.notModules

instance : IsPreorder World Builds where
  refl _ := ⟨fun _ h ↦ h, rfl, rfl, rfl⟩
  trans _ _ _ h₁ h₂ := ⟨fun id h ↦ h₂.isModule id (h₁.isModule id h), h₂.modules.trans h₁.modules,
    h₂.dormant.trans h₁.dormant, h₂.notModules.trans h₁.notModules⟩

theorem entity?_push {w : World} {e f : Entity} {id : EntityId} (h : w.entity? id = some f) :
    Population.entity? (w.declared.push e) w.changed id = some f := by
  cases id with
  | standard key => exact h
  | standardModule name => exact h
  | declared i =>
    have hi : w.declared[i]? = some f := h
    show (w.declared.push e)[i]? = some f
    rw [Array.getElem?_push, if_neg (Nat.ne_of_lt (Array.getElem?_eq_some_iff.mp hi).1), hi]

theorem Builds.update (w : World) (id : EntityId) {f : Entity → Entity} (hf : Entity.KeepsKin f)
    (hmodules : Entity.KeepsModules f) : w.Builds (w.update id f hf) := by
  refine ⟨fun j hj ↦ ?_, modules_update .., dormant_update .., notModules_update ..⟩
  obtain ⟨e, m, he, hm⟩ := isModule_entity_iff.mp hj
  have hentity := w.entity?_update id f hf j
  rw [he] at hentity
  split at hentity
  · obtain ⟨m', hm'⟩ := Option.isSome_iff_exists.mp (hmodules e (Option.isSome_of_eq_some hm))
    exact isModule_entity_iff.mpr ⟨f e, m', hentity, hm'⟩
  · exact isModule_entity_iff.mpr ⟨e, m, hentity, hm⟩

end World

namespace Query

open World Moves

/-- The question moves every world to one that it builds. -/
abbrev Building {α : Type} (q : Query α) : Prop := Moves World.Builds q

section Entities

theorem freshTag_builds : Building freshTag :=
  fun _ ↦ ⟨fun _ h ↦ h, rfl, rfl, rfl⟩

/-- A declared module is a module. -/
theorem declare_run (e : Entity) (w : World) :
    w.Builds (declare e w).2 ∧ ∀ id v, declare e w = (.ok id, v) → v.entity? id = some e := by
  simp only [declare]
  rw [run_get_bind]
  split
  · next h =>
    refine ⟨⟨fun id hid ↦ ?_, rfl, rfl, rfl⟩, fun id v hrun ↦ ?_⟩
    · obtain ⟨f, m, hf, hm⟩ := isModule_entity_iff.mp hid
      exact isModule_entity_iff.mpr ⟨f, m, entity?_push hf, hm⟩
    · cases hrun
      show (w.declared.push e)[w.declared.size]? = some e
      exact Array.getElem?_push_size
  · refine ⟨refl_of Builds w, fun id v hrun ↦ ?_⟩
    cases hrun

theorem declare_builds (e : Entity) : Building (declare e) :=
  fun w ↦ (declare_run e w).1

theorem update_builds (id : EntityId) {f : Entity → Entity} (hf : Entity.KeepsKin f)
    (hmodules : Entity.KeepsModules f) :
    Building (modify fun w ↦ w.update id f hf : Query Unit) :=
  Moves.modify fun w ↦ .update w id hf hmodules

theorem newAtom_builds (a : Atom) : Building (newAtom a) := by
  simp only [newAtom]
  split
  · exact Moves.pure _
  · exact freshTag_builds.bind fun _ ↦ Moves.pure _

theorem newText?_builds (text : Option String) : Building (newText? text) := by
  cases text with
  | some s => exact newAtom_builds _
  | none => exact Moves.pure _

theorem newTuple_builds (items : List Object) : Building (newTuple items) := by
  simp only [newTuple]
  split
  · exact Moves.pure _
  · exact freshTag_builds.bind fun _ ↦ Moves.pure _

theorem moduleNamed_builds (scope : Scope) (name : String) : Building (moduleNamed scope name) := by
  simp only [moduleNamed]
  split
  · exact Moves.pure _
  · split
    · exact Moves.pure _
    · exact fail_moves _ _

theorem newFunction_builds (scope : Scope) (d : FunctionDeclaration)
    (ascriptions defaults : List (Option Object)) (returns wraps : Option Object) :
    Building (newFunction scope d ascriptions defaults returns wraps) := by
  refine (Moves.get.bind fun _ ↦ Moves.pure _).bind fun file ↦ ?_
  refine (newText?_builds _).bind fun doc ↦ (newText?_builds _).bind fun home ↦ ?_
  exact (declare_builds _).bind fun _ ↦ Moves.pure _

theorem newInstance_builds (cls : Object) (attrs : List (String × Object)) :
    Building (newInstance cls attrs) := by
  simp only [newInstance]
  split
  · split
    · exact newAtom_builds _
    · exact freshTag_builds.bind fun _ ↦ Moves.pure _
    · exact newTuple_builds _
    · exact freshTag_builds.bind fun _ ↦ Moves.pure _
    · exact freshTag_builds.bind fun _ ↦ Moves.pure _
    · exact (declare_builds _).bind fun _ ↦ Moves.pure _
  · exact fail_moves _ _

theorem memberNamed_builds (cls : Object) (name : String) : Building (memberNamed cls name) := by
  refine Moves.get.bind fun w ↦ ?_
  split
  · split
    · exact Moves.pure _
    · exact fail_moves _ _
  · exact fail_moves _ _

theorem unionFrom_builds (first : Object) (types : List Object) :
    Building (unionFrom first types) := by
  induction types generalizing first with
  | nil => exact Moves.pure _
  | cons o os ih => exact Moves.get.bind fun w ↦ freshTag_builds.bind fun tag ↦ ih _

end Entities

end Query

/-! ### Expressions -/

section Expressions

open Query Moves

mutual

/-- Whatever an expression makes, modules stay modules. -/
theorem Expression.eval_builds (scope : Scope) : (e : Expression) → Building (e.eval scope)
  | .absent => Moves.pure _
  | .reference id => by
    simp only [eval]
    split
    · exact Moves.pure _
    · exact fail_moves _ _
  | .module name => by
    simp only [eval]
    exact (moduleNamed_builds scope name).bind fun _ ↦ Moves.pure _
  | .standard name => by
    simp only [eval]
    split
    · exact Moves.pure _
    · exact fail_moves _ _
  | .atom a => newAtom_builds a
  | .tuple items => by
    simp only [eval]
    exact (Expression.evalAll_builds scope items).bind fun _ ↦ newTuple_builds _
  | .list items | .set items => by
    simp only [eval]
    exact (Expression.evalAll_builds scope items).bind fun _ ↦
      freshTag_builds.bind fun _ ↦ Moves.pure _
  | .dict keys values => by
    simp only [eval]
    refine (Expression.evalAll_builds scope keys).bind fun _ ↦ ?_
    refine (Expression.evalAll_builds scope values).bind fun _ ↦ ?_
    exact freshTag_builds.bind fun _ ↦ Moves.pure _
  | .instance cls names values => by
    simp only [eval]
    refine (Expression.eval_builds scope cls).bind fun _ ↦ ?_
    exact (Expression.evalAll_builds scope values).bind fun _ ↦ newInstance_builds _ _
  | .member cls name => by
    simp only [eval]
    exact (Expression.eval_builds scope cls).bind fun _ ↦ memberNamed_builds _ _
  | .strayModule name => (declare_builds _).bind fun _ ↦ Moves.pure _
  | .function head ascriptions defaults returns wraps => by
    simp only [eval]
    refine (Expression.evalOptions_builds scope ascriptions).bind fun _ ↦ ?_
    refine (Expression.evalOptions_builds scope defaults).bind fun _ ↦ ?_
    refine (Expression.eval_builds scope returns).bind fun _ ↦ ?_
    refine (Expression.eval_builds scope wraps).bind fun _ ↦ ?_
    exact newFunction_builds _ _ _ _ _ _
  | .classMethod inner | .staticMethod inner | .property inner => by
    simp only [eval]
    exact (Expression.eval_builds scope inner).bind fun _ ↦
      freshTag_builds.bind fun _ ↦ Moves.pure _
  | .applied head args => by
    simp only [eval]
    refine (Expression.eval_builds scope head).bind fun _ ↦ ?_
    refine (Expression.evalAll_builds scope args).bind fun _ ↦ ?_
    refine Moves.get.bind fun w ↦ freshTag_builds.bind fun tag ↦ ?_
    split
    · exact Moves.pure _
    · exact fail_moves _ _
  | .union types => by
    simp only [eval]
    refine (Expression.evalAll_builds scope types).bind fun objects ↦ ?_
    split
    · exact Moves.pure _
    · exact unionFrom_builds _ _

theorem Expression.evalAll_builds (scope : Scope) :
    (es : List Expression) → Building (Expression.evalAll scope es)
  | [] => Moves.pure _
  | e :: es => by
    simp only [evalAll]
    refine (Expression.eval_builds scope e).bind fun _ ↦ ?_
    exact (Expression.evalAll_builds scope es).bind fun _ ↦ Moves.pure _

theorem Expression.evalOptions_builds (scope : Scope) :
    (es : List Expression) → Building (Expression.evalOptions scope es)
  | [] => Moves.pure _
  | e :: es => by
    simp only [evalOptions]
    refine (Expression.eval_builds scope e).bind fun _ ↦ ?_
    exact (Expression.evalOptions_builds scope es).bind fun _ ↦ Moves.pure _

end

end Expressions

/-! ### Classes -/

namespace Query

open World Moves

section Classes

theorem machineFunction_builds (name qualname file : String) (module : Object) :
    Building (machineFunction name qualname file module) :=
  (declare_builds _).bind fun _ ↦ Moves.pure _

theorem protocolAttrs_builds (w : World) (bases order : List EntityId)
    (attrs : List (String × Object)) : Building (protocolAttrs w bases order attrs) := by
  simp only [protocolAttrs]
  split
  · exact Moves.pure _
  · refine Moves.join (fun hook ↦ ?_) (fun rest ↦ (Moves.pure _).bind rest)
      (fun rest ↦ (machineFunction_builds _ _ _ _).bind fun _ ↦ (Moves.pure _).bind rest)
    refine Moves.join (fun init ↦ ?_)
      (fun rest ↦ (machineFunction_builds _ _ _ _).bind fun _ ↦ (Moves.pure _).bind rest)
      (fun rest ↦ (Moves.pure _).bind rest)
    exact Moves.pure _

theorem setAll_builds (id : EntityId) (names : List (String × Object)) :
    Building (modify fun w ↦ w.update id (fun e ↦ setAll e names) (keepsKin_setAll names)
      : Query Unit) :=
  update_builds id _ (Entity.keepsModules_setAll names)

theorem newClass_builds (d : ClassDeclaration) (bases : List Object) (asked : Option EntityId)
    (attrs : List (String × Object)) : Building (newClass d bases asked attrs) := by
  refine Moves.get.bind fun w ↦ ?_
  refine Moves.ite (Moves.throw_bind (R := Builds) _ _) ?_
  dsimp only
  generalize Linearization.ofBases _ _ _ = order
  cases order with
  | none => exact fail_moves _ _
  | some order =>
    refine (declare_builds _).bind fun id ↦ ?_
    refine (newText?_builds _).bind fun home ↦ (newText?_builds _).bind fun doc ↦ ?_
    refine Moves.join (fun params ↦ ?_)
      (fun rest ↦ (newTuple_builds _).bind fun _ ↦ (Moves.pure _).bind rest)
      (fun rest ↦ (Moves.pure _).bind rest)
    refine (protocolAttrs_builds _ _ _ _).bind fun protocol ↦ ?_
    refine Moves.join (fun state ↦ ?_)
      (fun rest ↦ (declare_builds _).bind fun _ ↦ (Moves.pure _).bind rest)
      (fun rest ↦ (Moves.pure _).bind rest)
    exact (setAll_builds id _).bind fun _ ↦ Moves.pure _

/-! ### Records -/

theorem fieldTypes_builds (fields : List FieldDeclaration) : Building (fieldTypes fields) :=
  freshTag_builds.bind fun _ ↦ Moves.pure _

theorem recordFunctions_builds (d : ClassDeclaration) (attrs : List (String × Object)) :
    Building (recordFunctions d attrs) :=
  (newText?_builds _).bind fun _ ↦ Moves.mapM fun _ _ ↦
    (machineFunction_builds _ _ _ _).bind fun _ ↦ Moves.pure _

theorem newRecord_builds (d : ClassDeclaration) (bases : List Object)
    (fields : List FieldDeclaration) (members : List (String × Object)) :
    Building (newRecord d bases fields members) := by
  refine (fieldTypes_builds _).bind fun types ↦ (newClass_builds _ _ _ _).bind fun id ↦ ?_
  refine Moves.get.bind fun w ↦ (recordFunctions_builds _ _).bind fun functions ↦ ?_
  exact (update_builds id _ (Entity.keepsModules_withFields _ functions)).bind fun _ ↦ Moves.pure _

theorem tupleAttrs_builds (name : String) (fields : List FieldDeclaration) :
    Building (tupleAttrs name fields) := by
  refine (machineFunction_builds _ _ _ _).bind fun new ↦ (machineFunction_builds _ _ _ _).bind fun build ↦ ?_
  refine Moves.bind (Moves.mapM fun _ _ ↦ (machineFunction_builds _ _ _ _).bind fun _ ↦ Moves.pure _)
    fun functions ↦ ?_
  refine Moves.bind (Moves.mapM fun _ _ ↦ (declare_builds _).bind fun _ ↦ Moves.pure _)
    fun getters ↦ ?_
  refine (newTuple_builds _).bind fun _ ↦ freshTag_builds.bind fun _ ↦ ?_
  exact freshTag_builds.bind fun _ ↦ freshTag_builds.bind fun _ ↦ Moves.pure _

theorem newTupleClass_builds (d : ClassDeclaration) (plain : Bool) (fields : List FieldDeclaration)
    (members : List (String × Object)) : Building (newTupleClass d plain fields members) := by
  refine (tupleAttrs_builds _ _).bind fun attrs ↦ ?_
  exact Moves.join (fun types ↦ newClass_builds _ _ _ _) (fun rest ↦ (Moves.pure _).bind rest)
    (fun rest ↦ (fieldTypes_builds _).bind fun _ ↦ (Moves.pure _).bind rest)

/-! ### Enumerations -/

theorem newMembers_builds (cls : EntityId) (b : Enumeration.Base)
    (members values : List (String × Object)) : Building (newMembers cls b members values) := by
  induction values generalizing members with
  | nil => exact Moves.pure _
  | cons entry rest ih =>
    obtain ⟨name, value⟩ := entry
    refine Moves.get.bind fun w ↦ ?_
    dsimp only
    split
    · exact ih _
    · exact (declare_builds _).bind fun _ ↦ ih _

theorem flagAttrs_builds (w : World) (b : Enumeration.Base) (members : List (String × Object)) :
    Building (flagAttrs w b members) :=
  (declare_builds _).bind fun _ ↦ Moves.pure _

theorem enumFunction_builds (name qualname : String) : Building (enumFunction name qualname) :=
  (machineFunction_builds _ _ _ _).bind fun _ ↦ Moves.pure _

theorem memberTables_builds (w : World) (b : Enumeration.Base) (members : List (String × Object)) :
    Building (memberTables w b members) := by
  refine Moves.join (fun newMember ↦ ?_)
    (fun rest ↦ (enumFunction_builds _ _).bind fun _ ↦ (Moves.pure _).bind rest)
    (fun rest ↦ (declare_builds _).bind fun _ ↦ (Moves.pure _).bind rest)
  refine freshTag_builds.bind fun _ ↦ freshTag_builds.bind fun _ ↦ ?_
  exact freshTag_builds.bind fun _ ↦ freshTag_builds.bind fun _ ↦ Moves.pure _

theorem valueWriter_builds (b : Enumeration.Base) : Building (valueWriter b) := by
  simp only [valueWriter]
  split
  · exact Moves.pure _
  · exact (declare_builds _).bind fun _ ↦ Moves.pure _

theorem newEnumeration_builds (d : ClassDeclaration) (base : EntityId)
    (attrs : List (String × Object)) : Building (newEnumeration d base attrs) := by
  refine Moves.get.bind fun w ↦ ?_
  dsimp only
  refine (enumFunction_builds _ _).bind fun nextValue ↦ (newClass_builds _ _ _ _).bind fun id ↦ ?_
  refine (newMembers_builds _ _ _ _).bind fun members ↦ ?_
  refine Moves.get.bind fun v ↦ (memberTables_builds _ _ _).bind fun tables ↦ ?_
  refine (valueWriter_builds _).bind fun writer ↦ ?_
  refine Moves.join (fun flags ↦ ?_)
    (fun rest ↦ Moves.get.bind fun _ ↦ (flagAttrs_builds _ _ _).bind rest)
    (fun rest ↦ (Moves.pure _).bind rest)
  refine Moves.join (fun functions ↦ ?_)
    (fun rest ↦ Moves.bind (Moves.mapM fun _ _ ↦ enumFunction_builds _ _) rest)
    (fun rest ↦ (Moves.pure _).bind rest)
  refine (enumFunction_builds _ _).bind fun new ↦ ?_
  exact (setAll_builds id _).bind fun _ ↦ Moves.pure _

end Classes

/-! ### Universes -/

section Universes

theorem evalNamed_builds (scope : Scope) (members : List (String × Expression)) :
    Building (evalNamed scope members) :=
  Moves.mapM fun m _ ↦ (m.2.eval_builds scope).bind fun _ ↦ Moves.pure _

theorem evalOption_builds (scope : Scope) (e : Expression) : Building (evalOption scope e) := by
  simp only [evalOption]
  split
  · exact (e.eval_builds scope).bind fun _ ↦ Moves.pure _
  · exact Moves.pure _

theorem evalField_builds (scope : Scope) (f : FieldExpression) : Building (evalField scope f) := by
  refine (f.ascription.eval_builds scope).bind fun _ ↦ (evalOption_builds scope _).bind fun _ ↦ ?_
  exact (evalOption_builds scope _).bind fun _ ↦ Moves.pure _

theorem newObject_builds (scope : Scope) (d : ObjectDeclaration) : Building (newObject scope d) := by
  cases d with
  | «class» d bases members asked isFinal =>
    refine (Moves.mapM fun b _ ↦ b.eval_builds scope).bind fun bases ↦ ?_
    refine (evalNamed_builds scope members).bind fun attrs ↦ ?_
    refine (evalOption_builds scope asked).bind fun asked ↦ (newClass_builds _ _ _ _).bind fun id ↦ ?_
    refine Moves.ite ?_ (Moves.pure _)
    exact (update_builds id _ (Entity.keepsModules_setAttr _ _)).bind fun _ ↦ Moves.pure _
  | enumeration d base members =>
    refine (base.eval_builds scope).bind fun base ↦ (evalNamed_builds scope members).bind fun _ ↦ ?_
    exact (newEnumeration_builds _ _ _).bind fun _ ↦ Moves.pure _
  | record d bases fields members =>
    refine (Moves.mapM fun b _ ↦ b.eval_builds scope).bind fun bases ↦ ?_
    refine (Moves.mapM fun f _ ↦ evalField_builds scope f).bind fun fields ↦ ?_
    refine (evalNamed_builds scope members).bind fun _ ↦ ?_
    exact (newRecord_builds _ _ _ _).bind fun _ ↦ Moves.pure _
  | tupleClass d plain fields members =>
    refine (Moves.mapM fun f _ ↦ evalField_builds scope f).bind fun fields ↦ ?_
    refine (evalNamed_builds scope members).bind fun _ ↦ ?_
    exact (newTupleClass_builds _ _ _ _).bind fun _ ↦ Moves.pure _
  | typeVariable kind name home variance =>
    exact (newText?_builds _).bind fun _ ↦ (declare_builds _).bind fun _ ↦ Moves.pure _
  | value e => exact e.eval_builds scope

theorem newObjects_builds (scope : Scope) (objects : List (String × ObjectDeclaration)) :
    Building (newObjects scope objects) := by
  induction objects generalizing scope with
  | nil => exact Moves.pure _
  | cons entry rest ih => exact (newObject_builds scope entry.2).bind fun o ↦ ih _

theorem setAttr_builds (o : Object) (name : String) (value : Object) :
    Building (setAttr o name value) := by
  simp only [setAttr]
  split
  · exact update_builds _ _ (Entity.keepsModules_withName name value)
  · exact Moves.get.bind fun w ↦ fail_moves _ _

theorem evalAnswer_builds (scope : Scope) (d : AnswerDeclaration) : Building (evalAnswer scope d) := by
  cases d with
  | object e => exact (e.eval_builds scope).bind fun _ ↦ Moves.pure _
  | failure r => exact Moves.pure _

theorem fillModule_builds (scope : Scope) (d : ModuleDeclaration) : Building (fillModule scope d) := by
  simp only [fillModule]
  split
  · exact Moves.pure _
  · next id _ =>
    refine Moves.bind (Moves.mapM fun a _ ↦ ?_) fun answers ↦ ?_
    · exact Moves.bind (Moves.mapM fun d _ ↦ evalAnswer_builds scope d) fun _ ↦ Moves.pure _
    · refine (update_builds id _ (Entity.keepsModules_withAnswers answers)).bind fun _ ↦ ?_
      refine Moves.bind (Moves.forIn fun m _ _ ↦ ?_) fun _ ↦ Moves.pure _
      refine (m.2.eval_builds scope).bind fun o ↦ ?_
      exact (update_builds id _ (Entity.keepsModules_setAttr m.1 o)).bind fun _ ↦ Moves.pure _

theorem registrations_builds (scope : Scope) (d : UniverseDeclaration) :
    Building (registrations scope d) := by
  refine Moves.bind (Moves.mapM fun m _ ↦ (m.1.eval_builds scope).bind fun _ ↦
    (m.2.1.eval_builds scope).bind fun _ ↦ Moves.pure _) fun mixins ↦ ?_
  exact Moves.bind (Moves.mapM fun f _ ↦ (f.1.eval_builds scope).bind fun _ ↦ Moves.pure _)
    fun definitions ↦ Moves.pure _

/-- If the question gives an entity, that is a module. -/
def GivesModule (q : Query EntityId) : Prop :=
  ∀ w id v, q w = (.ok id, v) → v.isModule (.entity id)

theorem GivesModule.bind {α : Type} {q : Query α} {f : α → Query EntityId}
    (h : ∀ a, GivesModule (f a)) : GivesModule (q >>= f) := by
  intro w id v hrun
  obtain ⟨a, u, -, hrun⟩ := run_bind_eq_ok_iff.mp hrun
  exact h a u id v hrun

theorem declare_givesModule (m : ModuleFacts) (attrs : List (String × Object)) :
    GivesModule (declare { shape := .module m, attrs }) :=
  fun w id v hrun ↦ isModule_entity_iff.mpr ⟨_, m, (declare_run _ w).2 id v hrun, rfl⟩

/-- A module with a file or without one, and with parts or without any, is a module. -/
theorem newDeclaredModule_givesModule (d : ModuleDeclaration) :
    GivesModule (newDeclaredModule d) := by
  refine .bind fun doc ↦ ?_
  dsimp only
  split
  · refine .bind fun _ ↦ .bind fun file ↦ ?_
    split
    · exact .bind fun _ ↦ .bind fun path ↦ declare_givesModule _ _
    · exact .bind fun path ↦ declare_givesModule _ _
  · refine .bind fun file ↦ ?_
    split
    · exact .bind fun _ ↦ .bind fun path ↦ declare_givesModule _ _
    · exact .bind fun path ↦ declare_givesModule _ _

theorem newDeclaredModule_builds (d : ModuleDeclaration) : Building (newDeclaredModule d) := by
  refine (newText?_builds _).bind fun doc ↦ ?_
  dsimp only
  split
  · refine (newAtom_builds _).bind fun _ ↦ (Moves.pure _).bind fun file ↦ ?_
    split
    · exact freshTag_builds.bind fun _ ↦ (Moves.pure _).bind fun path ↦ declare_builds _
    · exact (Moves.pure _).bind fun path ↦ declare_builds _
  · refine (Moves.pure _).bind fun file ↦ ?_
    split
    · exact freshTag_builds.bind fun _ ↦ (Moves.pure _).bind fun path ↦ declare_builds _
    · exact (Moves.pure _).bind fun path ↦ declare_builds _

/-- The modules of a universe, by name. -/
def newDeclaredModules (modules : List ModuleDeclaration) : Query (List (String × EntityId)) :=
  modules.mapM fun m ↦ do return (m.name, ← newDeclaredModule m)

theorem newDeclaredModules_builds (modules : List ModuleDeclaration) :
    Building (newDeclaredModules modules) :=
  Moves.mapM fun m _ ↦ (newDeclaredModule_builds m).bind fun _ ↦ Moves.pure _

/-- Once all modules of a universe are declared, they are modules. -/
theorem isModule_of_newDeclaredModules {modules : List ModuleDeclaration} {w v : World}
    {ids : List (String × EntityId)} (h : newDeclaredModules modules w = (.ok ids, v)) :
    ∀ m ∈ ids, v.isModule (.entity m.2) := by
  induction modules generalizing w ids with
  | nil =>
    cases h
    intro m hm
    cases hm
  | cons d rest ih =>
    rw [newDeclaredModules, List.mapM_cons] at h
    obtain ⟨m, u, hm, h⟩ := run_bind_eq_ok_iff.mp h
    obtain ⟨id, u, hid, hpure⟩ := run_bind_eq_ok_iff.mp hm
    cases hpure
    obtain ⟨others, t, hothers, hpure⟩ := run_bind_eq_ok_iff.mp h
    cases hpure
    have hrest := newDeclaredModules_builds rest u
    rw [newDeclaredModules, hothers] at hrest
    intro m hm
    rcases List.mem_cons.mp hm with rfl | hm
    · exact hrest.isModule id (newDeclaredModule_givesModule d w id u hid)
    · exact ih hothers m hm

/-- What is declared once there are modules: the objects, the names of the modules, further names and
registrations. -/
def fillUniverse (d : UniverseDeclaration) (ids : List (String × EntityId)) :
    Query (Scope × Trackers) := do
  let scope ← newObjects { modules := ids } d.objects
  for m in d.modules do fillModule scope m
  for s in d.sets do setAttr (← s.1.eval scope) s.2.1 (← s.2.2.eval scope)
  let trackers ← registrations scope d
  return (scope, trackers)

theorem fillUniverse_builds (d : UniverseDeclaration) (ids : List (String × EntityId)) :
    Building (fillUniverse d ids) := by
  refine (newObjects_builds _ _).bind fun scope ↦ ?_
  refine Moves.bind (Moves.forIn fun m _ _ ↦ ?_) fun _ ↦ ?_
  · exact (fillModule_builds scope m).bind fun _ ↦ Moves.pure _
  refine Moves.bind (Moves.forIn fun s _ _ ↦ ?_) fun _ ↦ ?_
  · refine (s.1.eval_builds scope).bind fun _ ↦ (s.2.2.eval_builds scope).bind fun _ ↦ ?_
    exact (setAttr_builds _ _ _).bind fun _ ↦ Moves.pure _
  exact (registrations_builds scope d).bind fun _ ↦ Moves.pure _

/-- The table of a world in which a universe was declared. -/
def withModules (d : UniverseDeclaration) (ids : List (String × EntityId)) (w : World) : World :=
  { w with
    modules := moduleTable d ids
    dormant := (d.modules.filter ModuleDeclaration.isDormant).filterMap fun m ↦
      (ids.lookup m.name).map fun id ↦ ⟨m.name, id, m.failure⟩
    importing := d.importing }

theorem newUniverse_eq (d : UniverseDeclaration) : newUniverse d = (do
    let ids ← newDeclaredModules d.modules
    let answer ← fillUniverse d ids
    modify (withModules d ids)
    return answer) := by
  simp only [newUniverse, fillUniverse, newDeclaredModules, bind_assoc, pure_bind]
  rfl

theorem tabled_withModules {d : UniverseDeclaration} {ids : List (String × EntityId)} {w : World}
    (hids : ∀ m ∈ ids, w.isModule (.entity m.2))
    (hstandard : ∀ n ∈ Standard.moduleNames, w.isModule (.entity (.standardModule n))) :
    (withModules d ids w).Tabled where
  loaded m hm := by
    rcases List.mem_append.mp hm with hm | hm
    · obtain ⟨a, -, hlookup⟩ := List.mem_filterMap.mp hm
      obtain ⟨id, hid, rfl⟩ := Option.map_eq_some_iff.mp hlookup
      exact hids _ (Table.mem_of_lookup hid)
    · obtain ⟨n, hn, rfl⟩ := List.mem_map.mp hm
      have hmem := (List.mem_filter.mp hn).1
      split at hmem
      · exact hstandard n hmem
      · exact hstandard n (List.contains_iff_mem.mp (List.mem_filter.mp hmem).2)
  dormant x hx := by
    obtain ⟨a, -, hlookup⟩ := List.mem_filterMap.mp hx
    obtain ⟨id, hid, rfl⟩ := Option.map_eq_some_iff.mp hlookup
    exact hids _ (Table.mem_of_lookup hid)

end Universes

end Query

namespace World

/-- The modules of the standard environment are modules from the start. -/
theorem isModule_standardModule {n : String} (h : n ∈ Standard.moduleNames) :
    ({} : World).isModule (.entity (.standardModule n)) := by
  obtain ⟨m, hm, hname⟩ := List.mem_map.mp h
  have hsome : (Standard.moduleEntities.lookup n).isSome :=
    List.lookup_isSome_iff.mpr ⟨_, List.mem_map_of_mem hm, beq_iff_eq.mpr hname.symm⟩
  obtain ⟨e, he⟩ := Option.isSome_iff_exists.mp hsome
  obtain ⟨k, -, heq⟩ := List.mem_map.mp (Table.mem_of_lookup he)
  obtain ⟨-, rfl⟩ := Prod.mk.inj heq
  exact isModule_entity_iff.mpr ⟨_, {}, he, rfl⟩

/-- The world in which a universe is declared; only what could be declared is there if something could
not. -/
def declaredBy (d : UniverseDeclaration) : World :=
  (Query.newUniverse d {}).2

/-- What is loaded in a declared world, or can be loaded, is a module, and nothing is remembered. -/
theorem tabled_declaredBy (d : UniverseDeclaration) :
    (declaredBy d).Tabled ∧ (declaredBy d).notModules = [] := by
  have untouched {v : World} (h : ({} : World).Builds v) : v.Tabled ∧ v.notModules = [] := by
    refine ⟨⟨fun m hm ↦ ?_, fun x hx ↦ ?_⟩, h.notModules⟩
    · rw [h.modules] at hm
      cases hm
    · rw [h.dormant] at hx
      cases hx
  rw [declaredBy, Query.newUniverse_eq, run_bind]
  have hfirst := Query.newDeclaredModules_builds d.modules {}
  rcases hmodules : Query.newDeclaredModules d.modules {} with ⟨r | ids, u⟩
  · rw [hmodules] at hfirst
    exact untouched hfirst
  · rw [hmodules] at hfirst
    dsimp only
    rw [run_bind]
    have hthen := Query.fillUniverse_builds d ids u
    rcases hfill : Query.fillUniverse d ids u with ⟨r | answer, v⟩
    · rw [hfill] at hthen
      exact untouched (trans_of Builds hfirst hthen)
    · rw [hfill] at hthen
      have hbuilds := trans_of Builds hfirst hthen
      exact ⟨Query.tabled_withModules
        (fun m hm ↦ hthen.isModule _ (Query.isModule_of_newDeclaredModules hmodules m hm))
        (fun n hn ↦ hbuilds.isModule _ (isModule_standardModule hn)), hbuilds.notModules⟩

end World

end DeclClosure

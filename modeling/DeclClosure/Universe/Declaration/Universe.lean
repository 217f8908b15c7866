import DeclClosure.Tracker.Definitions
import DeclClosure.Tracker.Mixins
import DeclClosure.Universe.Declaration.Enumeration
import DeclClosure.Universe.Declaration.Record

/-!
# Declaring a universe

A universe is declared in this order: the modules without their names, the objects, each of which
may refer to earlier ones, the names of the modules, further names of any object, and the
registrations of mixins and of definition sites.
-/

namespace DeclClosure

/-- An answer of a module, as it is declared. -/
inductive AnswerDeclaration where
  | object (value : Expression)
  | failure (raised : Raised)
deriving Repr

/-- What the declaration of a module says. -/
structure ModuleDeclaration where
  /-- The name. -/
  name : String
  /-- The file. -/
  file : Option String := none
  /-- Where its parts are, if it is a package. -/
  path : Option (List String) := none
  /-- The documentation. -/
  doc : Option String := none
  /-- The names. -/
  members : List (String × Expression) := []
  /-- The names that the module computes, with their answers. -/
  answers : List (String × List AnswerDeclaration) := []
  /-- The module is not loaded. -/
  isDormant : Bool := false
  /-- Loading fails in this way. -/
  failure : Option Raised := none
deriving Repr

/-- A field, as it is declared. -/
structure FieldExpression where
  /-- The name. -/
  name : String
  /-- The type. -/
  ascription : Expression
  /-- The default. -/
  default : Expression := .absent
  /-- What makes a default. -/
  factory : Expression := .absent
deriving Repr

/-- A declared object. -/
inductive ObjectDeclaration where
  | class (d : ClassDeclaration) (bases : List Expression) (members : List (String × Expression))
    (asked : Expression) (isFinal : Bool)
  | enumeration (d : ClassDeclaration) (base : Expression) (members : List (String × Expression))
  | record (d : ClassDeclaration) (bases : List Expression) (fields : List FieldExpression)
    (members : List (String × Expression))
  | tupleClass (d : ClassDeclaration) (plain : Bool) (fields : List FieldExpression)
    (members : List (String × Expression))
  | typeVariable (kind : TypeVariableKind) (name : String) (module : Option String)
    (variance : Variance)
  | value (e : Expression)
deriving Repr

/-- The declaration of a universe. -/
structure UniverseDeclaration where
  /-- The modules. -/
  modules : List ModuleDeclaration := []
  /-- The objects by the names of their declarations. -/
  objects : List (String × ObjectDeclaration) := []
  /-- Further names: the object that gets one, the name, and what it stands for. -/
  sets : List (Expression × String × Expression) := []
  /-- Registered mixins: the target, the mixin, the kind and the location. -/
  mixins : List (Expression × Expression × MixinKind × String) := []
  /-- Registered definition sites. -/
  definitions : List (Expression × String) := []
  /-- The standard modules that are loaded. -/
  standardModules : List String := []
  /-- Modules are loaded when a name asks for them. -/
  importing : Bool := false
deriving Repr

/-- What was registered. -/
structure Trackers where
  /-- Mixins. -/
  mixins : MixinTracker := { installed := true }
  /-- Definition sites. -/
  definitions : DefinitionTracker := {}
deriving Repr

namespace Query

/-- A declared module, without its own names. -/
def newDeclaredModule (d : ModuleDeclaration) : Query EntityId := do
  let doc ← newText? d.doc
  let file ← match d.file with
    | some f => do pure [("__file__", ← newAtom (.text f))]
    | none => pure []
  let path ← match d.path with
    | some ps => do pure [("__path__", Object.list (← freshTag) (ps.map World.ownText))]
    | none => pure []
  declare { shape := .module {}, attrs := moduleAttrs d.name doc ++ file ++ path }

/-- The objects of some named expressions. -/
def evalNamed (scope : Scope) (members : List (String × Expression)) :
    Query (List (String × Object)) :=
  members.mapM fun m ↦ do return (m.1, ← m.2.eval scope)

/-- The object of an expression that may be absent. -/
def evalOption (scope : Scope) (e : Expression) : Query (Option Object) := do
  if e.isPresent then return some (← e.eval scope) else return none

/-- A declared field. -/
def evalField (scope : Scope) (f : FieldExpression) : Query FieldDeclaration := do
  return ⟨f.name, ← f.ascription.eval scope, ← evalOption scope f.default,
    ← evalOption scope f.factory⟩

/-- Declares an object. -/
def newObject (scope : Scope) : ObjectDeclaration → Query Object
  | .class d bases members asked isFinal => do
    let bases ← bases.mapM fun b ↦ b.eval scope
    let attrs ← evalNamed scope members
    let asked ← evalOption scope asked
    let id ← newClass d bases (asked.bind Object.entity?) attrs
    if isFinal then
      modify fun w ↦ w.update id (fun e ↦ e.setAttr "__final__" (.bool true))
        (Entity.keepsKin_setAttr _ _)
    return .entity id
  | .enumeration d base members => do
    let base ← base.eval scope
    let attrs ← evalNamed scope members
    return .entity (← newEnumeration d (base.entity?.getD (.standard "enum.Enum")) attrs)
  | .record d bases fields members => do
    let bases ← bases.mapM fun b ↦ b.eval scope
    let fields ← fields.mapM (evalField scope)
    return .entity (← newRecord d bases fields (← evalNamed scope members))
  | .tupleClass d plain fields members => do
    let fields ← fields.mapM (evalField scope)
    return .entity (← newTupleClass d plain fields (← evalNamed scope members))
  | .typeVariable kind name module variance => do
    let home ← newText? module
    return .entity (← declare {
      shape := .typeVariable kind name variance
      attrs := [("__module__", home)] })
  | .value e => e.eval scope

/-- Declares some objects, each of which may refer to those before it. -/
def newObjects (scope : Scope) : List (String × ObjectDeclaration) → Query Scope
  | [] => return scope
  | (id, d) :: rest => do
    let o ← newObject scope d
    newObjects { scope with objects := scope.objects ++ [(id, o)] } rest

/-- An entity with a name set; the names of classes and functions are no part of their namespaces.
-/
def withName (name : String) (value : Object) (e : Entity) : Entity :=
  match e.shape, value.text? with
  | .class c, some s =>
    if name = "__name__" then { e with shape := .class { c with name := s } }
    else if name = "__qualname__" then { e with shape := .class { c with qualname := s } }
    else e.setAttr name value
  | .function f, some s =>
    if name = "__name__" then { e with shape := .function { f with name := s } }
    else if name = "__qualname__" then { e with shape := .function { f with qualname := s } }
    else e.setAttr name value
  | _, _ => e.setAttr name value

theorem keepsKin_withName (name : String) (value : Object) :
    Entity.KeepsKin (withName name value) := by
  intro e
  simp only [withName]
  split
  · next c s hc hs =>
    have hkin : e.kin? = some c.kin := by
      simp only [Entity.kin?, Entity.class?]
      rw [hc]
      rfl
    split
    · exact hkin.symm
    · split
      · exact hkin.symm
      · exact Entity.keepsKin_setAttr name value e
  · next f s hf hs =>
    have hkin : e.kin? = none := by
      simp only [Entity.kin?, Entity.class?]
      rw [hf]
      rfl
    split
    · exact hkin.symm
    · split
      · exact hkin.symm
      · exact Entity.keepsKin_setAttr name value e
  · exact Entity.keepsKin_setAttr name value e

/-- Sets a name of an object. -/
def setAttr (o : Object) (name : String) (value : Object) : Query Unit := do
  match o.entity? with
  | some id => modify fun w ↦ w.update id (withName name value) (keepsKin_withName name value)
  | none =>
    let w ← get
    fail "AttributeError" (Text.quoted (w.className (w.classOf o)) ++ " object has no attribute "
      ++ Text.quoted name)

/-- Takes a name off an object, which must have it itself. -/
def deleteAttr (o : Object) (name : String) : Query Unit := do
  let w ← get
  let own := (o.entity?.bind w.entity?).bind fun e ↦ e.attr? name
  match o.entity?, own with
  | some id, some _ =>
    modify fun w ↦ w.update id (fun e ↦ e.deleteAttr name) (Entity.keepsKin_deleteAttr name)
  | _, _ =>
    let subject :=
      match w.asClass? o with
      | some (_, c) => "type object " ++ Text.quoted c.name
      | none => Text.quoted (w.className (w.classOf o)) ++ " object"
    fail "AttributeError" (subject ++ " has no attribute " ++ Text.quoted name)

/-- An answer of a module. -/
def evalAnswer (scope : Scope) : AnswerDeclaration → Query Answer
  | .object e => do return .object (← e.eval scope)
  | .failure r => return .failure r

/-- A module with the names that it computes. -/
def withAnswers (answers : List (String × List Answer)) (e : Entity) : Entity :=
  match e.shape with
  | .module m => { e with shape := .module { m with answers } }
  | _ => e

theorem keepsKin_withAnswers (answers : List (String × List Answer)) :
    Entity.KeepsKin (withAnswers answers) := by
  rintro ⟨_ | _ | _ | _ | _ | _ | _ | _, attrs⟩ <;> rfl

/-- Gives a module its names. -/
def fillModule (scope : Scope) (d : ModuleDeclaration) : Query Unit := do
  match scope.modules.lookup d.name with
  | none => return ()
  | some id =>
    let answers ← d.answers.mapM fun a ↦ do return (a.1, ← a.2.mapM (evalAnswer scope))
    modify fun w ↦ w.update id (withAnswers answers) (keepsKin_withAnswers answers)
    for m in d.members do
      let o ← m.2.eval scope
      modify fun w ↦ w.update id (fun e ↦ e.setAttr m.1 o) (Entity.keepsKin_setAttr m.1 o)

/-- The registrations of a universe. -/
def registrations (scope : Scope) (d : UniverseDeclaration) : Query Trackers := do
  let mixins ← d.mixins.mapM fun m ↦ do
    return (← m.1.eval scope, ← m.2.1.eval scope, m.2.2)
  let definitions ← d.definitions.mapM fun f ↦ do return (← f.1.eval scope, f.2)
  let start : Trackers := {}
  return {
    mixins := mixins.foldl (fun t m ↦ t.register m.1 m.2.1 m.2.2.1 m.2.2.2) start.mixins
    definitions := definitions.foldl (fun t f ↦ t.register f.1 f.2) start.definitions }

/-- The table of loaded modules: the standard ones that are loaded, and those that are declared and
not dormant. -/
def moduleTable (d : UniverseDeclaration) (ids : List (String × EntityId)) :
    List (String × EntityId) :=
  let standard := if d.importing then Standard.moduleNames
    else d.standardModules.filter Standard.moduleNames.contains
  let own := (d.modules.filter fun m ↦ !m.isDormant).filterMap fun m ↦
    (ids.lookup m.name).map fun id ↦ (m.name, id)
  own ++ (standard.filter fun n ↦ (own.lookup n).isNone).map fun n ↦ (n, .standardModule n)

/-- Declares a universe. -/
def newUniverse (d : UniverseDeclaration) : Query (Scope × Trackers) := do
  let ids ← d.modules.mapM fun m ↦ do return (m.name, ← newDeclaredModule m)
  let scope ← newObjects { modules := ids } d.objects
  for m in d.modules do fillModule scope m
  for s in d.sets do setAttr (← s.1.eval scope) s.2.1 (← s.2.2.eval scope)
  let trackers ← registrations scope d
  modify fun w ↦ { w with
    modules := moduleTable d ids
    dormant := (d.modules.filter ModuleDeclaration.isDormant).filterMap fun m ↦
      (ids.lookup m.name).map fun id ↦ ⟨m.name, id, m.failure⟩
    importing := d.importing }
  return (scope, trackers)

end Query

end DeclClosure

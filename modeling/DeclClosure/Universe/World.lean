import DeclClosure.Universe.Population

/-!
# Worlds

A world holds the declared entities, the table of loaded modules, and what there is to say about the
modules that are still dormant. Requests to the world may load modules, may make a module compute a
name, and may fail; so a question to the world is a `Query`: it may change the world, and what it
changed stays changed when it fails. All that only depends on what has been declared is a plain
function.
-/

namespace DeclClosure

/-- Something worth noting during a run. -/
inductive Note where
  | importFailed (name message : String)
  | compiling (unit : String) (pending : Nat)
  | compiled (unit : String) (processed declared : Nat)
  | payloadSymbol (name : String)
  | unresolved (name : String)
  | skippedConstant (name reason : String)
  | notInUnit (name unit : String)
  | skippedModule (name message : String)
  | undeclaredSeed (name : String)
  | undeclaredSeeds (missing total : Nat) (unit : String)
deriving DecidableEq, Repr

namespace Note

/-- How much a note matters. -/
def level : Note → String
  | .compiling _ _ | .compiled _ _ _ | .undeclaredSeeds _ _ _ => "INFO"
  | .skippedModule _ _ => "WARNING"
  | _ => "DEBUG"

/-- The wording of a note. -/
def message : Note → String
  | .importFailed name message => "Importing " ++ name ++ " failed: " ++ message
  | .compiling unit pending =>
    "Compiling " ++ unit ++ " (" ++ toString pending ++ " pending events)"
  | .compiled unit processed declared =>
    "Compiled " ++ unit ++ ": " ++ toString processed ++ " events, " ++ toString declared
      ++ " declarations"
  | .payloadSymbol name => "Skipping payload symbol " ++ name
  | .unresolved name => "Could not resolve " ++ name
  | .skippedConstant name reason => "Skipping constant " ++ name ++ ": " ++ reason
  | .notInUnit name unit => "Skipping " ++ name ++ ": not defined in " ++ unit
  | .skippedModule name message => "Skipping " ++ name ++ ": " ++ message
  | .undeclaredSeed name => "Seed " ++ name ++ " produced no declaration"
  | .undeclaredSeeds missing total unit =>
    toString missing ++ " of " ++ toString total ++ " seeds in " ++ unit ++ " were not declared"

/-- A note as a line of a log. -/
def line (n : Note) : String :=
  n.level ++ " " ++ n.message

end Note

/-- A module that can be loaded by its name. -/
structure Dormant where
  /-- The name. -/
  name : String
  /-- The module. -/
  module : EntityId
  /-- Loading fails in this way. -/
  failure : Option Raised := none
deriving Repr

/-- A world. -/
structure World where
  /-- The declared entities by index. -/
  declared : Array Entity := #[]
  /-- The standard entities that were changed. -/
  changed : List (EntityId × Entity) := []
  /-- Every class is younger than its bases, and neither classes nor modules are members of
  enumerations. -/
  grounded : Grounded (Population.kin? declared changed) :=
    by exact Population.grounded_standard
  /-- The loaded modules by name. -/
  modules : List (String × EntityId) := []
  /-- The modules that can be loaded. -/
  dormant : List Dormant := []
  /-- Modules are loaded when a name asks for them. -/
  importing : Bool := false
  /-- Names that turned out to name no module. -/
  notModules : List String := []
  /-- How often a module was asked for a name that it computes. -/
  asked : List ((EntityId × String) × Nat) := []
  /-- The tag of the next value. -/
  nextTag : Nat := 1
  /-- Notes, oldest first. -/
  notes : List Note := []
deriving Repr

/-- A question to the world. -/
abbrev Query := ExceptT Raised (StateM World)

namespace World

/-- The entity with an identity, if there is one. -/
def entity? (w : World) (id : EntityId) : Option Entity :=
  Population.entity? w.declared w.changed id

/-- What an entity has as a class, if it is one. -/
def class? (w : World) (id : EntityId) : Option ClassFacts :=
  (w.entity? id).bind Entity.class?

/-- What an object has as a class, if it is one. -/
def asClass? (w : World) (o : Object) : Option (EntityId × ClassFacts) :=
  o.entity?.bind fun id ↦ (w.class? id).map fun c ↦ (id, c)

/-- What an object has as a module, if it is one. -/
def asModule? (w : World) (o : Object) : Option (EntityId × Entity) := do
  let id ← o.entity?
  let e ← w.entity? id
  let _ ← e.module?
  return (id, e)

/-- What an object has as a function, if it is one. -/
def asFunction? (w : World) (o : Object) : Option (EntityId × FunctionFacts) := do
  let id ← o.entity?
  let e ← w.entity? id
  return (id, ← e.function?)

/-- The object is a class. -/
def isClass (w : World) (o : Object) : Bool :=
  (w.asClass? o).isSome

/-- The object is a module. -/
def isModule (w : World) (o : Object) : Bool :=
  (w.asModule? o).isSome

/-- The object is a class or a module. -/
def isNamespace (w : World) (o : Object) : Bool :=
  w.isClass o || w.isModule o

/-- The class and its ancestors in lookup order. -/
def linearization (w : World) (id : EntityId) : List EntityId :=
  (w.class? id).elim [] ClassFacts.linearization

/-- One class is the other or lies below it. -/
def isBelow (w : World) (id ancestor : EntityId) : Bool :=
  (w.linearization id).contains ancestor

end World

/-- The class of type variables of a kind. -/
def TypeVariableKind.className : TypeVariableKind → String
  | .single => "typing.TypeVar"
  | .parameters => "typing.ParamSpec"
  | .many => "typing.TypeVarTuple"

/-- The class of an entity of a shape. -/
def Shape.classId : Shape → EntityId
  | .module _ => .standard "module"
  | .class c => c.metaclass
  | .function _ => .standard "function"
  | .builtin _ => .standard "builtin_function_or_method"
  | .typeVariable kind _ _ => .standard kind.className
  | .instance cls | .member cls _ _ _ | .bareForm cls _ => cls

/-- The class of a value without parts. -/
def Atom.className : Atom → String
  | .none => "NoneType"
  | .ellipsis => "ellipsis"
  | .notImplemented => "NotImplementedType"
  | .missing => "dataclasses._MISSING_TYPE"
  | .bool _ => "bool"
  | .int _ => "int"
  | .float _ => "float"
  | .complex _ _ => "complex"
  | .text _ => "str"
  | .bytes _ => "bytes"

/-- The class of forms with a head. -/
def FormHead.className : FormHead → String
  | .class _ => "types.GenericAlias"
  | .union => "types.UnionType"
  | .callable => "typing._CallableGenericAlias"
  | .typingUnion => "typing._UnionGenericAlias"
  | .literal => "typing._LiteralGenericAlias"
  | .annotated => "typing._AnnotatedAlias"
  | .named _ | .special _ | .parametrized _ => "typing._GenericAlias"

namespace World

/-- The class of an object. -/
def classOf (w : World) : Object → EntityId
  | .entity id => ((w.entity? id).map fun e ↦ e.shape.classId).getD (.standard "object")
  | .atom _ a => .standard a.className
  | .tuple _ _ => .standard "tuple"
  | .list _ _ => .standard "list"
  | .set _ _ => .standard "set"
  | .dict _ _ => .standard "dict"
  | .classMethod _ _ => .standard "classmethod"
  | .staticMethod _ _ => .standard "staticmethod"
  | .property _ _ => .standard "property"
  | .bound _ => .standard "method"
  | .form _ head _ => .standard head.className
  | .forwardRef _ _ => .standard "typing.ForwardRef"

/-- The object is an instance of a class or of one below it. -/
def isInstance (w : World) (o : Object) (cls : EntityId) : Bool :=
  w.isBelow (w.classOf o) cls

/-- The name of a class. -/
def className (w : World) (id : EntityId) : String :=
  (w.class? id).elim "" ClassFacts.name

/-- The world with an entity of the standard environment changed. -/
def updateStandard (w : World) (id : EntityId) (f : Entity → Entity) (hf : Entity.KeepsKin f)
    (hid : ∀ i, id ≠ .declared i) : World :=
  match h : w.entity? id with
  | some e =>
    { w with
      changed := Population.change id (f e) w.changed
      grounded := by
        rw [Population.kin?_change hid h (hf e)]
        exact w.grounded }
  | none => w

/-- The world with an entity changed. -/
def update (w : World) (id : EntityId) (f : Entity → Entity) (hf : Entity.KeepsKin f) : World :=
  match id with
  | .declared i =>
    { w with
      declared := w.declared.modify i f
      grounded := by
        rw [Population.kin?_modify hf]
        exact w.grounded }
  | .standard key => w.updateStandard (.standard key) f hf (EntityId.standard_ne_declared key)
  | .standardModule name => w.updateStandard (.standardModule name) f hf
    (EntityId.standardModule_ne_declared name)

/-- The world with a note added. -/
def note (w : World) (n : Note) : World :=
  { w with notes := w.notes ++ [n] }

end World

namespace Query

/-- Fails with a failure of a class. -/
def fail {α : Type} (kind message : String) : Query α :=
  throw (Raised.ofKind kind message)

/-- Declares an entity. The bases of a class must be classes, and calls of its metaclass make classes.
-/
def declare (e : Entity) : Query EntityId := do
  let w ← get
  if h : Population.Admits w.declared w.changed e then
    set { w with
      declared := w.declared.push e
      grounded := Population.grounded_push w.grounded h }
    return .declared w.declared.size
  else fail "TypeError" "bases must be types"

/-- A tag that no value has yet. -/
def freshTag : Query Nat :=
  modifyGet fun w ↦ (w.nextTag, { w with nextTag := w.nextTag + 1 })

/-- Leaves a note. -/
def note (n : Note) : Query Unit :=
  modify fun w ↦ w.note n

/-- Runs a question; a failure of one of some classes gives `none`. -/
def catching {α : Type} (kinds : List String) (q : Query α) : Query (Option α) :=
  tryCatch (some <$> q) fun r ↦ if kinds.any r.isA then return none else throw r

end Query

end DeclClosure

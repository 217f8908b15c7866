import DeclClosure.Universe.Declaration.Class

/-!
# Declaring records

A record class has fields with types, and takes over the fields of its ancestors; a field that is
declared again keeps its first place. A field without a default of its own has the one that the
class finds under its name. A tuple class is a class of tuples whose fields are named.
-/

namespace DeclClosure

/-- A field as it is declared. -/
structure FieldDeclaration where
  /-- The name. -/
  name : String
  /-- The type. -/
  ascription : Object
  /-- The default, if one is given. -/
  default : Option Object := none
  /-- What makes a default, if that is given. -/
  factory : Option Object := none
deriving Repr

namespace Query

/-- The type is one for variables of the class, which are no fields. -/
def isClassVariable : Object → Bool
  | .form _ (.special "ClassVar") _ => true
  | o => o.same (.standard "typing.ClassVar")

/-- Puts a field into a list of fields: in the place of one of the same name, or at the end. -/
def putField (f : Field) : List Field → List Field
  | [] => [f]
  | g :: gs => if g.name = f.name then f :: gs else g :: putField f gs

/-- The fields of the ancestors of a class, the nearest ancestor winning. -/
def inheritedFields (w : World) (id : EntityId) : List Field :=
  (((w.linearization id).drop 1).reverse.filterMap fun a ↦ (w.class? a).bind ClassFacts.fields).foldl
    (fun fields more ↦ more.foldl (fun fs f ↦ putField f fs) fields) []

/-- A declared field with its default. -/
def fieldOf (w : World) (id : EntityId) (d : FieldDeclaration) : Field where
  name := d.name
  ascription := d.ascription
  default := ((d.default.or d.factory).or (w.attr? (.entity id) d.name)).getD .missing

/-- The types of some fields by name. -/
def fieldTypes (fields : List FieldDeclaration) : Query Object := do
  return .dict (← freshTag) (fields.map fun f ↦ (World.ownText f.name, f.ascription))

/-- The functions that a record has unless it defines them itself. -/
def recordFunctions (d : ClassDeclaration) (attrs : List (String × Object)) :
    Query (List (String × Object)) := do
  let module ← newText? d.module
  (["__init__", "__repr__", "__eq__"].filter fun n ↦ (attrs.lookup n).isNone).mapM fun n ↦ do
    return (n, ← machineFunction n (Name.within d.qualname n) machineFile module)

/-- Sets the fields of a class. -/
def withFields (fields : List Field) (e : Entity) : Entity :=
  match e.shape with
  | .class c => { e with shape := .class { c with fields := some fields } }
  | _ => e

theorem keepsKin_withFields (fields : List Field) (attrs : List (String × Object)) :
    Entity.KeepsKin fun e ↦ setAll (withFields fields e) attrs := by
  intro e
  rw [Entity.kin?_congr (shape_setAll (withFields fields e) attrs)]
  rcases e with ⟨_ | _ | _ | _ | _ | _ | _ | _, attrs⟩ <;> rfl

/-- Declares a record class. -/
def newRecord (d : ClassDeclaration) (bases : List Object) (fields : List FieldDeclaration)
    (members : List (String × Object)) : Query EntityId := do
  let defaults := fields.filterMap fun f ↦ f.default.map fun o ↦ (f.name, o)
  let types ← fieldTypes fields
  let attrs := ("__annotations__", types) :: defaults ++ members
  let id ← newClass d bases none attrs
  let w ← get
  let own := (fields.filter fun f ↦ !isClassVariable f.ascription).map (fieldOf w id)
  let all := own.foldl (fun fs f ↦ putField f fs) (inheritedFields w id)
  let functions ← recordFunctions d attrs
  modify fun w ↦ w.update id (fun e ↦ setAll (withFields all e) functions)
    (keepsKin_withFields all functions)
  return id

/-- A type of a tuple class: a text is a name to be looked up later. -/
def tupleFieldType (f : FieldDeclaration) : FieldDeclaration :=
  { f with ascription := f.ascription.asType }

/-- The functions of a tuple class, all but the two that make one. -/
def tupleFunctions : List String := ["_replace", "__repr__", "_asdict", "__getnewargs__"]

/-- The names that a tuple class has. -/
def tupleAttrs (name : String) (fields : List FieldDeclaration) : Query (List (String × Object)) := do
  let home := World.ownText "collections"
  let make (n : String) : Query Object := machineFunction n (Name.within name n) machineFile home
  let new ← make "__new__"
  let build ← make "_make"
  let functions ← tupleFunctions.mapM fun n ↦ do return (n, ← make n)
  let getters ← fields.mapM fun f ↦ do
    let id ← declare { shape := .instance (.standard "_collections._tuplegetter") }
    return (f.name, Object.entity id)
  let defaults := fields.filterMap fun f ↦ f.default.map fun o ↦ (World.ownText f.name, o)
  return [("_fields", ← newTuple (fields.map fun f ↦ World.ownText f.name)),
      ("_field_defaults", .dict (← freshTag) defaults),
      ("__new__", .staticMethod (← freshTag) new), ("_make", .classMethod (← freshTag) build)]
    ++ functions ++ getters

/-- Declares a tuple class; `plain` ones have no types. -/
def newTupleClass (d : ClassDeclaration) (plain : Bool) (fields : List FieldDeclaration)
    (members : List (String × Object)) : Query EntityId := do
  let attrs ← tupleAttrs d.name fields
  let types ←
    if plain then pure []
    else pure [("__annotations__", ← fieldTypes (fields.map tupleFieldType))]
  newClass d [.standard "tuple"] none (attrs ++ types ++ members)

end Query

end DeclClosure

import DeclClosure.Symbol.Name
import DeclClosure.Text.Quoted
import DeclClosure.Universe.Entity
import DeclClosure.Universe.Standard.Names

/-!
# Entities of the standard environment

The standard environment as entities: its classes and modules, the methods that keep classes
abstract, and the functions and type forms that its modules have.
-/

namespace DeclClosure.Standard

/-- A text of the standard environment. -/
def text (s : String) : Object := .atom 0 (.text s)

/-- The qualified name of something in a module. -/
def qualified (home name : String) : String :=
  if home = Name.rootName then name else Name.within home name

/-- The place of the source of a module. -/
def sourceFile (module : String) : String :=
  "/lib/std/" ++ module ++ ".src"

/-- The methods of a class, by name. -/
def methodAttrs (key : String) : List (String × Object) :=
  ((abstractMethods.lookup key).getD [] ++ (methods.lookup key).getD []).map fun n ↦
    (n, .standard (Name.within key n))

/-- The other names that some classes have. -/
def moreAttrs (key : String) : List (String × Object) :=
  if key = "typing.Generic" then [("_is_protocol", .bool false)]
  else if key = "typing.Protocol" then [("_is_protocol", .bool true), ("__parameters__", .tuple 0 [])]
  else if key = "inspect.Parameter" ∨ key = "inspect.Signature" then
    [("empty", .standard "inspect._empty")]
  else if key = "_collections._tuplegetter" then
    [("__get__", .none), ("__set__", .none), ("__delete__", .none)]
  else []

/-- The documentation of a class, if it is known. -/
def documentationOf (key : String) : Object :=
  match documentation.lookup key with
  | some s => text s
  | none => .none

/-- A class as an entity. -/
def StandardClass.entity (c : StandardClass) : Entity where
  shape := .class {
    name := Name.leaf c.name
    qualname := c.name
    bases := c.bases.map .standard
    linearization := (c.key :: c.ancestors).map .standard
    metaclass := .standard c.metaclass
    abstracts := (abstracts.lookup c.key).getD []
    moreFiles := if codedClasses.contains c.key then [sourceFile c.home] else []
    subscriptable := subscriptableClasses.contains c.key }
  attrs := [("__module__", text c.home), ("__doc__", documentationOf c.key)]
    ++ methodAttrs c.key ++ moreAttrs c.key

/-- The classes by qualified name. -/
def classEntities : List (String × Entity) :=
  classes.map fun c ↦ (c.key, c.entity)

/-- A method of a class as an entity: a function if the class has source. -/
def methodEntity (key : String) (name : String) (abstract : Bool) : Entity :=
  let qualname := Name.within (Name.leaf key) name
  if codedClasses.contains key then
    { shape := .function { name, qualname, file := sourceFile (Name.parent key), abstract } }
  else { shape := .builtin qualname }

/-- The methods by qualified name. -/
def methodEntities : List (String × Entity) :=
  (abstractMethods.flatMap fun (key, names) ↦
    names.map fun n ↦ (Name.within key n, methodEntity key n true))
  ++ methods.flatMap fun (key, names) ↦
    names.map fun n ↦ (Name.within key n, methodEntity key n false)

/-- The object that a name of a module stands for. -/
def Referent.object (home name : String) : Referent → Object
  | .class key => .standard key
  | .module m => .entity (.standardModule m)
  | .atom a => .atom 0 a
  | .function | .builtin | .form _ | .typeVariable | .thing _ => .standard (qualified home name)

/-- The entity of a name of a module, if the name stands for one that nothing else defines. -/
def Referent.entity? (home name : String) : Referent → Option Entity
  | .function =>
    some {
      shape := .function { name, qualname := name, file := sourceFile home }
      attrs := [("__module__", text home), ("__doc__", .none)] }
  | .builtin =>
    some { shape := .builtin name, attrs := [("__module__", text home), ("__doc__", .none)] }
  | .form cls => some { shape := .bareForm (.standard cls) name }
  | .typeVariable =>
    some { shape := .typeVariable .single name .invariant, attrs := [("__module__", text home)] }
  | .thing cls => some { shape := .instance (.standard cls) }
  | .class _ | .module _ | .atom _ => none

/-- The functions, forms and other things that modules have, by qualified name. -/
def thingEntities : List (String × Entity) :=
  modules.flatMap fun (home, names) ↦ names.filterMap fun (name, r) ↦
    (r.entity? home name).map fun e ↦ (qualified home name, e)

/-- A module as an entity. -/
def moduleEntity (name : String) (names : List (String × Referent)) : Entity where
  shape := .module {}
  attrs := [("__name__", text name), ("__doc__", .none), ("__package__", text (Name.parent name)),
      ("__loader__", .none), ("__spec__", .none)]
    ++ (if name = Name.rootName then [] else [("__file__", text (sourceFile name))])
    ++ (if names.any fun n ↦ n.1 == "abc" && name == "collections" then
        [("__path__", .list 0 [text "/lib/std/collections"])] else [])
    ++ names.map fun (n, r) ↦ (n, r.object name n)

/-- The modules by name. -/
def moduleEntities : List (String × Entity) :=
  modules.map fun (name, names) ↦ (name, moduleEntity name names)

/-- All entities but modules by qualified name. -/
def namedEntities : List (String × Entity) :=
  classEntities ++ methodEntities ++ thingEntities

/-- The names of the modules. -/
def moduleNames : List String :=
  modules.map (·.1)

/-- The entity with an identity, if it is a standard one. -/
def entity? : EntityId → Option Entity
  | .standard name => namedEntities.lookup name
  | .standardModule name => moduleEntities.lookup name
  | .declared _ => none

/-- The object below another one along some names. -/
def walk (o : Object) : List String → Option Object
  | [] => some o
  | n :: ns => do
    let e ← entity? (← o.entity?)
    walk (← e.attr? n) ns

/-- The object with a qualified name: below the module with the longest fitting name, or in the root
namespace. -/
def object? (name : String) : Option Object :=
  let parts := Name.segments name
  let homes := ((List.range' 1 parts.length).reverse.map fun n ↦
      (Name.ofSegments (parts.take n), parts.drop n)).filter fun h ↦ moduleNames.contains h.1
  (homes ++ [(Name.rootName, parts)]).findSome? fun (home, rest) ↦
    walk (.entity (.standardModule home)) rest

/-- The classes that a class has among its ancestors, itself included. -/
def kindsOf (key : String) : List String :=
  match classes.find? fun c ↦ c.key == key with
  | some c => key :: c.ancestors
  | none => [key]

end DeclClosure.Standard

namespace DeclClosure.Raised

/-- The failure is of a class or of one below it. -/
def isA (r : Raised) (kind : String) : Bool :=
  (Standard.kindsOf r.kind).contains kind

/-- A failure of a class with a text. A missing key is shown as a literal. -/
def ofKind (kind message : String) : Raised :=
  if (Standard.kindsOf kind).contains "KeyError" then ⟨kind, Text.quoted message⟩
  else ⟨kind, message⟩

end DeclClosure.Raised

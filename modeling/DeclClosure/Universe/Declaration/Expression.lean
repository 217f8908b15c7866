import DeclClosure.Universe.Form
import DeclClosure.Universe.Import
import DeclClosure.Universe.Written

/-!
# Expressions for objects

A universe is described by expressions for its objects: literals, references to what was declared
before, and functions, instances and type forms made on the spot. `Expression.eval` makes the
object; every evaluation makes a new one, except where there is only one of a kind.
-/

namespace DeclClosure

/-- What the declaration of a function says besides its types, defaults and wrapping. -/
structure FunctionDeclaration where
  /-- The name. -/
  name : String
  /-- The name within its module. -/
  qualname : String
  /-- The module that it says it belongs to. -/
  module : Option String
  /-- The documentation. -/
  doc : Option String := none
  /-- The names and kinds of the parameters. -/
  params : List (String × ParamKind) := []
  /-- The file of its code. -/
  file : Option String := none
  /-- The module whose names its code sees, if it is not the one it belongs to. -/
  globals : Option String := none
  /-- A class is abstract while it has this function. -/
  abstract : Bool := false
  /-- It declares a signature that is none. -/
  badSignature : Bool := false
deriving Repr, Inhabited

/-- An expression for an object. -/
inductive Expression where
  /-- No object at all. -/
  | absent
  /-- A declared object by the name of its declaration. -/
  | reference (id : String)
  | module (name : String)
  | standard (name : String)
  | atom (a : Atom)
  | tuple (items : List Expression)
  | list (items : List Expression)
  | set (items : List Expression)
  | dict (keys values : List Expression)
  | instance (cls : Expression) (names : List String) (values : List Expression)
  | member (cls : Expression) (name : String)
  /-- A new module in no table. -/
  | strayModule (name : String)
  | function (head : FunctionDeclaration) (ascriptions defaults : List Expression)
    (returns wraps : Expression)
  | classMethod (inner : Expression)
  | staticMethod (inner : Expression)
  | property (getter : Expression)
  /-- An object with arguments. -/
  | applied (head : Expression) (args : List Expression)
  | union (types : List Expression)
deriving Repr, Inhabited

/-- The names that expressions may refer to. -/
structure Scope where
  /-- The declared objects. -/
  objects : List (String × Object) := []
  /-- The modules. -/
  modules : List (String × EntityId) := []
deriving Repr

namespace Atom

/-- There is only one object of this value. -/
def isUnique : Atom → Bool
  | .int i => -5 ≤ i && i ≤ 256
  | .float _ | .complex _ _ => false
  | .text s =>
    match s.toList with
    | [] => true
    | [c] => c.toNat < 256
    | _ => false
  | .bytes bs => bs.length ≤ 1
  | _ => true

end Atom

namespace Query

/-- A value without parts. -/
def newAtom (a : Atom) : Query Object := do
  if a.isUnique then return .atom 0 a else return .atom (← freshTag) a

/-- A text, or nothing. -/
def newText? : Option String → Query Object
  | some s => newAtom (.text s)
  | none => return .none

/-- A tuple. There is only one that is empty. -/
def newTuple (items : List Object) : Query Object := do
  if items.isEmpty then return .tuple 0 [] else return .tuple (← freshTag) items

/-- The names that a new module has. -/
def moduleAttrs (name : String) (doc : Object) : List (String × Object) :=
  [("__name__", World.ownText name), ("__doc__", doc), ("__package__", .none),
    ("__loader__", .none), ("__spec__", .none)]

/-- A module that is in no table. -/
def newModule (name : String) : Query Object := do
  return .entity (← declare { shape := .module {}, attrs := moduleAttrs name .none })

/-- The module with a name. -/
def moduleNamed (scope : Scope) (name : String) : Query EntityId :=
  match scope.modules.lookup name with
  | some id => return id
  | none =>
    if Standard.moduleNames.contains name then return .standardModule name
    else fail "KeyError" name

/-- The file of a module as a text. -/
def fileOfModule (id : Option EntityId) : Query (Option String) := do
  let w ← get
  return (id.bind fun i ↦ (w.entity? i).bind fun e ↦ e.attr? "__file__").bind Object.text?

/-- The kinds that parameters have by where they stand: whatever comes before one that takes a
position only does so too, and what follows a starred one takes a keyword only. `starred` tells that
there was one before. -/
def settleKinds (starred : Bool) : List (String × ParamKind) → List (String × ParamKind)
  | [] => []
  | (name, kind) :: ps =>
    let settled :=
      if kind != .positionalOrKeyword then kind
      else if ps.any fun p ↦ p.2 == .positionalOnly then .positionalOnly
      else if starred then .keywordOnly
      else kind
    (name, settled) :: settleKinds (starred || kind == .varPositional || kind == .keywordOnly) ps

/-- Parameters from names and kinds, types and defaults. -/
def zipParams : List (String × ParamKind) → List (Option Object) → List (Option Object) →
    List FunctionParam
  | [], _, _ => []
  | (name, kind) :: ps, as, ds =>
    ⟨name, kind, as.head?.join, ds.head?.join⟩ :: zipParams ps (as.drop 1) (ds.drop 1)

/-- A function. -/
def newFunction (scope : Scope) (d : FunctionDeclaration) (ascriptions defaults : List (Option Object))
    (returns wraps : Option Object) : Query Object := do
  let globals := (d.globals.or d.module).bind fun m ↦ scope.modules.lookup m
  let file := (d.file.or (← fileOfModule globals)).getD "<nofile>"
  let doc ← newText? d.doc
  let module ← newText? d.module
  let id ← declare {
    shape := .function {
      name := d.name
      qualname := d.qualname
      params := zipParams (settleKinds false d.params) ascriptions defaults
      returns
      file
      globals
      abstract := d.abstract
      wraps := wraps.bind Object.entity?
      badSignature := d.badSignature }
    attrs := [("__module__", module), ("__doc__", doc)] }
  return .entity id

/-- The values of the classes of the language core that an instance without contents stands for. -/
def emptyValue? : EntityId → Option Atom
  | .standard "int" => some (.int 0)
  | .standard "float" => some (.float (.zero false))
  | .standard "complex" => some (.complex (.zero false) (.zero false))
  | .standard "str" => some (.text "")
  | .standard "bytes" => some (.bytes [])
  | .standard "bool" => some (.bool false)
  | _ => none

/-- An instance of a class. -/
def newInstance (cls : Object) (attrs : List (String × Object)) : Query Object := do
  match cls with
  | .entity id =>
    match emptyValue? id, id with
    | some a, _ => newAtom a
    | none, .standard "list" => return .list (← freshTag) []
    | none, .standard "tuple" => newTuple []
    | none, .standard "set" => return .set (← freshTag) []
    | none, .standard "dict" => return .dict (← freshTag) []
    | none, id => return .entity (← declare { shape := .instance id, attrs })
  | _ => fail "TypeError" "not a class"

/-- The member of an enumeration with a name. -/
def memberNamed (cls : Object) (name : String) : Query Object := do
  match (← get).attr? cls "_member_map_" with
  | some (.dict _ entries) =>
    match entries.find? fun e ↦ e.1.text? = some name with
    | some e => return e.2
    | none => fail "KeyError" name
  | _ => fail "KeyError" name

/-- A single tuple of arguments is as good as its items. -/
def spread : List Object → List Object
  | [.tuple _ items] => items
  | args => args

/-- A union of some types, from left to right. -/
def unionFrom (first : Object) : List Object → Query Object
  | [] => return first
  | o :: os => do
    let w ← get
    unionFrom (w.unionPair (← freshTag) first o) os

end Query

namespace Expression

/-- The expression is there. -/
def isPresent : Expression → Bool
  | absent => false
  | _ => true

mutual

/-- Makes the object of an expression. -/
def eval (scope : Scope) : Expression → Query Object
  | absent => return .none
  | reference id =>
    match scope.objects.lookup id with
    | some o => return o
    | none => Query.fail "KeyError" id
  | module name => do return .entity (← Query.moduleNamed scope name)
  | standard name =>
    match Standard.object? name with
    | some o => return o
    | none => Query.fail "KeyError" name
  | atom a => Query.newAtom a
  | tuple items => do Query.newTuple (← evalAll scope items)
  | list items => do
    let items ← evalAll scope items
    return .list (← Query.freshTag) items
  | set items => do
    let items ← evalAll scope items
    return .set (← Query.freshTag) (Object.dedup items)
  | dict keys values => do
    let keys ← evalAll scope keys
    let values ← evalAll scope values
    return .dict (← Query.freshTag) (keys.zip values)
  | .instance cls names values => do
    let cls ← eval scope cls
    let values ← evalAll scope values
    Query.newInstance cls (names.zip values)
  | member cls name => do Query.memberNamed (← eval scope cls) name
  | strayModule name => Query.newModule name
  | function head ascriptions defaults returns wraps => do
    let ascriptions ← evalOptions scope ascriptions
    let defaults ← evalOptions scope defaults
    let result ← eval scope returns
    let wrapped ← eval scope wraps
    Query.newFunction scope head ascriptions defaults
      (if returns.isPresent then some result else none)
      (if wraps.isPresent then some wrapped else none)
  | classMethod inner => do
    let inner ← eval scope inner
    return .classMethod (← Query.freshTag) inner
  | staticMethod inner => do
    let inner ← eval scope inner
    return .staticMethod (← Query.freshTag) inner
  | property getter => do
    let inner ← eval scope getter
    return .property (← Query.freshTag)
      (if getter.isPresent && !inner.same .none then some inner else none)
  | applied head args => do
    let head ← eval scope head
    let args := Query.spread (← evalAll scope args)
    match (← get).withArguments? (← Query.freshTag) head args with
    | some o => return o
    | none => Query.fail "TypeError" "not subscriptable"
  | union types => do
    match ← evalAll scope types with
    | [] => return .none
    | o :: os => Query.unionFrom o os

/-- Makes the objects of some expressions, in order. -/
def evalAll (scope : Scope) : List Expression → Query (List Object)
  | [] => return []
  | e :: es => do
    let o ← eval scope e
    return o :: (← evalAll scope es)

/-- Makes the objects of the expressions that are there, in order. -/
def evalOptions (scope : Scope) : List Expression → Query (List (Option Object))
  | [] => return []
  | e :: es => do
    let o ← eval scope e
    return (if e.isPresent then some o else none) :: (← evalOptions scope es)

end

end Expression

end DeclClosure

import DeclClosure.Tree.Node
import DeclClosure.Universe.Object

/-!
# Entities

An entity is a module, a class, a function, a type variable, an instance, a member of an enumeration
or a type form without arguments. All of them have a namespace (`Entity.attrs`), which lists its
names in the order in which they were first set; what an entity is besides is its `Shape`.
-/

namespace DeclClosure

/-- A failure that an object of the universe raises. -/
structure Raised where
  /-- The name of its class. -/
  kind : String
  /-- Its text. -/
  message : String
deriving DecidableEq, Repr, Inhabited

/-- An answer of a module to the request for a name that it lacks. -/
inductive Answer where
  | object (value : Object)
  | failure (raised : Raised)
deriving Repr, Inhabited

/-- What a module has besides its namespace. -/
structure ModuleFacts where
  /-- For the names that the module computes: the answers to successive requests, of which the last
  one repeats. -/
  answers : List (String × List Answer) := []
  /-- Further names of the namespace, of which only the name is known. -/
  moreNames : List String := []
deriving Repr, Inhabited

/-- A field of a record class. -/
structure Field where
  /-- The name. -/
  name : String
  /-- The type. -/
  ascription : Object
  /-- The default, or what makes one. -/
  default : Object
deriving Repr, Inhabited

/-- What a class has besides its namespace. -/
structure ClassFacts where
  /-- The name. -/
  name : String
  /-- The name within its module. -/
  qualname : String
  /-- The bases. -/
  bases : List EntityId
  /-- The class and all its ancestors in lookup order. -/
  linearization : List EntityId
  /-- The class of the class. -/
  metaclass : EntityId
  /-- The names that keep the class abstract. -/
  abstracts : List String := []
  /-- The fields if the class is a record, base fields included. -/
  fields : Option (List Field) := none
  /-- Files with functions of the class that its namespace does not list. -/
  moreFiles : List String := []
  /-- The class takes arguments as the classes of the language core do. -/
  subscriptable : Bool := false
deriving Repr, Inhabited

/-- How a class is related to other classes. -/
structure Kin where
  /-- The bases. -/
  bases : List EntityId
  /-- The class and all its ancestors in lookup order. -/
  linearization : List EntityId
  /-- The class of the class. -/
  metaclass : EntityId
deriving Repr, Inhabited

/-- How a class is related to other classes. -/
def ClassFacts.kin (c : ClassFacts) : Kin :=
  ⟨c.bases, c.linearization, c.metaclass⟩

/-- A parameter of a function. -/
structure FunctionParam where
  /-- The name. -/
  name : String
  /-- How arguments reach it. -/
  kind : ParamKind
  /-- The type, if it is given. -/
  ascription : Option Object
  /-- The default, if there is one. -/
  default : Option Object
deriving Repr

/-- What a function has besides its namespace. -/
structure FunctionFacts where
  /-- The name. -/
  name : String
  /-- The name within its module. -/
  qualname : String
  /-- The parameters. -/
  params : List FunctionParam := []
  /-- The type of the result, if it is given. -/
  returns : Option Object := none
  /-- The file of its code. -/
  file : String
  /-- The module whose names its code sees. -/
  globals : Option EntityId := none
  /-- A class is abstract while it has this function. -/
  abstract : Bool := false
  /-- The function that it wraps. -/
  wraps : Option EntityId := none
  /-- It declares a signature that is none. -/
  badSignature : Bool := false
deriving Repr, Inhabited

/-- The kinds of type variables. -/
inductive TypeVariableKind where
  | single
  | parameters
  | many
deriving DecidableEq, Repr, Inhabited

/-- How a type variable varies. -/
inductive Variance where
  | invariant
  | covariant
  | contravariant
deriving DecidableEq, Repr, Inhabited

/-- What an entity is. -/
inductive Shape where
  | module (facts : ModuleFacts)
  | class (facts : ClassFacts)
  | function (facts : FunctionFacts)
  | builtin (qualname : String)
  | typeVariable (kind : TypeVariableKind) (name : String) (variance : Variance)
  | instance (cls : EntityId)
  /-- A member of an enumeration; `shown` is how its value is written. -/
  | member (cls : EntityId) (name : String) (value : Object) (shown : String)
  /-- A type form without arguments: its class and its name. -/
  | bareForm (cls : EntityId) (name : String)
deriving Repr, Inhabited

/-- An entity. -/
structure Entity where
  /-- What it is. -/
  shape : Shape
  /-- Its namespace. -/
  attrs : List (String × Object) := []
deriving Repr, Inhabited

namespace Entity

/-- Sets a name of the namespace: in its place if it is there, at the end if not. -/
def setAttr (e : Entity) (name : String) (value : Object) : Entity :=
  if e.attrs.any fun a ↦ a.1 == name then
    { e with attrs := e.attrs.map fun a ↦ if a.1 == name then (name, value) else a }
  else { e with attrs := e.attrs ++ [(name, value)] }

/-- Takes a name out of the namespace. -/
def deleteAttr (e : Entity) (name : String) : Entity :=
  { e with attrs := e.attrs.filter fun a ↦ a.1 != name }

/-- The name's object in the namespace. -/
def attr? (e : Entity) (name : String) : Option Object :=
  e.attrs.lookup name

/-- What the entity has as a class. -/
def class? (e : Entity) : Option ClassFacts :=
  match e.shape with
  | .class c => some c
  | _ => none

/-- How the entity is related to other classes if it is a class. -/
def kin? (e : Entity) : Option Kin :=
  e.class?.map ClassFacts.kin

/-- What the entity has as a module. -/
def module? (e : Entity) : Option ModuleFacts :=
  match e.shape with
  | .module m => some m
  | _ => none

/-- What the entity has as a function. -/
def function? (e : Entity) : Option FunctionFacts :=
  match e.shape with
  | .function f => some f
  | _ => none

/-- A change of entities that makes no class, unmakes none, and gives none other bases, another
lookup order or another metaclass. -/
def KeepsKin (f : Entity → Entity) : Prop :=
  ∀ e, (f e).kin? = e.kin?

theorem shape_setAttr (e : Entity) (name : String) (value : Object) :
    (e.setAttr name value).shape = e.shape := by
  simp only [setAttr]
  split <;> rfl

theorem kin?_congr {e f : Entity} (h : e.shape = f.shape) : e.kin? = f.kin? := by
  simp only [kin?, class?]
  rw [h]

theorem keepsKin_setAttr (name : String) (value : Object) :
    KeepsKin fun e ↦ e.setAttr name value :=
  fun e ↦ kin?_congr (e.shape_setAttr name value)

theorem keepsKin_deleteAttr (name : String) : KeepsKin fun e ↦ e.deleteAttr name :=
  fun _ ↦ rfl

end Entity

end DeclClosure

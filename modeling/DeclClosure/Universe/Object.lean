import DeclClosure.Number.Binary64

/-!
# Objects

An object of the universe is an entity, which has a namespace of its own and is kept in the world,
or a value that is known by its contents: a number, a text, a collection, a wrapped callable, a type
form. Two objects are the same iff their keys are equal (`Object.same`): an entity is known by its
identity, a value by its tag. Tag `0` is for values of which there is only one, so that two of them
are the same iff their contents are.
-/

namespace DeclClosure

open Number

/-- The identity of an entity: one of the standard environment, a module of it, or one that was
declared later. -/
inductive EntityId where
  | standard (name : String)
  | standardModule (name : String)
  | declared (index : Nat)
deriving DecidableEq, Repr, Inhabited

theorem EntityId.standard_ne_declared (name : String) (index : Nat) :
    standard name ≠ declared index :=
  EntityId.noConfusion

theorem EntityId.standardModule_ne_declared (name : String) (index : Nat) :
    standardModule name ≠ declared index :=
  EntityId.noConfusion

/-- A value without parts. -/
inductive Atom where
  | none
  | ellipsis
  | notImplemented
  | missing
  | bool (b : Bool)
  | int (i : Int)
  | float (x : Binary64)
  | complex (re im : Binary64)
  | text (s : String)
  | bytes (bs : List UInt8)
deriving DecidableEq, Repr, Inhabited

/-- What a type form was built from. -/
inductive FormHead where
  /-- A class of the language core, which keeps its arguments as they are. -/
  | class (origin : EntityId)
  /-- The union operator on such classes. -/
  | union
  /-- A named form for a class, such as the one for lists. -/
  | named (name : String)
  /-- The form for callables: the types of the parameters, then that of the result. -/
  | callable
  /-- The named union. -/
  | typingUnion
  /-- The form for literal values. -/
  | literal
  /-- The form that adds remarks to a type. -/
  | annotated
  /-- A special form that takes one type. -/
  | special (name : String)
  /-- A class with type parameters of its own. -/
  | parametrized (origin : EntityId)
deriving DecidableEq, Repr, Inhabited

/-- An object of the universe. -/
inductive Object where
  | entity (id : EntityId)
  | atom (tag : Nat) (a : Atom)
  | tuple (tag : Nat) (items : List Object)
  | list (tag : Nat) (items : List Object)
  | set (tag : Nat) (items : List Object)
  | dict (tag : Nat) (entries : List (Object × Object))
  | classMethod (tag : Nat) (inner : Object)
  | staticMethod (tag : Nat) (inner : Object)
  | property (tag : Nat) (getter : Option Object)
  | bound (inner : Object)
  | form (tag : Nat) (head : FormHead) (args : List Object)
  | forwardRef (tag : Nat) (text : String)
deriving Repr, Inhabited

/-- What an object is known by. -/
inductive ObjectKey where
  | entity (id : EntityId)
  | shared (a : Atom)
  | sharedEmpty
  | tagged (tag : Nat)
  | bound (key : ObjectKey)
deriving DecidableEq, Repr

namespace Object

/-- A value known by its tag, or by its contents if the tag is `0`. -/
def taggedKey (tag : Nat) (contents : ObjectKey) : ObjectKey :=
  if tag = 0 then contents else .tagged tag

/-- What an object is known by. The only collection without a tag is the empty tuple. -/
def key : Object → ObjectKey
  | entity id => .entity id
  | atom tag a => taggedKey tag (.shared a)
  | tuple tag _ | list tag _ | set tag _ | dict tag _ | classMethod tag _ | staticMethod tag _
  | property tag _ | form tag _ _ | forwardRef tag _ => taggedKey tag .sharedEmpty
  | bound inner => .bound inner.key

/-- The two objects are one. -/
def same (a b : Object) : Bool :=
  a.key == b.key

theorem same_iff {a b : Object} : a.same b = true ↔ a.key = b.key := by
  simp [same]

/-- The object that stands for nothing. -/
def none : Object := atom 0 .none

/-- One of the two truth values. -/
def bool (b : Bool) : Object := atom 0 (.bool b)

/-- What a field without a default has. -/
def missing : Object := atom 0 .missing

/-- A standard entity. -/
def standard (name : String) : Object := entity (.standard name)

/-- The text, if the object is one. -/
def text? : Object → Option String
  | atom _ (.text s) => some s
  | _ => Option.none

/-- The identity, if the object is an entity. -/
def entity? : Object → Option EntityId
  | entity id => some id
  | _ => Option.none

/-- Whether the object counts as true: nothing, zero and what is empty do not. -/
def isTrue : Object → Bool
  | atom _ .none => false
  | atom _ (.bool b) => b
  | atom _ (.int i) => i != 0
  | atom _ (.float x) => x.isNonzero
  | atom _ (.complex re im) => re.isNonzero || im.isNonzero
  | atom _ (.text s) => s != ""
  | atom _ (.bytes bs) => !bs.isEmpty
  | tuple _ items | list _ items | set _ items => !items.isEmpty
  | dict _ entries => !entries.isEmpty
  | _ => true

/-- What the object holds one by one, `none` if it holds nothing in that way. -/
def iterate? : Object → Option (List Object)
  | tuple _ items | list _ items | set _ items => some items
  | dict _ entries => some (entries.map (·.1))
  | atom _ (.text s) => some (s.toList.map fun c ↦ atom 0 (.text c.toString))
  | atom _ (.bytes bs) => some (bs.map fun b ↦ atom 0 (.int b.toNat))
  | _ => Option.none

end Object

end DeclClosure

import DeclClosure.Symbol.Name

/-!
# Declaration nodes

A node declares one name. A leaf declares a value, a field or a callable; a scope declares a
namespace and holds the nodes below it. Every node has an identity of its own: two nodes with the
same contents are still two, and one node may stand in several places.

`Node.preorder` lists a node and everything below it, parents first. `Node.walkFrom` meets nodes in
turn with a stack: the node on top is taken off, and the nodes below it are put on, the last one
first. `Node.modify` changes the node with a given identity wherever it stands; it never changes the
shape around it.
-/

namespace DeclClosure

/-- The kinds of parameters, in the order in which a callable lists them. A word that names no kind
is kept. -/
inductive ParamKind where
  | positionalOnly
  | positionalOrKeyword
  | varPositional
  | keywordOnly
  | varKeyword
  | other (word : String)
deriving DecidableEq, Repr

namespace ParamKind

/-- The word for a kind. -/
def word : ParamKind → String
  | .positionalOnly => "POSITIONAL_ONLY"
  | .positionalOrKeyword => "POSITIONAL_OR_KEYWORD"
  | .varPositional => "VAR_POSITIONAL"
  | .keywordOnly => "KEYWORD_ONLY"
  | .varKeyword => "VAR_KEYWORD"
  | .other w => w

/-- The kind that a word names. -/
def ofWord (w : String) : ParamKind :=
  ([positionalOnly, positionalOrKeyword, varPositional, keywordOnly, varKeyword].find?
    fun k ↦ k.word == w).getD (.other w)

end ParamKind

/-- A parameter of a callable. -/
structure Param where
  /-- The name. -/
  name : String
  /-- How arguments reach it. -/
  kind : ParamKind
  /-- The text of its type. -/
  ascription : Option String := none
  /-- The text of its default. -/
  default : Option String := none
deriving DecidableEq, Repr

/-- How a callable is bound to its owner. -/
inductive MethodKind where
  | onInstance
  | function
  | onClass
  | static
  | property
deriving DecidableEq, Repr

namespace MethodKind

/-- The word for a kind. -/
def word : MethodKind → String
  | .onInstance => "instance"
  | .function => "function"
  | .onClass => "class"
  | .static => "static"
  | .property => "property"

/-- The kind that a word names. -/
def ofWord? (w : String) : Option MethodKind :=
  [onInstance, function, onClass, static, property].find? fun k ↦ k.word == w

end MethodKind

/-- How a mixin was composed into a class: before its bases, among them, or into the class
itself. -/
inductive MixinKind where
  | prepend
  | include
  | extend
deriving DecidableEq, Repr

namespace MixinKind

/-- All kinds, in the order in which registrations are kept. -/
def all : List MixinKind := [.prepend, .include, .extend]

/-- The word for a kind. -/
def word : MixinKind → String
  | .prepend => "prepend"
  | .include => "include"
  | .extend => "extend"

/-- The kind that a word names. -/
def ofWord? (w : String) : Option MixinKind :=
  all.find? fun k ↦ k.word == w

end MixinKind

/-- A mixin recorded on a scope. The kind is a word, since a scope may record any. -/
structure MixinRef where
  /-- How it was composed. -/
  kind : String
  /-- The qualified name of the mixin. -/
  name : String
deriving DecidableEq, Repr

/-- The identity of a node. -/
abbrev NodeId := Nat

/-- What all nodes have. -/
structure Head where
  /-- The identity. -/
  id : NodeId
  /-- The qualified name; the bare name for a callable. -/
  name : String
  /-- Remarks, oldest first. -/
  comments : List String := []
deriving DecidableEq, Repr

/-- What a callable declares besides its name. -/
structure MethodFacts where
  /-- The qualified name of the scope it belongs to. -/
  owner : String := ""
  /-- The parameters. -/
  params : List Param := []
  /-- The text of the signature as observed. -/
  signature : String := "()"
  /-- How it is bound. -/
  kind : MethodKind := .onInstance
  /-- The text of the type it returns. -/
  returnType : Option String := none
deriving DecidableEq, Repr

/-- What a leaf declares. -/
inductive Leaf where
  | plain
  | const (value ascription : Option String)
  | attribute (ascription : String) (default : Option String)
  | method (facts : MethodFacts)
deriving DecidableEq, Repr

/-- The kinds of scopes. A class may name its superclass. -/
inductive ScopeKind where
  | scope
  | module
  | class (superclass : Option String)
deriving DecidableEq, Repr

/-- The superclass that a scope names. -/
def ScopeKind.superclass? : ScopeKind → Option String
  | .class superclass => superclass
  | _ => none

/-- What a scope declares besides the nodes below it. -/
structure ScopeFacts where
  /-- The kind. -/
  kind : ScopeKind
  /-- The mixins, each once. -/
  mixins : List MixinRef := []
  /-- The names of the type parameters. -/
  typeParameters : List String := []
  /-- Markers such as `abstract`. -/
  helpers : List String := []
  /-- The qualified name of the metaclass, if the class declares one. -/
  metaclass : Option String := none
deriving DecidableEq, Repr

/-- A declaration node. -/
inductive Node where
  | leaf (head : Head) (decl : Leaf)
  | scope (head : Head) (facts : ScopeFacts) (children : List Node)
deriving Repr

namespace Node

/-- What all nodes have. -/
def head : Node → Head
  | leaf h _ => h
  | scope h _ _ => h

/-- The identity. -/
def id (n : Node) : NodeId := n.head.id

/-- The name as declared. -/
def name (n : Node) : String := n.head.name

/-- The nodes directly below. -/
def children : Node → List Node
  | leaf _ _ => []
  | scope _ _ cs => cs

/-- The node is a scope. -/
def isScope : Node → Bool
  | leaf _ _ => false
  | scope _ _ _ => true

/-- The word for the type of a node. -/
def typeWord : Node → String
  | leaf _ .plain => "node"
  | leaf _ (.const _ _) => "const"
  | leaf _ (.attribute _ _) => "attribute"
  | leaf _ (.method _) => "method"
  | scope _ f _ =>
    match f.kind with
    | .scope => "scope"
    | .module => "module"
    | .class _ => "class"

/-- The qualified name: a callable belongs to its owner, every other node bears its full name. -/
def qualifiedName : Node → String
  | leaf h (.method f) => if f.owner = "" then h.name else Name.within f.owner h.name
  | n => n.name

/-- No children, and no facts that would be worth a declaration. A metaclass alone is none. -/
def isEmpty : Node → Bool
  | leaf _ _ => true
  | scope _ f cs => cs.isEmpty && f.mixins.isEmpty && f.typeParameters.isEmpty && f.helpers.isEmpty

mutual

/-- The node and everything below it, parents before children, siblings in their order. -/
def preorder : Node → List Node
  | leaf h d => [leaf h d]
  | scope h f cs => scope h f cs :: preorderAll cs

/-- The preorders of some nodes, one after the other. -/
def preorderAll : List Node → List Node
  | [] => []
  | n :: ns => n.preorder ++ preorderAll ns

end

mutual

/-- How many nodes there are, the node and those below it. -/
def count : Node → Nat
  | leaf _ _ => 1
  | scope _ _ cs => countAll cs + 1

/-- How many nodes there are, some nodes and those below them. -/
def countAll : List Node → Nat
  | [] => 0
  | n :: ns => n.count + countAll ns

end

theorem count_eq (n : Node) : n.count = countAll n.children + 1 := by
  cases n <;> rfl

theorem countAll_cons (n : Node) (ns : List Node) : countAll (n :: ns) = n.count + countAll ns :=
  rfl

theorem countAll_append (ns ms : List Node) : countAll (ns ++ ms) = countAll ns + countAll ms := by
  induction ns with
  | nil => exact (Nat.zero_add _).symm
  | cons n ns ih => rw [List.cons_append, countAll_cons, countAll_cons, ih, Nat.add_assoc]

/-- Puts nodes on a stack, one after the other, so that the last one comes to lie on top. -/
def pushAll (ns stack : List Node) : List Node :=
  ns.foldl (fun stack n ↦ n :: stack) stack

/-- Put on in reverse, the first node comes to lie on top. -/
theorem pushAll_reverse (ns stack : List Node) : pushAll ns.reverse stack = ns ++ stack := by
  rw [pushAll, List.foldl_reverse, List.foldr_cons_eq_append']

/-- The nodes that are met until a stack is empty: the one on top is taken off, and the nodes below it
are put on, the last one first. Closed walks are decided by unfolding it. -/
@[semireducible]
def walkFrom : List Node → List Node
  | [] => []
  | n :: stack => n :: walkFrom (pushAll n.children.reverse stack)
termination_by stack => countAll stack
decreasing_by
  -- the stack has lost one node, and the others are on it or below it still
  rw [pushAll_reverse, countAll_append, countAll_cons, count_eq]
  omega

mutual

/-- Changes the node with an identity, wherever it stands at or below this one. -/
def modify (id : NodeId) (f : Node → Node) : Node → Node
  | leaf h d => if h.id = id then f (leaf h d) else leaf h d
  | scope h s cs =>
    let changed := scope h s (modifyAll id f cs)
    if h.id = id then f changed else changed

/-- Changes the node with an identity at or below some nodes. -/
def modifyAll (id : NodeId) (f : Node → Node) : List Node → List Node
  | [] => []
  | n :: ns => n.modify id f :: modifyAll id f ns

end

/-- The node with another head. -/
def mapHead (f : Head → Head) : Node → Node
  | leaf h d => leaf (f h) d
  | scope h s cs => scope (f h) s cs

/-- A scope with other facts; a leaf stays as it is. -/
def mapFacts (f : ScopeFacts → ScopeFacts) : Node → Node
  | leaf h d => leaf h d
  | scope h s cs => scope h (f s) cs

/-- A scope with other children; a leaf stays as it is. -/
def mapChildren (f : List Node → List Node) : Node → Node
  | leaf h d => leaf h d
  | scope h s cs => scope h s (f cs)

/-- A callable with other facts; every other node stays as it is. -/
def mapMethod (f : MethodFacts → MethodFacts) : Node → Node
  | leaf h (.method m) => leaf h (.method (f m))
  | n => n

/-- Puts a node below a scope, after those that are there. -/
def addChild (child : Node) : Node → Node :=
  mapChildren (· ++ [child])

/-- The first of some nodes with an identity taken out, the others as they are. -/
def eraseFirst (id : NodeId) (ns : List Node) : List Node :=
  ns.eraseP fun n ↦ n.id == id

/-- Records a mixin unless it is recorded already. -/
def addMixin (kind name : String) : Node → Node :=
  mapFacts fun s ↦
    if s.mixins.contains ⟨kind, name⟩ then s else { s with mixins := s.mixins ++ [⟨kind, name⟩] }

/-- Adds a remark. -/
def addComment (text : String) : Node → Node :=
  mapHead fun h ↦ { h with comments := h.comments ++ [text] }

/-- Adds a type parameter. -/
def addTypeParameter (name : String) : Node → Node :=
  mapFacts fun s ↦ { s with typeParameters := s.typeParameters ++ [name] }

/-- Adds a marker unless it is there already. -/
def addHelper (word : String) : Node → Node :=
  mapFacts fun s ↦
    if s.helpers.contains word then s else { s with helpers := s.helpers ++ [word] }

/-- Sets the metaclass. -/
def setMetaclass (name : String) : Node → Node :=
  mapFacts fun s ↦ { s with metaclass := some name }

/-- The type parameters of a scope; a leaf has none. -/
def typeParameters : Node → List String
  | leaf _ _ => []
  | scope _ f _ => f.typeParameters

/-- The mixins of a scope; a leaf has none. -/
def mixins : Node → List MixinRef
  | leaf _ _ => []
  | scope _ f _ => f.mixins

/-- The facts of a callable, if the node is one. -/
def method? : Node → Option MethodFacts
  | leaf _ (.method f) => some f
  | _ => none

end Node

end DeclClosure

import DeclClosure.Tree.Node

/-!
# Declaration trees

A tree holds its root nodes in the order in which they came, and an index from the name of a scope
to its identity. A new node goes below the nearest scope of the index whose name encloses its own
(`enclosing?`), and to the roots if there is none. The index is written by `add` and `remove` alone,
so it knows a scope by the name under which it was added, and the first scope of a name keeps it.

A node that is taken out stays known to the tree: whoever still holds its identity may go on to
change it, and may put it back. Such nodes are in `detached` and in no walk.
-/

namespace DeclClosure

/-- A declaration tree. -/
structure Tree where
  /-- The root nodes. -/
  roots : List Node := []
  /-- The scopes by name. -/
  index : List (String × NodeId) := []
  /-- Nodes outside of the tree that are still known. -/
  detached : List Node := []
deriving Repr

namespace Tree

/-- The tree without nodes. -/
def empty : Tree := {}

/-- All nodes, parents before children, in tree order: those that are met from the roots on. -/
def walk (t : Tree) : List Node :=
  Node.walkFrom (Node.pushAll t.roots.reverse [])

/-- How many places there are in the walk. -/
def size (t : Tree) : Nat :=
  t.walk.length

/-- The first node of the walk with a qualified name. A callable is found by its bare name too. -/
def find? (t : Tree) (name : String) : Option Node :=
  t.walk.find? fun n ↦ n.name == name || n.qualifiedName == name

/-- The node with an identity, in the tree or outside of it. -/
def node? (t : Tree) (id : NodeId) : Option Node :=
  match t.walk.find? fun n ↦ n.id == id with
  | some n => some n
  | none => (Node.preorderAll t.detached).find? fun n ↦ n.id == id

/-- The identity of the scope that the index has under a name. -/
def scope? (t : Tree) (name : String) : Option NodeId :=
  t.index.lookup name

/-- The scope with the longest name of the index that encloses a name. -/
def enclosing? (t : Tree) (name : String) : Option NodeId :=
  match _h : Name.parent? name with
  | none => none
  | some p =>
    match t.scope? p with
    | some id => some id
    | none => t.enclosing? p
termination_by name.length
decreasing_by exact Name.length_parent_lt _h

/-- Changes the node with an identity wherever it stands. -/
def modify (t : Tree) (id : NodeId) (f : Node → Node) : Tree :=
  { t with roots := Node.modifyAll id f t.roots, detached := Node.modifyAll id f t.detached }

/-- Makes a node known without putting it into the tree. -/
def hold (t : Tree) (n : Node) : Tree :=
  { t with detached := t.detached ++ [n] }

/-- Enters a scope into the index, unless its name is taken. -/
def enter (t : Tree) (n : Node) : Tree :=
  if n.isScope && (t.scope? n.name).isNone then { t with index := t.index ++ [(n.name, n.id)] }
  else t

/-- Attaches a node at its lexical position. -/
def add (t : Tree) (n : Node) : Tree :=
  let attached := match t.enclosing? n.name with
    | some owner => t.modify owner (Node.addChild n)
    | none => { t with roots := t.roots ++ [n] }
  attached.enter n

/-- Puts a node directly below a scope. -/
def addUnder (t : Tree) (owner : NodeId) (n : Node) : Tree :=
  t.modify owner (Node.addChild n)

/-- The first scope of the walk that directly holds a node. -/
def holder? (t : Tree) (id : NodeId) : Option Node :=
  t.walk.find? fun n ↦ n.children.any fun c ↦ c.id == id

/-- Takes a node out of the index if the index has it under its name. -/
def leave (t : Tree) (n : Node) : Tree :=
  if n.isScope && t.scope? n.name == some n.id then
    { t with index := t.index.filter fun e ↦ e.1 != n.name }
  else t

/-- Keeps a node known if it stands nowhere in the tree any more. -/
def keep (t : Tree) (n : Node) : Tree :=
  if (t.node? n.id).isNone then t.hold n else t

/-- Takes a node out of a scope. The answer is whether the scope had it. -/
def removeUnder (t : Tree) (owner : NodeId) (n : Node) : Bool × Tree :=
  match t.node? owner with
  | some scope =>
    if scope.children.any fun c ↦ c.id == n.id then
      (true, (t.modify owner (Node.mapChildren (Node.eraseFirst n.id))).keep n)
    else (false, t)
  | none => (false, t)

/-- Takes a node out of the place where the walk meets it first, roots before all others. The answer
is whether the tree had it. -/
def remove (t : Tree) (id : NodeId) : Bool × Tree :=
  match t.node? id with
  | none => (false, t)
  | some n =>
    if t.roots.any fun r ↦ r.id == id then
      (true, ({ t with roots := Node.eraseFirst id t.roots }.leave n).keep n)
    else
      match t.holder? id with
      | some owner => (true, ((t.removeUnder owner.id n).2.leave n).keep n)
      | none => (false, t)

/-- What a tree shows of itself. -/
def summary (t : Tree) : String :=
  "DeclarationTree(" ++ toString t.roots.length ++ " root nodes)"

end Tree

end DeclClosure

import DeclClosure.Closure.Declare
import DeclClosure.Tree.Description

/-!
# Announcements

What listeners are told about a new node, and what they may do to it.
-/

namespace DeclClosure.Closure

/-- The announcement of a node. -/
structure Announcement where
  /-- The name under which the object was found. -/
  name : String
  /-- The object that the node was made for. -/
  value : Object
  /-- The node. -/
  node : Option NodeId
  /-- What kind of declaration it is. -/
  kind : NodeKind
  /-- The signature that was observed, for callables. -/
  signature : Option Signature
deriving Repr

namespace Run

/-- Fails since an object lacks a name. -/
def lacks {α : Type} (title wanted : String) : Run α :=
  throw (.raised ⟨"AttributeError", "'" ++ title ++ "' object has no attribute '" ++ wanted ++ "'"⟩)

/-- The announced node as it is now. -/
def nodeOf (a : Announcement) (wanted : String) : Run Node := do
  match a.node.bind (← get).tree.node? with
  | some n => return n
  | none => lacks "NoneType" wanted

/-- The announced node as it is now, which must be a scope. -/
def scopeOf (a : Announcement) (wanted : String) : Run Node := do
  let n ← nodeOf a wanted
  if n.isScope then return n else lacks (NodeType.ofNode n).title wanted

/-- Puts a new node below the announced one. -/
def addChild (a : Announcement) (child : NodeId → Node) : Run NodeId := do
  let scope ← scopeOf a "add"
  let id ← freshNode
  modify fun s ↦ { s with tree := s.tree.addUnder scope.id (child id) }
  return id

/-- Asks for the class of a type to be declared. -/
def pushType (o : Object) : Run Unit := do
  if (← get).world.isClass o then
    match nonempty (← nameOf o) with
    | some name => push (.symbol name)
    | none => return ()

/-- The text of a type, with the names that classes still bear. -/
def typeText (o : Object) : Run String :=
  ask (Query.typeText Query.nameOf o)

end Run

end DeclClosure.Closure

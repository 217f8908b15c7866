import DeclClosure.Hash.Xxh64
import DeclClosure.Json.Text
import DeclClosure.Tree.Basic

/-!
# The view of a tree as a document

A tree is written as a document with all that its nodes declare and nothing of their identities.
Facts that a scope does not have are left out, all others are always there. The text of the document
and its fingerprint serve to compare two runs.
-/

namespace DeclClosure

open Json (Value)

/-- The view of a parameter. -/
def Param.view (p : Param) : Value :=
  .object [
    ("name", .str p.name),
    ("kind", .str p.kind.word),
    ("annotation", .ofOptional p.ascription),
    ("default", .ofOptional p.default)]

/-- The view of a recorded mixin. -/
def MixinRef.view (m : MixinRef) : Value :=
  .object [("kind", .str m.kind), ("name", .str m.name)]

/-- A member that is left out when its list is empty. -/
def memberUnlessEmpty (key : String) (items : List Value) : List (String × Value) :=
  if items.isEmpty then [] else [(key, .list items)]

/-- The members that all nodes have. -/
def Head.view (typeWord : String) (h : Head) : List (String × Value) :=
  [("type", .str typeWord), ("name", .str h.name)]
    ++ memberUnlessEmpty "comments" (h.comments.map .str)

/-- The members that a leaf adds. -/
def Leaf.view : Leaf → List (String × Value)
  | .plain => []
  | .const value ascription => [("value", .ofOptional value), ("annotation", .ofOptional ascription)]
  | .attribute ascription default =>
    [("annotation", .str ascription), ("default", .ofOptional default)]
  | .method f => [
    ("owner", .str f.owner),
    ("kind", .str f.kind.word),
    ("signature", .str f.signature),
    ("params", .list (f.params.map Param.view)),
    ("return_annotation", .ofOptional f.returnType)]

/-- The members for the facts of a scope that it has. -/
def ScopeFacts.view (s : ScopeFacts) : List (String × Value) :=
  memberUnlessEmpty "mixins" (s.mixins.map MixinRef.view)
    ++ memberUnlessEmpty "type_parameters" (s.typeParameters.map .str)
    ++ memberUnlessEmpty "helpers" (s.helpers.map .str)
    ++ match s.metaclass with
      | some m => if m = "" then [] else [("metaclass", .str m)]
      | none => []

/-- The member that only classes have. -/
def ScopeKind.view : ScopeKind → List (String × Value)
  | .class superclass => [("superclass", .ofOptional superclass)]
  | _ => []

mutual

/-- The view of a node. -/
def Node.view : Node → Value
  | .leaf h d => .object (h.view (Node.typeWord (.leaf h d)) ++ d.view)
  | .scope h f cs =>
    .object (h.view (Node.typeWord (.scope h f [])) ++ f.view
      ++ [("children", .list (Node.viewAll cs))] ++ f.kind.view)

/-- The views of some nodes. -/
def Node.viewAll : List Node → List Value
  | [] => []
  | n :: ns => n.view :: Node.viewAll ns

end

namespace Tree

/-- The view of a tree. -/
def view (t : Tree) : Value :=
  .object [("nodes", .list (Node.viewAll t.roots))]

/-- The text of the view. -/
def text (t : Tree) : String :=
  t.view.text

/-- The fingerprint of the text. -/
def fingerprint (t : Tree) : String :=
  Hash.fingerprint t.text

end Tree

end DeclClosure

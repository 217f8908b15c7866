import DeclClosure.Json.Literal
import DeclClosure.Tree.Basic

/-!
# Nodes described by documents

A document describes a node by its type and its fields. A field that the type does not have is
refused, and so is a word that names no way of binding a callable. Fields that are not mentioned
have their defaults.
-/

namespace DeclClosure

open Json (Value)

/-- The types of nodes. -/
inductive NodeType where
  | node
  | scope
  | module
  | classScope
  | const
  | attribute
  | method
deriving DecidableEq, Repr

namespace NodeType

/-- The word for a type. -/
def word : NodeType → String
  | .node => "node"
  | .scope => "scope"
  | .module => "module"
  | .classScope => "class"
  | .const => "const"
  | .attribute => "attribute"
  | .method => "method"

/-- The type that a word names. -/
def ofWord? (w : String) : Option NodeType :=
  [.node, .scope, .module, .classScope, .const, .attribute, .method].find? fun t ↦ t.word == w

/-- The name that a type has in messages. -/
def title : NodeType → String
  | .node => "Node"
  | .scope => "ScopeNode"
  | .module => "ModuleNode"
  | .classScope => "ClassNode"
  | .const => "ConstNode"
  | .attribute => "AttributeNode"
  | .method => "MethodNode"

/-- The fields that all scopes have. -/
def scopeFields : List String :=
  ["name", "comments", "children", "mixins", "type_parameters", "helpers", "metaclass"]

/-- The fields of a type. -/
def fields : NodeType → List String
  | .node => ["name", "comments"]
  | .scope | .module => scopeFields
  | .classScope => scopeFields ++ ["superclass_name"]
  | .const => ["name", "comments", "value", "annotation"]
  | .attribute => ["name", "comments", "annotation", "default"]
  | .method =>
    ["name", "comments", "owner", "params", "signature", "kind", "return_annotation"]

/-- The type of a node. -/
def ofNode (n : Node) : NodeType :=
  (ofWord? n.typeWord).getD .node

end NodeType

/-- Why a document describes no node. -/
inductive DescriptionError where
  | unknownType (word : String)
  | unexpectedField (type : NodeType) (field : String)
  | notAMethodKind (word : Value)
deriving Repr

/-- The wording of the error. -/
def DescriptionError.message : DescriptionError → String
  | .unknownType w => Text.quoted w
  | .unexpectedField t f =>
    t.title ++ ".__init__() got an unexpected keyword argument '" ++ f ++ "'"
  | .notAMethodKind w => w.literal ++ " is not a valid MethodKind"

/-- The parameter that a document describes. -/
def Param.ofDescription (v : Value) : Param where
  name := ((v.get? "name").bind Value.text?).getD ""
  kind := .ofWord (((v.get? "kind").bind Value.text?).getD "")
  ascription := (v.get? "annotation").bind Value.text?
  default := (v.get? "default").bind Value.text?

/-- The way of binding that a value names. -/
def methodKind? (v : Value) : Except DescriptionError MethodKind :=
  match v.text?.bind MethodKind.ofWord? with
  | some k => .ok k
  | none => .error (.notAMethodKind v)

namespace Node

/-- The node without any fields of a type. -/
def blank (id : NodeId) : NodeType → Node
  | .node => leaf ⟨id, "", []⟩ .plain
  | .const => leaf ⟨id, "", []⟩ (.const none none)
  | .attribute => leaf ⟨id, "", []⟩ (.attribute "Any" none)
  | .method => leaf ⟨id, "", []⟩ (.method {})
  | .scope => Node.scope ⟨id, "", []⟩ ⟨.scope, [], [], [], none⟩ []
  | .module => Node.scope ⟨id, "", []⟩ ⟨.module, [], [], [], none⟩ []
  | .classScope => Node.scope ⟨id, "", []⟩ ⟨.class none, [], [], [], none⟩ []

/-- A leaf with another declaration; a scope stays as it is. -/
def mapLeaf (f : Leaf → Leaf) : Node → Node
  | leaf h d => leaf h (f d)
  | n => n

/-- Sets a field to a value of its type. What is no field of the node changes nothing. -/
def setField (field : String) (v : Value) (n : Node) : Except DescriptionError Node :=
  match NodeType.ofNode n, field with
  | _, "name" => .ok (n.mapHead fun h ↦ { h with name := v.text?.getD "" })
  | _, "comments" => .ok (n.mapHead fun h ↦ { h with comments := v.texts })
  | .const, "value" =>
    .ok (n.mapLeaf fun | .const _ a => .const v.text? a | d => d)
  | .const, "annotation" =>
    .ok (n.mapLeaf fun | .const x _ => .const x v.text? | d => d)
  | .attribute, "annotation" =>
    .ok (n.mapLeaf fun | .attribute _ x => .attribute (v.text?.getD "") x | d => d)
  | .attribute, "default" =>
    .ok (n.mapLeaf fun | .attribute a _ => .attribute a v.text? | d => d)
  | .method, "owner" => .ok (n.mapMethod fun f ↦ { f with owner := v.text?.getD "" })
  | .method, "signature" => .ok (n.mapMethod fun f ↦ { f with signature := v.text?.getD "" })
  | .method, "return_annotation" => .ok (n.mapMethod fun f ↦ { f with returnType := v.text? })
  | .method, "params" =>
    .ok (n.mapMethod fun f ↦ { f with params := v.items.map Param.ofDescription })
  | .method, "kind" => do
    let k ← methodKind? v
    return n.mapMethod fun f ↦ { f with kind := k }
  | _, "type_parameters" => .ok (n.mapFacts fun s ↦ { s with typeParameters := v.texts })
  | _, "helpers" => .ok (n.mapFacts fun s ↦ { s with helpers := v.texts })
  | _, "metaclass" => .ok (n.mapFacts fun s ↦ { s with metaclass := v.text? })
  | .classScope, "superclass_name" => .ok (n.mapFacts fun s ↦ { s with kind := .class v.text? })
  | _, "mixins" =>
    .ok (v.items.foldl (fun n m ↦ match m.texts with
      | [kind, name] => n.addMixin kind name
      | _ => n) n)
  | _, _ => .ok n

/-- The node that a document describes. -/
def ofDescription (id : NodeId) (v : Value) : Except DescriptionError Node := do
  let word := ((v.get? "type").bind Value.text?).getD ""
  match NodeType.ofWord? word, v with
  | some t, .object members =>
    let given := members.filter fun m ↦ m.1 != "type"
    let built ← given.foldlM (fun n m ↦ n.setField m.1 m.2) (blank id t)
    match given.find? fun m ↦ !t.fields.contains m.1 with
    | some (field, _) => .error (.unexpectedField t field)
    | none => return built
  | _, _ => .error (.unknownType word)

end Node

end DeclClosure

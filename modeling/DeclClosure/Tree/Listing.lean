import DeclClosure.Text.Lines
import DeclClosure.Tree.Basic
import DeclClosure.Tree.Params

/-!
# Listings

The listing of a tree reads like a stub file. Roots bear their qualified names, nodes below a scope
the names relative to it. A remark becomes lines that start with `#`: it is cut at every line
boundary there is, so no part of it can start a line that reads as a declaration.
-/

namespace DeclClosure

/-- The blanks before a line at a level. -/
def pad (depth : Nat) : String :=
  String.ofList (List.replicate (4 * depth) ' ')

/-- A name as it is written below a scope. -/
def relativeName (scope : Option String) (name : String) : String :=
  match scope with
  | some s =>
    if Name.startsWith (Name.namespacePrefix s) name then
      String.ofList (name.toList.drop (s.length + 1))
    else name
  | none => name

/-- The lines of a remark. -/
def commentLines (depth : Nat) (comment : String) : List String :=
  let lines := match Text.lines comment with
    | [] => [""]
    | ls => ls
  lines.map fun l ↦ Text.trimEnd (pad depth ++ "# " ++ l)

/-- The lines of all remarks on a node. -/
def Head.commentLines (depth : Nat) (h : Head) : List String :=
  h.comments.flatMap (DeclClosure.commentLines depth)

/-- The line above a callable that tells how it is bound. -/
def MethodKind.decorator? : MethodKind → Option String
  | .onClass => some "@classmethod"
  | .static => some "@staticmethod"
  | .property => some "@property"
  | _ => none

/-- The lines of what a leaf declares, under the name that is written. -/
def Leaf.lines (depth : Nat) (bare written : String) : Leaf → List String
  | .plain => [pad depth ++ written]
  | .const value ascription =>
    match nonempty? ascription, value with
    | some a, some v => [pad depth ++ written ++ ": " ++ a ++ " = " ++ v]
    | some a, none => [pad depth ++ written ++ ": " ++ a]
    | none, v => [pad depth ++ written ++ " = " ++ v.getD "None"]
  | .attribute ascription default =>
    let suffix := match default with
      | some d => " = " ++ d
      | none => ""
    [pad depth ++ written ++ ": " ++ ascription ++ suffix]
  | .method f =>
    let returns := match nonempty? f.returnType with
      | some r => " -> " ++ r
      | none => ""
    (f.kind.decorator?.toList.map (pad depth ++ ·))
      ++ [pad depth ++ "def " ++ bare ++ Param.listText f.params ++ returns ++ ": ..."]

/-- The names of the mixins of one kind. -/
def ScopeFacts.mixinsOf (s : ScopeFacts) (kind : String) : List String :=
  (s.mixins.filter fun m ↦ m.kind == kind).map (·.name)

/-- Everything a class header lists in parentheses. -/
def ScopeFacts.bases (s : ScopeFacts) (superclass : Option String) : List String :=
  s.mixinsOf "prepend" ++ (nonempty? superclass).toList ++ s.mixinsOf "include"
    ++ (if s.typeParameters.isEmpty then []
        else ["Generic[" ++ ", ".intercalate s.typeParameters ++ "]"])
    ++ (nonempty? s.metaclass).toList.map ("metaclass=" ++ ·)

/-- A remark of the listing itself, left out when there is nothing to remark. -/
def remark (depth : Nat) (label : String) (items : List String) : List String :=
  if items.isEmpty then [] else [pad depth ++ "# " ++ label ++ ": " ++ ", ".intercalate items]

/-- The lines of a scope up to and including its header. -/
def ScopeFacts.headerLines (depth : Nat) (written : String) (s : ScopeFacts) : List String :=
  remark depth "helpers" s.helpers ++ remark depth "extends" (s.mixinsOf "extend")
    ++ match s.kind with
      | .class superclass =>
        let bases := s.bases superclass
        [pad depth ++ "class " ++ written
          ++ (if bases.isEmpty then ":" else "(" ++ ", ".intercalate bases ++ "):")]
      | _ =>
        let included := (s.mixins.filter fun m ↦ m.kind != "extend").map (·.name)
        remark depth "includes" included ++ [pad depth ++ "module " ++ written ++ ":"]

mutual

/-- The lines of a node below a scope, at a level. -/
def Node.lines (scope : Option String) (depth : Nat) : Node → List String
  | .leaf h d => h.commentLines depth ++ d.lines depth h.name (relativeName scope h.name)
  | .scope h f cs =>
    h.commentLines depth ++ f.headerLines depth (relativeName scope h.name)
      ++ match cs with
        | [] => [pad (depth + 1) ++ "..."]
        | _ :: _ => Node.linesAll h.name (depth + 1) cs

/-- The lines of the nodes below a scope. -/
def Node.linesAll (scope : String) (depth : Nat) : List Node → List String
  | [] => []
  | n :: ns => n.lines (some scope) depth ++ Node.linesAll scope depth ns

end

/-- The listing of a tree: one block a root, an empty line between blocks, and a line break at the
end unless there is nothing to list. -/
def Tree.listing (t : Tree) : String :=
  let blocks := t.roots.map fun n ↦ "\n".intercalate (n.lines none 0)
  let text := "\n\n".intercalate blocks
  if text = "" then "" else text ++ "\n"

end DeclClosure

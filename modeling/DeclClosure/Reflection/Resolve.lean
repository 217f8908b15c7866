import DeclClosure.Universe.Import

/-!
# Resolving names

What a qualified name stands for: the names after the longest module name that fits are walked as
attributes. If that walk fails, shorter module names are tried, and last the root namespace with the
whole name. A name that stands for nothing is no error, but an attribute may fail in ways of its
own, and then the resolution fails too.
-/

namespace DeclClosure.Query

/-- The object below another one along some names, if every name is there. -/
def walk (o : Object) : List String → Query (Option Object)
  | [] => return some o
  | n :: ns => do
    match ← catching ["AttributeError", "ImportError"] (attr o n) with
    | some next => walk next ns
    | none => return none

/-- The ways to take the first segments as the name of a module, the longest first. -/
def splits (parts : List String) : List (String × List String) :=
  (List.range' 1 parts.length).reverse.map fun n ↦
    (Name.ofSegments (parts.take n), parts.drop n)

/-- Tries some ways in turn. -/
def firstOf : List (String × List String) → Query (Option Object)
  | [] => return none
  | (name, rest) :: others => do
    match ← module? name with
    | none => firstOf others
    | some id =>
      match ← walk (.entity id) rest with
      | some o => return some o
      | none => firstOf others

/-- The module of the root namespace. -/
def rootModule : Object := .entity (.standardModule Name.rootName)

/-- The object that a name stands for, if there is one. -/
def resolve (name : String) : Query (Option Object) := do
  let name := Name.stripRoot name
  if name = "" then return none
  let parts := Name.segments name
  match ← firstOf (splits parts) with
  | some o => return some o
  | none => walk rootModule parts

end DeclClosure.Query

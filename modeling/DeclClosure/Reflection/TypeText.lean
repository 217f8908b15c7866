import DeclClosure.Reflection.Naming
import DeclClosure.Text.Replace

/-!
# Texts of types and values

How a type is written in a declaration: a class by the name that it bears, a text as it stands, and
everything else by its written form without the marks of classes. Values are only written if they
are plain literals, or tuples of those.
-/

namespace DeclClosure

/-- The class that stands for a type that is not given. -/
def unspecified : Object := .standard "inspect._empty"

/-- A written form without the marks of classes. -/
def withoutClassMarks (s : String) : String :=
  Text.replace (Text.replace (Text.replace s "<class '" "") "'>" "") "NoneType" "None"

/-- The text that an object is: a text itself, or a member of an enumeration of texts. An instance
of a class of texts is an empty one. -/
def World.asText? (w : World) (o : Object) : Option String :=
  match o with
  | .atom _ (.text s) => some s
  | o =>
    if w.isInstance o (.standard "str") then
      match (o.entity?.bind w.entity?).map Entity.shape with
      | some (.member _ _ value _) => value.text?
      | _ => some ""
    else none

namespace Query

/-- The text of a type, where classes bear the names that `nameOf` gives them. A class to which it
gives no name is written by its module and name. -/
def typeText (nameOf : Object → Query (Option String)) (o : Object) : Query String := do
  let w ← get
  if o.same unspecified then return "Any"
  else if o.same .none || o.same World.noneType then return "None"
  else
    match w.asText? o with
    | some s => return s
    | none =>
      match w.asClass? o with
      | some (id, c) =>
        match ← nameOf o with
        | some name => return name
        | none => return w.spelled id c
      | none => return withoutClassMarks (w.written o)

end Query

namespace World

/-- The classes of plain literals. -/
def literalClasses : List String :=
  ["int", "float", "complex", "str", "bytes", "bool", "NoneType"]

/-- The object is a plain literal. -/
def isLiteral (w : World) (o : Object) : Bool :=
  literalClasses.any fun k ↦ w.isInstance o (.standard k)

/-- The text of a value in a declaration. -/
def literal (w : World) (o : Object) : String :=
  if w.isLiteral o then w.written o
  else
    match o with
    | .tuple _ items => if items.all w.isLiteral then w.written o else "..."
    | o => if w.isInstance o (.standard "tuple") then w.written o else "..."

end World

end DeclClosure

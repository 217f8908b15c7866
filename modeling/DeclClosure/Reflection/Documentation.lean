import DeclClosure.Text.Lines
import DeclClosure.Universe.Attribute

/-!
# Documentation of objects

The documentation that an object has itself. A class that shares the very text of one of its
ancestors only inherited it.
-/

namespace DeclClosure.World

/-- One of the ancestors of a class has this very text. -/
def inheritsText (w : World) (o : Object) (doc : Object) : Bool :=
  match w.asClass? o with
  | none => false
  | some (_, c) =>
    (c.linearization.drop 1).any fun a ↦ (w.entityAttr? a "__doc__").any fun d ↦ d.same doc

/-- The documentation of an object as it is meant to be read. -/
def documentation? (w : World) (o : Object) : Option String :=
  match w.attr? o "__doc__" with
  | some (.atom tag (.text s)) =>
    if Text.isBlankText s || w.inheritsText o (.atom tag (.text s)) then none
    else some (Text.dedent s)
  | _ => none

end DeclClosure.World

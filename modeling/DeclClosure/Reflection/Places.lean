import DeclClosure.Reflection.Naming
import DeclClosure.SourceUnit

/-!
# The unit of a module

A package owns the places that it gives for its parts; a plain module owns its file.
-/

namespace DeclClosure.Query

/-- An item of a list of paths, which must be a text. -/
def pathText (o : Object) : Query String := do
  match o with
  | .atom _ (.text s) => return s
  | o =>
    let w ← get
    fail "TypeError" ("expected str, bytes or os.PathLike object, not " ++ w.className (w.classOf o))

/-- A unit with some paths. -/
def unitAt (name : String) (paths : List String) : Query SourceUnit :=
  match SourceUnit.create name paths with
  | .ok u => return u
  | .error e => fail "ValueError" e.message

/-- The unit of a module. -/
def unitOf (module : EntityId) : Query SourceUnit := do
  let name := (((← get).entityAttr? module "__name__").bind Object.text?).getD ""
  let search := (← attr? (.entity module) "__path__").filter Object.isTrue
  match search with
  | some places => unitAt name (← (← iterate places).mapM pathText)
  | none =>
    match ← attr? (.entity module) "__file__" with
    | none | some (.atom _ .none) => fail "ValueError" ("Module " ++ name ++ " has no source location")
    | some file => unitAt name [← pathText file]

end DeclClosure.Query

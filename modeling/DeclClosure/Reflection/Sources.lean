import DeclClosure.Reflection.Naming

/-!
# Source files

The file that a callable was compiled from, and the files that contribute to the definition of a
module or a class. A class that was reopened elsewhere has the files of all functions of its own
namespace beside the file of its module.
-/

namespace DeclClosure

namespace World

/-- The function at the end of a chain of wrappers, of at most `fuel` steps. -/
def unwrap (w : World) : Nat → Object → Object
  | 0, o => o
  | fuel + 1, o =>
    match w.attr? o "__wrapped__" with
    | some inner => w.unwrap fuel inner
    | none => o

/-- How many wrappers a chain can have. -/
def wrapLimit (w : World) : Nat :=
  w.declared.size + 1

/-- What a method wrapper or a property wraps. -/
def unwrapDescriptor : Object → Object
  | .classMethod _ inner | .staticMethod _ inner => inner
  | .property _ getter => getter.getD .none
  | o => o

/-- The object can be called. -/
def isCallable (w : World) (o : Object) : Bool :=
  match o with
  | .bound _ | .staticMethod _ _ => true
  | .form _ .union _ => false
  | .form _ _ _ => true
  | .entity id =>
    match (w.entity? id).map Entity.shape with
    | some (.class _) | some (.function _) | some (.builtin _) => true
    | some (.bareForm _ _) => true
    | some (.instance cls) | some (.member cls _ _ _) => (w.inClass? cls "__call__").isSome
    | _ => false
  | _ => false

/-- The file of the code of an object. -/
def codeFile? (w : World) : Object → Option String
  | .entity id => ((w.entity? id).bind Entity.function?).map FunctionFacts.file
  | .bound inner => w.codeFile? inner
  | _ => none

/-- The file that a callable was compiled from. -/
def sourceFile? (w : World) (o : Object) : Option String :=
  let inner := unwrapDescriptor o
  w.codeFile? (if w.isCallable inner then w.unwrap w.wrapLimit inner else inner)

/-- The entity that keeps the namespace of an object: a form of a class of the language core shows
the namespace of that class. -/
def namespaceOwner? : Object → Option EntityId
  | .form _ (.class origin) _ => some origin
  | o => o.entity?

/-- The namespace of an object, if it has one. -/
def namespace? (w : World) (o : Object) : Option (List (String × Object)) :=
  match (namespaceOwner? o).bind w.entity? with
  | some e =>
    match e.shape with
    | .builtin _ | .bareForm _ _ => none
    | .member _ n value _ => some ([("_value_", value), ("_name_", ownText n)] ++ e.attrs)
    | .function f => some ((f.wraps.toList.map fun i ↦ ("__wrapped__", .entity i)) ++ e.attrs)
    | _ => some e.attrs
  | none => none

end World

namespace Query

/-- The file that a module says it comes from. -/
def moduleFile (module : Object) : Query (List String) := do
  match ← attr? module "__file__" with
  | some (.atom _ (.text s)) => return if s = "" then [] else [s]
  | _ => return []

/-- The files that contribute to the definition of a module or a class. -/
def definitionFiles (o : Object) : Query (List String) := do
  let w ← get
  match w.asModule? o with
  | some _ => moduleFile o
  | none =>
    match w.asClass? o with
    | none => return []
    | some (id, c) =>
      let home ←
        match (w.textAttr? id "__module__").bind fun m ↦ w.modules.lookup m with
        | some module => moduleFile (.entity module)
        | none => pure []
      let own := ((w.entity? id).elim [] Entity.attrs).filterMap fun a ↦ w.sourceFile? a.2
      return (home ++ own.filter (· != "") ++ c.moreFiles).eraseDups

end Query

end DeclClosure

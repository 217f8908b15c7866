import DeclClosure.Universe.Object

/-!
# Registered definition sites

Further files that define an object, for objects that are built by code elsewhere. Each file is kept
once.
-/

namespace DeclClosure

/-- The registered files by object. -/
structure DefinitionTracker where
  /-- The files of each object. -/
  files : List (ObjectKey × List String) := []
deriving Repr

namespace DefinitionTracker

/-- The files that were registered for an object. -/
def filesOf (t : DefinitionTracker) (o : Object) : List String :=
  (t.files.lookup o.key).getD []

/-- Registers a file for an object. -/
def register (t : DefinitionTracker) (o : Object) (path : String) : DefinitionTracker :=
  let known := t.filesOf o
  if known.contains path then t
  else ⟨(o.key, known ++ [path]) :: t.files.filter fun e ↦ e.1 != o.key⟩

/-- Forgets all files. -/
def reset (_ : DefinitionTracker) : DefinitionTracker := {}

end DefinitionTracker

end DeclClosure

import DeclClosure.Reflection.Members
import DeclClosure.Symbol.Set
import DeclClosure.Text.LowerCase

/-!
# Snapshots of symbols

The symbols that some modules define, which are the starting points of a compilation, and the
symbols of the standard environment, where a compilation stops.
-/

namespace DeclClosure

namespace World

/-- The module of type forms. -/
def typingModule : Object := .entity (.standardModule "typing")

/-- The object is what the module of type forms has under a name. -/
def isTypingImport (w : World) (name : String) (o : Object) : Bool :=
  (w.attr? typingModule name).any fun t ↦ t.same o

/-- The name that a module has. -/
def moduleName (w : World) (id : EntityId) : String :=
  (w.textAttr? id "__name__").getD ""

/-- The namespace of an entity. -/
def namesIn (w : World) (id : EntityId) : List (String × Object) :=
  (w.entity? id).elim [] Entity.attrs

/-- The entry of the namespace of a module is a definition of the module: a class that says it
belongs there, or another constant with a capital in its name. -/
def isUnitSymbol (w : World) (home : String) (entry : String × Object) : Bool :=
  let (name, o) := entry
  if Name.startsWith "_" name || w.isModule o || w.isRoutine o then false
  else
    match w.asClass? o with
    | some (id, _) => w.textAttr? id "__module__" == some home
    | none => !(Text.isLowerCase name || w.isTypingImport name o)

/-- The symbols that some modules define, the modules among them. -/
def unitSymbols (w : World) (modules : List EntityId) : SymbolSet :=
  .ofNames (modules.flatMap fun id ↦
    let home := w.moduleName id
    home :: ((w.namesIn id).filter (w.isUnitSymbol home)).map fun e ↦ Name.within home e.1)

/-- The public names of a module. -/
def publicNames (w : World) (id : EntityId) : List String :=
  ((w.namesIn id).map (·.1)).filter fun n ↦ !Name.startsWith "_" n

/-- The public names of the root namespace. -/
def rootSymbols (w : World) : List String :=
  w.publicNames (.standardModule Name.rootName)

/-- The symbols of the root namespace and of some modules. -/
def payloadSymbols (w : World) (modules : List EntityId) : SymbolSet :=
  .ofNames (w.rootSymbols ++ modules.flatMap fun id ↦
    let home := w.moduleName id
    home :: (w.publicNames id).map (Name.within home))

/-- The symbols of the standard environment. -/
def standardPayload (w : World) : SymbolSet :=
  w.payloadSymbols (Standard.moduleNames.map .standardModule)

end World

end DeclClosure

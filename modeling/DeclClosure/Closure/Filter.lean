import DeclClosure.Closure.State
import DeclClosure.Text.LowerCase

/-!
# What is left out

Which names and objects get no declaration. A symbol of the standard environment is not looked up
unless it was asked for. An object is dropped if its name is blank, was made up, or has no capital,
unless it is a module under its own name; if its name lies in the namespace of an alias or was dealt
with before; and if it is a member of an enumeration, which its class lists.
-/

namespace DeclClosure.Closure

/-- Why an object is dropped. -/
inductive SkipReason where
  | blank
  | synthetic
  | lowerCase
  | aliased
  | seen
  | enumMember
deriving DecidableEq, Repr

/-- The wording of a reason. -/
def SkipReason.text : SkipReason → String
  | .blank => "blank name"
  | .synthetic => "synthetic name"
  | .lowerCase => "lower-case name"
  | .aliased => "inside an alias namespace"
  | .seen => "already seen"
  | .enumMember => "enum member"

/-- The symbol belongs to the standard environment. -/
def Setting.inPayload (c : Setting) (name : String) : Bool :=
  c.payload.contains (Name.stripRoot name)

/-- The symbol is not looked up. -/
def Setting.skipsSymbol (c : Setting) (name : String) : Bool :=
  c.inPayload name && !c.bootstrap.contains name

/-- The name lies in the namespace of an alias. -/
def State.isAliased (s : State) (name : String) : Bool :=
  s.aliases.any fun a ↦ Name.startsWith a name

/-- The object is a module under its own name. -/
def isModuleDefinition (w : World) (name : String) (o : Object) : Bool :=
  w.isModule o && w.canonicalName? o == some name

/-- Why an object is dropped, if it is. -/
def State.skipReason? (s : State) (name : String) (o : Object) : Option SkipReason :=
  if Text.isBlankText name then some .blank
  else if name.toList.any fun c ↦ c = '<' ∨ c = '>' then some .synthetic
  else if Text.isLowerCase (Name.leaf name) && !isModuleDefinition s.world name o then
    some .lowerCase
  else if s.isAliased name then some .aliased
  else if s.seen.contains name then some .seen
  else if s.world.isEnumMember o then some .enumMember
  else none

namespace Run

/-- The unit defines an object, or a part of it. If nothing tells where the object was defined, it
counts as defined there unless evidence is wanted. -/
def definedInUnit (c : Setting) (o : Object) (strict : Bool) : Run Bool := do
  let files ← ask (Query.definitionFiles o)
  let more := (← get).trackers.definitions.filesOf o
  if (files ++ more).isEmpty then return !strict
  else return (files ++ more).any c.unit.contains

end Run

/-- The code of a callable lies in the unit. -/
def Setting.hasMethod (c : Setting) (w : World) (o : Object) : Bool :=
  (w.sourceFile? o).any c.unit.contains

end DeclClosure.Closure

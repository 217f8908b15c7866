import DeclClosure.Closure.Filter

/-!
# Declaring objects

What becomes of an object that was found under a name. A module or class under its own name is a
scope, if the unit defines it; under another name it is an alias, and nothing below that name is
declared; every other object is a constant. A class names as its superclass the nearest ancestor
whose name still stands for it.

First the world is asked until there is a `Verdict` on the object, then the verdict is enacted
(`State.enact`). All that can fail is in the first part, so an object is declared as a whole or not
at all.
-/

namespace DeclClosure.Closure

/-- What an object is under a name. -/
inductive ConstantKind where
  /-- A module or class under its own name. -/
  | scope
  /-- A module or class under another name. -/
  | alias
  | value
deriving DecidableEq, Repr

/-- The word for a kind. -/
def ConstantKind.word : ConstantKind → String
  | .scope => "namespace"
  | .alias => "alias"
  | .value => "value"

/-- Why an object that was taken up gets no declaration. -/
inductive DropReason where
  /-- Its name belongs to the standard environment. -/
  | payload
  | typeVariable
  | notInUnit
  /-- It is a value of the machinery of type forms. -/
  | machinery
deriving DecidableEq, Repr

/-- What is decided about an object that was taken up under a name. -/
inductive Verdict where
  | drop (reason : DropReason)
  /-- Another name of a module or class, whose namespace is closed; `shown` tells whether the alias
  is declared. -/
  | alias (target : String) (shown : Bool)
  /-- A constant with the object that is announced for it. -/
  | const (announced : Object) (value ascription : Option String)
  | scope (kind : ScopeKind)
deriving Repr

namespace State

/-- Counts a name as dealt with. -/
def markSeen (s : State) (name : String) : State :=
  { s with seen := s.seen ++ [name] }

/-- Closes the namespace below a name. -/
def closeNamespace (s : State) (name : String) : State :=
  if s.aliases.contains (Name.namespacePrefix name) then s
  else { s with aliases := s.aliases ++ [Name.namespacePrefix name] }

/-- Attaches a new node and announces it. -/
def attach (s : State) (kind : NodeKind) (name : String) (announced : Object)
    (node : NodeId → Node) : State :=
  { s with
    tree := s.tree.add (node s.nextNode)
    queue := s.queue.push (.node name announced (some s.nextNode) kind none)
    nextNode := s.nextNode + 1 }

/-- Attaches a constant. -/
def attachConst (s : State) (name : String) (announced : Object)
    (value ascription : Option String) : State :=
  s.attach .const name announced fun id ↦ .leaf ⟨id, name, []⟩ (.const value ascription)

/-- Attaches a scope after asking for its superclass. -/
def attachScope (s : State) (kind : NodeKind) (name : String) (o : Object) (k : ScopeKind) :
    State :=
  (k.superclass?.elim s fun superclass ↦ s.push (.symbol superclass)).attach kind name o
    fun id ↦ .scope ⟨id, name, []⟩ { kind := k } []

/-- Enacts the verdict on an object; `kind` is the kind of a scope that is made of it. -/
def enact (s : State) (kind : NodeKind) (name : String) (o : Object) : Verdict → State
  | .drop _ => s
  | .alias target shown =>
    if shown then (s.closeNamespace name).attachConst name o (some target) none
    else s.closeNamespace name
  | .const announced value ascription => s.attachConst name announced value ascription
  | .scope k => s.attachScope kind name o k

end State

/-- Weak collections hide their type parameters. -/
def weakCollections : List (Object × String) := [
  (.standard "_weakrefset.WeakSet", "weakref.WeakSet[Any]"),
  (.standard "weakref.WeakKeyDictionary", "weakref.WeakKeyDictionary[Any, Any]"),
  (.standard "weakref.WeakValueDictionary", "weakref.WeakValueDictionary[Any, Any]")]

/-- The namespaces of classes that are machinery of type forms. -/
def internalNamespaces : List String := ["typing._", "typing_extensions._", "_typeshed."]

/-- The name starts with one of some texts. -/
def startsWithAny (starts : List String) (name : String) : Bool :=
  starts.any fun p ↦ Name.startsWith p name

/-- A text that is there and not empty. -/
def nonempty (s : Option String) : Option String :=
  s.filter (· != "")

namespace Run

/-- What an object is under a name. -/
def classify (name : String) (o : Object) : Run ConstantKind := do
  if !(← get).world.isNamespace o then return .value
  if (← nameOf o) == some name then return .scope else return .alias

/-- The name that an object has for itself, or the last segment of the name it was found under. -/
def ownName (w : World) (name : String) (o : Object) : String :=
  ((w.attr? o "__name__").bind Object.text?).getD (Name.leaf name)

/-- The text that stands for a module or class without a name. -/
def anonymousText (name : String) (o : Object) : Run String := do
  let w := (← get).world
  if w.isModule o then return "types.ModuleType(\"" ++ Name.leaf name ++ "\")"
  let metaclass := (nonempty (← nameOf (w.classObject o))).getD "type"
  return metaclass ++ "(\"" ++ ownName w name o ++ "\", (), \x7b\x7d)"

/-- The verdict on a module or class under another name. -/
def judgeAlias (c : Setting) (name : String) (o : Object) : Run Verdict := do
  if c.inPayload name then return .drop .payload
  let target ←
    match nonempty (← nameOf o) with
    | some t => pure t
    | none => anonymousText name o
  return .alias target (!c.ignored.contains name)

/-- The name of a class, with the most general type for each of its type parameters. -/
def genericName (cls : Object) : Run (Option String) := do
  match ← nameOf cls with
  | none => return none
  | some name =>
    match ← ask (Query.typeParameters cls) with
    | [] => return some name
    | params => return some (name ++ "[" ++ ", ".intercalate (params.map fun _ ↦ "Any") ++ "]")

/-- The text for the class of a value. -/
def classText (cls : Object) : Run (Option String) := do
  match weakCollections.find? fun c ↦ c.1.same cls with
  | some c => return some c.2
  | none => genericName cls

/-- The verdict on what is neither a module nor a class. -/
def judgeValue (c : Setting) (name : String) (o : Object) : Run Verdict := do
  if c.inPayload name then return .drop .payload
  let w := (← get).world
  let cls := w.classObject o
  if w.isTypeVariable o then
    return .const cls (some (w.className (w.classOf o) ++ "(\"" ++ ownName w name o ++ "\")")) none
  else if !w.isClass o && w.isTypeForm o then
    return .const cls (some (← ask (Query.typeText Query.nameOf o))) (some "TypeAlias")
  else
    let text := nonempty (← classText cls)
    if text.any (startsWithAny internalNamespaces) then return .drop .machinery
    return .const cls none (some (text.getD "Any"))

/-- The class that the walk along superclasses stops at, with `none` past its end. At most `fuel`
classes are looked at. An ancestor is passed over while it has no name, and while its name is that
of the class before it. -/
def verifiedSuperclass : Nat → Object → Run (Option Object)
  | 0, _ => return none
  | fuel + 1, o => do
    match (← get).world.superclass? o with
    | none => return none
    | some superclass =>
      let name ← nameOf o
      match nonempty (← nameOf superclass) with
      | none => verifiedSuperclass fuel superclass
      | some superclassName =>
        match ← ask (Query.resolve superclassName) with
        | none => verifiedSuperclass fuel superclass
        | some found =>
          if !(← get).world.isNamespace found then verifiedSuperclass fuel superclass
          else if (← nameOf found) == name then verifiedSuperclass fuel superclass
          else return some superclass

/-- How many classes a chain of superclasses can have. -/
def chainLimit (w : World) : Nat :=
  w.declared.size + Standard.classes.length + 1

/-- The superclass that a class names. -/
def superclassName (c : Setting) (o : Object) : Run (Option String) := do
  match ← verifiedSuperclass (chainLimit (← get).world) o with
  | none => return none
  | some superclass =>
    if superclass.same (.standard "object") then return none
    if (← nameOf superclass).any c.terminal.contains then return none
    return nonempty (← nameOf superclass)

/-- The verdict on a module or class that is to be a scope. -/
def judgeScope (c : Setting) (o : Object) : Run Verdict := do
  if (← get).world.isClass o then return .scope (.class (← superclassName c o))
  else return .scope .module

/-- The verdict on a module or class under its own name. -/
def judgeNamespace (c : Setting) (name : String) (o : Object) : Run Verdict := do
  if (← get).world.isTypeVariable o then return .drop .typeVariable
  if ← definedInUnit c o c.strictMembership then judgeScope c o
  else
    note (.notInUnit name c.unit.name)
    return .drop .notInUnit

/-- The verdict on an object of the unit. -/
def judgeConstant (c : Setting) (name : String) (o : Object) : Run Verdict := do
  match ← classify name o with
  | .alias => judgeAlias c name o
  | .scope => judgeNamespace c name o
  | .value => judgeValue c name o

/-- The verdict on an object outside of the unit. -/
def judgeForeign (c : Setting) (o : Object) : Run Verdict := do
  if (← get).world.isTypeVariable o then return .drop .typeVariable
  judgeScope c o

/-- Looks up a symbol. -/
def onSymbol (c : Setting) (name : String) : Run Unit := do
  let name := Name.stripRoot name
  if c.skipsSymbol name then note (.payloadSymbol name)
  else
    match ← ask (Query.resolve name) with
    | none => note (.unresolved name)
    | some o => push (.constant name o)

/-- Deals with an object that was found under a name, unless it is left out. -/
def onConstant (kind : NodeKind) (judge : String → Object → Run Verdict) (name : String)
    (o : Object) : Run Unit := do
  let name := Name.stripRoot name
  match (← get).skipReason? name o with
  | some reason => note (.skippedConstant name reason.text)
  | none =>
    modify fun s ↦ s.markSeen name
    let verdict ← judge name o
    modify fun s ↦ s.enact kind name o verdict

end Run

end DeclClosure.Closure

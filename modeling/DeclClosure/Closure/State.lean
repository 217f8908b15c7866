import DeclClosure.Config.Settings
import DeclClosure.Event
import DeclClosure.Listener.Registry
import DeclClosure.Reflection.Signature
import DeclClosure.SourceUnit
import DeclClosure.Tree.Basic
import DeclClosure.Universe.Declaration.Universe

/-!
# States of a compilation

A compilation works off a queue of events. Its state is the world that it looks at, the queue, the
names that were declared or dropped for good (`seen`), the namespaces of aliases, and the tree; what
it works for is fixed (`Setting`). A step is a `Run`: it may change the state and may fail, and what
it changed before it failed stays changed.
-/

namespace DeclClosure.Closure

/-- An event. -/
inductive Event where
  /-- A name to look up. -/
  | symbol (name : String)
  /-- An object of the unit, found under a name. -/
  | constant (name : String) (value : Object)
  /-- An object outside of the unit that the unit touches. -/
  | foreignConstant (name : String) (value : Object)
  /-- A node that has joined the tree, with the object that it was made for. Nodes of callables come
  with the signature that was observed. -/
  | node (name : String) (value : Object) (node : Option NodeId) (kind : NodeKind)
    (signature : Option Signature)
  | bare
deriving Repr

/-- The class of an event. -/
def Event.eventClass : Event → EventClass
  | symbol _ => .symbol
  | constant _ _ => .constant
  | foreignConstant _ _ => .foreignConstant
  | node _ _ _ _ _ => .node
  | bare => .bare

/-- What looks at each new node and may add to it. -/
inductive Listener where
  | typeVariables
  | mixins
  | metaclass
  | methods
  | helpers
  | enums
  | fields
  | signatures
  | subconstants
  | documentation
  | foreignConstants
  | removeEmptyPayloadScopes
  | recorder (r : Recorder)
deriving DecidableEq, Repr

/-- The listeners of the library with their names, in the order in which they run. -/
def Listener.defaults : List (String × Listener) := [
  ("type_variables", typeVariables),
  ("mixins", mixins),
  ("metaclass", metaclass),
  ("methods", methods),
  ("helpers", helpers),
  ("enums", enums),
  ("fields", fields),
  ("signatures", signatures),
  ("subconstants", subconstants),
  ("documentation", documentation),
  ("foreign_constants", foreignConstants),
  ("remove_empty_payload_scopes", removeEmptyPayloadScopes)]

theorem Listener.defaults_names : Listener.defaults.map (·.1) = listenerNames := rfl

/-- The listeners that settings ask for: those that are not disabled, and documentation only where
it is asked for. -/
def Listener.chosen (c : Config) : Registry Listener :=
  ⟨defaults.filter fun l ↦ c.isEnabled l.1 && (l.2 != .documentation || c.includeDoc)⟩

/-- What a compilation works for. -/
structure Setting where
  /-- The unit. -/
  unit : SourceUnit
  /-- The symbols of the standard environment. -/
  payload : SymbolSet
  /-- The symbols that are asked for even if they are in the standard environment. -/
  bootstrap : SymbolSet
  /-- Membership in the unit needs evidence. -/
  strictMembership : Bool
  /-- Aliases that get no declaration. -/
  ignored : List String
  /-- Classes at which chains of superclasses end. -/
  terminal : List String
  /-- The listeners. -/
  listeners : Registry Listener
deriving Repr

/-- Aliases that never get a declaration. -/
def alwaysIgnored : List String := ["typing.Text"]

/-- The setting of a compilation; its lists of symbols must hold texts only. -/
def Setting.ofConfig (unit : SourceUnit) (payload bootstrap : SymbolSet) (c : Config)
    (listeners : Option (Registry Listener)) : Except NotAName Setting := do
  let ignored ← Config.symbols c.ignoredSymbols
  let terminal ← Config.symbols c.terminalSuperclasses
  return {
    unit, payload, bootstrap
    strictMembership := c.strictMembership
    ignored := alwaysIgnored ++ ignored
    terminal
    listeners := listeners.getD (Listener.chosen c) }

/-- The state of a compilation. -/
structure State where
  /-- The world. -/
  world : World
  /-- Registered mixins and definition sites. -/
  trackers : Trackers := {}
  /-- The pending events. -/
  queue : Queue Event := .empty
  /-- The names that have been dealt with. -/
  seen : List String := []
  /-- The namespaces of aliases, each ending in a point. -/
  aliases : List String := []
  /-- The declarations. -/
  tree : Tree := {}
  /-- The identity of the next node. -/
  nextNode : NodeId := 0
  /-- What recorders were told, in order. -/
  calls : List (String × Callback) := []
deriving Repr

namespace State

/-- The state before anything has been worked off, with some symbols to start from. -/
def start (w : World) (t : Trackers) (seeds : List String) : State :=
  { world := w, trackers := t, queue := ⟨seeds.map .symbol⟩ }

/-- Puts an event at the end of the queue. -/
def push (s : State) (e : Event) : State :=
  { s with queue := s.queue.push e }

/-- Leaves a note. -/
def note (s : State) (n : Note) : State :=
  { s with world := s.world.note n }

end State

/-- Why a compilation stops early. -/
inductive Failure where
  /-- An object of the universe failed. -/
  | raised (r : Raised)
  /-- There is no rule for an event. -/
  | unsupportedEvent (cls : EventClass)
  /-- A recorder failed. -/
  | recorder (e : DispatchError)
  /-- A setting lists something that is no name. -/
  | notAName (e : NotAName)
deriving DecidableEq, Repr

/-- The wording of a failure. -/
def Failure.message : Failure → String
  | .raised r => r.message
  | .unsupportedEvent c => "Unsupported event " ++ c.name
  | .recorder e => e.message
  | .notAName e => e.message

/-- A step of a compilation. -/
abbrev Run := ExceptT Failure (StateM State)

namespace Run

/-- Asks the world. -/
def ask {α : Type} (q : Query α) : Run α := fun s ↦
  match q s.world with
  | (.ok a, w) => (.ok a, { s with world := w })
  | (.error r, w) => (.error (.raised r), { s with world := w })

/-- Leaves a note. -/
def note (n : Note) : Run Unit :=
  modify fun s ↦ s.note n

/-- Puts an event at the end of the queue. -/
def push (e : Event) : Run Unit :=
  modify fun s ↦ s.push e

/-- The name of an object, if that name still stands for it. -/
def nameOf (o : Object) : Run (Option String) :=
  ask (Query.nameOf o)

/-- An identity that no node has yet. -/
def freshNode : Run NodeId :=
  modifyGet fun s ↦ (s.nextNode, { s with nextNode := s.nextNode + 1 })

/-- Changes a node. -/
def modifyNode (id : NodeId) (f : Node → Node) : Run Unit :=
  modify fun s ↦ { s with tree := s.tree.modify id f }

end Run

end DeclClosure.Closure

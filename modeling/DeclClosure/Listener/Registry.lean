import DeclClosure.Event
import DeclClosure.Text.Quoted

/-!
# Registries of listeners

A registry is an ordered list of listeners with distinct names. A dispatch goes to each listener
once, in the order of registration, and stops at the first failure. What a listener is does not
matter to the registry.
-/

namespace DeclClosure

/-- The three things that a listener can be told of. -/
inductive Callback where
  | scope
  | const
  | method
deriving DecidableEq, Repr

namespace Callback

/-- The word for a callback. -/
def word : Callback → String
  | .scope => "scope"
  | .const => "const"
  | .method => "method"

/-- The callback that a word names. -/
def ofWord? (w : String) : Option Callback :=
  [scope, const, method].find? fun c ↦ c.word == w

end Callback

/-- The callback for a kind of node. -/
def NodeKind.callback : NodeKind → Callback
  | .const => .const
  | .scope | .foreignScope => .scope
  | .method => .method

/-- Listeners by name, in the order of registration. -/
structure Registry (α : Type) where
  /-- The listeners with their names. -/
  entries : List (String × α) := []
deriving Repr

/-- Why a registry refuses. -/
inductive RegistryError where
  | alreadyRegistered (name : String)
  | notRegistered (name : String)
deriving DecidableEq, Repr

/-- The wording of the error. -/
def RegistryError.message : RegistryError → String
  | .alreadyRegistered name => "Listener " ++ name ++ " already registered"
  | .notRegistered name => Text.quoted name

namespace Registry

variable {α : Type}

/-- The names, in dispatch order. -/
def names (r : Registry α) : List String :=
  r.entries.map (·.1)

/-- A listener is registered under the name. -/
def contains (r : Registry α) (name : String) : Bool :=
  r.names.contains name

/-- The listener under a name. -/
def get? (r : Registry α) (name : String) : Except RegistryError α :=
  match r.entries.lookup name with
  | some l => .ok l
  | none => .error (.notRegistered name)

/-- Registers a listener after all others. -/
def register (r : Registry α) (name : String) (l : α) : Except RegistryError (Registry α) :=
  if r.contains name then .error (.alreadyRegistered name)
  else .ok ⟨r.entries ++ [(name, l)]⟩

/-- Takes out the listener under a name. The answer is whether there was one. -/
def unregister (r : Registry α) (name : String) : Bool × Registry α :=
  (r.contains name, ⟨r.entries.filter fun e ↦ e.1 != name⟩)

/-- Tells each listener in turn. -/
def dispatch {m : Type → Type} [Monad m] (r : Registry α) (tell : String → α → m Unit) : m Unit :=
  r.entries.forM fun e ↦ tell e.1 e.2

end Registry

/-- What kind of node an event claims to carry: a known one, or something else, as it is shown. -/
inductive ClaimedKind where
  | known (kind : NodeKind)
  | unknown (shown : String)
deriving DecidableEq, Repr

/-- A listener that only keeps a record of what it was told. -/
structure Recorder where
  /-- It is told of foreign scopes too. -/
  foreign : Bool := false
  /-- After recording this callback it fails. -/
  failsAt : Option Callback := none
deriving DecidableEq, Repr

/-- What ends a dispatch early. -/
inductive DispatchError where
  | unsupportedKind (shown : String)
  | recorderFailed (name : String)
deriving DecidableEq, Repr

/-- The wording of the error. -/
def DispatchError.message : DispatchError → String
  | .unsupportedKind shown => "Unsupported node kind " ++ shown
  | .recorderFailed name => name ++ " failed"

/-- The callback that a recorder gets for an event, `none` if it ignores the event. -/
def Recorder.callback? (r : Recorder) : ClaimedKind → Except DispatchError (Option Callback)
  | .known k => .ok (if k.isForeign && !r.foreign then none else some k.callback)
  | .unknown shown => .error (.unsupportedKind shown)

/-- The record of a dispatch to recorders: who got which callback, and what ended it early. A
listener without a recorder is told, but keeps no record. -/
def Registry.record (r : Registry (Option Recorder)) (kind : ClaimedKind) :
    List (String × Callback) × Option DispatchError :=
  go [] r.entries
where
  /-- Tells the listeners that are left. -/
  go (calls : List (String × Callback)) :
      List (String × Option Recorder) → List (String × Callback) × Option DispatchError
    | [] => (calls, none)
    | (name, recorder) :: rest =>
      match (recorder.getD {}).callback? kind with
      | .error e => (calls, some e)
      | .ok none => go calls rest
      | .ok (some c) =>
        match recorder with
        | none => go calls rest
        | some rec =>
          let calls := calls ++ [(name, c)]
          if rec.failsAt = some c then (calls, some (.recorderFailed name)) else go calls rest

end DeclClosure

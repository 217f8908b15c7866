import DeclClosure.Closure.Enrichment.Compositions
import DeclClosure.Closure.Enrichment.Members

/-!
# Working off the queue

Events are worked off one at a time, oldest first: symbols are looked up, objects are declared, and
new nodes are shown to every listener in turn. The loop goes on until nothing is pending or an event
fails; nothing bounds it from outside. A name is dealt with once, so the queue runs dry.
-/

namespace DeclClosure.Closure

/-- The listener is not told of scopes outside of the unit. -/
def Listener.ignoresForeign : Listener → Bool
  | .mixins | .methods | .signatures => false
  | .recorder r => !r.foreign
  | _ => true

namespace Run

/-- What a listener does about a scope. -/
def onScope (c : Setting) (a : Announcement) : Listener → Run Unit
  | .typeVariables => recordTypeParameters a
  | .mixins => recordMixins c a
  | .metaclass => recordMetaclass a
  | .methods => addMethods c a
  | .helpers => recordMarkers a
  | .enums => addEnumMembers a
  | .fields => addFields a
  | .subconstants => pushSubconstants c a
  | .documentation => document a a.value
  | .foreignConstants => pushTargets c a
  | .removeEmptyPayloadScopes => removeIfEmpty c a
  | .signatures | .recorder _ => return ()

/-- What a listener does about a callable. -/
def onMethod (a : Announcement) : Listener → Run Unit
  | .signatures => writeTypes a
  | .documentation => documentMethod a
  | _ => return ()

/-- Makes a recorder keep a callback, after which it may fail. -/
def keepRecord (name : String) (r : Recorder) (callback : Callback) : Run Unit := do
  modify fun s ↦ { s with calls := s.calls ++ [(name, callback)] }
  if r.failsAt = some callback then throw (.recorder (.recorderFailed name))

/-- Tells a listener about a node. -/
def tell (c : Setting) (a : Announcement) (name : String) (l : Listener) : Run Unit :=
  if a.kind.isForeign && l.ignoresForeign then return ()
  else
    match l, a.kind.callback with
    | .recorder r, callback => keepRecord name r callback
    | l, .scope => onScope c a l
    | l, .method => onMethod a l
    | _, .const => return ()

/-- Works off one event. -/
def dispatch (c : Setting) : Event → Run Unit
  | .symbol name => onSymbol c name
  | .constant name o => onConstant .scope (judgeConstant c) name o
  | .foreignConstant name o => onConstant .foreignScope (fun _ ↦ judgeForeign c) name o
  | .node name o node kind signature =>
    c.listeners.dispatch (tell c ⟨name, o, node, kind, signature⟩)
  | .bare => throw (.unsupportedEvent .bare)

end Run

/-- Works off all events. The answer is how many there were, counted on from `done`, or the failure
of the last one. -/
def State.workOff (c : Setting) (done : Nat) (s : State) : Option (Except Failure Nat × State) :=
  match s.queue.pop? with
  | none => some (.ok done, s)
  | some (e, rest) =>
    match Run.dispatch c e { s with queue := rest } with
    | (.ok (), s) => s |>.workOff c (done + 1)
    | (.error f, s) => some (.error f, s)
partial_fixpoint

namespace Run

export State (workOff)

/-- Works off all events as one step. A loop without an end would leave everything as it was. -/
def drain (c : Setting) : Run Nat := fun s ↦
  (workOff c 0 s).getD (.ok 0, s)

/-- Works off all events and says so. -/
def compile (c : Setting) : Run Unit := do
  note (.compiling c.unit.name (← get).queue.size)
  let done ← drain c
  note (.compiled c.unit.name done (← get).seen.length)

/-- Puts some symbols into the queue. -/
def seed (names : List String) : Run Unit :=
  names.forM fun n ↦ push (.symbol n)

end Run

namespace State

/-- The state after the oldest event has been worked off; nothing changes if nothing is pending. -/
def next (c : Setting) (s : State) : State :=
  match s.queue.pop? with
  | none => s
  | some (e, rest) => (Run.dispatch c e { s with queue := rest }).2

/-- The state after at most `n` events. -/
def after (c : Setting) (s : State) : Nat → State
  | 0 => s
  | n + 1 => (s.after c n).next c

end State

end DeclClosure.Closure

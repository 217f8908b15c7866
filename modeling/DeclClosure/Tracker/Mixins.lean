import DeclClosure.Text.DigitClass
import DeclClosure.Tree.Node
import DeclClosure.Universe.Object

/-!
# Tracked compositions

Which class was composed into which, how, and where in the sources. The tracker is written through
`MixinTracker.register` only, which enters a composition into two indexes: by the mixin, where all
registrations are kept in order, and by the target and the kind of composition, where each mixin
stands once, at the place of its first registration and with the location of its last. Classes are
told apart by identity, not by name.
-/

namespace DeclClosure

/-- A mixin of a target, with the location of the composition. -/
structure Composition where
  /-- The class that was mixed in. -/
  mixin : Object
  /-- Where that was done. -/
  location : String
deriving Repr

/-- A registration of a mixin. -/
structure Registration where
  /-- The class that received the mixin. -/
  target : Object
  /-- How it was composed. -/
  kind : MixinKind
  /-- Where that was done. -/
  location : String
deriving Repr

/-- The registered compositions. -/
structure MixinTracker where
  /-- Registrations are kept. -/
  installed : Bool := false
  /-- The mixins by target and kind. -/
  byTarget : List ((ObjectKey × MixinKind) × List Composition) := []
  /-- The registrations by mixin. -/
  byMixin : List (ObjectKey × List Registration) := []
deriving Repr

/-- Changes the list under a key, which is empty if there is none yet. -/
def upsert {κ α : Type} [BEq κ] (key : κ) (f : List α → List α) :
    List (κ × List α) → List (κ × List α)
  | [] => [(key, f [])]
  | (k, as) :: rest => if k == key then (k, f as) :: rest else (k, as) :: upsert key f rest

/-- Enters a composition: in the place of the same mixin, or at the end. -/
def putComposition (c : Composition) : List Composition → List Composition
  | [] => [c]
  | d :: ds => if d.mixin.same c.mixin then c :: ds else d :: putComposition c ds

namespace MixinTracker

/-- Starts keeping registrations. The answer is whether that was news. -/
def install (t : MixinTracker) : Bool × MixinTracker :=
  (!t.installed, { t with installed := true })

/-- Registers a composition, unless registrations are not kept. -/
def register (t : MixinTracker) (target mixin : Object) (kind : MixinKind) (location : String) :
    MixinTracker :=
  if t.installed then
    { t with
      byTarget := upsert (target.key, kind) (putComposition ⟨mixin, location⟩) t.byTarget
      byMixin := upsert mixin.key (· ++ [⟨target, kind, location⟩]) t.byMixin }
  else t

/-- All registrations of a mixin in order. -/
def registrationsOf (t : MixinTracker) (mixin : Object) : List Registration :=
  (t.byMixin.lookup mixin.key).getD []

/-- The mixins of a target of one kind. -/
def compositionsOf (t : MixinTracker) (target : Object) (kind : MixinKind) : List Composition :=
  (t.byTarget.lookup (target.key, kind)).getD []

/-- Forgets all registrations. -/
def reset (t : MixinTracker) : MixinTracker :=
  { t with byTarget := [], byMixin := [] }

end MixinTracker

namespace Location

/-- Splits at the last colon: what stands before it, if there is one, and what stands after it. -/
def cutLastColon : List Char → Option (List Char) × List Char
  | [] => (none, [])
  | c :: cs =>
    match cutLastColon cs with
    | (some before, after) => (some (c :: before), after)
    | (none, after) => if c = ':' then (some [], after) else (none, c :: after)

/-- The path of a location, which is followed by a colon and a line number. A text without a line
number is a path as a whole; a line number alone has no path. -/
def path (location : String) : String :=
  let (before, line) := cutLastColon location.toList
  if !line.isEmpty && line.all Text.isDigitChar then String.ofList (before.getD []) else location

/-- The location of a line of a file. -/
def ofLine (file : String) (line : Int) : String :=
  file ++ ":" ++ toString line

/-- The location of a call: the innermost of the stack frames, which are given outermost first. -/
def ofFrames (frames : List (String × Int)) : String :=
  match frames.getLast? with
  | some (file, line) => ofLine file line
  | none => "<unknown>:0"

end Location

end DeclClosure

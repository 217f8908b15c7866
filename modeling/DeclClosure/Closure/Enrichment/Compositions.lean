import DeclClosure.Closure.Enrichment.Types

/-!
# Compositions

The mixins of a class: its bases beyond the superclass, and what was seen to be composed into it. Of
a class outside of the unit only those compositions count that the unit itself made. In turn, a
mixin of the unit leads to the classes that the unit mixed it into.
-/

namespace DeclClosure.Closure.Run

/-- Records a mixin under the name that it still bears, and asks for its declaration. -/
def recordMixin (a : Announcement) (kind : MixinKind) (mixin : Object) : Run Unit := do
  match nonempty (← nameOf mixin) with
  | none => return ()
  | some name =>
    if startsWithAny typingNamespaces name then return ()
    push (.symbol name)
    let scope ← scopeOf a "add_mixin"
    modifyNode scope.id (Node.addMixin kind.word name)

/-- The composition was made in the unit. -/
def isOurs (c : Setting) (location : String) : Bool :=
  c.unit.contains (Location.path location)

/-- Records the tracked mixins of one kind. -/
def recordTracked (c : Setting) (a : Announcement) (kind : MixinKind) : Run Unit := do
  let tracked := (← get).trackers.mixins.compositionsOf a.value kind
  (tracked.filter fun t ↦ !a.kind.isForeign || isOurs c t.location).forM fun t ↦
    recordMixin a kind t.mixin

/-- The bases of a class beyond its superclass. -/
def extraBases (w : World) (o : Object) : List Object :=
  match w.superclass? o with
  | some superclass => (w.basesOf o).filter fun b ↦ !b.same superclass
  | none => w.basesOf o

/-- Records all mixins of a class. -/
def recordMixins (c : Setting) (a : Announcement) : Run Unit := do
  recordTracked c a .prepend
  let w := (← get).world
  if !a.kind.isForeign && w.isClass a.value then
    (extraBases w a.value).forM (recordMixin a .include)
  recordTracked c a .include
  recordTracked c a .extend

/-- Leads to the classes that the unit mixed a class into. -/
def pushTargets (c : Setting) (a : Announcement) : Run Unit := do
  let ours := ((← get).trackers.mixins.registrationsOf a.value).filter fun r ↦ isOurs c r.location
  ours.forM fun r ↦ do
    match nonempty (← nameOf r.target) with
    | some name => push (.foreignConstant name r.target)
    | none => return ()

end DeclClosure.Closure.Run

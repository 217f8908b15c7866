import DeclClosure.Text.Sorted
import DeclClosure.Universe.Import

/-!
# Packages

A package is a module that says where its parts are. The parts are the modules one level below it;
they are found through the first place that the package gives, are listed by name, and are loaded in
that order. A part that is a package itself is walked in turn once it is loaded, and a place is
walked only once by those who share it.
-/

namespace DeclClosure

namespace World

/-- The declared modules by name, the loaded ones first. -/
def declaredModules (w : World) : List (String × EntityId) :=
  let loaded := w.modules.filter fun m ↦
    match m.2 with
    | .declared _ => true
    | _ => false
  let sleeping := w.dormant.filter fun d ↦ (loaded.lookup d.name).isNone
  loaded ++ sleeping.map fun d ↦ (d.name, d.module)

/-- The places that a module gives for its parts, without asking it to compute them. -/
def placesOf (w : World) (id : EntityId) : List String :=
  ((w.entity? id).bind fun e ↦ (e.attr? "__path__").bind Object.iterate?).getD []
    |>.filterMap Object.text?

/-- The module says where its parts are. -/
def isPackage (w : World) (id : EntityId) : Bool :=
  ((w.entity? id).bind fun e ↦ e.attr? "__path__").isSome

/-- The parts found through a place, by last segment, with whether each is a package. -/
def partsAt (w : World) (place : String) : List (String × Bool) :=
  let modules := w.declaredModules
  let owner := modules.reverse.find? fun m ↦ (w.placesOf m.2).head? == some place
  let parts := modules.filter fun m ↦ owner.any fun o ↦ Name.parent? m.1 == some o.1
  Text.sortByName (·.1) (parts.map fun m ↦ (Name.leaf m.1, w.isPackage m.2))

/-- The parts found through some places, each name once. -/
def partsAtAll (w : World) (places : List String) : List (String × Bool) :=
  (places.flatMap w.partsAt).foldl
    (fun parts p ↦ if (parts.lookup p.1).isSome then parts else parts ++ [p]) []

end World

namespace Query

/-- The places that a loaded module gives for its parts. -/
def places (id : EntityId) : Query (List String) := do
  match ← attr? (.entity id) "__path__" with
  | some o => return ((o.iterate?).getD []).filterMap Object.text?
  | none => return []

/-- Loads a part of a package, unless its name is taken; a part that is missing something is passed
over with a note. -/
def loadPart (taken : List (String × EntityId)) (name : String) :
    Query (List (String × EntityId)) := do
  if (taken.lookup name).isSome then return taken
  tryCatch (do return taken ++ [(name, ← importModule name)]) fun r ↦ do
    if r.isA "ImportError" then
      note (.skippedModule name r.message)
      return taken
    else throw r

/-- Loads the listed parts of a package and the parts of those, after the modules that are taken;
`below` loads the parts of a package that are found through some places. The first list holds the
places that have been walked. -/
def loadParts (below : String → List String → List (String × EntityId) →
      Query (List (String × EntityId))) (package : String) (walked : List String)
    (taken : List (String × EntityId)) :
    List (String × Bool) → Query (List (String × EntityId))
  | [] => return taken
  | (part, isPackage) :: rest => do
    let name := Name.within package part
    let taken ← loadPart taken name
    if !isPackage then loadParts below package walked taken rest
    else
      match ← catching ["ImportError"] (importModule name) with
      | none => loadParts below package walked taken rest
      | some id =>
        let fresh := ((← places id).filter fun p ↦ !walked.contains p).eraseDups
        let taken ← below name fresh taken
        loadParts below package (walked ++ fresh) taken rest

/-- Loads the parts of a package that are found through some places. Packages lie within each other
at most as deep as the first argument says. -/
def loadBelow : Nat → String → List String → List (String × EntityId) →
    Query (List (String × EntityId))
  | 0, _, _, taken => return taken
  | depth + 1, package, places, taken => do
    loadParts (loadBelow depth) package [] taken ((← get).partsAtAll places)

/-- Some modules with all parts of the packages among them, each name once. -/
def withParts (modules : List EntityId) : Query (List (String × EntityId)) :=
  modules.foldlM (fun taken id ↦ do
    let w ← get
    let name := ((w.entityAttr? id "__name__").bind Object.text?).getD ""
    let taken := if (taken.lookup name).isSome then taken else taken ++ [(name, id)]
    loadBelow (w.declaredModules.length + 1) name (← places id) taken) []

end Query

end DeclClosure

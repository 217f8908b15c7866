import DeclClosure.Universe.Attribute

/-!
# Loading modules

A dormant module is loaded by its name: its package is loaded first and must say where its parts
are; then the module enters the table and becomes a name of its package. A module whose loading
fails enters nothing. Names have fewer segments from package to package, so loading ends.
-/

namespace DeclClosure.Query

/-- The loaded module of a name. -/
def loaded? (name : String) : Query (Option EntityId) := do
  return (← get).modules.lookup name

/-- Fails since there is no module of a name. -/
def noModule {α : Type} (name : String) : Query α :=
  fail "ModuleNotFoundError" ("No module named " ++ Text.quoted name)

/-- Brings a dormant module to life. -/
def awaken (name : String) : Query EntityId := do
  match (← get).dormant.find? fun d ↦ d.name == name with
  | none => noModule name
  | some d =>
    match d.failure with
    | some r => throw r
    | none =>
      modify fun w ↦ { w with modules := w.modules ++ [(name, d.module)] }
      return d.module

/-- Fails unless a package says where its parts are. -/
def requirePath (name parent : String) (package : EntityId) : Query Unit := do
  match ← attr? (.entity package) "__path__" with
  | some _ => return ()
  | none =>
    fail "ModuleNotFoundError" ("No module named " ++ Text.quoted name ++ "; " ++ Text.quoted parent
      ++ " is not a package")

/-- The module of a name, loaded if need be, its packages first. -/
def findModule (name : String) : Query EntityId := do
  match ← loaded? name with
  | some id => return id
  | none =>
    match _h : Name.parent? name with
    | none => awaken name
    | some parent =>
      if parent = "" then awaken name
      else
        let package ← findModule parent
        match ← loaded? name with
        | some id => return id
        | none =>
          requirePath name parent package
          let id ← awaken name
          modify fun w ↦ w.update package (fun e ↦ e.setAttr (Name.leaf name) (.entity id))
            (Entity.keepsKin_setAttr _ _)
          return id
termination_by name.length
decreasing_by exact Name.length_parent_lt _h

/-- Loads a module by its name. A name must not be empty nor start with a point. -/
def importModule (name : String) : Query EntityId :=
  if Name.startsWith "." name then
    fail "TypeError" ("the 'package' argument is required to perform a relative import for "
      ++ Text.quoted name)
  else if name = "" then fail "ValueError" "Empty module name"
  else findModule name

/-- Remembers that a name is no module. -/
def dismiss (name : String) : Query (Option EntityId) := do
  modify fun w ↦ { w with notModules := w.notModules ++ [name] }
  return none

/-- The module of a name if there is one. Loading is tried once for each name, and a failure other
than a missing module is noted. -/
def module? (name : String) : Query (Option EntityId) := do
  match ← loaded? name with
  | some id => return some id
  | none =>
    let w ← get
    if !w.importing || w.notModules.contains name then return none
    tryCatch (some <$> importModule name) fun r ↦ do
      if r.isA "ImportError" then dismiss name
      else if r.isA "Exception" then
        note (.importFailed name r.message)
        dismiss name
      else throw r

end DeclClosure.Query

import DeclClosure.Closure.Drain
import DeclClosure.Reflection.Places
import DeclClosure.Symbol.Snapshot
import DeclClosure.Universe.Package

/-!
# Compiling whole units

The common case: the unit is what some modules own, the symbols of these modules and of their parts
are the seeds, and everything standard is the payload. A seed is missing in the end if it was not
dealt with and lies in no namespace of an alias.
-/

namespace DeclClosure.Closure

/-- What comes out of compiling a unit. -/
structure Compilation where
  /-- The declarations. -/
  tree : Tree
  /-- The names that the compilation started from. -/
  seeds : List String
  /-- The seeds that were not declared. -/
  missing : List String
deriving Repr

/-- Every seed was declared. -/
def Compilation.isComplete (c : Compilation) : Bool :=
  c.missing.isEmpty

namespace Run

/-- The unit that some modules own together, named for the first of them. -/
def jointUnit (modules : List EntityId) : Run SourceUnit := do
  match ← modules.mapM fun m ↦ ask (Query.unitOf m) with
  | [] => ask (Query.fail "ValueError" "compile_unit needs at least one module")
  | first :: rest => return ⟨first.name, (first :: rest).flatMap SourceUnit.places⟩

/-- The seeds that were not declared. -/
def missingOf (s : State) (seeds : List String) : List String :=
  seeds.filter fun n ↦ !s.seen.contains n && !s.isAliased n

/-- The setting in which the unit that some modules own is compiled, and the symbols that the
compilation starts from. -/
def unitSetting (modules : List EntityId) (config : Config) : Run (Setting × List String) := do
  let unit ← jointUnit modules
  let parts ← ask (Query.withParts modules)
  let world := (← get).world
  let bootstrap := world.unitSymbols (parts.map (·.2))
  match Setting.ofConfig unit world.standardPayload bootstrap config none with
  | .error e => throw (.notAName e)
  | .ok setting => return (setting, bootstrap.toList)

/-- Says which seeds were not declared. -/
def reportMissing (unit : SourceUnit) (seeds missing : List String) : Run Unit := do
  missing.forM fun n ↦ note (.undeclaredSeed n)
  if !missing.isEmpty then note (.undeclaredSeeds missing.length seeds.length unit.name)

/-- Compiles the unit that some modules own. -/
def compileUnit (modules : List EntityId) (config : Config) : Run Compilation := do
  let (setting, seeds) ← unitSetting modules config
  seed seeds
  compile setting
  let s ← get
  let missing := missingOf s seeds
  reportMissing setting.unit seeds missing
  return ⟨s.tree, seeds, missing⟩

end Run

end DeclClosure.Closure

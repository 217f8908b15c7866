import DeclClosure.Symbol.Name
import DeclClosure.Text.Sorted

/-!
# Sets of symbols

A set of qualified names, stored without their root qualifier. Sets are values: a union is a new
set. Membership strips the name that is asked for in the same way as the stored ones, once. How
often a name is stored does not matter; it counts once and is listed once.
-/

namespace DeclClosure

/-- A name as given from outside: a text, or something else, of which only the kind is known. -/
inductive GivenName where
  | text (s : String)
  | other (typeName : String)
deriving DecidableEq, Repr

/-- What stands where a name is wanted is no text. -/
structure NotAName where
  /-- The kind of what is there instead. -/
  typeName : String
deriving DecidableEq, Repr

/-- The wording of the error. -/
def NotAName.message (e : NotAName) : String :=
  "'" ++ e.typeName ++ "' object has no attribute 'startswith'"

/-- The text that is given, if one is. -/
def GivenName.text? : GivenName → Except NotAName String
  | .text s => .ok s
  | .other t => .error ⟨t⟩

/-- A set of symbols. -/
structure SymbolSet where
  /-- The stripped names. -/
  names : List String
deriving Repr

namespace SymbolSet

/-- The set of some names. -/
def ofNames (names : List String) : SymbolSet :=
  ⟨names.map Name.stripRoot⟩

/-- The name is in the set, with or without its root qualifier. -/
def contains (set : SymbolSet) (name : String) : Bool :=
  set.names.contains (Name.stripRoot name)

/-- Membership of anything: what is no text is in no set. -/
def containsGiven (set : SymbolSet) : GivenName → Bool
  | .text s => set.contains s
  | .other _ => false

/-- The union with some more names. The union is built like any other set, so every name is stripped
once more than it was. -/
def union (set : SymbolSet) (more : List String) : SymbolSet :=
  ofNames (set.names ++ more.map Name.stripRoot)

/-- How many names there are. -/
def size (set : SymbolSet) : Nat :=
  set.names.eraseDups.length

/-- The names by code point. -/
def toList (set : SymbolSet) : List String :=
  Text.sortByName id set.names.eraseDups

/-- What a set shows of itself. -/
def summary (set : SymbolSet) : String :=
  "SymbolSet(" ++ toString set.size ++ " names)"

/-- The set of some names as given, or the first that is no text. -/
def ofGiven (names : List GivenName) : Except NotAName SymbolSet := do
  return ofNames (← names.mapM GivenName.text?)

end SymbolSet

end DeclClosure

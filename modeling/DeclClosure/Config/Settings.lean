import DeclClosure.Json.Literal
import DeclClosure.Symbol.Set

/-!
# Settings

The settings of a compilation: two switches, two lists of symbols, and the list of listeners that do
not run. Settings are read from a document with two sections. A single value where a list is wanted
is a list of one; a section that is empty, in whatever way, is a section without settings.

Reading accepts any items in the lists, so that a file with a wrong item can still be shown;
`Config.validate` tells whether the settings make sense.
-/

namespace DeclClosure

open Json (Value)

/-- Why settings cannot be read or checked. -/
inductive ConfigError where
  | notASection (typeName : String)
  | notIterable (typeName : String)
  | notAText (position : Nat) (typeName : String)
  | notAssignable (typeName : String)
  | unknownField (owner field : String)
deriving DecidableEq, Repr

/-- The wording of the error. -/
def ConfigError.message : ConfigError → String
  | .notASection t => "'" ++ t ++ "' object has no attribute 'get'"
  | .notIterable t => "'" ++ t ++ "' object is not iterable"
  | .notAText i t =>
    "sequence item " ++ toString i ++ ": expected str instance, " ++ t ++ " found"
  | .notAssignable t =>
    if t = "list" then "list indices must be integers or slices, not str"
    else "'" ++ t ++ "' object does not support item assignment"
  | .unknownField owner field =>
    owner ++ ".__init__() got an unexpected keyword argument '" ++ field ++ "'"

namespace Json.Value

/-- Whether a value counts as true: nothing, zero and what is empty do not. -/
def isTrue : Value → Bool
  | null => false
  | bool b => b
  | int i => i != 0
  | float x => x.isNonzero
  | str s => s != ""
  | list items => !items.isEmpty
  | object members => !members.isEmpty

/-- The list form of a setting: no items for nothing, one item for a single value. -/
def asList : Value → List Value
  | null => []
  | list items => items
  | v => [v]

/-- What the value holds one by one: the items of a list, the characters of a text, the keys of an
object. -/
def iterate : Value → Except ConfigError (List Value)
  | list items => .ok items
  | str s => .ok (s.toList.map fun c ↦ .str c.toString)
  | object members => .ok (members.map fun m ↦ .str m.1)
  | v => .error (.notIterable v.typeName)

end Json.Value

/-- The names of the listeners, in the order in which they run. -/
def listenerNames : List String :=
  ["type_variables", "mixins", "metaclass", "methods", "helpers", "enums", "fields", "signatures",
    "subconstants", "documentation", "foreign_constants", "remove_empty_payload_scopes"]

/-- The settings. -/
structure Config where
  /-- Documentation becomes comments. -/
  includeDoc : Bool := false
  /-- What has no known source does not belong to the unit. -/
  strictMembership : Bool := false
  /-- Aliases that are known to say nothing. -/
  ignoredSymbols : List Value := []
  /-- Superclasses at which a class counts as a root. -/
  terminalSuperclasses : List Value := []
  /-- The listeners that do not run. -/
  disabled : List Value := []
deriving DecidableEq, Repr, Inhabited

/-- A list of symbols: texts that are not empty. -/
def isSymbolList : Value → Bool
  | .list items => items.all fun v ↦ v.text?.any (· != "")
  | _ => false

/-- The complaint about a setting that is no list of symbols. -/
def symbolListError (setting : String) : String :=
  "compiler." ++ setting ++ " must be a list of symbol names"

/-- The complaint about the symbol lists of the first section, if there is one. -/
def symbolListsError? (ignored terminal : Value) : Option String :=
  if !isSymbolList ignored then some (symbolListError "ignored_symbols")
  else if !isSymbolList terminal then some (symbolListError "terminal_superclasses")
  else none

/-- The name at a position of a list, if it is a text. -/
def nameAt (entry : Value × Nat) : Except ConfigError String :=
  match entry.1.text? with
  | some s => .ok s
  | none => .error (.notAText entry.2 entry.1.typeName)

/-- The names of a list in one text, or the first that is no text. -/
def joinNames (names : List Value) : Except ConfigError String := do
  let texts ← names.zipIdx.mapM nameAt
  return ", ".intercalate texts

/-- The complaint about disabled listeners that do not exist, if there is one. -/
def disabledError? (disabled : List Value) : Except ConfigError (Option String) :=
  let unknown := disabled.filter fun v ↦ !(v.text?.any listenerNames.contains)
  if unknown.isEmpty then .ok none
  else do
    let names ← joinNames unknown
    return some ("Unknown listener(s): " ++ names ++ ". Valid: " ++ ", ".intercalate listenerNames)

namespace Config

/-- The complaint about the first section. -/
def compilerError? (c : Config) : Option String :=
  symbolListsError? (.list c.ignoredSymbols) (.list c.terminalSuperclasses)

/-- The complaint about the second section. -/
def listenersError? (c : Config) : Except ConfigError (Option String) :=
  disabledError? c.disabled

/-- The first complaint about the settings. -/
def validate (c : Config) : Except ConfigError (Option String) :=
  match c.compilerError? with
  | some e => .ok (some e)
  | none => c.listenersError?

/-- The listener runs, as far as the list of disabled ones goes. -/
def isEnabled (c : Config) (name : String) : Bool :=
  !c.disabled.any fun v ↦ v.text? == some name

/-- The document of the settings. -/
def toDocument (c : Config) : Value :=
  .object [
    ("compiler", .object [
      ("include_doc", .bool c.includeDoc),
      ("strict_membership", .bool c.strictMembership),
      ("ignored_symbols", .list c.ignoredSymbols),
      ("terminal_superclasses", .list c.terminalSuperclasses)]),
    ("listeners", .object [("disabled", .list c.disabled)])]

/-- A section of a document, empty if the document has none. -/
def section? (document : Value) (name : String) : Except ConfigError Value :=
  match document with
  | .object members =>
    let v := (members.lookup name).getD .null
    if !v.isTrue then .ok (.object [])
    else
      match v with
      | .object _ => .ok v
      | v => .error (.notASection v.typeName)
  | v => .error (.notASection v.typeName)

/-- The settings that a document holds. Both sections are looked up before either is read, so of two
faults the one in the document itself shows. -/
def ofDocument (document : Value) : Except ConfigError Config := do
  match document with
  | .object _ => pure ()
  | v => throw (.notASection v.typeName)
  let compiler ← section? document "compiler"
  let listeners ← section? document "listeners"
  let setting (s : Value) (key : String) : Value := (s.get? key).getD .null
  return {
    includeDoc := (setting compiler "include_doc").isTrue
    strictMembership := (setting compiler "strict_membership").isTrue
    ignoredSymbols := (setting compiler "ignored_symbols").asList
    terminalSuperclasses := (setting compiler "terminal_superclasses").asList
    disabled := (setting listeners "disabled").asList }

/-- A list of symbols without root qualifiers, or the first item that is no text. -/
def symbols (items : List Value) : Except NotAName (List String) :=
  items.mapM fun v ↦
    match v.text? with
    | some s => .ok (Name.stripRoot s)
    | none => .error ⟨v.typeName⟩

end Config

/-- The complaints about settings given field by field: of the first section and of the second. A
field that is not given has its default, which is never at fault. -/
def validateFields (compiler listeners : List (String × Value)) :
    Except ConfigError (Option String × Option String) := do
  let check (owner : String) (known : List String) (fields : List (String × Value)) :
      Except ConfigError Unit :=
    match fields.find? fun f ↦ !known.contains f.1 with
    | some f => .error (.unknownField owner f.1)
    | none => .ok ()
  check "CompilerConfig"
    ["include_doc", "strict_membership", "ignored_symbols", "terminal_superclasses"] compiler
  check "ListenerConfig" ["disabled"] listeners
  let setting (fields : List (String × Value)) (key : String) : Value :=
    (fields.lookup key).getD (.list [])
  let first :=
    symbolListsError? (setting compiler "ignored_symbols") (setting compiler "terminal_superclasses")
  let second ← disabledError? (← (setting listeners "disabled").iterate)
  return (first, second)

end DeclClosure

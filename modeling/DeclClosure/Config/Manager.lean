import DeclClosure.Config.Settings
import DeclClosure.Text.Blank
import DeclClosure.Text.Decoded
import DeclClosure.Text.Lines
import DeclClosure.Text.LowerCase
import DeclClosure.Yaml.Reader
import DeclClosure.Yaml.Writer

/-!
# Configuration files

Settings come from layers: the defaults, the file of the user, the file of the project, and two
switches in the environment, each above the one before. Files are merged section by section, so a
layer that does not mention a setting leaves it as it was.

A manager loads once and keeps what it loaded. Setting a value changes the loaded settings first and
checks the section afterwards; only settings that pass the check are written to the file of the
project.

How documents are written and read is a parameter (`DocumentFormat`): nothing here depends on what the
texts look like. Indented documents are the format that managers have by default.
-/

namespace DeclClosure

open Json (Value)

/-- How documents are written as texts and read from them. -/
structure DocumentFormat where
  /-- The document that a text spells, if it can be read. -/
  read? : String → Option Value
  /-- The text of a document. -/
  write : Value → String

/-- Indented documents. -/
def DocumentFormat.indented : DocumentFormat :=
  ⟨Yaml.read?, Yaml.write⟩

/-- What is found in the place of a file. -/
inductive FileContent where
  | absent
  | directory
  | bytes (content : List UInt8)
deriving DecidableEq, Repr

/-- The content of a file that holds a text. -/
def FileContent.ofText (s : String) : FileContent :=
  .bytes (Text.encode s)

/-- The two switches that the environment may set. -/
inductive Switch where
  | includeDoc
  | strictMembership
deriving DecidableEq, Repr

/-- The setting that a switch is for. -/
def Switch.setting : Switch → String
  | .includeDoc => "include_doc"
  | .strictMembership => "strict_membership"

/-- Everything that outlives a manager. -/
structure ConfigStore where
  /-- The file of the user. -/
  user : FileContent := .absent
  /-- The file of the project. -/
  project : FileContent := .absent
  /-- The environment. -/
  environment : List (Switch × String) := []
deriving Repr

/-- The remarks that loading may make. -/
inductive ConfigWarning where
  | invalid (complaint : String)
  | unreadable
  | notAMapping
deriving DecidableEq, Repr

/-- The wording of a remark. The two about files are templates for the path and the cause. -/
def ConfigWarning.message : ConfigWarning → String
  | .invalid e => "Invalid configuration: " ++ e
  | .unreadable => "Ignoring unreadable config %s: %s"
  | .notAMapping => "Ignoring config %s: top level must be a mapping"

/-- Why loading fails: the settings cannot be read, or a file is no text. -/
inductive LoadError where
  | config (e : ConfigError)
  | decode (e : Text.DecodeError)
deriving Repr

/-- The words that switch something on. -/
def trueWords : List String := ["true", "1", "yes", "on"]

/-- The text switches something on. -/
def switchesOn (s : String) : Bool :=
  trueWords.contains (Text.lowerAscii s)

/-- A comma-separated list: the items without blanks around them, empty ones left out. -/
def splitItems (s : String) : List String :=
  ((Text.splitAt ',' s).map Text.trim).filter (· != "")

/-- Line ends of all conventions as line feeds. -/
def unifyLineEnds : List Char → List Char
  | '\r' :: '\n' :: cs => '\n' :: unifyLineEnds cs
  | '\r' :: cs => '\n' :: unifyLineEnds cs
  | c :: cs => c :: unifyLineEnds cs
  | [] => []

mutual

/-- The members of two objects: those of the first in their order, then the new ones of the second.
What the second has wins, except that two objects under one key are merged. -/
def mergeMembers (base : List (String × Value)) : List (String × Value) → List (String × Value)
  | [] => base
  | (key, v) :: rest =>
    mergeMembers (Json.putMember base key (mergeValue (base.lookup key) v)) rest

/-- What stands under a key that the first may have and the second has. -/
def mergeValue (old : Option Value) : Value → Value
  | .object members =>
    match old with
    | some (.object base) => .object (mergeMembers base members)
    | _ => .object members
  | v => v

end

/-- The members that a text spells, and the remarks about it. -/
def readConfigText (format : DocumentFormat) (text : String) :
    List (String × Value) × List ConfigWarning :=
  match format.read? (String.ofList (unifyLineEnds text.toList)) with
  | none => ([], [.unreadable])
  | some v =>
    if !v.isTrue then ([], [])
    else
      match v with
      | .object members => (members, [])
      | _ => ([], [.notAMapping])

/-- The members that a file holds, and the remarks about it. -/
def readConfigFile (format : DocumentFormat) (content : FileContent) :
    Except LoadError (List (String × Value) × List ConfigWarning) :=
  match content with
  | .absent => .ok ([], [])
  | .directory => .ok ([], [.unreadable])
  | .bytes bs =>
    match Text.decode bs with
    | .error e => .error (.decode e)
    | .ok text => .ok (readConfigText format text)

/-- Sets a switch in the first section, which is made if there is none. -/
def putSwitch (members : List (String × Value)) (setting : String) (on : Bool) :
    Except ConfigError (List (String × Value)) :=
  match (members.lookup "compiler").getD (.object []) with
  | .object settings =>
    .ok (Json.putMember members "compiler" (.object (Json.putMember settings setting (.bool on))))
  | v => .error (.notAssignable v.typeName)

/-- The text that the environment has for a switch, unless it is empty. -/
def ConfigStore.switch? (store : ConfigStore) (s : Switch) : Option String :=
  match store.environment.lookup s with
  | some text => if text = "" then none else some text
  | none => none

/-- The members with a switch put in, if the environment has it. -/
def ConfigStore.applySwitch (store : ConfigStore) (members : List (String × Value)) (s : Switch) :
    Except ConfigError (List (String × Value)) :=
  match store.switch? s with
  | some text => putSwitch members s.setting (switchesOn text)
  | none => .ok members

/-- The members with the switches of the environment put in. -/
def ConfigStore.applySwitches (store : ConfigStore) (members : List (String × Value)) :
    Except ConfigError (List (String × Value)) :=
  [Switch.includeDoc, .strictMembership].foldlM store.applySwitch members

/-- The settings that the merged members of the files come to, and the complaint about them. -/
def ConfigStore.settle (store : ConfigStore) (members : List (String × Value)) :
    Except ConfigError (Config × Option String) := do
  let members ← store.applySwitches members
  let config ← Config.ofDocument (.object members)
  return (config, ← config.validate)

/-- The settings of all layers, and the remarks made on the way, also when loading fails. -/
def ConfigStore.load (store : ConfigStore) (format : DocumentFormat) :
    List ConfigWarning × Except LoadError Config :=
  match readConfigFile format store.user with
  | .error e => ([], .error e)
  | .ok (user, warnings) =>
    match readConfigFile format store.project with
    | .error e => (warnings, .error e)
    | .ok (project, more) =>
      let warnings := warnings ++ more
      match store.settle (mergeMembers (mergeMembers [] user) project) with
      | .error e => (warnings, .error (.config e))
      | .ok (config, none) => (warnings, .ok config)
      | .ok (config, some complaint) => (warnings ++ [.invalid complaint], .ok config)

/-- A manager: what outlives it, how documents are written, what it has loaded, and the remarks it
has made. -/
structure ConfigManager where
  /-- The files and the environment. -/
  store : ConfigStore
  /-- How the documents in the files are written. -/
  format : DocumentFormat := .indented
  /-- The loaded settings. -/
  loaded : Option Config := none
  /-- The remarks, oldest first. -/
  log : List ConfigWarning := []

namespace ConfigManager

/-- The settings, loaded if need be. -/
def load (m : ConfigManager) : ConfigManager × Except LoadError Config :=
  match m.loaded with
  | some c => (m, .ok c)
  | none =>
    let (warnings, result) := m.store.load m.format
    let m := { m with log := m.log ++ warnings }
    match result with
    | .ok c => ({ m with loaded := some c }, .ok c)
    | .error e => (m, .error e)

/-- Writes settings to the file of the project and goes on with them. A directory in the place of the
file stays as it is, and so does the manager. -/
def saveProject (m : ConfigManager) (c : Config) : ConfigManager :=
  match m.store.project with
  | .directory => m
  | _ =>
    { m with
      store := { m.store with project := .ofText (m.format.write c.toDocument) }
      loaded := some c }

/-- The settings with one of them changed to what a text says, and what the check of its section
finds; or the complaint that there is no such setting. -/
def change (c : Config) (sectionName setting value : String) :
    Config × Except ConfigError (Option String) :=
  let items := (splitItems value).map Value.str
  let checked (c : Config) : Config × Except ConfigError (Option String) :=
    (c, .ok c.compilerError?)
  match sectionName, setting with
  | "compiler", "include_doc" => checked { c with includeDoc := switchesOn value }
  | "compiler", "strict_membership" => checked { c with strictMembership := switchesOn value }
  | "compiler", "ignored_symbols" => checked { c with ignoredSymbols := items }
  | "compiler", "terminal_superclasses" => checked { c with terminalSuperclasses := items }
  | "compiler", s =>
    (c, .ok (some ("Unknown compiler setting: " ++ s
      ++ ". Valid: include_doc, strict_membership, ignored_symbols, terminal_superclasses")))
  | "listeners", "disabled" =>
    let c := { c with disabled := items }
    (c, c.listenersError?)
  | "listeners", s => (c, .ok (some ("Unknown listeners setting: " ++ s ++ ". Valid: disabled")))
  | s, _ => (c, .ok (some ("Unknown section: " ++ s ++ ". Valid: compiler, listeners")))

/-- Sets what a key of two segments names to what a text says. The answer is the complaint, if there
is one; nothing is written then, but the loaded settings keep the change. -/
def set (m : ConfigManager) (key value : String) :
    ConfigManager × Except LoadError (Option String) :=
  match m.load with
  | (m, .error e) => (m, .error e)
  | (m, .ok c) =>
    match Name.segments key with
    | [sectionName, setting] =>
      match change c sectionName setting value with
      | (c, .ok none) => (saveProject { m with loaded := some c } c, .ok none)
      | (c, .ok (some complaint)) => ({ m with loaded := some c }, .ok (some complaint))
      | (c, .error e) => ({ m with loaded := some c }, .error (.config e))
    | _ =>
      (m, .ok (some ("Invalid key format: " ++ key
        ++ ". Use 'section.setting' (e.g., 'compiler.include_doc')")))

/-- A manager that has loaded nothing yet, over the same files and environment. -/
def fresh (m : ConfigManager) : ConfigManager :=
  { m with loaded := none }

end ConfigManager

end DeclClosure

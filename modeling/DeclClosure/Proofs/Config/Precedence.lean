import DeclClosure.Proofs.Config.Layers

/-!
# Which layer decides a setting

Each layer may say something about a setting, in its own form: the environment if it has the switch of
the setting, a file if it has the name in the section, and the defaults always do
(`ConfigStore.layers`). The first of them that says anything decides (`ConfigManager.load_precedence`).

The files are merged before anything is read, so this is a fact about merging. It would be another one
if mappings stood where values are expected, since two mappings under one key become one that has
members of both. Where no value is a mapping, the members of one file cover those of the other name by
name, and a section of one hides no other name of it (`Config.IsLayer.said?_mergeMembers`).
-/

namespace DeclClosure

open Json (Value)

namespace Config

variable {members base upper : List (String × Value)} {k : ConfigKey} {v : Value}

/-- What members say about a setting, if they have the section and the name in it. -/
def said? (members : List (String × Value)) (k : ConfigKey) : Option Value :=
  (members.lookup k.home).bind fun s ↦ s.get? k.name

theorem said_eq (members : List (String × Value)) (k : ConfigKey) :
    said members k = (said? members k).getD .null := rfl

/-- The members are a layer of settings: the sections that they have are mappings, no value of a
setting is one, and all that is to be disabled are texts. -/
structure IsLayer (members : List (String × Value)) : Prop where
  /-- Every name stands there once. -/
  nodup : (members.map Prod.fst).Nodup
  /-- A section that is there is a mapping. -/
  sections : ∀ (k : ConfigKey) s, members.lookup k.home = some s →
    ∃ settings, s = .object settings ∧ (settings.map Prod.fst).Nodup
  /-- A value is none. -/
  plain : ∀ k v, said? members k = some v → ∀ settings, v ≠ .object settings
  /-- Listeners are named by texts. -/
  texts : ∀ v, said? members .disabled = some v → ∀ x ∈ v.asList, x.text?.isSome

theorem mergeValue_of_ne (h : ∀ settings, v ≠ .object settings) (old : Option Value) :
    mergeValue old v = v := by
  cases v
  case object settings => exact absurd rfl (h settings)
  all_goals
    rw [mergeValue]
    simp

namespace IsLayer

/-- What a layer says about a setting covers what it is laid over, and nothing else of it. -/
theorem said?_mergeMembers (h : IsLayer upper) (base : List (String × Value)) (k : ConfigKey) :
    said? (mergeMembers base upper) k = (said? upper k).or (said? base k) := by
  rw [said?, lookup_mergeMembers h.nodup]
  cases hsection : upper.lookup k.home with
  | none =>
    rw [said?, hsection]
    rfl
  | some s =>
    obtain ⟨settings, rfl, hsettings⟩ := h.sections k s hsection
    have hupper : said? upper k = settings.lookup k.name := by
      rw [said?, hsection]
      rfl
    dsimp only
    rw [Option.bind_some, get?_mergeValue hsettings, hupper]
    cases hv : settings.lookup k.name with
    | none => rfl
    | some v =>
      have hplain := h.plain k v (hupper.trans hv)
      exact congrArg some (mergeValue_of_ne hplain _)

/-- Over nothing or a mapping, a layer has nothing or a mapping in the place of a section. -/
theorem takesSwitch_mergeMembers (h : IsLayer upper) (hbase : TakesSwitch (base.lookup k.home)) :
    TakesSwitch ((mergeMembers base upper).lookup k.home) := by
  rw [lookup_mergeMembers h.nodup]
  cases hsection : upper.lookup k.home with
  | none => exact hbase
  | some s =>
    obtain ⟨settings, rfl, -⟩ := h.sections k s hsection
    obtain ⟨merged, hmerged⟩ := exists_mergeValue_object (base.lookup k.home) settings
    exact ⟨merged, hmerged⟩

end IsLayer

end Config

namespace ConfigStore

variable {store : ConfigStore} {format : DocumentFormat} {k : ConfigKey}

/-- What the layers say about a setting, the highest one first: the environment, the file of the
project, the file of the user, the defaults. -/
def layers (store : ConfigStore) (format : DocumentFormat) (k : ConfigKey) : List (Option Value) :=
  [(k.switch?.bind store.switch?).map fun text ↦ .bool (switchesOn text),
    Config.said? (store.project.members format) k,
    Config.said? (store.user.members format) k,
    some (Config.value {} k)]

variable (huser : Config.IsLayer (store.user.members format))
  (hproject : Config.IsLayer (store.project.members format))

include huser hproject

theorem said?_members (k : ConfigKey) : Config.said? (store.members format) k =
    (Config.said? (store.project.members format) k).or
      (Config.said? (store.user.members format) k) := by
  rw [members, hproject.said?_mergeMembers, huser.said?_mergeMembers,
    show Config.said? [] k = none from rfl, Option.or_none]

/-- The value of a setting is what the highest layer says that says anything. -/
theorem findSome?_layers (k : ConfigKey) :
    ((store.layers format k).findSome? id).map k.normalize =
      some (store.valueIn (store.members format) k) := by
  have hdefault : k.normalize (Config.value {} k) = k.normalize .null := by cases k <;> rfl
  rw [valueIn, Config.said_eq, said?_members huser hproject, override?, layers]
  cases (k.switch?.bind store.switch?).map fun text ↦ Value.bool (switchesOn text) with
  | some v => rfl
  | none =>
    cases Config.said? (store.project.members format) k with
    | some v => rfl
    | none =>
      cases Config.said? (store.user.members format) k with
      | some v => rfl
      | none => exact congrArg some hdefault

/-- Layers come together to settings that can be loaded. -/
theorem loadable_of_isLayer (huserText : store.user.IsText) (hprojectText : store.project.IsText) :
    store.Loadable format := by
  have hnothing : ∀ k : ConfigKey, TakesSwitch (([] : List (String × Value)).lookup k.home) :=
    fun _ ↦ ⟨[], rfl⟩
  have htakes : ∀ k : ConfigKey, TakesSwitch ((store.members format).lookup k.home) :=
    fun k ↦ hproject.takesSwitch_mergeMembers (huser.takesSwitch_mergeMembers (hnothing k))
  refine ⟨huserText, hprojectText, fun _ ↦ htakes .includeDoc, (htakes .includeDoc).isSection,
    (htakes .disabled).isSection, fun _ _ ↦ ?_⟩
  -- of the disabled listeners the environment says nothing, and both files name texts only
  show ∀ v ∈ (Config.said (store.members format) .disabled).asList, v.text?.isSome
  rw [Config.said_eq, said?_members huser hproject]
  cases hp : Config.said? (store.project.members format) .disabled with
  | some v => exact hproject.texts v hp
  | none =>
    cases hu : Config.said? (store.user.members format) .disabled with
    | some v => exact huser.texts v hu
    | none => exact List.forall_mem_nil _

end ConfigStore

namespace ConfigManager

/-- A manager with something in each layer. The user has a listener as a single text, and leaves the
ignored symbols empty; the project has the ignored symbols and a flag; the environment has the flag
as well, and an empty text for the other one. -/
def layered : ConfigManager where
  store := {
    user := .ofText
      "compiler:\n  strict_membership: 1\n  ignored_symbols:\nlisteners:\n  disabled: enums\n"
    project := .ofText "compiler:\n  ignored_symbols: [a.B]\n  include_doc: true\n"
    environment := [(.includeDoc, "off"), (.strictMembership, "")] }

theorem members_user_layered : layered.store.user.members layered.format =
    [("compiler", .object [("strict_membership", .int 1), ("ignored_symbols", .null)]),
      ("listeners", .object [("disabled", .str "enums")])] :=
  FileContent.members_ofText (by decide +kernel)

theorem members_project_layered : layered.store.project.members layered.format =
    [("compiler", .object [("ignored_symbols", .list [.str "a.B"]), ("include_doc", .bool true)])] :=
  FileContent.members_ofText (by decide +kernel)

/-- What `layered` loads. -/
def layeredConfig : Config where
  strictMembership := true
  ignoredSymbols := [.str "a.B"]
  disabled := [.str "enums"]

end ConfigManager

end DeclClosure

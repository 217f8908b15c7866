import DeclClosure.Proofs.Config.Layers

/-!
# Saved settings

A document of settings names all five of them, each as a truth value or a list within a section that
is an object. So once it is the file of the project, nothing in the file of the user shows through,
whatever stands there, and both sections take whatever is put into them: settings are loaded if the
file of the user is a text and the settings can be checked (`ConfigStore.loadable_of_saved_iff`), and
then all that can differ from the saved ones is what the environment has a switch for
(`ConfigStore.agrees_of_saved`).

Of the format, this asks that the document that was written is read back, up to the order of members
(`DocumentFormat.ReadsBack`).
-/

namespace DeclClosure

open Json (Value)

/-- The text of a document is read as the document again, up to the order of members. -/
def DocumentFormat.ReadsBack (format : DocumentFormat) (d : Value) : Prop :=
  ∃ d', format.read? (String.ofList (unifyLineEnds (format.write d).toList)) = some d' ∧
    d'.Agrees d

variable {format : DocumentFormat} {store : ConfigStore} {c c' : Config} {k : ConfigKey} {v : Value}

/-! ### Documents of settings -/

namespace Config

theorem get?_toDocument (c : Config) (k : ConfigKey) : ∃ settings,
    c.toDocument.get? k.home = some (.object settings) ∧ (settings.map Prod.fst).Nodup ∧
      settings.lookup k.name = some (c.value k) := by
  cases k <;> exact ⟨_, rfl, by dsimp only [List.map]; decide, rfl⟩

/-- What agrees with the value of a setting has its form. -/
theorem normalize_of_agrees (h : v.Agrees (c.value k)) : k.normalize v = v := by
  cases k with
  | includeDoc | strictMembership =>
    obtain rfl := h.eq_bool
    rfl
  | _ =>
    obtain ⟨vs, rfl, -⟩ := h.exists_list
    rfl

/-- What agrees with the value of a setting covers what it is laid over. -/
theorem mergeValue_of_agrees (h : v.Agrees (c.value k)) (old : Option Value) :
    mergeValue old v = v := by
  cases k with
  | includeDoc | strictMembership =>
    obtain rfl := h.eq_bool
    rw [mergeValue]
    simp
  | _ =>
    obtain ⟨vs, rfl, -⟩ := h.exists_list
    rw [mergeValue]
    simp

/-- Only the lists have a part in whether settings can be checked. -/
theorem checkable_congr {f g : ConfigKey → Value}
    (h : ∀ k, k.switch? = none → (f k).Agrees (g k)) : Checkable f ↔ Checkable g := by
  rw [Checkable, Checkable, (h .ignoredSymbols rfl).isSymbolList_eq,
    (h .terminalSuperclasses rfl).isSymbolList_eq, (h .disabled rfl).forall_text_iff]

end Config

theorem FileContent.object_members (h : format.ReadsBack c.toDocument) :
    (Value.object ((FileContent.ofText (format.write c.toDocument)).members format)).Agrees
      c.toDocument := by
  obtain ⟨d', hread, hagrees⟩ := h
  obtain ⟨members, rfl, -⟩ := hagrees.exists_object
  rw [FileContent.members_ofText hread]
  exact hagrees

/-! ### The saved document as the file of the project -/

namespace ConfigStore

variable (hproject : store.project = .ofText (format.write c.toDocument))
  (hformat : format.ReadsBack c.toDocument)

include hproject hformat

/-- The members of the files have every section as an object, and in it a value that agrees with the
saved one, whatever the file of the user has. -/
theorem exists_settings_of_saved (k : ConfigKey) : ∃ settings,
    (store.members format).lookup k.home = some (.object settings) ∧
      ∃ v, settings.lookup k.name = some v ∧ v.Agrees (c.value k) := by
  have hagrees := FileContent.object_members hformat
  rw [members, hproject]
  set saved := (FileContent.ofText (format.write c.toDocument)).members format
  have hsaved : (saved.map Prod.fst).Nodup := by
    obtain ⟨_, heq, hkeys⟩ := hagrees.exists_object
    rw [← Value.object.inj heq] at hkeys
    exact hkeys.nodup_iff.mpr (by dsimp only [List.map]; decide)
  obtain ⟨written, hwritten, hnodup, hvalue⟩ := c.get?_toDocument k
  obtain ⟨s, hs, hsagrees⟩ := hagrees.exists_get? hwritten
  obtain ⟨settings, rfl, hkeys⟩ := hsagrees.exists_object
  obtain ⟨v, hv, hvagrees⟩ := hsagrees.exists_get? hvalue
  rw [lookup_mergeMembers hsaved, show saved.lookup k.home = some (.object settings) from hs]
  -- The section is laid over what the user has there: merged into an object, in place of all else.
  set old := (mergeMembers [] (store.user.members format)).lookup k.home
  obtain ⟨merged, hmerged⟩ := exists_mergeValue_object old settings
  refine ⟨merged, congrArg some hmerged, v, ?_, hvagrees⟩
  change (Value.object merged).get? k.name = some v
  rw [← hmerged, get?_mergeValue (hkeys.nodup_iff.mpr hnodup),
    show settings.lookup k.name = some v from hv]
  exact congrArg some (Config.mergeValue_of_agrees hvagrees _)

theorem valueIn_agrees (k : ConfigKey) : (store.valueIn (store.members format) k).Agrees
    ((store.override? k).getD (c.value k)) := by
  obtain ⟨settings, hsettings, v, hv, hagrees⟩ := exists_settings_of_saved hproject hformat k
  have hsaid : Config.said (store.members format) k = v := by
    rw [Config.said, hsettings, Option.bind_some, Value.get?, hv, Option.getD_some]
  rw [valueIn, hsaid]
  cases hoverride : store.override? k with
  | none =>
    rw [Option.getD_none, Option.getD_none, Config.normalize_of_agrees hagrees]
    exact hagrees
  | some on => rw [Option.getD_some, normalize_of_override?_eq_some hoverride, Option.getD_some,
      Value.Agrees]

/-- Saved settings are loaded if the file of the user is a text and they can be checked. -/
theorem loadable_of_saved_iff : store.Loadable format ↔
    store.user.IsText ∧ Config.Checkable c.value := by
  have hcheckable : Config.Checkable (store.valueIn (store.members format)) ↔
      Config.Checkable c.value := by
    refine Config.checkable_congr fun k hk ↦ ?_
    have := valueIn_agrees hproject hformat k
    rwa [override?, hk] at this
  have hsection : ∀ k : ConfigKey, TakesSwitch ((store.members format).lookup k.home) := by
    intro k
    obtain ⟨settings, hsettings, -⟩ := exists_settings_of_saved hproject hformat k
    exact ⟨settings, by rw [hsettings, Option.getD_some]⟩
  have hcompiler := hsection .includeDoc
  have hlisteners := hsection .disabled
  constructor
  · exact fun h ↦ ⟨h.user, hcheckable.mp h.fits.checkable⟩
  · rintro ⟨huser, hcheck⟩
    refine ⟨huser, hproject ▸ ⟨_, rfl⟩, fun _ ↦ hcompiler, hcompiler.isSection,
      hlisteners.isSection, hcheckable.mpr hcheck⟩

/-- What is loaded agrees with what the environment says, and else with what was saved. -/
theorem agrees_of_saved (hload : (store.load format).2 = .ok c') (k : ConfigKey) :
    (c'.value k).Agrees ((store.override? k).getD (c.value k)) := by
  rw [(load_eq_ok_iff.mp hload).2 k]
  exact valueIn_agrees hproject hformat k

end ConfigStore

/-! ### A later manager -/

namespace ConfigManager

variable {m : ConfigManager}

theorem saveProject_of_ne (h : m.store.project ≠ .directory) (c : Config) : m.saveProject c =
    { m with
      store := { m.store with project := .ofText (m.format.write c.toDocument) }
      loaded := some c } := by
  rw [saveProject]
  split
  · next hdirectory => exact absurd hdirectory h
  · rfl

/-- What is saved is what a later manager loads, if the environment has no switches: in lists of texts
there is no order of members that could be another. -/
theorem load_fresh_saveProject (hproject : m.store.project ≠ .directory)
    (huser : m.store.user.IsText) (henvironment : ∀ s, m.store.switch? s = none)
    (htexts : ∀ v ∈ c.ignoredSymbols ++ c.terminalSuperclasses ++ c.disabled, v.text?.isSome)
    (hformat : m.format.ReadsBack c.toDocument) :
    (m.saveProject c).fresh.load.2 = .ok c := by
  rw [saveProject_of_ne hproject c, load_of_not_loaded rfl]
  set store : ConfigStore :=
    { m.store with project := .ofText (m.format.write c.toDocument) }
  have hsaved : store.project = .ofText (m.format.write c.toDocument) := rfl
  simp only [List.mem_append, or_imp, forall_and] at htexts
  obtain ⟨⟨hignored, hterminal⟩, hdisabled⟩ := htexts
  obtain ⟨c', hload⟩ := ConfigStore.exists_load_iff.mpr
    ((ConfigStore.loadable_of_saved_iff hsaved hformat).mpr ⟨huser, fun _ _ ↦ hdisabled⟩)
  have hvalue : ∀ k, c'.value k = c.value k := by
    intro k
    have hagrees := ConfigStore.agrees_of_saved hsaved hformat hload k
    have hnone : store.override? k = none := by
      cases k with
      | includeDoc => exact congrArg (Option.map _) (henvironment .includeDoc)
      | strictMembership => exact congrArg (Option.map _) (henvironment .strictMembership)
      | _ => rfl
    rw [hnone, Option.getD_none] at hagrees
    cases k with
    | includeDoc | strictMembership => exact hagrees.eq_bool
    | ignoredSymbols => exact hagrees.eq_list hignored
    | terminalSuperclasses => exact hagrees.eq_list hterminal
    | disabled => exact hagrees.eq_list hdisabled
  rw [← Config.ext_value hvalue]
  exact hload

/-- A manager that finds a number for the first section in the file of the user and listeners that do
not run in the second, an earlier file of the project, and a switch that is set to the empty text. -/
def crowded : ConfigManager where
  store := {
    user := .ofText "compiler: 3\nlisteners:\n  disabled: [enums]\n  more: [1]\n"
    project := .ofText "compiler:\n  strict_membership: true\n"
    environment := [(.includeDoc, "")] }

/-- Settings with a symbol and a listener. -/
def chosen : Config where
  includeDoc := true
  ignoredSymbols := [.str "a.B"]
  disabled := [.str "mixins"]

theorem readsBack_chosen : DocumentFormat.indented.ReadsBack chosen.toDocument := by
  have hwrite : DocumentFormat.indented.write chosen.toDocument =
      "compiler:\n  ignored_symbols:\n  - a.B\n  include_doc: true\n  strict_membership: false\n"
        ++ "  terminal_superclasses: []\nlisteners:\n  disabled:\n  - mixins\n" := by
    decide +kernel
  refine ⟨.object [
    ("compiler", .object [("ignored_symbols", .list [.str "a.B"]), ("include_doc", .bool true),
      ("strict_membership", .bool false), ("terminal_superclasses", .list [])]),
    ("listeners", .object [("disabled", .list [.str "mixins"])])], ?_, ?_⟩
  · rw [hwrite]
    decide +kernel
  · decide

theorem load_fresh_saveProject_crowded : (crowded.saveProject chosen).fresh.load.2 = .ok chosen :=
  load_fresh_saveProject nofun ⟨_, rfl⟩ (fun s ↦ by cases s <;> decide) (by decide) readsBack_chosen

end ConfigManager

end DeclClosure

import DeclClosure.Proofs.Config.Members
import DeclClosure.Proofs.Config.Settings
import DeclClosure.Proofs.Text.Decoded

/-!
# What the layers come to

The value of a setting is what the environment says, if it has the switch of the setting, and else
what the merged files say (`ConfigStore.valueIn`). Loading gives settings with these values, or none
at all (`ConfigStore.load_eq_ok_iff`).

Whether it gives any does not hang on the values, except for what is to be disabled
(`ConfigStore.Loadable`): the bytes of the files must be texts, and in the place of the two sections
must stand what can be read as one. A section that counts as nothing is as good as none when it is
read, but not when a switch is to be put into it, which is the one point where the layers get in each
other's way.
-/

namespace DeclClosure

open Json (Value putMember)

/-! ### Switches -/

/-- The switch of the environment for a setting, if it has one. -/
def ConfigKey.switch? : ConfigKey → Option Switch
  | .includeDoc => some .includeDoc
  | .strictMembership => some .strictMembership
  | _ => none

/-- A switch can be put into what stands in the place of the section: nothing, or an object. -/
def TakesSwitch (v : Option Value) : Prop :=
  ∃ settings, v.getD (.object []) = .object settings

theorem TakesSwitch.isSection {v : Option Value} (h : TakesSwitch v) : Config.IsSection v := by
  rintro s rfl -
  exact h

theorem putSwitch_eq_ok_iff {members members' : List (String × Value)} {setting : String}
    {on : Bool} : putSwitch members setting on = .ok members' ↔ ∃ settings,
      (members.lookup "compiler").getD (.object []) = .object settings ∧
      putMember members "compiler" (.object (putMember settings setting (.bool on))) = members' := by
  rw [putSwitch]
  split
  · next settings hsettings =>
    rw [Except.ok.injEq, hsettings]
    constructor
    · exact fun h ↦ ⟨settings, rfl, h⟩
    · rintro ⟨_, h, rfl⟩
      rw [Value.object.inj h]
  · next hne => exact ⟨nofun, fun ⟨settings, h, _⟩ ↦ absurd h (hne settings)⟩

/-- The second members are the first ones with settings laid over those of the first section. -/
structure Overlays (upper : String → Option Value) (members members' : List (String × Value)) :
    Prop where
  /-- The other section is as it was. -/
  listeners : members'.lookup "listeners" = members.lookup "listeners"
  /-- The section says the same of all settings that nothing is laid over. -/
  get? (key : String) : ((members'.lookup "compiler").bind fun s ↦ s.get? key) =
    (upper key).or ((members.lookup "compiler").bind fun s ↦ s.get? key)

namespace ConfigStore

variable {store : ConfigStore} {format : DocumentFormat} {members members' : List (String × Value)}
  {c : Config} {k : ConfigKey} {s : Switch}

/-- What a switch of the environment lays over the setting of a name. -/
def overlay (store : ConfigStore) (s : Switch) (key : String) : Option Value :=
  if key = s.setting then (store.switch? s).map fun text ↦ .bool (switchesOn text) else none

/-- What the environment says about a setting. -/
def override? (store : ConfigStore) (k : ConfigKey) : Option Value :=
  (k.switch?.bind store.switch?).map fun text ↦ .bool (switchesOn text)

/-- The environment has one of the switches. -/
def Overrides (store : ConfigStore) : Prop :=
  ∃ s, store.switch? s ≠ none

/-- A switch that the environment has not leaves the members as they are; one that it has is put into
the section. -/
theorem applySwitch_eq_ok_iff : store.applySwitch members s = .ok members' ↔
    (store.switch? s = none ∧ members' = members) ∨ ∃ text settings, store.switch? s = some text ∧
      (members.lookup "compiler").getD (.object []) = .object settings ∧ members' = putMember members
        "compiler" (.object (putMember settings s.setting (.bool (switchesOn text)))) := by
  rw [applySwitch]
  cases store.switch? s with
  | none =>
    refine ⟨fun h ↦ .inl ⟨rfl, (Except.ok.inj h).symm⟩, ?_⟩
    rintro (⟨-, rfl⟩ | ⟨_, _, h, -⟩)
    · rfl
    · cases h
  | some text =>
    simp only [putSwitch_eq_ok_iff]
    constructor
    · rintro ⟨settings, h, rfl⟩
      exact .inr ⟨text, settings, rfl, h, rfl⟩
    · rintro (⟨h, -⟩ | ⟨_, settings, h, hsettings, rfl⟩)
      · cases h
      · cases h
        exact ⟨settings, hsettings, rfl⟩

theorem exists_applySwitch_iff : (∃ members', store.applySwitch members s = .ok members') ↔
    (store.switch? s ≠ none → TakesSwitch (members.lookup "compiler")) := by
  simp only [applySwitch_eq_ok_iff]
  constructor
  · rintro ⟨_, ⟨hnone, -⟩ | ⟨_, settings, -, h, -⟩⟩ hs
    · exact absurd hnone hs
    · exact ⟨settings, h⟩
  · intro h
    cases hs : store.switch? s with
    | none => exact ⟨members, .inl ⟨rfl, rfl⟩⟩
    | some text =>
      obtain ⟨settings, h⟩ := h (hs ▸ Option.some_ne_none text)
      exact ⟨_, .inr ⟨text, settings, rfl, h, rfl⟩⟩

/-- A switch that the environment has finds an object, or makes it. -/
theorem applySwitch_cases (h : store.applySwitch members s = .ok members') :
    store.switch? s = none ∧ members' = members ∨
      TakesSwitch (members.lookup "compiler") ∧ TakesSwitch (members'.lookup "compiler") := by
  refine (applySwitch_eq_ok_iff.mp h).imp_right ?_
  rintro ⟨text, settings, -, hsettings, rfl⟩
  refine ⟨⟨settings, hsettings⟩, ?_⟩
  rw [lookup_putMember, if_pos rfl]
  exact ⟨_, rfl⟩

theorem overlays_of_applySwitch (h : store.applySwitch members s = .ok members') :
    Overlays (store.overlay s) members members' := by
  rcases applySwitch_eq_ok_iff.mp h with ⟨hs, rfl⟩ | ⟨text, settings, hs, hsettings, rfl⟩
  · refine ⟨rfl, fun key ↦ ?_⟩
    rw [overlay, hs, Option.map_none, ite_self, Option.none_or]
  · have hget : ∀ key, settings.lookup key =
        (members.lookup "compiler").bind fun s ↦ s.get? key := by
      intro key
      cases hlookup : members.lookup "compiler" with
      | none =>
        rw [hlookup] at hsettings
        cases hsettings
        rfl
      | some v =>
        rw [hlookup] at hsettings
        cases hsettings
        rfl
    refine ⟨lookup_putMember _ _ _ _, fun key ↦ ?_⟩
    rw [lookup_putMember, if_pos rfl, Option.bind_some, Value.get?, lookup_putMember, hget, overlay,
      hs]
    split
    · rfl
    · exact Option.none_or.symm

theorem applySwitches_eq_ok_iff : store.applySwitches members = .ok members' ↔
    ∃ between, store.applySwitch members .includeDoc = .ok between ∧
      store.applySwitch between .strictMembership = .ok members' := by
  rw [applySwitches, List.foldlM_cons, bind_eq_ok_iff]
  refine exists_congr fun between ↦ and_congr_right fun _ ↦ ?_
  rw [List.foldlM_cons, bind_eq_ok_iff]
  exact ⟨fun ⟨_, h, hnil⟩ ↦ Except.ok.inj hnil ▸ h, fun h ↦ ⟨_, h, rfl⟩⟩

/-- The switches can be put in unless there is one and something that is no object stands in the place
of the section. -/
theorem exists_applySwitches_iff : (∃ members', store.applySwitches members = .ok members') ↔
    (store.Overrides → TakesSwitch (members.lookup "compiler")) := by
  simp only [applySwitches_eq_ok_iff]
  constructor
  · rintro ⟨members', between, h, h'⟩ ⟨s, hs⟩
    rcases applySwitch_cases h with ⟨hnone, rfl⟩ | ⟨htakes, -⟩
    · cases s with
      | includeDoc => exact absurd hnone hs
      | strictMembership => exact exists_applySwitch_iff.mp ⟨_, h'⟩ hs
    · exact htakes
  · intro h
    obtain ⟨between, hbetween⟩ :=
      exists_applySwitch_iff.mpr fun hs : store.switch? .includeDoc ≠ none ↦ h ⟨_, hs⟩
    obtain ⟨members', hmembers'⟩ : ∃ members', store.applySwitch between .strictMembership =
        .ok members' := by
      refine exists_applySwitch_iff.mpr fun hs ↦ ?_
      rcases applySwitch_cases hbetween with ⟨-, rfl⟩ | ⟨-, htakes⟩
      · exact h ⟨_, hs⟩
      · exact htakes
    exact ⟨members', between, hbetween, hmembers'⟩

theorem isSection_applySwitches_iff (h : store.applySwitches members = .ok members') :
    Config.IsSection (members'.lookup "compiler") ↔
      Config.IsSection (members.lookup "compiler") := by
  have hstep : ∀ {ms ms' : List (String × Value)} {s}, store.applySwitch ms s = .ok ms' →
      (Config.IsSection (ms'.lookup "compiler") ↔ Config.IsSection (ms.lookup "compiler")) := by
    intro ms ms' s h
    rcases applySwitch_cases h with ⟨-, rfl⟩ | ⟨htakes, htakes'⟩
    · exact Iff.rfl
    · exact iff_of_true htakes'.isSection htakes.isSection
  obtain ⟨between, h₁, h₂⟩ := applySwitches_eq_ok_iff.mp h
  exact (hstep h₂).trans (hstep h₁)

theorem listeners_applySwitches (h : store.applySwitches members = .ok members') :
    members'.lookup "listeners" = members.lookup "listeners" := by
  obtain ⟨between, h₁, h₂⟩ := applySwitches_eq_ok_iff.mp h
  rw [(overlays_of_applySwitch h₂).listeners, (overlays_of_applySwitch h₁).listeners]

/-- What the members with the switches say about a setting. -/
theorem said_applySwitches (h : store.applySwitches members = .ok members') (k : ConfigKey) :
    Config.said members' k = (store.override? k).getD (Config.said members k) := by
  obtain ⟨between, h₁, h₂⟩ := applySwitches_eq_ok_iff.mp h
  have h₁ := overlays_of_applySwitch h₁
  have h₂ := overlays_of_applySwitch h₂
  have hcompiler : ∀ key, ((members'.lookup "compiler").bind fun s ↦ s.get? key).getD .null =
      ((store.overlay .strictMembership key).or (store.overlay .includeDoc key)).getD
        (((members.lookup "compiler").bind fun s ↦ s.get? key).getD .null) := by
    intro key
    rw [h₂.get?, h₁.get?, ← Option.or_assoc, Option.getD_or]
  cases k with
  | includeDoc => exact hcompiler "include_doc"
  | strictMembership =>
    rw [Config.said]
    refine (hcompiler "strict_membership").trans ?_
    rw [show store.overlay .includeDoc "strict_membership" = none from rfl, Option.or_none]
    rfl
  | ignoredSymbols => exact hcompiler "ignored_symbols"
  | terminalSuperclasses => exact hcompiler "terminal_superclasses"
  | disabled =>
    exact congrArg (fun s : Option Value ↦ (s.bind fun s ↦ s.get? "disabled").getD .null)
      (listeners_applySwitches h)

/-! ### Settings from the layers -/

/-- The value of a setting, from the environment or from the members of the files. -/
def valueIn (store : ConfigStore) (members : List (String × Value)) (k : ConfigKey) : Value :=
  k.normalize ((store.override? k).getD (Config.said members k))

theorem normalize_of_override?_eq_some {v : Value} (h : store.override? k = some v) :
    k.normalize v = v := by
  obtain ⟨text, htext, rfl⟩ := Option.map_eq_some_iff.mp h
  cases k with
  | includeDoc | strictMembership => rfl
  | _ => cases htext

/-- What must be so for settings to come out of the members of the files. -/
structure Fits (store : ConfigStore) (members : List (String × Value)) : Prop where
  /-- If there is a switch, the first section is missing or an object. -/
  takesSwitch : store.Overrides → TakesSwitch (members.lookup "compiler")
  /-- Whether there is one or not, the section counts as nothing or is an object. -/
  compiler : Config.IsSection (members.lookup "compiler")
  /-- The second section counts as nothing or is an object. -/
  listeners : Config.IsSection (members.lookup "listeners")
  /-- If the lists of symbols are in order, all that is to be disabled are texts. -/
  checkable : Config.Checkable (store.valueIn members)

theorem settle_eq_ok_iff : (∃ e, store.settle members = .ok (c, e)) ↔
    store.Fits members ∧ ∀ k, c.value k = store.valueIn members k := by
  have hsettle : (∃ e, store.settle members = .ok (c, e)) ↔ ∃ members',
      store.applySwitches members = .ok members' ∧
      Config.ofDocument (.object members') = .ok c ∧ ∃ e, c.validate = .ok e := by
    constructor
    · rintro ⟨e, h⟩
      obtain ⟨members', hmembers', h⟩ := bind_eq_ok_iff.mp h
      obtain ⟨c', hc', h⟩ := bind_eq_ok_iff.mp h
      obtain ⟨e', he', h⟩ := bind_eq_ok_iff.mp h
      cases h
      exact ⟨members', hmembers', hc', e, he'⟩
    · rintro ⟨members', hmembers', hc, e, he⟩
      exact ⟨e, bind_eq_ok_iff.mpr ⟨_, hmembers', bind_eq_ok_iff.mpr ⟨_, hc,
        bind_eq_ok_iff.mpr ⟨_, he, rfl⟩⟩⟩⟩
  rw [hsettle, Config.exists_validate_iff]
  simp only [Config.ofDocument_eq_ok_iff]
  constructor
  · rintro ⟨members', h, ⟨⟨hcompiler, hlisteners⟩, hvalue⟩, hcheck⟩
    have hvalue : c.value = store.valueIn members :=
      funext fun k ↦ (hvalue k).trans (congrArg k.normalize (said_applySwitches h k))
    refine ⟨⟨exists_applySwitches_iff.mp ⟨_, h⟩, (isSection_applySwitches_iff h).mp hcompiler, ?_,
      hvalue ▸ hcheck⟩, congrFun hvalue⟩
    rwa [← listeners_applySwitches h]
  · rintro ⟨hfits, hvalue⟩
    obtain ⟨members', h⟩ := exists_applySwitches_iff.mpr hfits.takesSwitch
    refine ⟨members', h, ⟨⟨(isSection_applySwitches_iff h).mpr hfits.compiler, ?_⟩, fun k ↦ ?_⟩, ?_⟩
    · rw [listeners_applySwitches h]
      exact hfits.listeners
    · rw [hvalue k, said_applySwitches h, valueIn]
    · rw [funext hvalue]
      exact hfits.checkable

end ConfigStore

/-! ### Files -/

/-- What is found in the place of a file can be read: there is no file, or its bytes are a text. -/
def FileContent.IsText : FileContent → Prop
  | .bytes content => ∃ s, Text.encode s = content
  | _ => True

/-- The members that a file has, none if it is not read. -/
def FileContent.members (content : FileContent) (format : DocumentFormat) : List (String × Value) :=
  match readConfigFile format content with
  | .ok (members, _) => members
  | .error _ => []

theorem readConfigFile_ofText (format : DocumentFormat) (s : String) :
    readConfigFile format (.ofText s) = .ok (readConfigText format s) := by
  rw [FileContent.ofText, readConfigFile, Text.decode_encode]

theorem FileContent.members_ofText {format : DocumentFormat} {s : String}
    {members : List (String × Value)}
    (hread : format.read? (String.ofList (unifyLineEnds s.toList)) = some (.object members)) :
    (FileContent.ofText s).members format = members := by
  rw [FileContent.members, readConfigFile_ofText, readConfigText, hread]
  cases members <;> rfl

theorem exists_readConfigFile_iff {format : DocumentFormat} {content : FileContent} :
    (∃ r, readConfigFile format content = .ok r) ↔ content.IsText := by
  cases content with
  | absent => exact ⟨fun _ ↦ trivial, fun _ ↦ ⟨_, rfl⟩⟩
  | directory => exact ⟨fun _ ↦ trivial, fun _ ↦ ⟨_, rfl⟩⟩
  | bytes bs =>
    constructor
    · rintro ⟨r, h⟩
      rw [readConfigFile] at h
      split at h
      · cases h
      · next s hs => exact ⟨s, Text.decode_eq_ok_iff.mp hs⟩
    · rintro ⟨s, rfl⟩
      exact ⟨_, readConfigFile_ofText format s⟩

namespace ConfigStore

variable {store : ConfigStore} {format : DocumentFormat} {c : Config}

/-- The members of the two files, those of the project above those of the user. -/
def members (store : ConfigStore) (format : DocumentFormat) : List (String × Value) :=
  mergeMembers (mergeMembers [] (store.user.members format)) (store.project.members format)

/-- What must be so for settings to be loaded. -/
structure Loadable (store : ConfigStore) (format : DocumentFormat) : Prop where
  /-- The file of the user is a text, if there is one. -/
  user : store.user.IsText
  /-- The file of the project is a text, if there is one. -/
  project : store.project.IsText
  /-- Settings come out of the members of the files. -/
  fits : store.Fits (store.members format)

/-- Loading reads the files, and brings their members and the switches together. -/
theorem load_eq_ok_iff_settle : (store.load format).2 = .ok c ↔
    (store.user.IsText ∧ store.project.IsText) ∧
      ∃ e, store.settle (store.members format) = .ok (c, e) := by
  rw [load, ← @exists_readConfigFile_iff format, ← @exists_readConfigFile_iff format, members,
    FileContent.members, FileContent.members]
  cases readConfigFile format store.user with
  | error e => exact ⟨nofun, fun ⟨⟨⟨_, h⟩, _⟩, _⟩ ↦ nomatch h⟩
  | ok user =>
    cases readConfigFile format store.project with
    | error e => exact ⟨nofun, fun ⟨⟨_, ⟨_, h⟩⟩, _⟩ ↦ nomatch h⟩
    | ok project =>
      dsimp only
      cases store.settle (mergeMembers (mergeMembers [] user.1) project.1) with
      | error e => exact ⟨nofun, fun ⟨_, _, h⟩ ↦ nomatch h⟩
      | ok r =>
        obtain ⟨c', _ | complaint⟩ := r
        · exact ⟨fun h ↦ ⟨⟨⟨_, rfl⟩, ⟨_, rfl⟩⟩, none, Except.ok.inj h ▸ rfl⟩,
            fun ⟨_, _, h⟩ ↦ by cases h; rfl⟩
        · exact ⟨fun h ↦ ⟨⟨⟨_, rfl⟩, ⟨_, rfl⟩⟩, some complaint, Except.ok.inj h ▸ rfl⟩,
            fun ⟨_, _, h⟩ ↦ by cases h; rfl⟩

theorem load_eq_ok_iff : (store.load format).2 = .ok c ↔
    store.Loadable format ∧ ∀ k, c.value k = store.valueIn (store.members format) k := by
  rw [load_eq_ok_iff_settle, settle_eq_ok_iff]
  exact ⟨fun ⟨⟨huser, hproject⟩, hfits, hvalue⟩ ↦ ⟨⟨huser, hproject, hfits⟩, hvalue⟩,
    fun ⟨⟨huser, hproject, hfits⟩, hvalue⟩ ↦ ⟨⟨huser, hproject⟩, hfits, hvalue⟩⟩

theorem exists_load_iff : (∃ c, (store.load format).2 = .ok c) ↔ store.Loadable format := by
  simp only [load_eq_ok_iff]
  refine ⟨fun ⟨_, h, _⟩ ↦ h, fun h ↦ ?_⟩
  obtain ⟨c, hc⟩ := Config.exists_value_eq fun k ↦
    (store.override? k).getD (Config.said (store.members format) k)
  exact ⟨c, h, hc⟩

end ConfigStore

namespace ConfigManager

variable {m : ConfigManager} {c : Config}

theorem load_of_loaded (h : m.loaded = some c) : m.load = (m, .ok c) := by
  rw [load, h]

theorem load_of_not_loaded (h : m.loaded = none) : m.load.2 = (m.store.load m.format).2 := by
  rw [load, h]
  dsimp only
  split <;> next hresult => exact hresult.symm

/-- Loading keeps the settings, and may add remarks. -/
theorem load_fst_of_load (h : m.load.2 = .ok c) :
    ∃ log, m.load.1 = { m with loaded := some c, log := log } := by
  rw [load] at h ⊢
  split
  · next c' hloaded =>
    rw [hloaded] at h
    obtain rfl := Except.ok.inj h
    exact ⟨m.log, by rw [← hloaded]⟩
  · next hloaded =>
    rw [hloaded] at h
    dsimp only at h ⊢
    split at h
    · next c' hresult =>
      obtain rfl := Except.ok.inj h
      exact ⟨_, rfl⟩
    · cases h

/-- Loading gives settings exactly if the manager has loaded some, or what surrounds them is in order.
-/
theorem load_succeeds_iff : (∃ c, m.load.2 = .ok c) ↔
    m.loaded.isSome ∨ m.store.Loadable m.format := by
  cases hloaded : m.loaded with
  | none =>
    rw [load_of_not_loaded hloaded, ConfigStore.exists_load_iff]
    exact ⟨.inr, fun h ↦ h.resolve_left nofun⟩
  | some c => exact ⟨fun _ ↦ .inl rfl, fun _ ↦ ⟨c, congrArg Prod.snd (load_of_loaded hloaded)⟩⟩

/-- A file whose first section is empty, in an environment with a switch for it: the section is read as
one without settings, but the switch cannot be put into it. -/
def emptySection : ConfigManager where
  store := { project := .ofText "compiler:\n", environment := [(.includeDoc, "1")] }

theorem not_load_emptySection : ¬ ∃ c, emptySection.load.2 = .ok c := by
  have hread : DocumentFormat.indented.read? (String.ofList (unifyLineEnds "compiler:\n".toList)) =
      some (.object [("compiler", .null)]) := rfl
  rw [load_of_not_loaded rfl, ConfigStore.exists_load_iff]
  intro h
  obtain ⟨settings, hsettings⟩ := h.fits.takesSwitch ⟨.includeDoc, nofun⟩
  rw [ConfigStore.members, emptySection, FileContent.members_ofText hread] at hsettings
  cases hsettings

end ConfigManager

end DeclClosure

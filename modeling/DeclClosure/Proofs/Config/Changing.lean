import DeclClosure.Proofs.Config.Saving

/-!
# Settings that are set

A key names a setting if it is the path of one. Then setting it puts what the text says into the
loaded settings and checks the section; otherwise nothing changes and there is a complaint
(`ConfigManager.set_path`, `ConfigManager.set_of_ne`).

The check comes after the change, and nothing takes the change back. So a complaint leaves the files
as they are, but the settings only if they had the refused value before
(`ConfigManager.set_complaint`).

And what is saved are all of the settings that are in force, wherever they come from. So a setting that
was not set is afterwards what it was before only if the file of the project says by itself what the
layers said together when the key was set, or the environment decides later
(`ConfigManager.set_frame_iff`).
-/

namespace DeclClosure

open Json (Value)

namespace ConfigKey

/-- The key that names the setting. -/
def path (k : ConfigKey) : String :=
  Name.ofSegments [k.home, k.name]

/-- What a text says when the setting is set to it. -/
def parse : ConfigKey → String → Value
  | .includeDoc, s => .bool (switchesOn s)
  | .strictMembership, s => .bool (switchesOn s)
  | _, s => .list ((splitItems s).map Value.str)

theorem segments_path (k : ConfigKey) : Name.segments k.path = [k.home, k.name] := by
  cases k <;> rfl

theorem path_injective : Function.Injective path := by
  intro k t h
  have hsegments := congrArg Name.segments h
  rw [segments_path, segments_path] at hsegments
  cases k <;> cases t <;> first | rfl | exact absurd hsegments (by decide)

end ConfigKey

namespace Config

variable {c : Config} {k t : ConfigKey} {value : String}

/-- The settings with one of them set to what a text says. -/
def put (c : Config) (k : ConfigKey) (value : String) : Config :=
  match k with
  | .includeDoc => { c with includeDoc := switchesOn value }
  | .strictMembership => { c with strictMembership := switchesOn value }
  | .ignoredSymbols => { c with ignoredSymbols := (splitItems value).map Value.str }
  | .terminalSuperclasses => { c with terminalSuperclasses := (splitItems value).map Value.str }
  | .disabled => { c with disabled := (splitItems value).map Value.str }

theorem value_put (c : Config) (k : ConfigKey) (value : String) (t : ConfigKey) :
    (c.put k value).value t = if t = k then k.parse value else c.value t := by
  cases k <;> cases t <;> rfl

theorem put_eq_self_iff : c.put k value = c ↔ c.value k = k.parse value := by
  constructor
  · intro h
    rw [← h, value_put, if_pos rfl]
  · intro h
    refine ext_value fun t ↦ ?_
    rw [value_put]
    split
    · next ht => rw [ht, h]
    · rfl

/-- The complaint about the section that a setting is in. -/
def sectionError? (c : Config) : ConfigKey → Except ConfigError (Option String)
  | .disabled => c.listenersError?
  | _ => .ok c.compilerError?

/-- Settings whose section is in order can be checked as a whole, unless they disable something that
is no text, which shows only now that the lists of symbols are in order. -/
theorem checkable_iff_of_sectionError? (h : c.sectionError? k = .ok none) :
    Checkable c.value ↔ k = .disabled ∨ ∀ v ∈ c.disabled, v.text?.isSome := by
  by_cases hk : k = .disabled
  · subst hk
    have htexts := exists_disabledError?_iff.mp ⟨none, h⟩
    exact ⟨fun _ ↦ .inl rfl, fun _ _ _ ↦ htexts⟩
  · have hcompiler : c.compilerError? = none := by
      cases k
      case disabled => exact absurd rfl hk
      all_goals exact Except.ok.inj h
    obtain ⟨hignored, hterminal⟩ := compilerError?_eq_none_iff.mp hcompiler
    exact ⟨fun h ↦ .inr (h hignored hterminal), fun h _ _ ↦ h.resolve_left hk⟩

end Config

namespace ConfigManager

variable {m : ConfigManager} {c c₀ : Config} {key value complaint : String} {k : ConfigKey}
  {user : FileContent} {environment : List (Switch × String)}

/-! ### One change -/

theorem change_of_home_name (c : Config) (k : ConfigKey) (value : String) :
    change c k.home k.name value = (c.put k value, (c.put k value).sectionError? k) := by
  cases k <;> rfl

/-- Names that are not those of a setting in its section change nothing and are complained about. -/
theorem change_of_ne {sectionName setting : String}
    (h : ∀ k : ConfigKey, ¬ (sectionName = k.home ∧ setting = k.name)) (c : Config)
    (value : String) : ∃ complaint,
      change c sectionName setting value = (c, .ok (some complaint)) := by
  unfold change
  split
  · exact absurd ⟨rfl, rfl⟩ (h .includeDoc)
  · exact absurd ⟨rfl, rfl⟩ (h .strictMembership)
  · exact absurd ⟨rfl, rfl⟩ (h .ignoredSymbols)
  · exact absurd ⟨rfl, rfl⟩ (h .terminalSuperclasses)
  · exact ⟨_, rfl⟩
  · exact absurd ⟨rfl, rfl⟩ (h .disabled)
  · exact ⟨_, rfl⟩
  · exact ⟨_, rfl⟩

/-! ### Setting a key -/

theorem set_of_load_error {e : LoadError} (h : m.load.2 = .error e) (key value : String) :
    m.set key value = (m.load.1, .error e) := by
  rw [set, show m.load = (m.load.1, .error e) from Prod.ext rfl h]

/-- Setting the path of a setting changes the loaded settings, whatever the check finds, and saves them
if it finds nothing. -/
theorem set_path (h : m.load.2 = .ok c) (k : ConfigKey) (value : String) :
    m.set k.path value =
      let changed := { m.load.1 with loaded := some (c.put k value) }
      match (c.put k value).sectionError? k with
      | .ok none => (changed.saveProject (c.put k value), .ok none)
      | .ok (some complaint) => (changed, .ok (some complaint))
      | .error e => (changed, .error (.config e)) := by
  rw [set, show m.load = (m.load.1, .ok c) from Prod.ext rfl h]
  dsimp only
  rw [ConfigKey.segments_path]
  dsimp only
  rw [change_of_home_name]
  cases (c.put k value).sectionError? k with
  | error e => rfl
  | ok found => cases found <;> rfl

/-- Setting any other key only loads. -/
theorem set_of_ne (h : m.load.2 = .ok c) (hkey : ∀ k : ConfigKey, key ≠ k.path) (value : String) :
    ∃ complaint, m.set key value = (m.load.1, .ok (some complaint)) := by
  obtain ⟨log, hlog⟩ := load_fst_of_load h
  rw [set, show m.load = (m.load.1, .ok c) from Prod.ext rfl h]
  dsimp only
  split
  · next sectionName setting hsegments =>
    have hne : ∀ k : ConfigKey, ¬ (sectionName = k.home ∧ setting = k.name) := by
      rintro k ⟨rfl, rfl⟩
      refine hkey k ?_
      rw [ConfigKey.path, ← hsegments, Name.ofSegments_segments]
    obtain ⟨complaint, hchange⟩ := change_of_ne hne c value
    rw [hchange, hlog]
    exact ⟨complaint, rfl⟩
  · exact ⟨_, rfl⟩

/-- When setting ends well, the key was the path of a setting, its section is in order with the new
value, and all settings in force are saved with it. -/
theorem exists_of_set_eq_none (hproject : m.store.project ≠ .directory) (hload : m.load.2 = .ok c)
    (hset : (m.set key value).2 = .ok none) : ∃ k log, key = k.path ∧
      (c.put k value).sectionError? k = .ok none ∧ (m.set key value).1 =
        { m with
          store :=
            { m.store with project := .ofText (m.format.write (c.put k value).toDocument) }
          loaded := some (c.put k value)
          log := log } := by
  obtain ⟨log, hlog⟩ := load_fst_of_load hload
  by_cases hkey : ∃ k : ConfigKey, key = k.path
  · obtain ⟨k, rfl⟩ := hkey
    rw [set_path hload] at hset ⊢
    dsimp only at hset ⊢
    cases hsection : (c.put k value).sectionError? k with
    | error e =>
      rw [hsection] at hset
      cases hset
    | ok found =>
      cases found with
      | some complaint =>
        rw [hsection] at hset
        cases hset
      | none =>
        refine ⟨k, log, rfl, hsection, ?_⟩
        dsimp only
        rw [hlog]
        exact saveProject_of_ne (m := { m with loaded := some (c.put k value), log := log })
          hproject _
  · obtain ⟨complaint, hcomplaint⟩ := set_of_ne hload (fun k hk ↦ hkey ⟨k, hk⟩) value
    rw [hcomplaint] at hset
    cases hset

/-! ### Setting that fails -/

/-- A complaint means that the files are as they were. The settings are as they were exactly if the key
names none of them, or the one that it names had the refused value already. -/
theorem set_complaint (h : (m.set key value).2 = .ok (some complaint)) :
    (m.set key value).1.store = m.store ∧
      ((m.set key value).1.load.2 = m.load.2 ↔
        ∀ k c, key = ConfigKey.path k → m.load.2 = .ok c → c.value k = k.parse value) := by
  cases hload : m.load.2 with
  | error e =>
    rw [set_of_load_error hload] at h
    cases h
  | ok c =>
    obtain ⟨log, hlog⟩ := load_fst_of_load hload
    by_cases hkey : ∃ k : ConfigKey, key = k.path
    · obtain ⟨k, rfl⟩ := hkey
      have hchanged : (m.set k.path value).1 =
          { m.load.1 with loaded := some (c.put k value) } := by
        rw [set_path hload] at h ⊢
        dsimp only at h ⊢
        split at h
        · cases h
        · rfl
        · cases h
      rw [hchanged, hlog, load_of_loaded rfl, Except.ok.injEq, Config.put_eq_self_iff]
      refine ⟨rfl, fun heq t c' hpath hc' ↦ ?_, fun hall ↦ hall k c rfl rfl⟩
      obtain rfl := ConfigKey.path_injective hpath
      obtain rfl := Except.ok.inj hc'
      exact heq
    · obtain ⟨_, hset⟩ := set_of_ne hload (fun k hk ↦ hkey ⟨k, hk⟩) value
      rw [hset, hlog, load_of_loaded rfl]
      exact ⟨rfl, iff_of_true rfl fun k _ hk ↦ absurd ⟨k, hk⟩ hkey⟩

/-- A manager without files, in an empty environment. -/
def bare : ConfigManager where
  store := {}

theorem load_bare : bare.load.2 = .ok {} := by
  rw [load_of_not_loaded rfl]
  exact ConfigStore.load_eq_ok_iff_settle.mpr ⟨⟨trivial, trivial⟩, none, rfl⟩

/-- The listener that does not exist is refused, and stays in the loaded settings. -/
theorem set_bare_bogus : bare.set "listeners.disabled" "bogus" =
    ({ bare.load.1 with loaded := some { disabled := [.str "bogus"] } }, .ok (some
      ("Unknown listener(s): bogus. Valid: " ++ ", ".intercalate listenerNames))) := by
  have hitems : splitItems "bogus" = ["bogus"] := by
    simp [splitItems, Text.splitAt, Text.splitCharsAt, Text.trim, Text.trimStart, Text.trimEnd,
      Text.dropBlanksEnd, Text.isBlank, Text.inRanges, Text.blankRanges]
  have hset := set_path load_bare .disabled "bogus"
  rw [Config.put, hitems] at hset
  exact hset

theorem set_complaint_of_bogus :
    (bare.set "listeners.disabled" "bogus").1.store = bare.store ∧
      ((bare.set "listeners.disabled" "bogus").1.load.2 = bare.load.2 ↔
        ∀ k c, "listeners.disabled" = ConfigKey.path k → bare.load.2 = .ok c →
          c.value k = k.parse "bogus") :=
  set_complaint (congrArg Prod.snd set_bare_bogus)

theorem set_bogus_changes : ∃ complaint,
    (bare.set "listeners.disabled" "bogus").2 = .ok (some complaint) ∧
      (bare.set "listeners.disabled" "bogus").1.load.2 ≠ bare.load.2 := by
  refine ⟨_, congrArg Prod.snd set_bare_bogus, ?_⟩
  rw [load_bare, set_bare_bogus]
  nofun

/-! ### Setting that ends well -/

/-- A later manager: it has loaded nothing, and it finds the file of the project as it is then, but
another file of the user and another environment. -/
def amid (m : ConfigManager) (user : FileContent) (environment : List (Switch × String)) :
    ConfigManager :=
  { m.fresh with store := { m.store with user := user, environment := environment } }

theorem load_amid : (m.amid user environment).load.2 =
    (ConfigStore.load ⟨user, m.store.project, environment⟩ m.format).2 :=
  load_of_not_loaded rfl

/-- After a key is set, later settings agree in all others with those that would have been loaded
without that exactly if they can be loaded, that is, nothing that is no text is left among the disabled
listeners, and each other setting is decided by the environment, or the file of the project with the
later file of the user says of it what the settings in force said. -/
theorem set_frame_iff (hproject : m.store.project ≠ .directory) (hload : m.load.2 = .ok c)
    (hset : (m.set key value).2 = .ok none)
    (hformat : ∀ c', (m.set key value).1.load.2 = .ok c' → m.format.ReadsBack c'.toDocument)
    (hbefore : (m.amid user environment).load.2 = .ok c₀) :
    (∃ c₁, ((m.set key value).1.amid user environment).load.2 = .ok c₁ ∧
        ∀ t, key ≠ ConfigKey.path t → (c₁.value t).Agrees (c₀.value t)) ↔
      (key = ConfigKey.disabled.path ∨ ∀ v ∈ c.disabled, v.text?.isSome) ∧
        ∀ t, key ≠ ConfigKey.path t →
          ((m.amid user environment).store.override? t).isSome ∨
            (c.value t).Agrees (c₀.value t) := by
  obtain ⟨k, log, rfl, hsection, hm⟩ := exists_of_set_eq_none hproject hload hset
  rw [hm] at hformat ⊢
  have hformat := hformat _ (congrArg Prod.snd (load_of_loaded rfl))
  rw [load_of_not_loaded rfl] at hbefore ⊢
  -- Both managers find the same file of the user and the same environment, so only the values that
  -- the file of the project gives are to be compared.
  set after : ConfigStore := ⟨user, .ofText (m.format.write (c.put k value).toDocument), environment⟩
  have hsaved : after.project = .ofText (m.format.write (c.put k value).toDocument) := rfl
  have hloadable : after.Loadable m.format ↔
      k.path = ConfigKey.disabled.path ∨ ∀ v ∈ c.disabled, v.text?.isSome := by
    have huser : after.user.IsText := (ConfigStore.load_eq_ok_iff.mp hbefore).1.user
    rw [ConfigStore.loadable_of_saved_iff hsaved hformat, and_iff_right huser,
      Config.checkable_iff_of_sectionError? hsection, ConfigKey.path_injective.eq_iff]
    refine or_congr_right' fun hk ↦ ?_
    have hdisabled := Config.value_put c k value .disabled
    rw [if_neg (Ne.symm hk), Config.value, Config.value, Value.list.injEq] at hdisabled
    rw [hdisabled]
  have hagrees : ∀ {c₁}, (after.load m.format).2 = .ok c₁ → ∀ t, k.path ≠ t.path →
      ((c₁.value t).Agrees (c₀.value t) ↔
        (after.override? t).isSome ∨ (c.value t).Agrees (c₀.value t)) := by
    intro c₁ hc₁ t ht
    have hlater := ConfigStore.agrees_of_saved hsaved hformat hc₁ t
    have hearlier := (ConfigStore.load_eq_ok_iff.mp hbefore).2 t
    rw [Config.value_put, if_neg fun htk ↦ ht (congrArg _ htk).symm] at hlater
    cases hoverride : after.override? t with
    | some v =>
      have hbefore : (m.amid user environment).store.override? t = some v := hoverride
      rw [hoverride] at hlater
      rw [ConfigStore.valueIn, hbefore, Option.getD_some,
        ConfigStore.normalize_of_override?_eq_some hbefore] at hearlier
      exact iff_of_true (hearlier ▸ hlater) (.inl rfl)
    | none =>
      rw [hoverride, Option.getD_none] at hlater
      rw [Value.Agrees, hlater, Value.Agrees]
      exact (or_iff_right Bool.false_ne_true).symm
  rw [← hloadable, ← ConfigStore.exists_load_iff]
  constructor
  · rintro ⟨c₁, hc₁, hframe⟩
    exact ⟨⟨c₁, hc₁⟩, fun t ht ↦ (hagrees hc₁ t ht).mp (hframe t ht)⟩
  · rintro ⟨⟨c₁, hc₁⟩, hframe⟩
    exact ⟨c₁, hc₁, fun t ht ↦ (hagrees hc₁ t ht).mpr (hframe t ht)⟩

/-! ### A switch that is not set -/

/-- A manager with one switch in the environment and no files. -/
def switched : ConfigManager where
  store := { environment := [(.strictMembership, "1")] }

/-- The settings that it has after the other switch is set. -/
def bothOn : Config where
  includeDoc := true
  strictMembership := true

theorem load_switched : switched.load.2 = .ok { strictMembership := true } := by
  have hon : switchesOn "1" = true := by
    rw [switchesOn, Text.lowerAscii_eq]
    decide
  have hload : switched.load.2 = .ok { strictMembership := switchesOn "1" } := by
    rw [load_of_not_loaded rfl]
    exact ConfigStore.load_eq_ok_iff_settle.mpr ⟨⟨trivial, trivial⟩, none, rfl⟩
  rwa [hon] at hload

theorem readsBack_bothOn : DocumentFormat.indented.ReadsBack bothOn.toDocument := by
  have hwrite : DocumentFormat.indented.write bothOn.toDocument =
      "compiler:\n  ignored_symbols: []\n  include_doc: true\n  strict_membership: true\n"
        ++ "  terminal_superclasses: []\nlisteners:\n  disabled: []\n" := by
    decide +kernel
  refine ⟨.object [
    ("compiler", .object [("ignored_symbols", .list []), ("include_doc", .bool true),
      ("strict_membership", .bool true), ("terminal_superclasses", .list [])]),
    ("listeners", .object [("disabled", .list [])])], ?_, ?_⟩
  · rw [hwrite]
    decide +kernel
  · decide

/-- The switch of the environment is saved with the setting. -/
theorem set_switched : ∃ log, switched.set "compiler.include_doc" "true" =
    ({ switched with
        store := { switched.store with
          project := .ofText (switched.format.write bothOn.toDocument) }
        loaded := some bothOn
        log := log }, .ok none) := by
  have hon : switchesOn "true" = true := by
    rw [switchesOn, Text.lowerAscii_eq]
    decide
  have hput : Config.put { strictMembership := true } .includeDoc "true" = bothOn := by
    rw [Config.put, hon, bothOn]
  have hset := set_path load_switched .includeDoc "true"
  rw [hput] at hset
  have hnone : (switched.set "compiler.include_doc" "true").2 = .ok none := congrArg Prod.snd hset
  obtain ⟨k, log, hk, -, hsaved⟩ := exists_of_set_eq_none (m := switched) nofun load_switched hnone
  obtain rfl : ConfigKey.includeDoc = k := ConfigKey.path_injective hk
  rw [hput] at hsaved
  exact ⟨log, Prod.ext hsaved hnone⟩

/-- As long as the environment decides the switch, nothing else shows that it was saved. -/
theorem set_frame_of_switched : ∃ c₁,
    ((switched.set "compiler.include_doc" "true").1.amid .absent
        [(.strictMembership, "no")]).load.2 = .ok c₁ ∧
      ∀ t, "compiler.include_doc" ≠ ConfigKey.path t →
        (c₁.value t).Agrees (Config.value { strictMembership := switchesOn "no" } t) := by
  have hbefore : (switched.amid .absent [(.strictMembership, "no")]).load.2 =
      .ok { strictMembership := switchesOn "no" } := by
    rw [load_amid]
    exact ConfigStore.load_eq_ok_iff_settle.mpr ⟨⟨trivial, trivial⟩, none, rfl⟩
  obtain ⟨log, hset⟩ := set_switched
  have hframe := set_frame_iff (m := switched) nofun load_switched (congrArg Prod.snd hset) ?_ hbefore
  · refine hframe.mpr ⟨.inr (List.forall_mem_nil _), fun t ht ↦ ?_⟩
    cases t with
    | includeDoc => exact absurd rfl ht
    | strictMembership => exact .inl rfl
    | _ => exact .inr rfl
  · intro c' hc'
    rw [hset, load_of_loaded rfl] at hc'
    obtain rfl := Except.ok.inj hc'
    exact readsBack_bothOn

/-- When the environment has it no longer, it is left in the file of the project. -/
theorem set_keeps_switch : ∃ c₀ c₁, (switched.set "compiler.include_doc" "true").2 = .ok none ∧
    (switched.amid .absent []).load.2 = .ok c₀ ∧
    ((switched.set "compiler.include_doc" "true").1.amid .absent []).load.2 = .ok c₁ ∧
    c₀.strictMembership = false ∧ c₁.strictMembership = true := by
  obtain ⟨log, hset⟩ := set_switched
  have hbefore : (switched.amid .absent []).load.2 = .ok {} := by
    rw [load_amid]
    exact ConfigStore.load_eq_ok_iff_settle.mpr ⟨⟨trivial, trivial⟩, none, rfl⟩
  have hformat : switched.format.ReadsBack bothOn.toDocument := readsBack_bothOn
  obtain ⟨after, hafter⟩ : ∃ after : ConfigStore,
      after = ⟨.absent, .ofText (switched.format.write bothOn.toDocument), []⟩ := ⟨_, rfl⟩
  have hsaved : after.project = .ofText (switched.format.write bothOn.toDocument) := by rw [hafter]
  obtain ⟨c₁, hload⟩ := ConfigStore.exists_load_iff.mpr
    ((ConfigStore.loadable_of_saved_iff hsaved hformat).mpr
      ⟨hafter ▸ trivial, fun _ _ ↦ List.forall_mem_nil _⟩)
  have hstrict := ConfigStore.agrees_of_saved hsaved hformat hload .strictMembership
  refine ⟨{}, c₁, congrArg Prod.snd hset, hbefore, ?_, rfl, ?_⟩
  · rw [hset, load_amid, ← hload, hafter]
  · rw [hafter] at hstrict
    exact Value.bool.inj hstrict.eq_bool

end ConfigManager

end DeclClosure

import DeclClosure.Proofs.Config.Changing
import Mathlib.Data.Fintype.Sets

/-!
# One setting after another

A manager takes any number of changes, refused ones among them, and writes all settings each time one
is accepted. It checks the section of the setting that is changed, and nothing else. So what it knows of
a section is the answer to the last change in it, and before the first one nothing, since settings that
are loaded are not refused either (`ConfigManager.sectionError?_setAll_iff`).

What is written is valid if the other section happens to be in order
(`ConfigManager.validate_written_iff`). A refused change is one way for it not to be: it stays in the
settings, and is written with the next one that is accepted.
-/

namespace DeclClosure

/-! ### Sections -/

namespace ConfigKey

instance : Fintype ConfigKey where
  elems := {.includeDoc, .strictMembership, .ignoredSymbols, .terminalSuperclasses, .disabled}
  complete k := by cases k <;> decide

/-- The key names a setting of the section. -/
def Names (key home : String) : Prop :=
  ∃ k : ConfigKey, k.home = home ∧ key = k.path

instance (key home : String) : Decidable (Names key home) :=
  inferInstanceAs (Decidable (∃ k : ConfigKey, k.home = home ∧ key = k.path))

theorem names_path_iff {k : ConfigKey} {home : String} : Names k.path home ↔ k.home = home := by
  constructor
  · rintro ⟨t, rfl, h⟩
    rw [path_injective h]
  · exact fun h ↦ ⟨k, h, rfl⟩

end ConfigKey

namespace Config

variable {c : Config} {k t : ConfigKey}

theorem sectionError?_congr (h : k.home = t.home) (c : Config) :
    c.sectionError? k = c.sectionError? t := by
  cases k <;> cases t <;> first | rfl | exact absurd h (by decide)

/-- A setting of one section is nothing to the other one. -/
theorem sectionError?_put (h : k.home ≠ t.home) (c : Config) (value : String) :
    (c.put k value).sectionError? t = c.sectionError? t := by
  cases k <;> cases t <;> first | rfl | exact absurd rfl h

theorem validate_eq_none_iff : c.validate = .ok none ↔ ∀ t, c.sectionError? t = .ok none := by
  rw [validate]
  constructor
  · intro h t
    split at h
    · cases h
    · next hcompiler =>
      cases t with
      | disabled => exact h
      | _ => exact congrArg Except.ok hcompiler
  · intro h
    rw [Except.ok.inj (h .includeDoc)]
    exact h .disabled

/-- Settings with one section in order are valid if the other one is. -/
theorem validate_eq_none_iff_of_sectionError? (h : c.sectionError? k = .ok none) :
    c.validate = .ok none ↔ ∀ t : ConfigKey, t.home ≠ k.home → c.sectionError? t = .ok none := by
  rw [validate_eq_none_iff]
  refine ⟨fun hall t _ ↦ hall t, fun hall t ↦ ?_⟩
  by_cases ht : t.home = k.home
  · rwa [sectionError?_congr ht]
  · exact hall t ht

end Config

namespace ConfigManager

variable {m : ConfigManager} {c : Config} {key value home : String}

/-! ### One change -/

/-- Loading that fails leaves nothing but remarks. -/
theorem load_fst_of_load_error {e : LoadError} (h : m.load.2 = .error e) :
    m.loaded = none ∧ ∃ log, m.load.1 = { m with log := log } := by
  cases hloaded : m.loaded with
  | some c =>
    rw [load_of_loaded hloaded] at h
    cases h
  | none =>
    rw [load, hloaded] at h ⊢
    dsimp only at h ⊢
    split at h
    · cases h
    · exact ⟨rfl, _, rfl⟩

theorem load_load (m : ConfigManager) : m.load.1.load.2 = m.load.2 := by
  cases hload : m.load.2 with
  | ok c =>
    obtain ⟨log, hlog⟩ := load_fst_of_load hload
    rw [hlog, load_of_loaded rfl]
  | error e =>
    obtain ⟨hloaded, log, hlog⟩ := load_fst_of_load_error hload
    rw [hlog, load_of_not_loaded (by exact hloaded), ← hload, load_of_not_loaded hloaded]

theorem loaded_saveProject (h : m.loaded = some c) : (m.saveProject c).loaded = some c := by
  rw [saveProject]
  split
  · exact h
  · rfl

/-- The settings have the new value, whether it is accepted or not. -/
theorem load_set_path (hload : m.load.2 = .ok c) (k : ConfigKey) (value : String) :
    (m.set k.path value).1.load.2 = .ok (c.put k value) := by
  refine congrArg Prod.snd (load_of_loaded ?_)
  rw [set_path hload]
  dsimp only
  split
  · exact loaded_saveProject rfl
  · rfl
  · rfl

theorem set_path_eq_none_iff (hload : m.load.2 = .ok c) (k : ConfigKey) (value : String) :
    (m.set k.path value).2 = .ok none ↔ (c.put k value).sectionError? k = .ok none := by
  rw [set_path hload]
  dsimp only
  split
  · next h => exact iff_of_true rfl h
  · next h => exact iff_of_false nofun (h ▸ nofun)
  · next h => exact iff_of_false nofun (h ▸ nofun)

/-- A change leaves the sections as they were, except that of the setting, which is in order exactly if
the answer is that there is nothing to complain about. -/
theorem sectionError?_set_iff (hload : m.load.2 = .ok c) (key value : String) :
    ∃ c₁, (m.set key value).1.load.2 = .ok c₁ ∧ ∀ t : ConfigKey, c₁.sectionError? t = .ok none ↔
      if ConfigKey.Names key t.home then (m.set key value).2 = .ok none
      else c.sectionError? t = .ok none := by
  by_cases hkey : ∃ k : ConfigKey, key = k.path
  · obtain ⟨k, rfl⟩ := hkey
    refine ⟨c.put k value, load_set_path hload k value, fun t ↦ ?_⟩
    by_cases hhome : k.home = t.home
    · rw [if_pos (ConfigKey.names_path_iff.mpr hhome), set_path_eq_none_iff hload,
        Config.sectionError?_congr hhome]
    · rw [if_neg (mt ConfigKey.names_path_iff.mp hhome), Config.sectionError?_put hhome]
  · obtain ⟨complaint, hset⟩ := set_of_ne hload (fun k hk ↦ hkey ⟨k, hk⟩) value
    refine ⟨c, ?_, fun t ↦ ?_⟩
    · rw [hset, load_load, hload]
    · rw [if_neg fun ⟨k, _, hk⟩ ↦ hkey ⟨k, hk⟩]

/-- Whatever comes of a change, documents are written as before, and if the file of the project could
be written, it still can. -/
theorem set_stays (m : ConfigManager) (key value : String) :
    (m.set key value).1.format = m.format ∧
      (m.store.project ≠ .directory → (m.set key value).1.store.project ≠ .directory) := by
  obtain ⟨hstore, hformat⟩ : m.load.1.store = m.store ∧ m.load.1.format = m.format := by
    rw [load]
    split
    · exact ⟨rfl, rfl⟩
    · dsimp only
      split <;> exact ⟨rfl, rfl⟩
  rw [← hstore, ← hformat, set]
  split
  · next m' e hm' =>
    rw [hm']
    exact ⟨rfl, id⟩
  · next m' c hm' =>
    rw [hm']
    split
    · split
      · rw [saveProject]
        split
        · exact ⟨rfl, id⟩
        · exact ⟨rfl, fun _ h ↦ by cases h⟩
      · exact ⟨rfl, id⟩
      · exact ⟨rfl, id⟩
    · exact ⟨rfl, id⟩

/-! ### Many changes -/

variable {calls : List (String × String)}

/-- The manager after keys are set to texts, one after the other. -/
def setAll (m : ConfigManager) (calls : List (String × String)) : ConfigManager :=
  calls.foldl (fun m call ↦ (m.set call.1 call.2).1) m

/-- The answer to the last of the calls that names a setting of the section, if there is one. -/
def lastAnswer? (home : String) (m : ConfigManager) :
    List (String × String) → Option (Except LoadError (Option String))
  | [] => none
  | (key, value) :: calls =>
    (lastAnswer? home (m.set key value).1 calls).or
      (if ConfigKey.Names key home then some (m.set key value).2 else none)

theorem setAll_stays (m : ConfigManager) (calls : List (String × String)) :
    (m.setAll calls).format = m.format ∧
      (m.store.project ≠ .directory → (m.setAll calls).store.project ≠ .directory) := by
  induction calls generalizing m with
  | nil => exact ⟨rfl, id⟩
  | cons call calls ih =>
    obtain ⟨hformat, hproject⟩ := m.set_stays call.1 call.2
    obtain ⟨hformats, hprojects⟩ := ih (m.set call.1 call.2).1
    exact ⟨hformats.trans hformat, hprojects ∘ hproject⟩

/-- Where settings cannot be loaded, they cannot be set either. -/
theorem load_setAll_of_error {e : LoadError} (h : m.load.2 = .error e)
    (calls : List (String × String)) : (m.setAll calls).load.2 = .error e := by
  induction calls generalizing m with
  | nil => exact h
  | cons call calls ih =>
    have hcall : (m.set call.1 call.2).1.load.2 = .error e := by
      rw [set_of_load_error h, load_load, h]
    exact ih hcall

/-- A section is in order after any number of changes if the last change in it was accepted, or if there
was none and it was in order before. -/
theorem sectionError?_setAll_iff (hload : m.load.2 = .ok c) (calls : List (String × String)) :
    ∃ c₁, (m.setAll calls).load.2 = .ok c₁ ∧ ∀ t : ConfigKey, c₁.sectionError? t = .ok none ↔
      match m.lastAnswer? t.home calls with
      | some answer => answer = .ok none
      | none => c.sectionError? t = .ok none := by
  induction calls generalizing m c with
  | nil => exact ⟨c, hload, fun _ ↦ Iff.rfl⟩
  | cons call calls ih =>
    obtain ⟨c₁, hc₁, hstep⟩ := sectionError?_set_iff hload call.1 call.2
    obtain ⟨c₂, hc₂, hrun⟩ := ih hc₁
    refine ⟨c₂, hc₂, fun t ↦ (hrun t).trans ?_⟩
    rw [lastAnswer?]
    cases (m.set call.1 call.2).1.lastAnswer? t.home calls with
    | some answer => exact Iff.rfl
    | none =>
      refine (hstep t).trans ?_
      rw [Option.none_or]
      split <;> exact Iff.rfl

/-- **What is written is valid if the other section is in order.** After any calls, an accepted one
writes settings, those in force from then on. They are valid exactly if the last of the earlier calls in
the section that is not checked was accepted, or, if there was none, this section was in order in the
settings that the manager started from. -/
theorem validate_written_iff (hproject : m.store.project ≠ .directory)
    (hset : ((m.setAll calls).set key value).2 = .ok none) :
    ∃ k c written, key = ConfigKey.path k ∧ m.load.2 = .ok c ∧
      ((m.setAll calls).set key value).1.store.project =
        .ofText (m.format.write written.toDocument) ∧
      ((m.setAll calls).set key value).1.load.2 = .ok written ∧
      (written.validate = .ok none ↔ ∀ t : ConfigKey, t.home ≠ k.home →
        match m.lastAnswer? t.home calls with
        | some answer => answer = .ok none
        | none => c.sectionError? t = .ok none) := by
  cases hload : m.load.2 with
  | error e =>
    rw [set_of_load_error (load_setAll_of_error hload calls)] at hset
    cases hset
  | ok c =>
    obtain ⟨c₁, hc₁, hrun⟩ := sectionError?_setAll_iff hload calls
    obtain ⟨hformat, hprojects⟩ := m.setAll_stays calls
    obtain ⟨k, log, rfl, hsection, hwritten⟩ := exists_of_set_eq_none (hprojects hproject) hc₁ hset
    refine ⟨k, c, c₁.put k value, rfl, rfl, ?_, ?_, ?_⟩
    · rw [hwritten, hformat]
    · rw [hwritten, load_of_loaded rfl]
    · rw [Config.validate_eq_none_iff_of_sectionError? hsection]
      refine forall₂_congr fun t ht ↦ ?_
      rw [Config.sectionError?_put ht.symm, hrun]

/-- After a change that is refused and another one of the same section that is accepted, all is in order
again. -/
theorem validate_written_after_enums : ∃ written : Config,
    ((bare.setAll [("listeners.disabled", "bogus"), ("listeners.disabled", "enums")]).set
        "compiler.include_doc" "true").1.store.project =
      .ofText (bare.format.write written.toDocument) ∧ written.validate = .ok none := by
  have hitems : splitItems "enums" = ["enums"] := by
    simp [splitItems, Text.splitAt, Text.splitCharsAt, Text.trim, Text.trimStart, Text.trimEnd,
      Text.dropBlanksEnd, Text.isBlank, Text.inRanges, Text.blankRanges]
  have hbogus := load_set_path load_bare .disabled "bogus"
  have hanswer : ((bare.set "listeners.disabled" "bogus").1.set "listeners.disabled" "enums").2 =
      .ok none := by
    refine (set_path_eq_none_iff hbogus .disabled "enums").mpr ?_
    rw [Config.put, hitems]
    rfl
  have hset : ((bare.setAll [("listeners.disabled", "bogus"), ("listeners.disabled", "enums")]).set
      "compiler.include_doc" "true").2 = .ok none :=
    (set_path_eq_none_iff (load_set_path hbogus .disabled "enums") .includeDoc "true").mpr rfl
  have hproject : bare.store.project ≠ .directory := fun h ↦ by cases h
  obtain ⟨k, c, written, hk, -, hwritten, -, hvalid⟩ := validate_written_iff hproject hset
  obtain rfl : ConfigKey.includeDoc = k := ConfigKey.path_injective hk
  refine ⟨written, hwritten, hvalid.mpr fun t ht ↦ ?_⟩
  cases t with
  | disabled =>
    have hlast : bare.lastAnswer? "listeners"
        [("listeners.disabled", "bogus"), ("listeners.disabled", "enums")] = some (.ok none) := by
      rw [lastAnswer?, lastAnswer?, lastAnswer?, if_pos ⟨.disabled, rfl, rfl⟩, hanswer]
      rfl
    rw [ConfigKey.home, hlast]
  | _ => exact absurd rfl ht

/-- A listener that does not exist is refused, and written with the next change of the other
section. -/
theorem set_writes_bogus : ∃ complaint, ∃ written : Config,
    (bare.set "listeners.disabled" "bogus").2 = .ok (some complaint) ∧
    ((bare.set "listeners.disabled" "bogus").1.set "compiler.include_doc" "true").2 = .ok none ∧
    ((bare.set "listeners.disabled" "bogus").1.set "compiler.include_doc" "true").1.store.project =
      .ofText (bare.format.write written.toDocument) ∧
    ((bare.set "listeners.disabled" "bogus").1.set "compiler.include_doc" "true").1.load.2 =
      .ok written ∧
    written.validate ≠ .ok none := by
  have hload : (bare.set "listeners.disabled" "bogus").1.load.2 =
      .ok { disabled := [.str "bogus"] } := by
    rw [set_bare_bogus, load_of_loaded rfl]
  have hset := (set_path_eq_none_iff hload .includeDoc "true").mpr rfl
  have hproject := (bare.set_stays "listeners.disabled" "bogus").2 nofun
  obtain ⟨k, log, hk, -, hwritten⟩ := exists_of_set_eq_none hproject hload hset
  obtain rfl : ConfigKey.includeDoc = k := ConfigKey.path_injective hk
  have hformat := (bare.set_stays "listeners.disabled" "bogus").1
  obtain ⟨complaint, hcomplaint⟩ : ∃ complaint,
      (Config.put { disabled := [.str "bogus"] } .includeDoc "true").validate =
        .ok (some complaint) := ⟨_, rfl⟩
  refine ⟨_, _, congrArg Prod.snd set_bare_bogus, hset, ?_,
    load_set_path hload .includeDoc "true", ?_⟩
  · rw [← hformat]
    exact congrArg (·.store.project) hwritten
  · rw [hcomplaint]
    nofun

end ConfigManager

end DeclClosure

import DeclClosure.Config.Settings
import Mathlib.Logic.Basic

/-!
# What settings a document holds

The settings are five, each with a name in a section (`ConfigKey`). A document says something about a
setting if it has the section, as an object, and the name in it; what it says is brought into the form
of the setting, whatever it is (`ConfigKey.normalize`). So reading fails for the sake of sections only
(`Config.ofDocument_eq_ok_iff`), and the settings that are read are those that the document says.

The check of the settings fails only where it has to name a listener that is no text, and it gets that
far only if the lists of symbols are in order (`Config.exists_validate_iff`).
-/

namespace DeclClosure

open Json (Value)

theorem bind_eq_ok_iff {ε α β : Type} {x : Except ε α} {f : α → Except ε β} {b : β} :
    x >>= f = .ok b ↔ ∃ a, x = .ok a ∧ f a = .ok b := by
  cases x with
  | error e => exact ⟨nofun, nofun⟩
  | ok a => exact ⟨fun h ↦ ⟨a, rfl, h⟩, fun ⟨_, ha, h⟩ ↦ Except.ok.inj ha ▸ h⟩

theorem exists_mapM_iff {ε α β : Type} {f : α → Except ε β} {as : List α} :
    (∃ bs, as.mapM f = .ok bs) ↔ ∀ a ∈ as, ∃ b, f a = .ok b := by
  induction as with
  | nil => exact ⟨fun _ ↦ nofun, fun _ ↦ ⟨[], rfl⟩⟩
  | cons a as ih =>
    rw [List.forall_mem_cons, ← ih, List.mapM_cons]
    constructor
    · rintro ⟨_, h⟩
      obtain ⟨b, hb, h⟩ := bind_eq_ok_iff.mp h
      obtain ⟨bs, hbs, -⟩ := bind_eq_ok_iff.mp h
      exact ⟨⟨b, hb⟩, ⟨bs, hbs⟩⟩
    · rintro ⟨⟨b, hb⟩, ⟨bs, hbs⟩⟩
      exact ⟨b :: bs, bind_eq_ok_iff.mpr ⟨b, hb, bind_eq_ok_iff.mpr ⟨bs, hbs, rfl⟩⟩⟩

/-- One of the settings. -/
inductive ConfigKey where
  | includeDoc
  | strictMembership
  | ignoredSymbols
  | terminalSuperclasses
  | disabled
deriving DecidableEq, Repr

namespace ConfigKey

/-- The section that the setting stands in. -/
def home : ConfigKey → String
  | .disabled => "listeners"
  | _ => "compiler"

/-- The name of the setting in its section. -/
def name : ConfigKey → String
  | .includeDoc => "include_doc"
  | .strictMembership => "strict_membership"
  | .ignoredSymbols => "ignored_symbols"
  | .terminalSuperclasses => "terminal_superclasses"
  | .disabled => "disabled"

/-- What is said about the setting, in the form of its values: a truth value, or a list. -/
def normalize : ConfigKey → Value → Value
  | .includeDoc, v => .bool v.isTrue
  | .strictMembership, v => .bool v.isTrue
  | _, v => .list v.asList

end ConfigKey

namespace Config

variable {c d : Config} {members : List (String × Value)} {k : ConfigKey}

/-- The value of a setting. -/
def value (c : Config) : ConfigKey → Value
  | .includeDoc => .bool c.includeDoc
  | .strictMembership => .bool c.strictMembership
  | .ignoredSymbols => .list c.ignoredSymbols
  | .terminalSuperclasses => .list c.terminalSuperclasses
  | .disabled => .list c.disabled

/-- Settings are told apart by their values. -/
theorem ext_value (h : ∀ k, c.value k = d.value k) : c = d := by
  cases c
  cases d
  have h₁ := h .includeDoc
  have h₂ := h .strictMembership
  have h₃ := h .ignoredSymbols
  have h₄ := h .terminalSuperclasses
  have h₅ := h .disabled
  simp only [value, Value.bool.injEq, Value.list.injEq] at h₁ h₂ h₃ h₄ h₅
  rw [Config.mk.injEq]
  exact ⟨h₁, h₂, h₃, h₄, h₅⟩

/-- Whatever is said about the settings, some settings have the values that it comes to. -/
theorem exists_value_eq (said : ConfigKey → Value) :
    ∃ c : Config, ∀ k, c.value k = k.normalize (said k) :=
  ⟨{ includeDoc := (said .includeDoc).isTrue
     strictMembership := (said .strictMembership).isTrue
     ignoredSymbols := (said .ignoredSymbols).asList
     terminalSuperclasses := (said .terminalSuperclasses).asList
     disabled := (said .disabled).asList }, fun k ↦ by cases k <;> rfl⟩

/-! ### Sections -/

/-- What stands in the place of a section can be read as one: it counts as nothing, or it is an
object. -/
def IsSection (v : Option Value) : Prop :=
  ∀ s, v = some s → s.isTrue → ∃ settings, s = .object settings

/-- What members say about a setting: nothing without the section or the name in it. -/
def said (members : List (String × Value)) (k : ConfigKey) : Value :=
  ((members.lookup k.home).bind fun s ↦ s.get? k.name).getD .null

theorem get?_of_not_isTrue {v : Value} (h : v.isTrue = false) (name : String) :
    v.get? name = none := by
  cases v with
  | object settings =>
    rw [Value.isTrue, Bool.not_eq_false', List.isEmpty_iff] at h
    rw [h, Value.get?, List.lookup_nil]
  | _ => rfl

/-- A section that is there, or that is taken to be there, says what its members say. -/
theorem exists_section?_of_isSection {name : String} (h : IsSection (members.lookup name)) :
    ∃ s, section? (.object members) name = .ok s ∧
      ∀ key, s.get? key = (members.lookup name).bind fun s ↦ s.get? key := by
  rw [section?]
  cases hlookup : members.lookup name with
  | none => exact ⟨.object [], rfl, fun _ ↦ rfl⟩
  | some s =>
    cases htrue : s.isTrue with
    | false =>
      refine ⟨.object [], by simp only [Option.getD_some, htrue, Bool.not_false, if_true], ?_⟩
      exact fun key ↦ (get?_of_not_isTrue htrue key).symm
    | true =>
      obtain ⟨settings, rfl⟩ := h s hlookup htrue
      refine ⟨.object settings, ?_, fun _ ↦ rfl⟩
      simp only [Option.getD_some, htrue, Bool.not_true, Bool.false_eq_true, if_false]

theorem isSection_of_section? {name : String} {s : Value}
    (h : section? (.object members) name = .ok s) : IsSection (members.lookup name) := by
  intro v hv htrue
  rw [section?, hv] at h
  simp only [Option.getD_some, htrue, Bool.not_true, Bool.false_eq_true, if_false] at h
  cases v
  case object settings => exact ⟨settings, rfl⟩
  all_goals cases h

/-- The settings that two sections say. -/
def ofSections (compiler listeners : Value) : Config where
  includeDoc := ((compiler.get? "include_doc").getD .null).isTrue
  strictMembership := ((compiler.get? "strict_membership").getD .null).isTrue
  ignoredSymbols := ((compiler.get? "ignored_symbols").getD .null).asList
  terminalSuperclasses := ((compiler.get? "terminal_superclasses").getD .null).asList
  disabled := ((listeners.get? "disabled").getD .null).asList

theorem ofDocument_eq (members : List (String × Value)) :
    ofDocument (.object members) = do
      let compiler ← section? (.object members) "compiler"
      let listeners ← section? (.object members) "listeners"
      return ofSections compiler listeners :=
  rfl

/-- Members are read as settings if their two sections are sections, and then as the settings that
they say. -/
theorem ofDocument_eq_ok_iff : ofDocument (.object members) = .ok c ↔
    (IsSection (members.lookup "compiler") ∧ IsSection (members.lookup "listeners")) ∧
      ∀ k, c.value k = k.normalize (said members k) := by
  have hsaid : ∀ {compiler listeners : Value},
      (∀ key, compiler.get? key = (members.lookup "compiler").bind fun s ↦ s.get? key) →
      (∀ key, listeners.get? key = (members.lookup "listeners").bind fun s ↦ s.get? key) →
      ∀ k, (ofSections compiler listeners).value k = k.normalize (said members k) := by
    intro compiler listeners hcompiler hlisteners k
    cases k <;> simp only [ofSections, value, hcompiler, hlisteners] <;> rfl
  rw [ofDocument_eq]
  constructor
  · intro h
    obtain ⟨compiler, hc, h⟩ := bind_eq_ok_iff.mp h
    obtain ⟨listeners, hl, h⟩ := bind_eq_ok_iff.mp h
    have hcompiler := isSection_of_section? hc
    have hlisteners := isSection_of_section? hl
    obtain ⟨_, hc', hcs⟩ := exists_section?_of_isSection hcompiler
    obtain ⟨_, hl', hls⟩ := exists_section?_of_isSection hlisteners
    obtain rfl := Except.ok.inj (hc'.symm.trans hc)
    obtain rfl := Except.ok.inj (hl'.symm.trans hl)
    obtain rfl := Except.ok.inj h
    exact ⟨⟨hcompiler, hlisteners⟩, hsaid hcs hls⟩
  · rintro ⟨⟨hcompiler, hlisteners⟩, hvalue⟩
    obtain ⟨compiler, hc, hcs⟩ := exists_section?_of_isSection hcompiler
    obtain ⟨listeners, hl, hls⟩ := exists_section?_of_isSection hlisteners
    rw [hc, hl]
    exact congrArg Except.ok (ext_value fun k ↦ (hsaid hcs hls k).trans (hvalue k).symm)

/-! ### The check -/

theorem exists_nameAt_iff {v : Value} {i : Nat} :
    (∃ s, nameAt (v, i) = .ok s) ↔ v.text?.isSome := by
  rw [nameAt]
  cases v.text? <;> simp

theorem exists_joinNames_iff {names : List Value} :
    (∃ s, joinNames names = .ok s) ↔ ∀ v ∈ names, v.text?.isSome := by
  have hjoin : (∃ s, joinNames names = .ok s) ↔ ∃ texts, names.zipIdx.mapM nameAt = .ok texts := by
    constructor
    · rintro ⟨s, h⟩
      obtain ⟨texts, htexts, -⟩ := bind_eq_ok_iff.mp h
      exact ⟨texts, htexts⟩
    · rintro ⟨texts, htexts⟩
      exact ⟨_, bind_eq_ok_iff.mpr ⟨texts, htexts, rfl⟩⟩
  rw [hjoin, exists_mapM_iff]
  constructor
  · intro h v hv
    obtain ⟨i, hi⟩ := List.getElem?_of_mem hv
    exact exists_nameAt_iff.mp (h (v, i) (List.mk_mem_zipIdx_iff_getElem?.mpr hi))
  · rintro h ⟨v, i⟩ hmem
    exact exists_nameAt_iff.mpr (h v (List.fst_mem_of_mem_zipIdx hmem))

/-- The check of the second section comes to an end if all that is to be disabled are texts: of the
others none is the name of a listener, so they would have to be named. -/
theorem exists_disabledError?_iff {disabled : List Value} :
    (∃ e, disabledError? disabled = .ok e) ↔ ∀ v ∈ disabled, v.text?.isSome := by
  rw [disabledError?]
  have hunknown : (∀ v ∈ disabled.filter fun v ↦ !v.text?.any listenerNames.contains,
      v.text?.isSome) ↔ ∀ v ∈ disabled, v.text?.isSome := by
    refine ⟨fun h v hv ↦ ?_, fun h v hv ↦ h v (List.mem_filter.mp hv).1⟩
    cases htext : v.text? with
    | some s => rfl
    | none =>
      have := h v (List.mem_filter.mpr ⟨hv, by rw [htext]; rfl⟩)
      rwa [htext] at this
  split
  · next hempty =>
    rw [List.isEmpty_iff] at hempty
    rw [← hunknown, hempty]
    exact ⟨fun _ ↦ nofun, fun _ ↦ ⟨_, rfl⟩⟩
  · rw [← hunknown, ← exists_joinNames_iff]
    constructor
    · rintro ⟨e, h⟩
      obtain ⟨s, hs, -⟩ := bind_eq_ok_iff.mp h
      exact ⟨s, hs⟩
    · rintro ⟨s, hs⟩
      exact ⟨_, bind_eq_ok_iff.mpr ⟨s, hs, rfl⟩⟩

theorem compilerError?_eq_none_iff : c.compilerError? = none ↔
    isSymbolList (c.value .ignoredSymbols) ∧ isSymbolList (c.value .terminalSuperclasses) := by
  rw [compilerError?, symbolListsError?, value, value]
  cases isSymbolList (.list c.ignoredSymbols) <;>
    cases isSymbolList (.list c.terminalSuperclasses) <;> simp

/-- The check of settings with these values comes to an end: the lists of symbols are not in order, or
all that is to be disabled are texts. -/
def Checkable (value : ConfigKey → Value) : Prop :=
  isSymbolList (value .ignoredSymbols) → isSymbolList (value .terminalSuperclasses) →
    ∀ v ∈ (value .disabled).asList, v.text?.isSome

theorem exists_validate_iff : (∃ e, c.validate = .ok e) ↔ Checkable c.value := by
  rw [Checkable, ← and_imp, ← compilerError?_eq_none_iff, validate]
  cases hcompiler : c.compilerError? with
  | none => exact exists_disabledError?_iff.trans ⟨fun h _ ↦ h, fun h ↦ h rfl⟩
  | some e => exact ⟨fun _ ↦ nofun, fun _ ↦ ⟨_, rfl⟩⟩

end Config

end DeclClosure

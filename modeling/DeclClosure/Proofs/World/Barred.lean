import DeclClosure.Proofs.World.Twins

/-!
# Names that cannot be loaded

A name is barred if no attempt to load it can succeed: it is not loaded, and its package is barred, or
is loaded and does not say where its parts are, or nothing can be brought to life under the name
(`World.Barred`). An attempt to load a module either ends with the module in the table or with a name
that is barred (`Query.Finding.barred`), and whatever is loaded, a name that is barred stays barred
(`Query.Finding.barred_mono`). For what is loaded was not barred, and the only name that loading adds
to a package is one of its parts; so it could give a package a path only if the package had one.
-/

namespace DeclClosure

/-- The package that a name lies in, if it lies in one. -/
def Name.package? (name : String) : Option String :=
  (Name.parent? name).filter (· ≠ "")

theorem Name.length_package_lt {name package : String} (h : package? name = some package) :
    package.length < name.length :=
  length_parent_lt (Option.filter_eq_some_iff.mp h).1

namespace World

variable {w u v : World} {name parent x : String} {id package : EntityId} {r q : Raised}

/-- What the request for the path of a package comes to. -/
def pathAnswer (w : World) (id : EntityId) : Except Raised Object :=
  match w.attr? (.entity id) "__path__" with
  | some o => .ok o
  | none =>
    match ((w.entity? id).bind Entity.module?).bind fun m ↦ m.answers.lookup "__path__" with
    | none => .error (.ofKind "AttributeError" "__path__")
    | some answers => Answer.outcome "__path__" answers.head?

/-- What the demand that a package says where its parts are comes to. -/
def admits (w : World) (name parent : String) (package : EntityId) : Except Raised Unit :=
  match w.pathAnswer package with
  | .ok _ => .ok ()
  | .error r =>
    if ["AttributeError"].any r.isA then
      .error (.ofKind "ModuleNotFoundError" ("No module named " ++ Text.quoted name ++ "; "
        ++ Text.quoted parent ++ " is not a package"))
    else .error r

/-- No module can be loaded under the name. -/
inductive Barred (w : World) : String → Raised → Prop
  /-- It lies in no package, and it cannot be brought to life. -/
  | asleep {name : String} {r : Raised} : w.modules.lookup name = none → Name.package? name = none →
      w.wakes name = .error r → Barred w name r
  /-- Its package cannot be loaded. -/
  | orphan {name parent : String} {r : Raised} : w.modules.lookup name = none →
      Name.package? name = some parent → Barred w parent r → Barred w name r
  /-- Its package does not say where its parts are. -/
  | pathless {name parent : String} {package : EntityId} {r : Raised} :
      w.modules.lookup name = none → Name.package? name = some parent →
      w.modules.lookup parent = some package → w.admits name parent package = .error r →
      Barred w name r
  /-- Its package has no such part. -/
  | missing {name parent : String} {package : EntityId} {r : Raised} :
      w.modules.lookup name = none → Name.package? name = some parent →
      w.modules.lookup parent = some package → w.admits name parent package = .ok () →
      w.wakes name = .error r → Barred w name r

@[simp]
theorem admits_withRecords (w : World) (asked : List ((EntityId × String) × Nat))
    (notModules : List String) (notes : List Note) :
    (w.withRecords asked notModules notes).admits = w.admits := by
  funext name parent package
  simp only [admits, pathAnswer, attr?_withRecords, entity?_withRecords]

theorem Twins.admits_eq (h : u.Twins v) : v.admits = u.admits := by
  obtain ⟨⟨asked, notModules, notes, rfl⟩, -, -, -⟩ := h
  exact admits_withRecords ..

/-- What is barred is not loaded. -/
theorem Barred.lookup_eq_none (h : w.Barred name r) : w.modules.lookup name = none := by
  cases h <;> assumption

theorem Barred.withRecords (h : w.Barred name r) (asked : List ((EntityId × String) × Nat))
    (notModules : List String) (notes : List Note) :
    (w.withRecords asked notModules notes).Barred name r := by
  induction h with
  | asleep hlookup hpackage hwakes => exact .asleep hlookup hpackage hwakes
  | orphan hlookup hpackage _ ih => exact .orphan hlookup hpackage ih
  | pathless hlookup hpackage hparent hadmits =>
    exact .pathless hlookup hpackage hparent ((admits_withRecords ..).symm ▸ hadmits)
  | missing hlookup hpackage hparent hadmits hwakes =>
    exact .missing hlookup hpackage hparent ((admits_withRecords ..).symm ▸ hadmits) hwakes

theorem Barred.twin (h : u.Barred name r) (htwins : u.Twins v) : v.Barred name r := by
  obtain ⟨⟨asked, notModules, notes, rfl⟩, -, -, -⟩ := htwins
  exact h.withRecords ..

/-! ### What is barred stays barred -/

/-- From `w` to `v` a module has entered the table under a name. -/
structure Enters (w v : World) (name : String) (id : EntityId) : Prop where
  /-- It was not loaded. -/
  lookup : w.modules.lookup name = none
  /-- It came to life. -/
  wakes : w.wakes name = .ok id
  /-- Its package is loaded and says where its parts are. -/
  package : ∀ parent, Name.package? name = some parent →
    ∃ package, w.modules.lookup parent = some package ∧ w.admits name parent package = .ok ()
  /-- The table has it. -/
  modules : v.modules = w.modules ++ [(name, id)]
  /-- What can be brought to life is the same. -/
  dormant : v.dormant = w.dormant
  /-- Modules say of the same names that they may be their parts. -/
  admits : ∀ x parent id, w.isModule (.entity id) → v.admits x parent id = w.admits x parent id

theorem Enters.wakes_eq (h : w.Enters v name id) : v.wakes = w.wakes := by
  funext x
  simp only [World.wakes, h.dormant]

/-- A name that is barred is not the one that has entered. -/
theorem Enters.ne_of_barred (h : w.Enters v name id) (hx : w.Barred x r) : x ≠ name := by
  rintro rfl
  cases hx with
  | asleep _ _ hwakes =>
    rw [h.wakes] at hwakes
    cases hwakes
  | orphan _ hpackage hparent =>
    obtain ⟨package, hloaded, -⟩ := h.package _ hpackage
    rw [hparent.lookup_eq_none] at hloaded
    cases hloaded
  | pathless _ hpackage hparent hadmits =>
    obtain ⟨package, hloaded, hok⟩ := h.package _ hpackage
    rw [hparent] at hloaded
    cases hloaded
    rw [hok] at hadmits
    cases hadmits
  | missing _ _ _ _ hwakes =>
    rw [h.wakes] at hwakes
    cases hwakes

theorem Enters.lookup_of_ne (h : w.Enters v name id) (hx : x ≠ name) :
    v.modules.lookup x = w.modules.lookup x := by
  have hne : (x == name) = false := beq_eq_false_iff_ne.mpr hx
  rw [h.modules, List.lookup_append, List.lookup_cons, hne]
  exact Option.or_none

theorem Enters.lookup_self (h : w.Enters v name id) : v.modules.lookup name = some id := by
  rw [h.modules, List.lookup_append, h.lookup, List.lookup_cons, beq_self_eq_true]
  rfl

/-- What was loaded is loaded still. -/
theorem Enters.lookup_of_some (h : w.Enters v name id) (hx : w.modules.lookup x = some package) :
    v.modules.lookup x = some package := by
  rw [h.modules, List.lookup_append, hx]
  rfl

theorem Tabled.isModule_of_lookup (h : w.Tabled) (hx : w.modules.lookup x = some id) :
    w.isModule (.entity id) :=
  h.loaded _ (Table.mem_of_lookup hx)

theorem Enters.tabled (h : w.Enters v name id) (hloads : w.Loads v) (htabled : w.Tabled) :
    v.Tabled := by
  refine ⟨fun m hm ↦ hloads.isModule ?_, fun d hd ↦ hloads.isModule ?_⟩
  · rw [h.modules] at hm
    rcases List.mem_append.mp hm with hm | hm
    · exact htabled.loaded m hm
    · obtain rfl := List.mem_singleton.mp hm
      exact htabled.isModule_of_wakes h.wakes
  · exact htabled.dormant d (h.dormant ▸ hd)

theorem Barred.enters (htabled : w.Tabled) (h : w.Enters v name id) (hx : w.Barred x r) :
    v.Barred x r := by
  induction hx with
  | @asleep x r hlookup hpackage hwakes =>
    have hne : x ≠ name := h.ne_of_barred (.asleep hlookup hpackage hwakes)
    exact .asleep ((h.lookup_of_ne hne).trans hlookup) hpackage (h.wakes_eq ▸ hwakes)
  | @orphan x parent r hlookup hpackage hparent ih =>
    have hne : x ≠ name := h.ne_of_barred (.orphan hlookup hpackage hparent)
    exact .orphan ((h.lookup_of_ne hne).trans hlookup) hpackage ih
  | @pathless x parent package r hlookup hpackage hparent hadmits =>
    have hne : x ≠ name := h.ne_of_barred (.pathless hlookup hpackage hparent hadmits)
    refine .pathless ((h.lookup_of_ne hne).trans hlookup) hpackage (h.lookup_of_some hparent) ?_
    rw [h.admits _ _ _ (htabled.isModule_of_lookup hparent)]
    exact hadmits
  | @missing x parent package r hlookup hpackage hparent hadmits hwakes =>
    have hne : x ≠ name := h.ne_of_barred (.missing hlookup hpackage hparent hadmits hwakes)
    refine .missing ((h.lookup_of_ne hne).trans hlookup) hpackage (h.lookup_of_some hparent) ?_
      (h.wakes_eq ▸ hwakes)
    rw [h.admits _ _ _ (htabled.isModule_of_lookup hparent)]
    exact hadmits

/-! ### Parts of packages -/

theorem attr?_of_module? {e : Entity} {m : ModuleFacts} (he : w.entity? id = some e)
    (hm : e.module? = some m) : w.attr? (.entity id) x = e.attr? x := by
  show w.entityAttr? id x = _
  simp only [Entity.module?] at hm
  split at hm
  · next hshape =>
    simp only [entityAttr?]
    rw [he]
    simp only [Option.bind_eq_bind, Option.bind_some]
    rw [hshape]
  · cases hm

/-- What the request for a path comes to is up to the namespace of the package, and to what it has as
a module. -/
theorem pathAnswer_congr {e f : Entity} {m : ModuleFacts} (he : w.entity? id = some e)
    (hf : v.entity? id = some f) (hm : e.module? = some m) (hevolves : e.Evolves f)
    (hattr : f.attr? "__path__" = e.attr? "__path__") : v.pathAnswer id = w.pathAnswer id := by
  have hm' : f.module? = some m := hevolves.module?_eq.trans hm
  simp only [pathAnswer]
  rw [attr?_of_module? he hm, attr?_of_module? hf hm', hattr, he, hf]
  simp only [Option.bind_some, hm, hm']

theorem admits_congr (h : v.pathAnswer id = w.pathAnswer id) (x parent : String) :
    v.admits x parent id = w.admits x parent id := by
  simp only [admits]
  rw [h]

theorem admits_eq_ok_iff : w.admits name parent id = .ok () ↔ ∃ o, w.pathAnswer id = .ok o := by
  simp only [admits]
  cases w.pathAnswer id with
  | ok o => exact ⟨fun _ ↦ ⟨o, rfl⟩, fun _ ↦ rfl⟩
  | error r =>
    refine ⟨fun h ↦ ?_, fun ⟨o, ho⟩ ↦ by cases ho⟩
    dsimp only at h
    split at h <;> cases h

/-- A package gains a name for one of its parts. It said where these are before, so no module is
thereby admitted to a package, nor shut out. -/
theorem admits_setAttr (hpackage : w.admits name parent package = .ok ()) (part : EntityId)
    (hid : w.isModule (.entity id)) (y z : String) :
    (w.update package (fun e ↦ e.setAttr x (.entity part)) (Entity.keepsKin_setAttr _ _)).admits y z id
      = w.admits y z id := by
  obtain ⟨e, m, he, hm⟩ := isModule_entity_iff.mp hid
  have hentity := w.entity?_update package (fun e ↦ e.setAttr x (.entity part))
    (Entity.keepsKin_setAttr _ _) id
  by_cases hsame : id = package
  · subst hsame
    rw [if_pos rfl, he] at hentity
    by_cases hx : x = "__path__"
    · -- the package has a path before and after
      have hok : w.admits y z id = .ok () := admits_eq_ok_iff.mpr (admits_eq_ok_iff.mp hpackage)
      rw [hok]
      refine admits_eq_ok_iff.mpr ⟨.entity part, ?_⟩
      have hm' := (Entity.Evolves.setAttr e x part).module?_eq.trans hm
      have hattr : (e.setAttr x (.entity part)).attr? "__path__" = some (.entity part) := by
        rw [Entity.attr?_setAttr, if_pos hx.symm]
      simp only [pathAnswer]
      rw [attr?_of_module? hentity hm', hattr]
    · refine admits_congr (pathAnswer_congr he hentity hm (.setAttr e x part) ?_) y z
      rw [Entity.attr?_setAttr, if_neg (Ne.symm hx)]
  · rw [if_neg hsame, he] at hentity
    exact admits_congr (pathAnswer_congr he hentity hm (.refl e) rfl) y z

/-- The world in which an entity has a name set. -/
def withAttr (w : World) (id : EntityId) (name : String) (value : Object) : World :=
  w.update id (fun e ↦ e.setAttr name value) (Entity.keepsKin_setAttr name value)

/-- The world in which a part of a package is loaded. -/
def withPart (w : World) (name : String) (package id : EntityId) : World :=
  (w.withModule name id).withAttr package (Name.leaf name) (.entity id)

theorem loads_withPart (w : World) (name : String) (package id : EntityId) :
    w.Loads (w.withPart name package id) :=
  Loads.trans (v := w.withModule name id) (.of_eq rfl rfl) (.setAttr _ package (Name.leaf name) id)

theorem enters_withPart (hlookup : w.modules.lookup name = none) (hwakes : w.wakes name = .ok id)
    (hpackage : Name.package? name = some parent) (hparent : w.modules.lookup parent = some package)
    (hadmits : w.admits name parent package = .ok ()) :
    w.Enters (w.withPart name package id) name id where
  lookup := hlookup
  wakes := hwakes
  package parent' h := by
    rw [hpackage] at h
    cases h
    exact ⟨package, hparent, hadmits⟩
  modules := modules_update ..
  dormant := dormant_update ..
  admits y z id' hid :=
    admits_setAttr (w := w.withModule name id) hadmits id hid y z

end World

namespace Query

open World

/-- What looking for a module may come to. -/
inductive Finding (w : World) : String → Except Raised EntityId → World → Prop
  /-- It is loaded. -/
  | known {name : String} {id : EntityId} : w.modules.lookup name = some id →
      Finding w name (.ok id) w
  /-- It lies in no package, and it cannot be brought to life. -/
  | asleep {name : String} {r : Raised} : w.modules.lookup name = none →
      Name.package? name = none → w.wakes name = .error r → Finding w name (.error r) w
  /-- It lies in no package, and it is brought to life. -/
  | awake {name : String} {id : EntityId} {v : World} : Name.package? name = none →
      w.Enters v name id → w.Loads v → v.notModules = w.notModules → Finding w name (.ok id) v
  /-- Its package cannot be loaded. -/
  | orphan {name parent : String} {r : Raised} {v : World} : w.modules.lookup name = none →
      Name.package? name = some parent → Finding w parent (.error r) v → Finding w name (.error r) v
  /-- Its package does not say where its parts are. -/
  | pathless {name parent : String} {package : EntityId} {r : Raised} {u v : World} :
      w.modules.lookup name = none → Name.package? name = some parent →
      Finding w parent (.ok package) u → u.admits name parent package = .error r →
      u.Twins v → v.notModules = u.notModules → Finding w name (.error r) v
  /-- Its package has no such part. -/
  | missing {name parent : String} {package : EntityId} {r : Raised} {u v : World} :
      w.modules.lookup name = none → Name.package? name = some parent →
      Finding w parent (.ok package) u → u.admits name parent package = .ok () →
      u.Twins v → v.notModules = u.notModules → v.wakes name = .error r →
      Finding w name (.error r) v
  /-- It is brought to life, and its package gains a name for it. -/
  | part {name parent : String} {package id : EntityId} {u v t : World} :
      w.modules.lookup name = none → Name.package? name = some parent →
      Finding w parent (.ok package) u → u.admits name parent package = .ok () →
      u.Twins v → v.notModules = u.notModules → v.Enters t name id → v.Loads t →
      t.notModules = v.notModules → Finding w name (.ok id) t

variable {w u v : World} {name parent x : String} {id package : EntityId} {r q : Raised}
  {a : Except Raised EntityId}

/-- In the end the name is loaded, if the module was found. -/
theorem Finding.lookup_self (h : Finding w name (.ok id) v) : v.modules.lookup name = some id := by
  cases h with
  | known hlookup => exact hlookup
  | awake _ henters _ _ => exact henters.lookup_self
  | part _ _ _ _ _ _ henters _ _ => exact henters.lookup_self

/-- Looking for a module loads nothing but the module and the packages that it lies in, so longer names
are left alone. -/
theorem Finding.lookup_of_lt (h : Finding w name a v) (hx : name.length < x.length) :
    v.modules.lookup x = w.modules.lookup x := by
  induction h with
  | known | asleep => rfl
  | awake _ henters _ _ => exact henters.lookup_of_ne fun heq ↦ Nat.lt_irrefl _ (heq ▸ hx)
  | orphan _ hpackage _ ih => exact ih (Nat.lt_trans (Name.length_package_lt hpackage) hx)
  | pathless _ hpackage _ _ htwins _ ih | missing _ hpackage _ _ htwins _ _ ih =>
    rw [htwins.modules_eq]
    exact ih (Nat.lt_trans (Name.length_package_lt hpackage) hx)
  | part _ hpackage _ _ htwins _ henters _ _ ih =>
    rw [henters.lookup_of_ne fun heq ↦ Nat.lt_irrefl _ (heq ▸ hx), htwins.modules_eq]
    exact ih (Nat.lt_trans (Name.length_package_lt hpackage) hx)

theorem Finding.eq_of_lookup (h : Finding w name a v) (hlookup : w.modules.lookup name = some id) :
    a = .ok id ∧ v = w := by
  cases h with
  | known hknown =>
    rw [hlookup] at hknown
    cases hknown
    exact ⟨rfl, rfl⟩
  | awake _ henters _ _ =>
    have hnone := henters.lookup
    rw [hlookup] at hnone
    cases hnone
  | asleep hnone | orphan hnone | pathless hnone | missing hnone | part hnone =>
    rw [hlookup] at hnone
    cases hnone

theorem Finding.orderly (h : Finding w name a v) (hs : w.Settled) (ht : w.Tabled) :
    v.Settled ∧ v.Tabled := by
  induction h with
  | known | asleep => exact ⟨hs, ht⟩
  | awake _ henters hloads _ => exact ⟨hloads.settled hs, henters.tabled hloads ht⟩
  | orphan _ _ _ ih => exact ih
  | pathless _ _ _ _ htwins _ ih | missing _ _ _ _ htwins _ _ ih =>
    exact ⟨htwins.settled_right, htwins.tabled_right⟩
  | part _ _ _ _ htwins _ henters hloads _ ih =>
    exact ⟨hloads.settled htwins.settled_right, henters.tabled hloads htwins.tabled_right⟩

theorem Finding.notModules_eq (h : Finding w name a v) : v.notModules = w.notModules := by
  induction h with
  | known | asleep => rfl
  | awake _ _ _ hsame => exact hsame
  | orphan _ _ _ ih => exact ih
  | pathless _ _ _ _ _ hsame ih | missing _ _ _ _ _ hsame _ ih => exact hsame.trans ih
  | part _ _ _ _ _ hsame _ _ hsame' ih => exact hsame'.trans (hsame.trans ih)

/-- Whatever is found, what is barred stays barred. -/
theorem Finding.barred_mono (h : Finding w name a v) (ht : w.Tabled)
    (hx : w.Barred x r) : v.Barred x r := by
  induction h with
  | known | asleep => exact hx
  | awake _ henters _ _ => exact hx.enters ht henters
  | orphan _ _ _ ih => exact ih
  | pathless _ _ _ _ htwins _ ih | missing _ _ _ _ htwins _ _ ih => exact ih.twin htwins
  | part _ _ _ _ htwins _ henters _ _ ih =>
    exact (ih.twin htwins).enters htwins.tabled_right henters

/-- When a module is not found its name is barred. -/
theorem Finding.barred (h : Finding w name (.error r) v) : v.Barred name r := by
  generalize ha : (.error r : Except Raised EntityId) = a at h
  induction h with
  | known | awake | part => cases ha
  | asleep hlookup hpackage hwakes =>
    cases ha
    exact .asleep hlookup hpackage hwakes
  | orphan hlookup hpackage hparent ih =>
    cases ha
    exact .orphan ((hparent.lookup_of_lt (Name.length_package_lt hpackage)).trans hlookup) hpackage
      (ih rfl)
  | pathless hlookup hpackage hparent hadmits htwins _ _ =>
    cases ha
    have hnone := (hparent.lookup_of_lt (Name.length_package_lt hpackage)).trans hlookup
    rw [← htwins.modules_eq] at hnone
    refine .pathless hnone hpackage (htwins.modules_eq ▸ hparent.lookup_self) ?_
    rw [htwins.admits_eq]
    exact hadmits
  | missing hlookup hpackage hparent hadmits htwins _ hwakes _ =>
    cases ha
    have hnone := (hparent.lookup_of_lt (Name.length_package_lt hpackage)).trans hlookup
    rw [← htwins.modules_eq] at hnone
    refine .missing hnone hpackage (htwins.modules_eq ▸ hparent.lookup_self) ?_ hwakes
    rw [htwins.admits_eq]
    exact hadmits

/-- What looking for a part of a package comes to depends on what looking for the package comes to. -/
theorem Finding.cases_of_package (h : Finding w name a v) (hlookup : w.modules.lookup name = none)
    (hpackage : Name.package? name = some parent) :
    (∃ r, a = .error r ∧ Finding w parent (.error r) v) ∨
      ∃ package u, Finding w parent (.ok package) u ∧
        ((∃ r, u.admits name parent package = .error r ∧ a = .error r ∧ u.Twins v) ∨
          u.admits name parent package = .ok () ∧
            ((∃ r, u.wakes name = .error r ∧ a = .error r ∧ u.Twins v) ∨
              ∃ id, u.wakes name = .ok id)) := by
  cases h with
  | known hknown => rw [hlookup] at hknown; cases hknown
  | asleep _ hnone | awake hnone => rw [hpackage] at hnone; cases hnone
  | orphan _ hsome hparent =>
    rw [hpackage] at hsome
    cases hsome
    exact .inl ⟨_, rfl, hparent⟩
  | pathless _ hsome hparent hadmits htwins =>
    rw [hpackage] at hsome
    cases hsome
    exact .inr ⟨_, _, hparent, .inl ⟨_, hadmits, rfl, htwins⟩⟩
  | missing _ hsome hparent hadmits htwins _ hwakes =>
    rw [hpackage] at hsome
    cases hsome
    exact .inr ⟨_, _, hparent, .inr ⟨hadmits, .inl ⟨_, htwins.wakes_eq ▸ hwakes, rfl, htwins⟩⟩⟩
  | part _ hsome hparent hadmits htwins _ henters =>
    rw [hpackage] at hsome
    cases hsome
    exact .inr ⟨_, _, hparent, .inr ⟨hadmits, .inr ⟨_, htwins.wakes_eq ▸ henters.wakes⟩⟩⟩

/-- What is barred is not found, and the attempt leaves no trace but in records. -/
theorem Finding.eq_of_barred (h : Finding w name a v) (hbarred : w.Barred name r) (hs : w.Settled)
    (ht : w.Tabled) : a = .error r ∧ w.Twins v := by
  induction hbarred generalizing a v with
  | @asleep name r hlookup hpackage hwakes =>
    cases h with
    | known hknown => rw [hlookup] at hknown; cases hknown
    | asleep _ _ hwakes' =>
      rw [hwakes] at hwakes'
      cases hwakes'
      exact ⟨rfl, .refl hs ht⟩
    | awake _ henters _ _ =>
      rw [henters.wakes] at hwakes
      cases hwakes
    | orphan _ hsome | pathless _ hsome | missing _ hsome | part _ hsome =>
      rw [hpackage] at hsome
      cases hsome
  | @orphan name parent r hlookup hpackage hparent ih =>
    rcases h.cases_of_package hlookup hpackage with ⟨r', rfl, hfind⟩ | ⟨package, u, hfind, -⟩
    · exact ih hfind
    · cases (ih hfind).1
  | @pathless name parent package r hlookup hpackage hparent hadmits =>
    rcases h.cases_of_package hlookup hpackage with ⟨r', rfl, hfind⟩ | ⟨package', u, hfind, hcases⟩
    · cases (hfind.eq_of_lookup hparent).1
    · obtain ⟨heq, rfl⟩ := hfind.eq_of_lookup hparent
      cases heq
      rw [hadmits] at hcases
      rcases hcases with ⟨r', hr, rfl, htwins⟩ | ⟨hok, -⟩
      · cases hr
        exact ⟨rfl, htwins⟩
      · cases hok
  | @missing name parent package r hlookup hpackage hparent hadmits hwakes =>
    rcases h.cases_of_package hlookup hpackage with ⟨r', rfl, hfind⟩ | ⟨package', u, hfind, hcases⟩
    · cases (hfind.eq_of_lookup hparent).1
    · obtain ⟨heq, rfl⟩ := hfind.eq_of_lookup hparent
      cases heq
      rw [hadmits, hwakes] at hcases
      rcases hcases with ⟨r', hr, -⟩ | ⟨-, ⟨r', hr, rfl, htwins⟩ | ⟨id, hid⟩⟩
      · cases hr
      · cases hr
        exact ⟨rfl, htwins⟩
      · cases hid

/-! ### Runs -/

/-- A package that is asked for its path gives the answer that it always gives, and counts the
request at most. -/
theorem attr_path_run (hs : w.Settled) (ht : w.Tabled) (id : EntityId) :
    ∃ v, attr (.entity id) "__path__" w = (w.pathAnswer id, v) ∧ w.Twins v ∧
      v.notModules = w.notModules := by
  simp only [attr, pathAnswer]
  rw [run_get_bind]
  cases w.attr? (.entity id) "__path__" with
  | some o => exact ⟨w, rfl, .refl hs ht, rfl⟩
  | none =>
    dsimp only
    have hmodule : w.asModule? (.entity id)
        = (w.entity? id).bind fun e ↦ e.module?.bind fun _ ↦ some (id, e) := rfl
    rw [hmodule]
    cases he : w.entity? id with
    | none => exact ⟨w, rfl, .refl hs ht, rfl⟩
    | some e =>
      simp only [Option.bind_some]
      cases hm : e.module? with
      | none => exact ⟨w, rfl, .refl hs ht, rfl⟩
      | some m =>
        simp only [Option.bind_some, hm]
        rw [computed_run]
        cases hanswers : m.answers.lookup "__path__" with
        | none => exact ⟨w, rfl, .refl hs ht, rfl⟩
        | some answers =>
          refine ⟨w.withRequest id "__path__", Prod.ext (congrArg (Answer.outcome _) ?_) rfl,
            .of_withRequest hs ht id, rfl⟩
          -- whichever answer is due, it is the same as the first
          rw [getElem?_eq_of_all_eq (hs id e m answers he hm hanswers) _ 0, Nat.zero_min,
            ← List.head?_eq_getElem?]

theorem requirePath_run (hs : w.Settled) (ht : w.Tabled) (name parent : String)
    (package : EntityId) :
    ∃ v, requirePath name parent package w = (w.admits name parent package, v) ∧ w.Twins v ∧
      v.notModules = w.notModules := by
  obtain ⟨v, hrun, htwins, hsame⟩ := attr_path_run hs ht package
  refine ⟨v, ?_, htwins, hsame⟩
  simp only [requirePath, attr?, admits]
  rw [run_bind, run_catching, hrun]
  cases w.pathAnswer package with
  | ok o => rfl
  | error r =>
    dsimp only
    cases ["AttributeError"].any r.isA <;> rfl

theorem loaded?_run (name : String) (w : World) :
    loaded? name w = (.ok (w.modules.lookup name), w) := rfl

/-- A module that lies in no package and is not loaded is brought to life. -/
theorem findModule_of_package?_eq_none (hlookup : w.modules.lookup name = none)
    (hpackage : Name.package? name = none) : findModule name w = awaken name w := by
  rw [findModule, run_bind, loaded?_run, hlookup]
  refine congrFun ?_ w
  split
  · rfl
  · next parent hparent =>
    rw [Name.package?, hparent, Option.filter_some] at hpackage
    split
    · rfl
    · next hne =>
      rw [if_pos (decide_eq_true hne)] at hpackage
      cases hpackage

/-- For a part that is not loaded its package is looked for first. -/
theorem findModule_of_package? (hlookup : w.modules.lookup name = none)
    (hpackage : Name.package? name = some parent) :
    findModule name w = (do
      let package ← findModule parent
      match ← loaded? name with
      | some id => return id
      | none =>
        requirePath name parent package
        let id ← awaken name
        modify fun w ↦ w.update package (fun e ↦ e.setAttr (Name.leaf name) (.entity id))
          (Entity.keepsKin_setAttr _ _)
        return id : Query EntityId) w := by
  obtain ⟨hparent, hne⟩ := Option.filter_eq_some_iff.mp hpackage
  rw [findModule, run_bind, loaded?_run, hlookup]
  refine congrFun ?_ w
  split
  · next hnone =>
    rw [hparent] at hnone
    cases hnone
  · next parent' hparent' =>
    rw [hparent] at hparent'
    cases hparent'
    exact if_neg (of_decide_eq_true hne)

/-- The induction is on the length of the name: that the package was looked for tells what looking for
its part comes to. -/
theorem findModule_finding (name : String) (hs : w.Settled) (ht : w.Tabled) :
    Finding w name (findModule name w).1 (findModule name w).2 := by
  induction hn : name.length using Nat.strongRecOn generalizing name w with
  | ind n ih =>
    cases hlookup : w.modules.lookup name with
    | some id =>
      rw [findModule, run_bind, loaded?_run, hlookup]
      exact .known hlookup
    | none =>
      cases hpackage : Name.package? name with
      | none =>
        rw [findModule_of_package?_eq_none hlookup hpackage, awaken_run]
        cases hwakes : w.wakes name with
        | error r => exact .asleep hlookup hpackage hwakes
        | ok id =>
          refine .awake hpackage ⟨hlookup, hwakes, fun parent hparent ↦ ?_, rfl, rfl, fun _ _ _ _ ↦ rfl⟩
            (.of_eq rfl rfl) rfl
          rw [hpackage] at hparent
          cases hparent
      | some parent =>
        have hshorter := Name.length_package_lt hpackage
        have hfind := ih _ (hn ▸ hshorter) parent hs ht rfl
        rw [findModule_of_package? hlookup hpackage, run_bind]
        rcases hrun : findModule parent w with ⟨r | package, u⟩
        · rw [hrun] at hfind
          exact .orphan hlookup hpackage hfind
        · rw [hrun] at hfind
          obtain ⟨hus, hut⟩ := hfind.orderly hs ht
          have hnone : u.modules.lookup name = none := (hfind.lookup_of_lt hshorter).trans hlookup
          obtain ⟨v, hpath, htwins, hsame⟩ := requirePath_run hus hut name parent package
          dsimp only
          rw [run_bind, loaded?_run, hnone]
          dsimp only
          rw [run_bind, hpath]
          cases hadmits : u.admits name parent package with
          | error r => exact .pathless hlookup hpackage hfind hadmits htwins hsame
          | ok _ =>
            dsimp only
            rw [run_bind, awaken_run]
            cases hwakes : v.wakes name with
            | error r => exact .missing hlookup hpackage hfind hadmits htwins hsame hwakes
            | ok id =>
              exact .part hlookup hpackage hfind hadmits htwins hsame
                (enters_withPart (htwins.modules_eq ▸ hnone) hwakes hpackage
                  (htwins.modules_eq ▸ hfind.lookup_self) (htwins.admits_eq ▸ hadmits))
                (loads_withPart v name package id) (notModules_update ..)

end Query

end DeclClosure

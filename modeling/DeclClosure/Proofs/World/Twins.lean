import DeclClosure.Proofs.World.Classes

/-!
# Worlds that differ in their records

Besides its entities and its modules a world keeps records: how often a module was asked for a name,
which names turned out to name no module, and notes. Twins differ there at most, and what they have
counted differs only in how often packages were asked where their parts are. If a package always
answers that in the same way, nobody can tell twins apart: what looks up attributes and loads modules
comes to the same answer in both, and leaves twins (`Query.attr_alike`, `Query.importModule_alike`).
-/

namespace DeclClosure

/-- What the entity has as a module does not change. -/
theorem Entity.Evolves.module?_eq {e f : Entity} (h : e.Evolves f) :
    f.module? = e.module? := by
  simp only [Entity.module?]
  rw [h.shape]

/-- What an answer to the request for a name comes to, if there is one. -/
def Answer.outcome (name : String) : Option Answer → Except Raised Object
  | some (.object o) => .ok o
  | some (.failure r) => .error r
  | none => .error (.ofKind "AttributeError" name)

namespace World

/-- The world with other records. -/
def withRecords (w : World) (asked : List ((EntityId × String) × Nat)) (notModules : List String)
    (notes : List Note) : World :=
  { w with asked, notModules, notes }

/-- How often a module was asked for a name that it computes. -/
def timesAsked (w : World) (id : EntityId) (name : String) : Nat :=
  (w.asked.lookup (id, name)).getD 0

/-- The world in which a module was asked for a name once more. -/
def withRequest (w : World) (id : EntityId) (name : String) : World :=
  w.withRecords (((id, name), w.timesAsked id name + 1) :: w.asked.filter fun a ↦ a.1 != (id, name))
    w.notModules w.notes

/-- The world in which a module has entered the table. -/
def withModule (w : World) (name : String) (id : EntityId) : World :=
  { w with modules := w.modules ++ [(name, id)] }

/-- A module that computes where its parts are always gives the same answer. -/
def Settled (w : World) : Prop :=
  ∀ id e m answers, w.entity? id = some e → e.module? = some m →
    m.answers.lookup "__path__" = some answers → ∀ a ∈ answers, ∀ b ∈ answers, a = b

/-- The names of the table stand for modules, and so do those that are not loaded. -/
structure Tabled (w : World) : Prop where
  /-- What is loaded is a module. -/
  loaded : ∀ m ∈ w.modules, w.isModule (.entity m.2)
  /-- What is not loaded is one. -/
  dormant : ∀ d ∈ w.dormant, w.isModule (.entity d.module)

/-- What bringing a dormant module to life comes to. -/
def wakes (w : World) (name : String) : Except Raised EntityId :=
  match w.dormant.find? fun d ↦ d.name == name with
  | none => .error (.ofKind "ModuleNotFoundError" ("No module named " ++ Text.quoted name))
  | some d =>
    match d.failure with
    | some r => .error r
    | none => .ok d.module

/-- The worlds differ in their records at most. What they have counted is the same, except for the
paths of packages. -/
structure Twins (u v : World) : Prop where
  /-- They differ in their records at most. -/
  rest : ∃ asked notModules notes, v = u.withRecords asked notModules notes
  /-- Except for the paths of packages they have counted the same. -/
  asked : ∀ id name, name ≠ "__path__" → v.asked.lookup (id, name) = u.asked.lookup (id, name)
  /-- Paths are always the same. -/
  settled : u.Settled
  /-- Modules are modules. -/
  tabled : u.Tabled

section Records

variable (w : World) (asked : List ((EntityId × String) × Nat)) (notModules : List String)
  (notes : List Note)

@[simp]
theorem entity?_withRecords : (w.withRecords asked notModules notes).entity? = w.entity? := rfl

@[simp]
theorem asModule?_withRecords : (w.withRecords asked notModules notes).asModule? = w.asModule? := rfl

@[simp]
theorem modules_withRecords : (w.withRecords asked notModules notes).modules = w.modules := rfl

@[simp]
theorem dormant_withRecords : (w.withRecords asked notModules notes).dormant = w.dormant := rfl

@[simp]
theorem wakes_withRecords : (w.withRecords asked notModules notes).wakes = w.wakes := rfl

@[simp]
theorem entityAttr?_withRecords :
    (w.withRecords asked notModules notes).entityAttr? = w.entityAttr? := rfl

@[simp]
theorem formAttr?_withRecords :
    (w.withRecords asked notModules notes).formAttr? = w.formAttr? := rfl

@[simp]
theorem attr?_withRecords : (w.withRecords asked notModules notes).attr? = w.attr? := by
  funext o name
  fun_induction World.attr? w o name <;> simp_all [attr?]

theorem update_withRecords (id : EntityId) (f : Entity → Entity) (hf : Entity.KeepsKin f) :
    (w.withRecords asked notModules notes).update id f hf
      = (w.update id f hf).withRecords asked notModules notes := by
  have standard (hid : ∀ i, id ≠ .declared i) :
      (w.withRecords asked notModules notes).updateStandard id f hf hid
        = (w.updateStandard id f hf hid).withRecords asked notModules notes := by
    simp only [updateStandard, entity?_withRecords]
    split <;> rfl
  cases id with
  | standard key => exact standard (EntityId.standard_ne_declared key)
  | standardModule name => exact standard (EntityId.standardModule_ne_declared name)
  | declared i => rfl

end Records

theorem lookup_asked_withRequest (w : World) (id : EntityId) (name : String)
    (key : EntityId × String) : (w.withRequest id name).asked.lookup key
      = if key = (id, name) then some (w.timesAsked id name + 1) else w.asked.lookup key := by
  show List.lookup key (((id, name), _) :: w.asked.filter _) = _
  rw [List.lookup_cons]
  split
  · next h => rw [if_pos (beq_iff_eq.mp h)]
  · next h =>
    have hne : key ≠ (id, name) := beq_eq_false_iff_ne.mp h
    rw [if_neg hne]
    exact Table.lookup_filter_ne hne _

/-- An entity is a module iff it has what modules have. -/
theorem isModule_entity_iff {w : World} {id : EntityId} :
    w.isModule (.entity id) ↔ ∃ e m, w.entity? id = some e ∧ e.module? = some m := by
  have hunfold : w.asModule? (.entity id)
      = (w.entity? id).bind fun e ↦ e.module?.bind fun _ ↦ some (id, e) := rfl
  simp only [isModule]
  rw [hunfold]
  simp only [Option.isSome_bind, Option.any_eq_true, Option.isSome_iff_exists]
  simp

theorem isModule_of_asModule? {w : World} {o : Object} {id : EntityId} {e : Entity}
    (h : w.asModule? o = some (id, e)) :
    o = .entity id ∧ w.entity? id = some e ∧ ∃ m, e.module? = some m := by
  obtain ⟨i, hi, h⟩ := Option.bind_eq_some_iff.mp h
  obtain ⟨e', he, h⟩ := Option.bind_eq_some_iff.mp h
  obtain ⟨m, hm, heq⟩ := Option.bind_eq_some_iff.mp h
  cases heq
  cases o <;> cases hi
  exact ⟨rfl, he, m, hm⟩

/-- Modules stay modules. -/
theorem Loads.isModule {w v : World} (h : w.Loads v) {id : EntityId}
    (hm : w.isModule (.entity id)) : v.isModule (.entity id) := by
  obtain ⟨e, m, he, hm⟩ := isModule_entity_iff.mp hm
  obtain ⟨f, hf⟩ := Option.isSome_iff_exists.mp (h.kept id e he)
  obtain ⟨e', he', hevolves⟩ := h.entity id f hf
  rw [he] at he'
  cases he'
  exact isModule_entity_iff.mpr ⟨f, m, hf, hevolves.module?_eq.trans hm⟩

theorem Loads.settled {w v : World} (h : w.Loads v) (hw : w.Settled) : v.Settled := by
  intro id f m answers hf hm hanswers
  obtain ⟨e, he, hevolves⟩ := h.entity id f hf
  exact hw id e m answers he (hevolves.module?_eq.symm.trans hm) hanswers

theorem Loads.tabled {w v : World} (h : w.Loads v) (hw : w.Tabled) (hmodules : v.modules = w.modules)
    (hdormant : v.dormant = w.dormant) : v.Tabled :=
  ⟨fun m hm ↦ h.isModule (hw.loaded m (hmodules ▸ hm)),
    fun d hd ↦ h.isModule (hw.dormant d (hdormant ▸ hd))⟩

/-- What comes to life is a module. -/
theorem Tabled.isModule_of_wakes {w : World} (h : w.Tabled) {name : String} {id : EntityId}
    (hwakes : w.wakes name = .ok id) : w.isModule (.entity id) := by
  simp only [wakes] at hwakes
  split at hwakes
  · cases hwakes
  · next d hd =>
    split at hwakes
    · cases hwakes
    · cases hwakes
      exact h.dormant d (List.mem_of_find?_eq_some hd)

section Update

variable (w : World) (id : EntityId) (f : Entity → Entity) (hf : Entity.KeepsKin f)

/-- Changing an entity touches nothing that loading goes by. -/
theorem update_keeps :
    (w.update id f hf).modules = w.modules ∧ (w.update id f hf).dormant = w.dormant ∧
      (w.update id f hf).notModules = w.notModules ∧ (w.update id f hf).asked = w.asked := by
  cases id with
  | declared i => exact ⟨rfl, rfl, rfl, rfl⟩
  | standard | standardModule =>
    simp only [update, updateStandard]
    split <;> exact ⟨rfl, rfl, rfl, rfl⟩

theorem modules_update : (w.update id f hf).modules = w.modules :=
  (w.update_keeps id f hf).1

theorem dormant_update : (w.update id f hf).dormant = w.dormant :=
  (w.update_keeps id f hf).2.1

theorem notModules_update : (w.update id f hf).notModules = w.notModules :=
  (w.update_keeps id f hf).2.2.1

theorem asked_update : (w.update id f hf).asked = w.asked :=
  (w.update_keeps id f hf).2.2.2

end Update

theorem Twins.refl {w : World} (hsettled : w.Settled) (htabled : w.Tabled) : w.Twins w :=
  ⟨⟨w.asked, w.notModules, w.notes, rfl⟩, fun _ _ _ ↦ rfl, hsettled, htabled⟩

namespace Twins

variable {u v : World}

/-- To be asked for a path makes no difference. -/
theorem of_withRequest (hsettled : u.Settled) (htabled : u.Tabled) (id : EntityId) :
    u.Twins (u.withRequest id "__path__") := by
  refine ⟨⟨_, _, _, rfl⟩, fun i x hx ↦ ?_, hsettled, htabled⟩
  rw [lookup_asked_withRequest, if_neg fun heq ↦ hx (Prod.mk.inj heq).2]

theorem modules_eq (h : u.Twins v) : v.modules = u.modules := by
  obtain ⟨⟨asked, notModules, notes, rfl⟩, -, -, -⟩ := h
  rfl

theorem wakes_eq (h : u.Twins v) : v.wakes = u.wakes := by
  obtain ⟨⟨asked, notModules, notes, rfl⟩, -, -, -⟩ := h
  rfl

theorem entity?_eq (h : u.Twins v) : v.entity? = u.entity? := by
  obtain ⟨⟨asked, notModules, notes, rfl⟩, -, -, -⟩ := h
  rfl

theorem settled_right (h : u.Twins v) : v.Settled := by
  obtain ⟨⟨asked, notModules, notes, rfl⟩, -, hsettled, -⟩ := h
  exact hsettled

theorem tabled_right (h : u.Twins v) : v.Tabled := by
  obtain ⟨⟨asked, notModules, notes, rfl⟩, -, -, htabled⟩ := h
  exact ⟨htabled.loaded, htabled.dormant⟩

theorem trans {t : World} (h₁ : u.Twins v) (h₂ : v.Twins t) : u.Twins t := by
  obtain ⟨⟨asked, notModules, notes, rfl⟩, hasked, hsettled, htabled⟩ := h₁
  obtain ⟨⟨asked', notModules', notes', rfl⟩, hasked', -, -⟩ := h₂
  exact ⟨⟨_, _, _, rfl⟩, fun i x hx ↦ (hasked' i x hx).trans (hasked i x hx), hsettled, htabled⟩

/-- What turned out to name no module, and notes, make no difference. -/
theorem withRecords_left (h : u.Twins v) (notModules : List String) (notes : List Note) :
    (u.withRecords u.asked notModules notes).Twins v := by
  obtain ⟨⟨asked, notModules', notes', rfl⟩, hasked, hsettled, htabled⟩ := h
  exact ⟨⟨_, _, _, rfl⟩, hasked, hsettled, ⟨htabled.loaded, htabled.dormant⟩⟩

theorem withRecords_right (h : u.Twins v) (notModules : List String) (notes : List Note) :
    u.Twins (v.withRecords v.asked notModules notes) := by
  obtain ⟨⟨asked, notModules', notes', rfl⟩, hasked, hsettled, htabled⟩ := h
  exact ⟨⟨_, _, _, rfl⟩, hasked, hsettled, htabled⟩

theorem withRequest (h : u.Twins v) (id : EntityId) (name : String) :
    (u.withRequest id name).Twins (v.withRequest id name) := by
  obtain ⟨⟨asked, notModules, notes, rfl⟩, hasked, hsettled, htabled⟩ := h
  refine ⟨⟨_, _, _, rfl⟩, fun i x hx ↦ ?_, hsettled, ⟨htabled.loaded, htabled.dormant⟩⟩
  rw [lookup_asked_withRequest, lookup_asked_withRequest]
  split
  · next heq =>
    cases heq
    simp only [timesAsked]
    rw [hasked id name hx]
  · exact hasked i x hx

end Twins

end World

namespace Query

open World

theorem fail_alike {α : Type} (kind message : String) :
    Alike Twins (fail kind message : Query α) (fail kind message) :=
  Alike.throw _

theorem catching_alike {α : Type} {q q' : Query α} (kinds : List String) (h : Alike Twins q q') :
    Alike Twins (catching kinds q) (catching kinds q') := by
  refine (h.map some).tryCatch fun r ↦ ?_
  split
  · exact Alike.pure none
  · exact Alike.throw r

/-- If all answers are the same, it does not matter which of them is given. -/
theorem getElem?_eq_of_all_eq {answers : List Answer} (h : ∀ a ∈ answers, ∀ b ∈ answers, a = b)
    (i j : Nat) : answers[min i (answers.length - 1)]? = answers[min j (answers.length - 1)]? := by
  cases answers with
  | nil => rfl
  | cons a as =>
    have hlt : ∀ k, min k ((a :: as).length - 1) < (a :: as).length := by
      intro k
      rw [List.length_cons]
      omega
    rw [List.getElem?_eq_getElem (hlt i), List.getElem?_eq_getElem (hlt j)]
    exact congrArg some (h _ (List.getElem_mem _) _ (List.getElem_mem _))

/-- A module that computes a name counts the request and gives the next answer. -/
theorem computed_run (id : EntityId) (facts : ModuleFacts) (name : String) (w : World) :
    computed id facts name w = match facts.answers.lookup name with
      | none => (.error (.ofKind "AttributeError" name), w)
      | some answers =>
        (Answer.outcome name answers[min (w.timesAsked id name) (answers.length - 1)]?,
          w.withRequest id name) := by
  simp only [computed]
  cases facts.answers.lookup name with
  | none => rfl
  | some answers =>
    dsimp only
    rw [run_get_bind]
    show (match answers[min (w.timesAsked id name) (answers.length - 1)]? with
      | some (.object o) => pure o
      | some (.failure r) => throw r
      | none => fail "AttributeError" name : Query Object) (w.withRequest id name) = _
    rcases answers[min (w.timesAsked id name) (answers.length - 1)]? with _ | ⟨_ | _⟩ <;> rfl

theorem computed_alike {facts : ModuleFacts} (id : EntityId) (name : String)
    (hfacts : ∀ answers, facts.answers.lookup "__path__" = some answers →
      ∀ a ∈ answers, ∀ b ∈ answers, a = b) :
    Alike Twins (computed id facts name) (computed id facts name) := by
  intro u v h
  rw [computed_run, computed_run]
  cases hanswers : facts.answers.lookup name with
  | none => exact ⟨rfl, h⟩
  | some answers =>
    refine ⟨congrArg (Answer.outcome name) ?_, h.withRequest id name⟩
    by_cases hname : name = "__path__"
    · subst hname
      exact getElem?_eq_of_all_eq (hfacts answers hanswers) _ _
    · simp only [timesAsked]
      rw [h.asked id name hname]

theorem attr_alike (o : Object) (name : String) : Alike Twins (attr o name) (attr o name) := by
  refine Alike.get_bind fun u v h ↦ ?_
  obtain ⟨⟨asked, notModules, notes, rfl⟩, -, hsettled, -⟩ := h
  simp only [attr?_withRecords, asModule?_withRecords]
  split
  · exact Alike.pure _
  · split
    · next id e hmodule =>
      obtain ⟨-, he, -⟩ := isModule_of_asModule? hmodule
      split
      · next facts hfacts => exact computed_alike id name (hsettled id e facts · he hfacts)
      · exact fail_alike _ _
    · exact fail_alike _ _

theorem attr?_alike (o : Object) (name : String) : Alike Twins (attr? o name) (attr? o name) :=
  catching_alike _ (attr_alike o name)

theorem walk_alike (o : Object) (names : List String) : Alike Twins (walk o names) (walk o names) := by
  induction names generalizing o with
  | nil => exact Alike.pure _
  | cons n ns ih =>
    refine (catching_alike _ (attr_alike o n)).bind fun next ↦ ?_
    split
    · exact ih _
    · exact Alike.pure _

/-! ### Loading -/

theorem loaded?_alike (name : String) : Alike Twins (loaded? name) (loaded? name) := by
  refine Alike.get_bind fun u v h ↦ ?_
  obtain ⟨⟨asked, notModules, notes, rfl⟩, -, -, -⟩ := h
  exact Alike.pure _

/-- Bringing a module to life fails and changes nothing, or its name enters the table. -/
theorem awaken_run (name : String) (w : World) :
    awaken name w = match w.wakes name with
      | .ok id => (.ok id, w.withModule name id)
      | .error r => (.error r, w) := by
  simp only [awaken, wakes]
  rw [run_get_bind]
  cases w.dormant.find? fun d ↦ d.name == name with
  | none => rfl
  | some d =>
    dsimp only
    cases d.failure <;> rfl

theorem awaken_alike (name : String) : Alike Twins (awaken name) (awaken name) := by
  intro u v h
  have htwins := h
  obtain ⟨⟨asked, notModules, notes, rfl⟩, hasked, hsettled, htabled⟩ := h
  rw [awaken_run, awaken_run, wakes_withRecords]
  cases hwakes : u.wakes name with
  | error r => exact ⟨rfl, htwins⟩
  | ok id =>
    refine ⟨rfl, ⟨_, _, _, rfl⟩, hasked, hsettled, ⟨fun m hm ↦ ?_, htabled.dormant⟩⟩
    rcases List.mem_append.mp hm with hm | hm
    · exact htabled.loaded m hm
    · obtain rfl := List.mem_singleton.mp hm
      exact htabled.isModule_of_wakes hwakes

theorem requirePath_alike (name parent : String) (package : EntityId) :
    Alike Twins (requirePath name parent package) (requirePath name parent package) := by
  refine (attr?_alike _ _).bind fun path ↦ ?_
  split
  · exact Alike.pure _
  · exact fail_alike _ _

theorem setModule_alike (package : EntityId) (name : String) (id : EntityId) :
    Alike Twins
      (modify fun w ↦ w.update package (fun e ↦ e.setAttr name (.entity id))
        (Entity.keepsKin_setAttr _ _) : Query Unit)
      (modify fun w ↦ w.update package (fun e ↦ e.setAttr name (.entity id))
        (Entity.keepsKin_setAttr _ _)) := by
  refine Alike.modify fun u v h ↦ ?_
  obtain ⟨⟨asked, notModules, notes, rfl⟩, hasked, hsettled, htabled⟩ := h
  have hloads := Loads.setAttr u package name id
  refine ⟨⟨_, _, _, u.update_withRecords ..⟩, fun i x hx ↦ ?_, hloads.settled hsettled,
    hloads.tabled htabled (u.modules_update ..) (u.dormant_update ..)⟩
  rw [asked_update, asked_update]
  exact hasked i x hx

/-- Loading a package comes before loading its part, so the induction is on the length of the name.
-/
theorem findModule_alike (name : String) : Alike Twins (findModule name) (findModule name) := by
  induction hn : name.length using Nat.strongRecOn generalizing name with
  | ind n ih =>
    rw [findModule]
    refine (loaded?_alike name).bind fun found ↦ ?_
    split
    · exact Alike.pure _
    · split
      · exact awaken_alike name
      · next parent hparent =>
        split
        · exact awaken_alike name
        · refine (ih _ (hn ▸ Name.length_parent_lt hparent) parent rfl).bind fun package ↦ ?_
          refine (loaded?_alike name).bind fun found ↦ ?_
          split
          · exact Alike.pure _
          · refine (requirePath_alike name parent package).bind fun _ ↦ ?_
            refine (awaken_alike name).bind fun id ↦ ?_
            exact (setModule_alike package _ id).bind fun _ ↦ Alike.pure _

theorem importModule_alike (name : String) : Alike Twins (importModule name) (importModule name) := by
  simp only [importModule]
  split
  · exact fail_alike _ _
  · split
    · exact fail_alike _ _
    · exact findModule_alike name

end Query

end DeclClosure

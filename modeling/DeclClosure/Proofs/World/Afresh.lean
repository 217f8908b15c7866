import DeclClosure.Proofs.World.Barred
import DeclClosure.Proofs.World.Declaring
import DeclClosure.Proofs.World.Standard
import Mathlib.Data.List.Forall2

/-!
# Loading afresh

The world remembers which names turned out to name no module, and does not try to load them again.
Here names are resolved in another way: what came of earlier attempts is not consulted, and every
attempt is made afresh (`Query.resolveAfresh`). Attempts that fail may load packages and make them
say where their parts are, so one has to see that it makes no difference.

The names that are remembered are hopeless: the attempt to load one fails, with a failure that is no
error of the resolution, and leaves the world as it was but for its records (`World.Hopeless`,
`Query.importModule_of_hopeless`). They stay so whatever is loaded later, and a name that is added was
just found to be hopeless. So what one session remembers, the other one finds out again, and both go
on from twins.
-/

namespace DeclClosure

/-- The failure to load a module is no error for those who only ask if there is one. -/
def Raised.isOvercome (r : Raised) : Bool :=
  r.isA "ImportError" || r.isA "Exception"

namespace Query

/-! ### Two ways to resolve names -/

/-- What becomes of a failure to load a module. -/
def overcome (name : String) (r : Raised) : Query (Option EntityId) := do
  if r.isA "ImportError" then dismiss name
  else if r.isA "Exception" then
    note (.importFailed name r.message)
    dismiss name
  else throw r

/-- The attempt to load a module. -/
def attempt (name : String) : Query (Option EntityId) :=
  tryCatch (some <$> importModule name) (overcome name)

/-- The module of a name if there is one. The attempt to load it is made whatever came of it before. -/
def moduleAfresh? (name : String) : Query (Option EntityId) := do
  match ← loaded? name with
  | some id => return some id
  | none =>
    let w ← get
    if !w.importing then return none
    attempt name

/-- Tries some ways in turn, with modules found in a given way. -/
def firstOfWith (find : String → Query (Option EntityId)) :
    List (String × List String) → Query (Option Object)
  | [] => return none
  | (name, rest) :: others => do
    match ← find name with
    | none => firstOfWith find others
    | some id =>
      match ← walk (.entity id) rest with
      | some o => return some o
      | none => firstOfWith find others

/-- The object that a name stands for, if there is one, with modules found in a given way. -/
def resolveWith (find : String → Query (Option EntityId)) (name : String) : Query (Option Object) := do
  let name := Name.stripRoot name
  if name = "" then return none
  let parts := Name.segments name
  match ← firstOfWith find (splits parts) with
  | some o => return some o
  | none => walk rootModule parts

/-- The object that a name stands for, if there is one, with every attempt to load a module made
afresh. -/
def resolveAfresh (name : String) : Query (Option Object) :=
  resolveWith moduleAfresh? name

theorem firstOfWith_module? (ways : List (String × List String)) :
    firstOfWith module? ways = firstOf ways := by
  induction ways with
  | nil => rfl
  | cons way others ih =>
    obtain ⟨name, rest⟩ := way
    simp only [firstOfWith, ih]
    rfl

/-- Names are resolved with the modules that are found unless it is remembered that there are none. -/
theorem resolveWith_module? (name : String) : resolveWith module? name = resolve name := by
  simp only [resolveWith, firstOfWith_module?]
  rfl

/-- The answers to some questions that are asked one after the other, each with the world after it. -/
def session {α : Type} (ask : String → Query α) :
    List String → World → List (Except Raised α × World)
  | [], _ => []
  | name :: names, w => ask name w :: session ask names (ask name w).2

end Query

/-! ### Hopeless names -/

namespace World

/-- The name is no absolute name of a module, or it cannot be loaded, which is no error. -/
def Hopeless (w : World) (name : String) : Prop :=
  (Name.startsWith "." name ∨ name = "") ∨ ∃ r : Raised, r.isOvercome ∧ w.Barred name r

theorem Hopeless.withRecords {w : World} {name : String} (h : w.Hopeless name)
    (asked : List ((EntityId × String) × Nat)) (notModules : List String) (notes : List Note) :
    (w.withRecords asked notModules notes).Hopeless name :=
  h.imp_right fun ⟨r, hr, hbarred⟩ ↦ ⟨r, hr, hbarred.withRecords ..⟩

/-- The world `u` remembers what `v` finds out again: they are twins, and whatever `u` remembers to
name no module is hopeless. -/
structure Remembers (u v : World) : Prop where
  /-- They are twins. -/
  twins : u.Twins v
  /-- Nothing is remembered wrongly. -/
  hopeless : ∀ name ∈ u.notModules, u.Hopeless name

/-- From `u` to `v` some requests for computed names were counted. -/
def Counts (u v : World) : Prop :=
  ∃ asked, v = u.withRecords asked u.notModules u.notes

instance : IsPreorder World Counts where
  refl w := ⟨w.asked, rfl⟩
  trans := by
    rintro u _ _ ⟨asked, rfl⟩ ⟨more, rfl⟩
    exact ⟨more, rfl⟩

end World

namespace Query

open World Moves

variable {w u v : World} {name : String} {r : Raised}

/-- What is no absolute name is not looked for. -/
theorem importModule_of_malformed (h : Name.startsWith "." name ∨ name = "") (w : World) :
    ∃ r : Raised, importModule name w = (.error r, w) ∧ r.isOvercome := by
  simp only [importModule]
  by_cases hpoint : Name.startsWith "." name
  · rw [if_pos hpoint]
    refine ⟨_, rfl, Bool.or_eq_true_iff.mpr (.inr ?_)⟩
    exact Raised.isA_ofKind _ (by decide +kernel)
  · rw [if_neg hpoint, if_pos (h.resolve_left hpoint)]
    refine ⟨_, rfl, Bool.or_eq_true_iff.mpr (.inr ?_)⟩
    exact Raised.isA_ofKind _ (by decide +kernel)

theorem importModule_of_wellformed (h : ¬(Name.startsWith "." name ∨ name = "")) :
    importModule name = findModule name := by
  simp only [importModule]
  rw [if_neg fun hpoint ↦ h (.inl hpoint), if_neg fun hempty ↦ h (.inr hempty)]

/-- The attempt to load a hopeless name fails, and leaves a twin. -/
theorem importModule_of_hopeless (hs : w.Settled) (ht : w.Tabled) (h : w.Hopeless name) :
    ∃ r v, importModule name w = (.error r, v) ∧ r.isOvercome ∧ w.Twins v := by
  by_cases hname : Name.startsWith "." name ∨ name = ""
  · obtain ⟨r, hrun, hr⟩ := importModule_of_malformed hname w
    exact ⟨r, w, hrun, hr, .refl hs ht⟩
  · obtain ⟨r, hr, hbarred⟩ := h.resolve_left hname
    obtain ⟨hanswer, htwins⟩ := (findModule_finding name hs ht).eq_of_barred hbarred hs ht
    rw [importModule_of_wellformed hname]
    exact ⟨r, (findModule name w).2, Prod.ext hanswer rfl, hr, htwins⟩

/-- What could not be loaded is hopeless from then on, if that was no error. -/
theorem hopeless_of_importModule (hs : w.Settled) (ht : w.Tabled)
    (hrun : importModule name w = (.error r, v)) (hr : r.isOvercome) : v.Hopeless name := by
  by_cases hname : Name.startsWith "." name ∨ name = ""
  · exact .inl hname
  · have hfind := findModule_finding name hs ht
    rw [importModule_of_wellformed hname] at hrun
    rw [hrun] at hfind
    exact .inr ⟨r, hr, hfind.barred⟩

/-- An attempt to load a module remembers nothing yet, and what is hopeless stays so. -/
theorem importModule_keeps (hs : w.Settled) (ht : w.Tabled) (name : String) :
    (importModule name w).2.notModules = w.notModules ∧
      ∀ x, w.Hopeless x → (importModule name w).2.Hopeless x := by
  by_cases hname : Name.startsWith "." name ∨ name = ""
  · obtain ⟨r, hrun, -⟩ := importModule_of_malformed hname w
    rw [hrun]
    exact ⟨rfl, fun _ h ↦ h⟩
  · have hfind := findModule_finding name hs ht
    rw [importModule_of_wellformed hname]
    exact ⟨hfind.notModules_eq,
      fun x h ↦ h.imp_right fun ⟨r, hr, hbarred⟩ ↦ ⟨r, hr, hfind.barred_mono ht hbarred⟩⟩

theorem overcome_of_isOvercome (h : r.isOvercome) (name : String) (w : World) :
    ∃ notes, overcome name r w
      = (.ok none, w.withRecords w.asked (w.notModules ++ [name]) notes) := by
  simp only [overcome]
  by_cases himport : r.isA "ImportError"
  · rw [if_pos himport]
    exact ⟨w.notes, rfl⟩
  · rw [if_neg himport, if_pos ((Bool.or_eq_true_iff.mp h).resolve_left himport)]
    exact ⟨_, rfl⟩

theorem overcome_of_not_isOvercome (h : ¬r.isOvercome) (name : String) (w : World) :
    overcome name r w = (.error r, w) := by
  simp only [overcome]
  rw [if_neg fun himport ↦ h (Bool.or_eq_true_iff.mpr (.inl himport)),
    if_neg fun hexception ↦ h (Bool.or_eq_true_iff.mpr (.inr hexception))]
  rfl

/-! ### Side by side -/

theorem walk_counts (o : Object) (names : List String) : Moves Counts (walk o names) :=
  moves_walk (moves_attr fun _ asked ↦ ⟨asked, rfl⟩) o names

/-- To walk along attributes loads nothing, so what is remembered stays right. -/
theorem walk_remembers (o : Object) (names : List String) :
    Alike Remembers (walk o names) (walk o names) := by
  intro u v h
  obtain ⟨hanswer, htwins⟩ := walk_alike o names u v h.twins
  obtain ⟨asked, hcounts⟩ := walk_counts o names u
  refine ⟨hanswer, htwins, ?_⟩
  rw [hcounts]
  exact fun name hname ↦ (h.hopeless name hname).withRecords ..

/-- A module that is remembered not to be there is looked for in vain. -/
theorem attempt_of_hopeless (h : u.Remembers v) (hname : name ∈ u.notModules) :
    ∃ t, attempt name v = (.ok none, t) ∧ u.Remembers t := by
  have hopeless : v.Hopeless name := by
    obtain ⟨⟨asked, notModules, notes, heq⟩, -, -, -⟩ := h.twins
    rw [heq]
    exact (h.hopeless name hname).withRecords ..
  obtain ⟨r, t, hrun, hr, htwins⟩ :=
    importModule_of_hopeless h.twins.settled_right h.twins.tabled_right hopeless
  obtain ⟨notes, hovercome⟩ := overcome_of_isOvercome hr name t
  refine ⟨t.withRecords t.asked (t.notModules ++ [name]) notes, ?_,
    (h.twins.trans htwins).withRecords_right _ _, h.hopeless⟩
  rw [attempt, run_tryCatch, run_map, hrun]
  exact hovercome

/-- Where nothing is remembered both make the attempt, and the first remembers its outcome rightly. -/
theorem attempt_remembers (name : String) : Alike Remembers (attempt name) (attempt name) := by
  intro u v h
  obtain ⟨hanswer, htwins⟩ := importModule_alike name u v h.twins
  obtain ⟨hsame, hkeeps⟩ := importModule_keeps h.twins.settled h.twins.tabled name
  rcases hu : importModule name u with ⟨a, u'⟩
  rcases hv : importModule name v with ⟨b, v'⟩
  rw [hu] at hanswer htwins hsame hkeeps
  rw [hv] at hanswer htwins
  obtain rfl : a = b := hanswer
  have hremembers : u'.Remembers v' :=
    ⟨htwins, fun x hx ↦ hkeeps x (h.hopeless x (hsame ▸ hx))⟩
  rw [attempt, run_tryCatch, run_tryCatch, run_map, run_map, hu, hv]
  cases a with
  | ok id => exact ⟨rfl, hremembers⟩
  | error r =>
    by_cases hr : r.isOvercome
    · obtain ⟨notes, hovercome⟩ := overcome_of_isOvercome hr name u'
      obtain ⟨notes', hovercome'⟩ := overcome_of_isOvercome hr name v'
      dsimp only
      rw [hovercome, hovercome']
      refine ⟨rfl, (htwins.withRecords_left _ _).withRecords_right _ _, fun x hx ↦ ?_⟩
      rcases List.mem_append.mp hx with hx | hx
      · exact (hremembers.hopeless x hx).withRecords ..
      · obtain rfl := List.mem_singleton.mp hx
        exact (hopeless_of_importModule h.twins.settled h.twins.tabled hu hr).withRecords ..
    · dsimp only
      rw [overcome_of_not_isOvercome hr, overcome_of_not_isOvercome hr]
      exact ⟨rfl, hremembers⟩

theorem loaded?_remembers (name : String) : Alike Remembers (loaded? name) (loaded? name) := by
  intro u v h
  rw [loaded?_run, loaded?_run, h.twins.modules_eq]
  exact ⟨rfl, h⟩

theorem module?_remembers (name : String) : Alike Remembers (module? name) (moduleAfresh? name) := by
  refine (loaded?_remembers name).bind fun found ↦ ?_
  cases found with
  | some id => exact Alike.pure _
  | none =>
    intro u v h
    have himporting : v.importing = u.importing := by
      obtain ⟨⟨asked, notModules, notes, heq⟩, -, -, -⟩ := h.twins
      rw [heq]
      rfl
    dsimp only
    rw [run_get_bind, run_get_bind, himporting]
    cases u.importing with
    | false => exact ⟨rfl, h⟩
    | true =>
      cases hknown : u.notModules.contains name with
      | true =>
        -- the first one answers from memory, and the second one makes the attempt again
        obtain ⟨t, hrun, ht⟩ := attempt_of_hopeless h (List.contains_iff_mem.mp hknown)
        show (.ok none : Except Raised (Option EntityId)) = (attempt name v).1 ∧
          u.Remembers (attempt name v).2
        rw [hrun]
        exact ⟨rfl, ht⟩
      | false => exact attempt_remembers name u v h

theorem firstOf_remembers (ways : List (String × List String)) :
    Alike Remembers (firstOf ways) (firstOfWith moduleAfresh? ways) := by
  induction ways with
  | nil => exact Alike.pure _
  | cons way others ih =>
    obtain ⟨name, rest⟩ := way
    refine (module?_remembers name).bind fun found ↦ ?_
    split
    · exact ih
    · refine (walk_remembers _ rest).bind fun o ↦ ?_
      split
      · exact Alike.pure _
      · exact ih

theorem resolve_remembers (name : String) : Alike Remembers (resolve name) (resolveAfresh name) := by
  simp only [resolve, resolveAfresh, resolveWith]
  split
  · exact Alike.pure _
  · refine (firstOf_remembers _).bind fun o ↦ ?_
    split
    · exact Alike.pure _
    · exact walk_remembers _ _

/-- Two answers, each with the world after it, cannot be told apart: the answers are the same, and so
are the tables of modules and whatever can be asked of objects. -/
structure Indistinguishable {α : Type} (a b : Except Raised α × World) : Prop where
  /-- The answers are the same. -/
  answer : a.1 = b.1
  /-- The same modules are loaded. -/
  modules : a.2.modules = b.2.modules
  /-- Every entity is the same. -/
  entity : a.2.entity? = b.2.entity?
  /-- Every object has the same under each name, modules that compute it included. -/
  attr : ∀ o name, (attr o name a.2).1 = (attr o name b.2).1

theorem session_indistinguishable (names : List String) (h : u.Remembers v) :
    List.Forall₂ Indistinguishable (session resolve names u) (session resolveAfresh names v) := by
  induction names generalizing u v with
  | nil => exact .nil
  | cons name names ih =>
    obtain ⟨hanswer, hremembers⟩ := resolve_remembers name u v h
    have htwins := hremembers.twins
    exact .cons ⟨hanswer, htwins.modules_eq.symm, htwins.entity?_eq.symm,
      fun o x ↦ (attr_alike o x _ _ htwins).1⟩ (ih hremembers)

/-- What a session remembers to name no module makes no difference: in any universe whose packages give
the same answer whenever they are asked where their parts are, names stand for the same objects, and
the same modules are loaded and have the same names, as if every attempt to load a module were made
afresh. -/
theorem resolve_indistinguishable (d : UniverseDeclaration) (hs : (declaredBy d).Settled)
    (names : List String) :
    List.Forall₂ Indistinguishable (session resolve names (declaredBy d))
      (session resolveAfresh names (declaredBy d)) := by
  obtain ⟨htabled, hnone⟩ := tabled_declaredBy d
  refine session_indistinguishable names ⟨.refl hs htabled, fun name hname ↦ ?_⟩
  rw [hnone] at hname
  cases hname

/-- A world is settled if each of its modules has one answer for its path at most. -/
theorem settled_of_ownIds (h : ∀ id ∈ w.ownIds, ((w.entity? id).bind Entity.module?).all fun m ↦
    (m.answers.lookup "__path__").all fun answers ↦ answers.length ≤ 1) : w.Settled := by
  intro id e m answers he hm hanswers a ha b hb
  rcases mem_ownIds_or he with hown | hstandard
  · have hid := h id hown
    rw [he, Option.bind_some, hm, Option.all_some, hanswers, Option.all_some] at hid
    match answers, of_decide_eq_true hid with
    | [c], _ => rw [List.mem_singleton.mp ha, List.mem_singleton.mp hb]
  · rw [Standard.answers_eq_nil hstandard hm] at hanswers
    cases hanswers

/-- What the answers of a session are known by; a question that fails has none. -/
def keys (answers : List (Except Raised (Option Object) × World)) :
    List (Option (Option ObjectKey)) :=
  answers.map fun a ↦ a.1.toOption.map (Option.map Object.key)

theorem keys_eq_of_forall₂ {l l' : List (Except Raised (Option Object) × World)}
    (h : List.Forall₂ Indistinguishable l l') : keys l = keys l' := by
  induction h with
  | nil => rfl
  | cons hab _ ih =>
    simp only [keys, List.map_cons]
    rw [hab.answer]
    exact congrArg _ ih

/-- A package that computes where its parts are, one of which cannot be loaded. -/
def partsUniverse : UniverseDeclaration where
  modules := [
    { name := "pkg", file := some "/srv/pkg/__init__.src",
      answers := [("__path__", [.object (.list [.atom (.text "/srv/pkg")])])] },
    { name := "pkg.sub", file := some "/srv/pkg/sub.src", isDormant := true },
    { name := "pkg.broken", file := some "/srv/pkg/broken.src", isDormant := true,
      failure := some ⟨"RuntimeError", "boom"⟩ }]
  importing := true

set_option maxRecDepth 100000 in
/-- One part of a package is loaded, and the other one is asked for twice in vain. -/
theorem broken_part_missed_twice :
    (declaredBy partsUniverse).Settled ∧
      keys (session resolve ["pkg.broken", "pkg.sub", "pkg.broken"] (declaredBy partsUniverse))
        = [some none, some (some (.entity (.declared 1))), some none] ∧
      List.Forall₂ Indistinguishable
        (session resolve ["pkg.broken", "pkg.sub", "pkg.broken"] (declaredBy partsUniverse))
        (session resolveAfresh ["pkg.broken", "pkg.sub", "pkg.broken"]
          (declaredBy partsUniverse)) := by
  have hs : (declaredBy partsUniverse).Settled := settled_of_ownIds (by decide +kernel)
  exact ⟨hs, by decide +kernel, resolve_indistinguishable partsUniverse hs _⟩

/-- A package that says where its parts are when it is asked for the second time. -/
def lateUniverse : UniverseDeclaration where
  modules := [
    { name := "pkg", file := some "/srv/pkg/__init__.src",
      answers := [("__path__", [.failure ⟨"AttributeError", "__path__"⟩,
        .object (.list [.atom (.text "/srv/pkg")])])] },
    { name := "pkg.sub", file := some "/srv/pkg/sub.src", isDormant := true }]
  importing := true

set_option maxRecDepth 100000 in
/-- A part of a package that does not always say where its parts are is missed for good, though
another attempt would find it. -/
theorem late_part_missed :
    keys (session resolve ["pkg.sub", "pkg.sub"] (declaredBy lateUniverse)) = [some none, some none] ∧
      keys (session resolveAfresh ["pkg.sub", "pkg.sub"] (declaredBy lateUniverse))
        = [some none, some (some (.entity (.declared 1)))] ∧
      ¬List.Forall₂ Indistinguishable
        (session resolve ["pkg.sub", "pkg.sub"] (declaredBy lateUniverse))
        (session resolveAfresh ["pkg.sub", "pkg.sub"] (declaredBy lateUniverse)) := by
  have hmissed : keys (session resolve ["pkg.sub", "pkg.sub"] (declaredBy lateUniverse))
      = [some none, some none] := by decide +kernel
  have hfound : keys (session resolveAfresh ["pkg.sub", "pkg.sub"] (declaredBy lateUniverse))
      = [some none, some (some (.entity (.declared 1)))] := by decide +kernel
  refine ⟨hmissed, hfound, fun h ↦ ?_⟩
  have hkeys := keys_eq_of_forall₂ h
  rw [hmissed, hfound] at hkeys
  cases hkeys

end Query

end DeclClosure

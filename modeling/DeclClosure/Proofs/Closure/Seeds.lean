import DeclClosure.Closure.Compilation
import DeclClosure.Proofs.Closure.Names
import DeclClosure.Proofs.World.Standard

/-!
# Seeds that are reported missing

Compiling the unit that some modules own asks the world for a setting and for symbols to start from,
and then works off events until none is pending (`Run.Compiles`). A seed is reported missing if it
has not been dealt with, although what a reader wants to know is whether the tree declares it.

The two agree for a seed iff it is `Accounted` for: if what came of its name was dropped or taken
out of the tree, then a listed member stands there under the name, and no listed member stands there
under a name that was never taken up (`missing_iff_undeclared_iff`). A constant that holds a form of
the typing machinery is dropped, so it is neither declared nor reported
(`not_missing_iff_undeclared`).
-/

namespace DeclClosure.Closure

/-- Whether the name was dealt with tells whether the tree has a node of that name. -/
structure Accounted (c : Setting) (s : State) (n : Nat) (name : String) : Prop where
  /-- If the declaration under the name came to nothing, then a listed member stands for it. -/
  undone : Undone c s n name → ListedAs c s n name
  /-- A member is listed only under names that were taken up. -/
  listed : ListedAs c s n name → TakenUp c s n name

/-- From `s` to `t` nothing has changed but the world. -/
def State.Asks (s t : State) : Prop :=
  ∃ w, t = s.learn w

instance : IsPreorder State State.Asks where
  refl s := ⟨s.world, rfl⟩
  trans := by
    rintro s _ _ ⟨w, rfl⟩ ⟨v, rfl⟩
    exact ⟨v, rfl⟩

namespace State

/-- The state with some symbols at the end of the queue. -/
def seeded (s : State) (names : List String) : State :=
  { s with queue := ⟨s.queue.items ++ names.map .symbol⟩ }

end State

namespace Run

/-! ### Asking for the setting -/

theorem ask_asks {α : Type} (q : Query α) : Moves State.Asks (ask q) := by
  intro s
  simp only [ask]
  split <;> exact ⟨_, rfl⟩

theorem jointUnit_asks (modules : List EntityId) : Moves State.Asks (jointUnit modules) := by
  refine (Moves.mapM fun m _ ↦ ask_asks _).bind fun units ↦ ?_
  split
  · exact ask_asks _
  · exact Moves.pure _

theorem unitSetting_asks (modules : List EntityId) (config : Config) :
    Moves State.Asks (unitSetting modules config) := by
  refine (jointUnit_asks modules).bind fun unit ↦ ?_
  refine (ask_asks _).bind fun parts ↦ ?_
  refine Moves.get.bind fun s ↦ ?_
  dsimp only
  split
  · exact Moves.throw _
  · exact Moves.pure _

/-! ### What a compilation consists of -/

theorem seed_eq (names : List String) (s : State) : seed names s = (.ok (), s.seeded names) := by
  induction names generalizing s with
  | nil =>
    show (.ok (), s) = (Except.ok (), s.seeded [])
    simp only [State.seeded]
    rw [List.map_nil, List.append_nil]
  | cons name names ih =>
    show (push (.symbol name) >>= fun _ ↦ seed names) s = _
    have hpush : push (.symbol name) s = (.ok (), s.push (.symbol name)) := rfl
    rw [run_bind_ok hpush, ih]
    unfold State.seeded State.push Queue.push
    dsimp only
    rw [List.map_cons, List.append_assoc]
    rfl

/-- Reporting what is missing changes nothing but the world, and does not fail. -/
theorem reportMissing_eq (unit : SourceUnit) (seeds missing : List String) (s : State) :
    ∃ w, reportMissing unit seeds missing s = (.ok (), s.learn w) := by
  have hnotes : ∀ (names : List String) (s : State),
      ∃ w, names.forM (fun n ↦ note (.undeclaredSeed n)) s = (.ok (), s.learn w) := by
    intro names
    induction names with
    | nil => exact fun s ↦ ⟨s.world, rfl⟩
    | cons n names ih =>
      intro s
      obtain ⟨w, hw⟩ := ih (s.note (.undeclaredSeed n))
      refine ⟨w, ?_⟩
      show (note (.undeclaredSeed n) >>= fun _ ↦ names.forM fun n ↦ note (.undeclaredSeed n)) s = _
      have hnote : note (.undeclaredSeed n) s = (.ok (), s.note (.undeclaredSeed n)) := rfl
      rw [run_bind_ok hnote, hw]
      rfl
  obtain ⟨w, hw⟩ := hnotes missing s
  simp only [reportMissing]
  rw [run_bind_ok hw]
  split
  · exact ⟨w.note _, rfl⟩
  · exact ⟨w, rfl⟩

/-- A compilation that is prepared and works off all its events gives the tree that they lead to. -/
theorem compileUnit_of_workOff {modules : List EntityId} {config : Config} {s s' t : State}
    {c : Setting} {seeds : List String} {n : Nat}
    (hsetting : unitSetting modules config s = (.ok (c, seeds), s'))
    (hloop : workOff c 0 ((s'.seeded seeds).begun c) = some (.ok n, t)) :
    ∃ w, compileUnit modules config s = (.ok ⟨t.tree, seeds, missingOf t seeds⟩, t.learn w) := by
  have hcompile := compile_of_workOff hloop
  dsimp only at hcompile
  -- neither putting the seeds into the queue nor reporting fails, so all depends on the loop
  obtain ⟨w, hw⟩ := reportMissing_eq c.unit seeds (missingOf t seeds)
    (t.note (.compiled c.unit.name n t.seen.length))
  refine ⟨w, ?_⟩
  simp only [compileUnit]
  rw [run_bind_ok hsetting]
  dsimp only
  rw [run_bind_ok (seed_eq seeds s'), run_bind_ok hcompile, run_get_bind]
  show (reportMissing c.unit seeds (missingOf t seeds) >>= _) _ = _
  rw [run_bind_ok hw]
  rfl

/-- What comes out of compiling the unit that some modules own, in the setting `c` and by working
off `n` events from `s`. -/
structure Compiles (modules : List EntityId) (config : Config) (start : State) (comp : Compilation)
    (c : Setting) (s : State) (n : Nat) : Prop where
  /-- The setting and the seeds are those of the modules. -/
  setting : ∃ w, unitSetting modules config start = (.ok (c, comp.seeds), start.learn w) ∧
    s = ((start.learn w).seeded comp.seeds).begun c
  /-- All events are worked off. -/
  ends : workOff c 0 s = some (.ok n, s.after c n)
  /-- The tree is what they led to. -/
  tree : comp.tree = (s.after c n).tree
  /-- The missing seeds are those that were not dealt with. -/
  missing : comp.missing = missingOf (s.after c n) comp.seeds

/-- A compilation that gives a result has worked off all its events. -/
theorem exists_compiles {modules : List EntityId} {config : Config} {start t : State}
    {comp : Compilation} (h : compileUnit modules config start = (.ok comp, t)) :
    ∃ c s n, Compiles modules config start comp c s n ∧
      t.aliases = (s.after c n).aliases := by
  obtain ⟨⟨c, seeds⟩, s', hsetting, hrest⟩ := run_bind_eq_ok_iff.mp h
  obtain ⟨w, hs'⟩ : State.Asks start s' := by
    have hasks := unitSetting_asks modules config start
    rwa [hsetting] at hasks
  obtain ⟨n, x, hloop, hends⟩ := exists_compile c (s'.seeded seeds)
  dsimp only at hrest
  rw [run_bind_ok (seed_eq seeds s')] at hrest
  -- the loop ends in any case; if it ended in a failure, there would be no result
  rcases hends with ⟨rfl, -, -⟩ | ⟨f, rfl, hfails⟩
  · obtain ⟨v, hv⟩ := compileUnit_of_workOff hsetting hloop
    rw [h] at hv
    cases hv
    refine ⟨c, _, n, ⟨⟨w, ?_, ?_⟩, hloop, rfl, rfl⟩, rfl⟩
    · rw [hsetting, hs']
    · rw [hs']
  · rw [run_bind_error hfails] at hrest
    cases hrest

end Run

/-! ### Seeds -/

/-- A seed outside of the namespaces of aliases is reported iff its name was not dealt with. -/
theorem mem_missingOf_iff {s : State} {seeds : List String} {x : String} (hx : x ∈ seeds)
    (halias : ¬s.isAliased x) : x ∈ Run.missingOf s seeds ↔ x ∉ s.seen := by
  simp only [Run.missingOf]
  rw [List.mem_filter, Bool.and_eq_true, Bool.not_eq_true', Bool.not_eq_true']
  constructor
  · rintro ⟨-, hseen, -⟩ hmem
    rw [List.contains_iff_mem.mpr hmem] at hseen
    cases hseen
  · intro hseen
    refine ⟨hx, ?_, Bool.not_eq_true _ ▸ halias⟩
    exact Bool.not_eq_true _ ▸ fun h ↦ hseen (List.contains_iff_mem.mp h)

section Run

variable {c : Setting} {s : State} {n : Nat} {x : String}

/-- That the name was not dealt with means that there is no node of it iff the name is accounted
for. -/
theorem not_mem_seen_iff_iff_accounted (hb : s.Blank) (hseen : s.seen = []) :
    (x ∉ (s.after c n).seen ↔ ¬∃ m ∈ (s.after c n).tree.walk, m.qualifiedName = x) ↔
      Accounted c s n x := by
  have htaken : x ∈ (s.after c n).seen ↔ TakenUp c s n x := by
    rw [mem_seen_after_iff hb.sound, hseen]
    exact or_iff_right List.not_mem_nil
  rw [not_iff_not, htaken, exists_node_iff hb]
  constructor
  · intro h
    refine ⟨fun hundone ↦ ?_, fun hlisted ↦ h.mpr (.inr hlisted)⟩
    rcases h.mp (hundone.takenUp hb) with ⟨-, hnot⟩ | hlisted
    · exact absurd hundone hnot
    · exact hlisted
  · intro h
    refine ⟨fun htaken ↦ ?_, ?_⟩
    · by_cases hundone : Undone c s n x
      · exact .inr (h.undone hundone)
      · exact .inl ⟨htaken, hundone⟩
    · rintro (⟨htaken, -⟩ | hlisted)
      · exact htaken
      · exact h.listed hlisted

end Run

/-- **A seed is reported missing if and only if it is undeclared, exactly if it is accounted for.**
A compilation that gives a result has worked off all its events, and of the seeds that lie in no
namespace of an alias it reports those without a node in the tree, but for the ones that are not
accounted for. -/
theorem missing_iff_undeclared_iff (modules : List EntityId) (config : Config) (w : World)
    (trackers : Trackers) {comp : Compilation} {t : State}
    (h : Run.compileUnit modules config (State.start w trackers []) = (.ok comp, t)) :
    ∃ c s n, Run.Compiles modules config (State.start w trackers []) comp c s n ∧
      ∀ x ∈ comp.seeds, ¬t.isAliased x →
        ((x ∈ comp.missing ↔ ¬∃ m ∈ comp.tree.walk, m.qualifiedName = x) ↔ Accounted c s n x) := by
  obtain ⟨c, s, n, hcomp, haliases⟩ := Run.exists_compiles h
  refine ⟨c, s, n, hcomp, fun x hx halias ↦ ?_⟩
  obtain ⟨v, -, hs⟩ := hcomp.setting
  have hblank : s.Blank := by
    rw [hs]
    exact (State.blank_start v trackers comp.seeds).begun c
  have hseen : s.seen = [] := by rw [hs]; rfl
  have halias' : ¬(s.after c n).isAliased x := by
    simp only [State.isAliased] at halias ⊢
    rwa [← haliases]
  rw [hcomp.missing, mem_missingOf_iff hx halias', hcomp.tree]
  exact not_mem_seen_iff_iff_accounted hblank hseen

/-! ### A constant that is neither declared nor reported -/

/-- The setting and the seeds of some modules, and the state in which the compilation of their unit
begins to work off events. -/
def Run.unitStart? (modules : List EntityId) (config : Config) (s : State) :
    Option (Setting × List String × State) :=
  match unitSetting modules config s with
  | (.ok (c, seeds), s') => some (c, seeds, (s'.seeded seeds).begun c)
  | (.error _, _) => none

/-- The compilation of a unit that works off `n` events without failing, and what is checked of its
result. -/
theorem Run.exists_compileUnit (modules : List EntityId) (config : Config) (s : State) (n : Nat)
    (p : Compilation → State → Bool)
    (h : (unitStart? modules config s).any fun (c, seeds, s₀) ↦
      (List.range n).all (fun k ↦ (s₀.after c k).advances c) &&
        (s₀.after c n).queue.items.isEmpty &&
          p ⟨(s₀.after c n).tree, seeds, missingOf (s₀.after c n) seeds⟩ (s₀.after c n)) :
    ∃ comp t w, compileUnit modules config s = (.ok comp, t.learn w) ∧ p comp t := by
  simp only [unitStart?] at h
  rcases hsetting : unitSetting modules config s with ⟨_ | ⟨c, seeds⟩, s'⟩
  · rw [hsetting] at h
    cases h
  · rw [hsetting] at h
    obtain ⟨hrun, hp⟩ := Bool.and_eq_true_iff.mp h
    obtain ⟨hsteps, hempty⟩ := Bool.and_eq_true_iff.mp hrun
    have hloop := workOff_of_advances 0
      (fun k hk ↦ List.all_eq_true.mp hsteps k (List.mem_range.mpr hk)) (List.isEmpty_iff.mp hempty)
    rw [Nat.zero_add] at hloop
    obtain ⟨w, hcomp⟩ := compileUnit_of_workOff hsetting hloop
    exact ⟨_, _, w, hcomp, hp⟩

/-- A module `pkg` with a constant that holds a form of the typing machinery. -/
def formUniverse : UniverseDeclaration where
  modules := [{ name := "pkg", file := some "/srv/pkg.src",
                members := [("MAYBE", .standard "typing.Optional")] }]
  importing := true

/-- The compilation of the module gives a result; the constant is a seed, and it is neither missing
nor declared. -/
theorem exists_compileUnit_form :
    ∃ comp t, Run.compileUnit [.declared 0] {} (State.startOf formUniverse []) = (.ok comp, t) ∧
      "pkg.MAYBE" ∈ comp.seeds ∧ ¬t.isAliased "pkg.MAYBE" ∧ "pkg.MAYBE" ∉ comp.missing ∧
        ¬∃ m ∈ comp.tree.walk, m.qualifiedName = "pkg.MAYBE" := by
  obtain ⟨comp, t, w, hcomp, hp⟩ := Run.exists_compileUnit [.declared 0] {}
    (State.startOf formUniverse []) 6
    (fun comp t ↦ decide ("pkg.MAYBE" ∈ comp.seeds ∧ ¬t.isAliased "pkg.MAYBE" ∧
      "pkg.MAYBE" ∉ comp.missing ∧ ¬∃ m ∈ comp.tree.walk, m.qualifiedName = "pkg.MAYBE"))
    (by
      -- the payload is large, so its names are told apart by their first bytes
      simp only [Run.unitStart?, Run.unitSetting, World.standardPayload, World.payloadSymbols_eq,
        World.rootSymbols, World.publicNames_eq]
      decide +kernel)
  exact ⟨comp, t.learn w, hcomp, of_decide_eq_true hp⟩

/-- So a seed that is not reported missing may be undeclared. -/
theorem not_missing_iff_undeclared :
    ¬∀ (modules : List EntityId) (config : Config) (w : World) (trackers : Trackers)
        (comp : Compilation) (t : State),
      Run.compileUnit modules config (State.start w trackers []) = (.ok comp, t) →
        ∀ x ∈ comp.seeds, ¬t.isAliased x →
          (x ∈ comp.missing ↔ ¬∃ m ∈ comp.tree.walk, m.qualifiedName = x) := by
  intro hall
  obtain ⟨comp, t, hcomp, hseed, halias, hmissing, hnone⟩ := exists_compileUnit_form
  obtain ⟨w, trackers, hstart⟩ := State.exists_startOf_eq formUniverse []
  rw [hstart] at hcomp
  exact hmissing ((hall _ _ _ _ comp t hcomp "pkg.MAYBE" hseed halias).mpr hnone)

/-- What is known of the compilation of the module: there is a seed that is not accounted for. -/
theorem exists_not_accounted :
    ∃ comp t, Run.compileUnit [.declared 0] {} (State.startOf formUniverse []) = (.ok comp, t) ∧
      ∃ c s n, Run.Compiles [.declared 0] {} (State.startOf formUniverse []) comp c s n ∧
        ¬Accounted c s n "pkg.MAYBE" := by
  obtain ⟨comp, t, hcomp, hseed, halias, hmissing, hnone⟩ := exists_compileUnit_form
  obtain ⟨w, trackers, hstart⟩ := State.exists_startOf_eq formUniverse []
  refine ⟨comp, t, hcomp, ?_⟩
  rw [hstart] at hcomp ⊢
  obtain ⟨c, s, n, hcompiles, hiff⟩ :=
    missing_iff_undeclared_iff [.declared 0] {} w trackers hcomp
  refine ⟨c, s, n, hcompiles, fun haccounted ↦ ?_⟩
  exact hmissing (((hiff "pkg.MAYBE" hseed halias).mpr haccounted).mpr hnone)

end DeclClosure.Closure

import DeclClosure.Proofs.Closure.History
import DeclClosure.Universe.Package

/-!
# Classes of the unit that are declared as foreign

A class that a mixin was registered into is passed on as an object from outside of the unit,
wherever it comes from, when the mixin's own scope is announced. The class may be one of the unit
(`World.owns`), and then it depends on the order of events what becomes of it: if its name is taken
up before, the find is left out; if not, the class is declared as a foreign scope, and the name is
gone when the class is found among the constants of its own scope.

No class of the unit is announced as a foreign scope iff each such find is too late, or unfit for
any declaration, or ends the compilation in a failure (`not_foreign_iff`). A class nested in another
one is found through a mixin before it is found in its scope (`owned_foreign_of_nested`).
-/

namespace DeclClosure

/-- The file of the module that a class says it belongs to. -/
def World.homeFile? (w : World) (o : Object) : Option String :=
  (w.asClass? o).bind fun x ↦ (w.textAttr? x.1 "__module__").bind fun home ↦
    (w.declaredModules.lookup home).bind fun module ↦ w.textAttr? module "__file__"

/-- The object is a class of the unit: the file of its module lies in the unit. -/
def World.owns (w : World) (u : SourceUnit) (o : Object) : Bool :=
  (w.homeFile? o).any u.contains

theorem World.isClass_of_owns {w : World} {u : SourceUnit} {o : Object} (h : w.owns u o) :
    w.isClass o := by
  simp only [owns, homeFile?] at h
  simp only [isClass]
  cases hc : w.asClass? o with
  | none =>
    rw [hc] at h
    cases h
  | some x => rfl

/-- No class is a type variable. -/
theorem World.not_isTypeVariable_of_isClass {w : World} {o : Object} (h : w.isClass o) :
    w.isTypeVariable o = false := by
  obtain ⟨id, c, rfl, hc⟩ := exists_of_isClass h
  obtain ⟨e, he, hshape⟩ := shape_of_class? hc
  have hentity : ((Object.entity id).entity?.bind w.entity?).map Entity.shape = some (.class c) := by
    show (w.entity? id).map Entity.shape = _
    rw [he, Option.map_some, hshape]
  simp only [isTypeVariable]
  rw [hentity]

namespace Closure

/-- The objects that are announced as scopes from outside of the unit. -/
def State.foreignScopes (s : State) : List Object :=
  s.queue.items.filterMap fun e ↦
    match e with
    | .node _ o _ .foreignScope _ => some o
    | _ => none

/-- The object would be left out under this name even if the name were new. -/
def State.Unfit (s : State) (name : String) (o : Object) : Prop :=
  ∃ reason, s.skipReason? name o = some reason ∧ reason ≠ .seen

namespace Run

/-- A class from outside of the unit becomes a scope, unless its superclass cannot be told. -/
theorem judgeForeign_of_isClass {c : Setting} {o : Object} {s t : State} {v : Verdict}
    (ho : s.world.isClass o) (h : judgeForeign c o s = (.ok v, t)) : ∃ k, v = .scope k := by
  simp only [judgeForeign] at h
  rw [run_get_bind, World.not_isTypeVariable_of_isClass ho] at h
  have h : judgeScope c o s = (.ok v, t) := h
  simp only [judgeScope] at h
  rw [run_get_bind, ho] at h
  obtain ⟨superclass, u, -, hpure⟩ := run_bind_eq_ok_iff.mp h
  cases hpure
  exact ⟨_, rfl⟩

end Run

variable {c : Setting} {s : State} {n : Nat} {name x : String} {o : Object}

theorem State.mem_foreignScopes :
    o ∈ s.foreignScopes ↔
      ∃ name node signature, .node name o node .foreignScope signature ∈ s.queue.items := by
  simp only [foreignScopes]
  rw [List.mem_filterMap]
  constructor
  · rintro ⟨e, he, hsome⟩
    split at hsome
    · next name p node signature =>
      cases hsome
      exact ⟨name, node, signature, he⟩
    · cases hsome
  · rintro ⟨name, node, signature, he⟩
    exact ⟨_, he, rfl⟩

/-- What is announced as a scope from outside of the unit was found there. -/
theorem Verdict.of_announces_foreignScope {v : Verdict} {kind : NodeKind} {p : Object}
    (h : v.announces kind o = some (.foreignScope, p)) : kind = .foreignScope ∧ p = o := by
  cases v with
  | scope k =>
    cases h
    exact ⟨rfl, rfl⟩
  | drop reason => cases h
  | const announced value ascription => cases h
  | «alias» target shown => cases shown <;> cases h

/-- An object is taken up as foreign when it was found as foreign and is not left out. -/
theorem State.takesUp?_foreignScope_iff :
    s.takesUp? = some (.foreignScope, x, o) ↔
      ∃ name es, s.queue.items = .foreignConstant name o :: es ∧ Name.stripRoot name = x ∧
        s.skipReason? x o = none := by
  simp only [takesUp?]
  rw [Option.filter_eq_some_iff, Option.bind_eq_some_iff]
  constructor
  · rintro ⟨⟨e, hhead, hfound⟩, hskip⟩
    obtain ⟨es, hcons⟩ := List.head?_eq_some_iff.mp hhead
    cases e with
    | foreignConstant name p =>
      cases hfound
      exact ⟨name, es, hcons, rfl, Option.isNone_iff_eq_none.mp hskip⟩
    | _ => cases hfound
  · rintro ⟨name, es, hcons, rfl, hskip⟩
    have hpopped : s.popped.skipReason? (Name.stripRoot name) o = none := hskip
    exact ⟨⟨_, by rw [hcons]; rfl, rfl⟩, by rw [hpopped]; rfl⟩

/-- A scope that is announced as foreign was taken up as foreign before, with a verdict on it. -/
theorem exists_takesUp?_of_foreignScope (hb : s.Blank) (h : o ∈ (s.after c n).foreignScopes) :
    ∃ k < n, ∃ x, (s.after c k).takesUp? = some (.foreignScope, x, o) ∧
      (s.after c k).verdict? c ≠ none := by
  obtain ⟨name, node, signature, hmem⟩ := State.mem_foreignScopes.mp h
  obtain ⟨k, hk, found, p, v, htakes, hv, hann, -⟩ :=
    exists_declaring_of_mem hb (NodeKind.ne_method rfl) hmem
  -- the kind tells that it was found as foreign
  obtain ⟨rfl, rfl⟩ := Verdict.of_announces_foreignScope hann
  exact ⟨k, hk, name, htakes, hv ▸ Option.some_ne_none v⟩

/-- A class that is taken up as foreign is announced as a foreign scope, unless there is no verdict
on it. -/
theorem State.mem_foreignScopes_next (hs : s.Sound) (ho : s.world.isClass o)
    (htakes : s.takesUp? = some (.foreignScope, x, o)) (hv : s.verdict? c ≠ none) :
    o ∈ (s.next c).foreignScopes := by
  obtain ⟨v, hv⟩ := Option.ne_none_iff_exists'.mp hv
  have hscope : ∃ k, v = .scope k := by
    simp only [verdict?] at hv
    rw [htakes, Option.bind_some] at hv
    have hv : (Run.judgeForeign c o (s.popped.markSeen x)).1.toOption = some v := hv
    rcases hrun : Run.judgeForeign c o (s.popped.markSeen x) with ⟨f | u, t⟩
    · rw [hrun] at hv
      cases hv
    · rw [hrun] at hv
      cases hv
      have ho' : (s.popped.markSeen x).world.isClass o := ho
      exact Run.judgeForeign_of_isClass ho' hrun
  obtain ⟨k, rfl⟩ := hscope
  have hchange : s.Change c (s.next c) := State.change hs
  exact mem_foreignScopes.mpr ⟨_, _, _, (hchange.attaches htakes hv rfl).announced⟩

/-- An object is left out if its name was taken up, or if it is unfit. -/
theorem skipReason?_after_eq_none_iff (hb : s.Blank) (hseen : s.seen = []) :
    (s.after c n).skipReason? x o = none ↔ ¬TakenUp c s n x ∧ ¬(s.after c n).Unfit x o := by
  have htaken : x ∈ (s.after c n).seen ↔ TakenUp c s n x := by
    rw [mem_seen_after_iff hb.sound, hseen]
    exact or_iff_right List.not_mem_nil
  constructor
  · intro hskip
    refine ⟨fun h ↦ State.not_mem_seen hskip (htaken.mpr h), ?_⟩
    rintro ⟨reason, hreason, -⟩
    rw [hskip] at hreason
    cases hreason
  · rintro ⟨hnew, hfit⟩
    cases hskip : (s.after c n).skipReason? x o with
    | none => rfl
    | some reason =>
      by_cases hreason : reason = .seen
      · subst hreason
        exact absurd (htaken.mp (State.mem_seen_of_skipReason? hskip)) hnew
      · exact absurd ⟨reason, hskip, hreason⟩ hfit

/-- **No class of the unit is declared as foreign, exactly if every foreign find of one is left out
or fails.** Whatever a compilation starts from: none is announced as a foreign scope within `n`
events iff each time one is found as foreign, its name was taken up before, or it is unfit under the
name, or there is no verdict on it. -/
theorem not_foreign_iff (c : Setting) (w : World) (trackers : Trackers) (seeds : List String)
    (n : Nat) :
    (∀ k ≤ n, ∀ o ∈ (((State.start w trackers seeds).begun c).after c k).foreignScopes,
        ¬w.owns c.unit o) ↔
      ∀ k < n, ∀ name o es, (((State.start w trackers seeds).begun c).after c k).queue.items =
          .foreignConstant name o :: es → w.owns c.unit o →
        TakenUp c ((State.start w trackers seeds).begun c) k (Name.stripRoot name) ∨
          (((State.start w trackers seeds).begun c).after c k).Unfit (Name.stripRoot name) o ∨
            (((State.start w trackers seeds).begun c).after c k).verdict? c = none := by
  have hblank : ((State.start w trackers seeds).begun c).Blank :=
    (State.blank_start w trackers seeds).begun c
  have hseen : ((State.start w trackers seeds).begun c).seen = [] := rfl
  have hclass : ∀ k o, w.owns c.unit o →
      (((State.start w trackers seeds).begun c).after c k).world.isClass o := by
    intro k o ho
    have hworld : w.Evolves ((State.start w trackers seeds).begun c).world := .of_eq rfl rfl
    have hevolves := hworld.trans (State.after_evolves c _ k)
    rw [hevolves.isClass_eq]
    exact World.isClass_of_owns ho
  constructor
  · intro hnone k hk name o es hcons ho
    by_contra hkept
    push Not at hkept
    obtain ⟨hnew, hfit, hv⟩ := hkept
    have hskip := (skipReason?_after_eq_none_iff hblank hseen).mpr ⟨hnew, hfit⟩
    have htakes := State.takesUp?_foreignScope_iff.mpr ⟨name, es, hcons, rfl, hskip⟩
    have hmem := State.mem_foreignScopes_next (State.after_sound hblank.sound k) (hclass k o ho)
      htakes hv
    exact hnone (k + 1) hk o hmem ho
  · -- a foreign scope goes back to a find that was neither late nor unfit, and had a verdict
    intro hfinds k hk o hmem ho
    obtain ⟨j, hj, x, htakes, hv⟩ := exists_takesUp?_of_foreignScope hblank hmem
    obtain ⟨name, es, hcons, rfl, hskip⟩ := State.takesUp?_foreignScope_iff.mp htakes
    obtain ⟨hnew, hfit⟩ := (skipReason?_after_eq_none_iff hblank hseen).mp hskip
    rcases hfinds j (by omega) name o es hcons ho with h | h | h
    · exact hnew h
    · exact hfit h
    · exact hv h

/-- A module `pkg` with a class `Outer`, a class `Inner` nested in it, and a class `M` that was
mixed into the nested one from within the module. -/
def nestedUniverse : UniverseDeclaration where
  modules := [{ name := "pkg", file := some "/srv/pkg.src",
                members := [("M", .reference "M"), ("Outer", .reference "Outer")] }]
  objects := [
    ("M", .class { name := "M", qualname := "M", module := some "pkg" } [] [] .absent false),
    ("Inner", .class { name := "Inner", qualname := "Outer.Inner", module := some "pkg" } []
      [("LIMIT", .atom (.int 3))] .absent false),
    ("Outer", .class { name := "Outer", qualname := "Outer", module := some "pkg" } []
      [("Inner", .reference "Inner")] .absent false)]
  mixins := [(.reference "Inner", .reference "M", .include, "/srv/pkg.src:3")]

set_option maxRecDepth 100000 in
/-- The nested class is found through the mixin first, and becomes a foreign scope. -/
theorem owned_foreign_of_nested :
    ∃ k ≤ 8, ∃ o ∈ (((State.startOf nestedUniverse ["pkg"]).begun
        (.plain ⟨"pkg", [⟨["srv"]⟩]⟩)).after (.plain ⟨"pkg", [⟨["srv"]⟩]⟩) k).foreignScopes,
      (State.startOf nestedUniverse ["pkg"]).world.owns ⟨"pkg", [⟨["srv"]⟩]⟩ o := by
  decide +kernel

end Closure

end DeclClosure

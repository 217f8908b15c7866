import DeclClosure.Proofs.Closure.Arrivals
import DeclClosure.Proofs.Closure.StillVerdicts
import DeclClosure.Proofs.World.Standard

/-!
# The superclass that a class names

Above a class there is a line of superclasses, each one the first base of the class before it that is
more than machinery (`World.ancestor?`). In a still world the superclass that a class names is the
first of this line that bears a name (`World.FirstNamed`), and a symbol of this name joins the queue;
if there is none, or the line of superclasses is to end there, the class names none and no symbol is
asked for (`superclass_first_named`).

The walk along the line passes over a class for three reasons, but only one of them ever holds: a class
that bears a name is what the name stands for, so the name stands for a class, and for no other than
this one. The name of the class before it would have to be the same to make the walk go on, and then
it would be its own superclass (`Run.verifiedSuperclass_of_named`).
-/

namespace DeclClosure

namespace World

/-- The superclass of a class, the superclass of that one, and so on. -/
def ancestor? (w : World) (o : Object) : Nat → Option Object
  | 0 => w.superclass? o
  | k + 1 => (w.ancestor? o k).bind w.superclass?

/-- In the line of superclasses above a class, the first one that bears a name is `p`, and the name is
`x`. -/
def FirstNamed (w : World) (o p : Object) (x : String) : Prop :=
  ∃ k, w.ancestor? o k = some p ∧ Query.nameOf p w = (.ok (some x), w) ∧
    ∀ j < k, ∀ q, w.ancestor? o j = some q → Query.nameOf q w = (.ok none, w)

variable {w : World} {o p q : Object} {x : String}

theorem ancestor?_succ (h : w.superclass? o = some q) (k : Nat) :
    w.ancestor? o (k + 1) = w.ancestor? q k := by
  induction k with
  | zero =>
    simp only [ancestor?]
    rw [h, Option.bind_some]
  | succ k ih =>
    show (w.ancestor? o (k + 1)).bind w.superclass? = _
    rw [ih]
    rfl

theorem ancestor?_of_superclass?_eq_none (h : w.superclass? o = none) (k : Nat) :
    w.ancestor? o k = none := by
  induction k with
  | zero => exact h
  | succ k ih =>
    simp only [ancestor?]
    rw [ih, Option.bind_none]

theorem not_firstNamed_of_superclass?_eq_none (h : w.superclass? o = none) :
    ¬w.FirstNamed o p x := by
  rintro ⟨k, hk, -⟩
  rw [ancestor?_of_superclass?_eq_none h] at hk
  cases hk

/-- In a still world, a name that is borne is read off the world. -/
theorem Still.nameOf_eq_iff (hw : w.Still) {name : Option String} :
    Query.nameOf p w = (.ok name, w) ↔ w.trueName? p = name := by
  rw [Query.nameOf_of_still hw]
  exact ⟨fun h ↦ Except.ok.inj (Prod.mk.inj h).1, fun h ↦ by rw [h]⟩

/-- The first one is the superclass if it bears a name, or else the first one above it. -/
theorem firstNamed_iff (h : w.superclass? o = some q) : w.FirstNamed o p x ↔
    (p = q ∧ Query.nameOf q w = (.ok (some x), w)) ∨
      (Query.nameOf q w = (.ok none, w) ∧ w.FirstNamed q p x) := by
  constructor
  · rintro ⟨k, hk, hp, hbefore⟩
    cases k with
    | zero =>
      obtain rfl : q = p := Option.some.inj (h.symm.trans hk)
      exact .inl ⟨rfl, hp⟩
    | succ k =>
      rw [ancestor?_succ h] at hk
      refine .inr ⟨hbefore 0 (Nat.succ_pos k) q h, k, hk, hp, fun j hj r hr ↦ ?_⟩
      exact hbefore (j + 1) (Nat.succ_lt_succ hj) r (by rw [ancestor?_succ h, hr])
  · rintro (⟨rfl, hp⟩ | ⟨hq, k, hk, hp, hbefore⟩)
    · exact ⟨0, h, hp, nofun⟩
    refine ⟨k + 1, by rw [ancestor?_succ h, hk], hp, fun j hj r hr ↦ ?_⟩
    cases j with
    | zero =>
      obtain rfl : q = r := Option.some.inj (h.symm.trans hr)
      exact hq
    | succ j =>
      rw [ancestor?_succ h] at hr
      exact hbefore j (Nat.lt_of_succ_lt_succ hj) r hr

/-- A superclass that bears a name is the first one that does. -/
theorem Still.firstNamed_iff_of_named (hw : w.Still) {y : String} (h : w.superclass? o = some q)
    (hname : w.trueName? q = some y) : w.FirstNamed o p x ↔ p = q ∧ x = y := by
  rw [firstNamed_iff h, hw.nameOf_eq_iff, hw.nameOf_eq_iff, hname, Option.some.injEq, eq_comm (a := y)]
  exact or_iff_left fun hnone ↦ Option.some_ne_none y hnone.1

/-- Above a superclass without a name, the line goes on in the same way. -/
theorem Still.firstNamed_iff_of_nameless (hw : w.Still) (h : w.superclass? o = some q)
    (hname : w.trueName? q = none) : w.FirstNamed o p x ↔ w.FirstNamed q p x := by
  rw [firstNamed_iff h, hw.nameOf_eq_iff, hw.nameOf_eq_iff, hname, or_iff_right fun hsome ↦ ?_]
  · exact and_iff_right rfl
  · cases hsome.2

/-- A superclass is an entity, which is known by its key. -/
theorem superclass?_eq_of_key {id : EntityId}
    (h : (w.superclass? o).map Object.key = some (.entity id)) :
    w.superclass? o = some (.entity id) := by
  obtain ⟨p, hp, hkey⟩ := Option.map_eq_some_iff.mp h
  rw [hp, Object.same_entity_iff.mp (Object.same_iff.mpr hkey)]

theorem Still.trueName?_of_firstNamed (hw : w.Still) (h : w.FirstNamed o p x) :
    w.trueName? p = some x := by
  obtain ⟨k, -, hp, -⟩ := h
  exact hw.nameOf_eq_iff.mp hp

/-- At most one class is the first one. -/
theorem FirstNamed.unique {y : String} (h : w.FirstNamed o p x) (h' : w.FirstNamed o q y) :
    p = q ∧ x = y := by
  obtain ⟨k, hk, hp, hbefore⟩ := h
  obtain ⟨l, hl, hq, hbefore'⟩ := h'
  rcases Nat.lt_trichotomy k l with hlt | rfl | hlt
  · have hnone := hbefore' k hlt p hk
    rw [hp] at hnone
    cases hnone
  · obtain rfl := Option.some.inj (hk.symm.trans hl)
    rw [hp] at hq
    cases hq
    exact ⟨rfl, rfl⟩
  · have hnone := hbefore l hlt q hl
    rw [hq] at hnone
    cases hnone

end World

namespace Closure

namespace Run

variable {c : Setting} {s : State} {o p : Object} {x : String} {fuel : Nat}

/-- In a still world, the walk along superclasses stops at the first one that bears a name, if it may
look at more classes than lie above its start. -/
theorem verifiedSuperclass_firstNamed (hw : s.world.Still) (ho : s.world.isClass o)
    (hfuel : o.rank < fuel) :
    (∃ p x, s.world.FirstNamed o p x ∧ verifiedSuperclass fuel o s = (.ok (some p), s)) ∨
      (∀ p x, ¬s.world.FirstNamed o p x) ∧ verifiedSuperclass fuel o s = (.ok none, s) := by
  induction fuel generalizing o with
  | zero => omega
  | succ fuel ih =>
    cases hq : s.world.superclass? o with
    | none =>
      exact .inr ⟨fun p x ↦ World.not_firstNamed_of_superclass?_eq_none hq,
        verifiedSuperclass_of_superclass?_eq_none hq⟩
    | some q =>
      cases hname : s.world.trueName? q with
      | none =>
        obtain ⟨hclass, hlt⟩ := World.isClass_superclass ho hq
        have hline (p : Object) (x : String) := hw.firstNamed_iff_of_nameless (p := p) (x := x) hq hname
        simp only [hline, verifiedSuperclass_of_nameless hw hq hname]
        exact ih hclass (by omega)
      | some y =>
        exact .inl ⟨q, y, (hw.firstNamed_iff_of_named hq hname).mpr ⟨rfl, rfl⟩,
          verifiedSuperclass_of_named hw ho hq hname⟩

/-- The class that the walk stops at is named by its name, unless it ends the line. -/
theorem superclassName_of_verified (c : Setting) (hw : s.world.Still)
    (hrun : verifiedSuperclass (chainLimit s.world) o s = (.ok (some p), s))
    (hname : s.world.trueName? p = some x) : ∃ named, superclassName c o s = (.ok named, s) ∧
      ∀ y, named = some y ↔ y = x ∧ p ≠ .standard "object" ∧ x ∉ c.terminal := by
  simp only [superclassName]
  rw [run_get_bind, run_bind_ok hrun]
  dsimp only
  by_cases hobject : p.same (.standard "object") = true
  · rw [if_pos hobject]
    exact ⟨none, rfl, fun y ↦ ⟨fun h ↦ absurd h.symm (Option.some_ne_none y),
      fun h ↦ absurd (Object.same_entity_iff.mp hobject) h.2.1⟩⟩
  · rw [if_neg hobject, run_bind_ok (nameOf_of_still hw p), hname, Option.any_some]
    by_cases hterminal : c.terminal.contains x = true
    · rw [if_pos hterminal]
      exact ⟨none, rfl, fun y ↦ ⟨fun h ↦ absurd h.symm (Option.some_ne_none y),
        fun h ↦ absurd (List.contains_iff_mem.mp hterminal) h.2.2⟩⟩
    · rw [if_neg hterminal, run_bind_ok (nameOf_of_still hw p), nonempty_trueName?, hname]
      refine ⟨some x, rfl, fun y ↦ ⟨?_, fun h ↦ congrArg some h.1.symm⟩⟩
      rintro ⟨⟩
      exact ⟨rfl, fun h ↦ hobject (Object.same_entity_iff.mpr h),
        fun h ↦ hterminal (List.contains_iff_mem.mpr h)⟩

/-- In a still world, a class names the first superclass that bears a name, unless the line of
superclasses is to end there. -/
theorem superclassName_firstNamed (c : Setting) (hw : s.world.Still) (ho : s.world.isClass o) :
    ∃ named, superclassName c o s = (.ok named, s) ∧ ∀ x, named = some x ↔
      ∃ p, s.world.FirstNamed o p x ∧ p ≠ .standard "object" ∧ x ∉ c.terminal := by
  have hrank : o.rank < chainLimit s.world := by
    have hlt := World.rank_lt ho
    simp only [chainLimit]
    omega
  rcases verifiedSuperclass_firstNamed hw ho hrank with ⟨p, y, hfirst, hrun⟩ | ⟨hnone, hrun⟩
  · obtain ⟨named, hsuper, hnamed⟩ :=
      superclassName_of_verified c hw hrun (hw.trueName?_of_firstNamed hfirst)
    refine ⟨named, hsuper, fun x ↦ (hnamed x).trans ⟨?_, ?_⟩⟩
    · rintro ⟨rfl, hnot⟩
      exact ⟨p, hfirst, hnot⟩
    · rintro ⟨q, hfirst', hnot⟩
      obtain ⟨rfl, rfl⟩ := hfirst.unique hfirst'
      exact ⟨rfl, hnot⟩
  · refine ⟨none, ?_, fun x ↦ ⟨fun h ↦ absurd h.symm (Option.some_ne_none x), ?_⟩⟩
    · simp only [superclassName]
      rw [run_get_bind, run_bind_ok hrun]
      rfl
    · rintro ⟨p, hfirst, -⟩
      exact absurd hfirst (hnone p x)

end Run

/-- **The superclass is the first one that bears a name.** Let nothing be loaded or computed in the
world that a compilation looks at. It always finds out what superclass a class names, if any, which
changes nothing, and this goes into the verdict that the class is a scope. The superclass is `x` exactly
if `x` is the name of the first class in the line of superclasses that bears a name, that class is not
the root of all classes, and `x` is not among the classes at which such lines are to end. When the
verdict is enacted, one symbol of this name joins the queue if there is one, and none otherwise, and
then the announcement of the scope. (A base is older than the class, so every line comes to an end.) -/
theorem superclass_first_named (c : Setting) (s : State) (o : Object) (hw : s.world.Still)
    (ho : s.world.isClass o) : ∃ named,
      Run.superclassName c o s = (.ok named, s) ∧
      Run.judgeScope c o s = (.ok (.scope (.class named)), s) ∧
      (∀ x, named = some x ↔
        ∃ p, s.world.FirstNamed o p x ∧ p ≠ .standard "object" ∧ x ∉ c.terminal) ∧
      ∀ kind name, (s.enact kind name o (.scope (.class named))).queue.items = s.queue.items ++
        (named.toList.map .symbol ++ [.node name o (some s.nextNode) kind none]) := by
  obtain ⟨named, hrun, hnamed⟩ := Run.superclassName_firstNamed c hw ho
  refine ⟨named, hrun, ?_, hnamed, fun kind name ↦ s.items_enact kind name o _⟩
  simp only [Run.judgeScope]
  rw [run_get_bind, ho, if_pos rfl, run_bind_ok hrun]
  rfl

/-- A module `app` with a class `N` and a class `A`. Between them stands another class that calls itself
`A`, which had this name until it was bound anew to the class below it. -/
def reboundUniverse : UniverseDeclaration where
  modules := [
    { name := "app", file := some "/srv/app.src"
      members := [("N", .reference "N"), ("A", .reference "New")] }]
  objects := [
    ("N", .class { name := "N", qualname := "N", module := some "app" } [] [] .absent false),
    ("Old", .class { name := "A", qualname := "A", module := some "app" } [.reference "N"] [] .absent
      false),
    ("New", .class { name := "A", qualname := "A", module := some "app" } [.reference "Old"] []
      .absent false)]

/-- The world of these classes. -/
@[irreducible]
def reboundWorld : World :=
  (State.startOf reboundUniverse []).world

theorem reboundWorld_still : reboundWorld.Still := by
  decide +kernel

/-- Above `A` stands the class that has lost its name, and then `N`. -/
theorem firstNamed_rebound :
    reboundWorld.FirstNamed (.entity (.declared 3)) (.entity (.declared 1)) "app.N" := by
  have hold : reboundWorld.superclass? (.entity (.declared 3)) = some (.entity (.declared 2)) :=
    World.superclass?_eq_of_key (by decide +kernel)
  have hn : reboundWorld.superclass? (.entity (.declared 2)) = some (.entity (.declared 1)) :=
    World.superclass?_eq_of_key (by decide +kernel)
  refine (reboundWorld_still.firstNamed_iff_of_nameless hold (by decide +kernel)).mpr ?_
  exact (reboundWorld_still.firstNamed_iff_of_named hn (by decide +kernel)).mpr ⟨rfl, rfl⟩

/-- The class that `app.A` stands for names `app.N`, which is not its direct superclass. -/
theorem superclass_first_named_of_rebound :
    reboundWorld.Still ∧ reboundWorld.isClass (.entity (.declared 3)) ∧
      Run.judgeScope (.plain ⟨"app", [⟨["srv"]⟩]⟩) (.entity (.declared 3))
          (.start reboundWorld {} []) =
        (.ok (.scope (.class (some "app.N"))), .start reboundWorld {} []) ∧
      ((State.start reboundWorld {} []).enact .scope "app.A" (.entity (.declared 3))
          (.scope (.class (some "app.N")))).queue.items =
        [.symbol "app.N", .node "app.A" (.entity (.declared 3)) (some 0) .scope none] := by
  have hclass : reboundWorld.isClass (.entity (.declared 3)) := by decide +kernel
  obtain ⟨named, -, hjudge, hnamed, hitems⟩ := superclass_first_named (.plain ⟨"app", [⟨["srv"]⟩]⟩)
    (.start reboundWorld {} []) (.entity (.declared 3)) reboundWorld_still hclass
  obtain rfl := (hnamed "app.N").mpr ⟨_, firstNamed_rebound, nofun, List.not_mem_nil⟩
  exact ⟨reboundWorld_still, hclass, hjudge, hitems .scope "app.A"⟩

end Closure

end DeclClosure

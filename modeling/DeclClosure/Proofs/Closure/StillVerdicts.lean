import DeclClosure.Proofs.Closure.Aliases
import DeclClosure.Proofs.World.Classes

/-!
# Verdicts in still worlds

In a still world a verdict can be read off the world. A scope is made of an object of the unit under
the name that the object bears (`Run.judgeConstant_scope_of_still`); the superclass that it names is
borne by a class above it (`Run.judgeScope_of_still`). An alias is made of a module or class under
another name than it bears, and its target is the name that it bears, or a text that stands for a
module or class without one (`Run.judgeConstant_alias_of_still`).
-/

namespace DeclClosure

/-- The class is an ancestor of the other one, along bases. -/
def World.Above (w : World) : Object → Object → Prop :=
  Relation.TransGen fun p o ↦ p ∈ w.basesOf o

theorem World.above_withNotes (w : World) (notes : List Note) {p o : Object} :
    (w.withNotes notes).Above p o ↔ w.Above p o := by
  simp only [World.Above, World.basesOf_withNotes]

/-- An ancestor of a class is an older class. -/
theorem World.Above.isClass {w : World} {p o : Object} (h : w.Above p o) (ho : w.isClass o) :
    w.isClass p ∧ p.rank < o.rank := by
  induction h using Relation.TransGen.head_induction_on with
  | single hp => exact isClass_of_mem_basesOf ho hp
  | head hp _ ih =>
    obtain ⟨hq, hlt⟩ := ih
    obtain ⟨hclass, hlt'⟩ := isClass_of_mem_basesOf hq hp
    exact ⟨hclass, Nat.lt_trans hlt' hlt⟩

/-- No name is borne that is empty. -/
theorem World.ne_empty_of_meaning? {w : World} {name : String} {o : Object}
    (h : w.meaning? name = some o) : name ≠ "" := by
  rintro rfl
  cases h

namespace Closure

/-- The text stands for a module or class without a name. -/
def IsAnonymousText (text : String) : Prop :=
  (∃ name, text = "types.ModuleType(\"" ++ name ++ "\")") ∨
    ∃ metaclass name, text = metaclass ++ "(\"" ++ name ++ "\", (), \x7b\x7d)"

namespace Run

variable {c : Setting} {s t : State} {name x : String} {o p : Object} {fuel : Nat}

/-- A question that changes nothing and does not fail. -/
theorem ask_of_eq {α : Type} {q : Query α} {a : α} (h : q s.world = (.ok a, s.world)) :
    ask q s = (.ok a, s) := by
  simp only [ask]
  rw [h]

theorem nameOf_of_still (h : s.world.Still) (o : Object) :
    nameOf o s = (.ok (s.world.trueName? o), s) :=
  ask_of_eq (Query.nameOf_of_still h o)

theorem resolve_of_still (h : s.world.Still) (name : String) :
    ask (Query.resolve name) s = (.ok (s.world.meaning? name), s) :=
  ask_of_eq (Query.resolve_of_still h name)

/-- A name that is borne is not empty. -/
theorem nonempty_trueName? (w : World) (o : Object) :
    nonempty (w.trueName? o) = w.trueName? o := by
  cases hname : w.trueName? o with
  | none => rfl
  | some x =>
    have hx := World.ne_empty_of_meaning? (World.trueName?_eq_some_iff.mp hname).2
    exact Option.filter_eq_some_iff.mpr ⟨rfl, bne_iff_ne.mpr hx⟩

/-! ### Superclasses -/

theorem verifiedSuperclass_of_superclass?_eq_none (hp : s.world.superclass? o = none) :
    verifiedSuperclass (fuel + 1) o s = (.ok none, s) := by
  simp only [verifiedSuperclass]
  rw [run_get_bind, hp]
  rfl

/-- A superclass without a name is passed over. -/
theorem verifiedSuperclass_of_nameless (h : s.world.Still) (hp : s.world.superclass? o = some p)
    (hname : s.world.trueName? p = none) :
    verifiedSuperclass (fuel + 1) o s = verifiedSuperclass fuel p s := by
  simp only [verifiedSuperclass]
  rw [run_get_bind, hp]
  dsimp only
  rw [run_bind_ok (nameOf_of_still h o), run_bind_ok (nameOf_of_still h p), hname]
  rfl

/-- A superclass that bears a name is not passed over. -/
theorem verifiedSuperclass_of_named (h : s.world.Still) (ho : s.world.isClass o)
    (hp : s.world.superclass? o = some p) (hname : s.world.trueName? p = some x) :
    verifiedSuperclass (fuel + 1) o s = (.ok (some p), s) := by
  obtain ⟨hclass, hlt⟩ := World.isClass_superclass ho hp
  obtain ⟨-, hmeaning⟩ := World.trueName?_eq_some_iff.mp hname
  have hnamespace : s.world.isNamespace p = true := by
    rw [World.isNamespace, hclass, Bool.true_or]
  -- if the class before bore the same name, then it would be the superclass itself
  have hother : (some x == s.world.trueName? o) = false := by
    refine beq_eq_false_iff_ne.mpr fun hsame ↦ ?_
    have hmeaning' := (World.trueName?_eq_some_iff.mp hsame.symm).2
    obtain rfl : p = o := Option.some.inj (hmeaning.symm.trans hmeaning')
    exact Nat.lt_irrefl _ hlt
  simp only [verifiedSuperclass]
  rw [run_get_bind, hp]
  dsimp only
  rw [run_bind_ok (nameOf_of_still h o), run_bind_ok (nameOf_of_still h p), nonempty_trueName?,
    hname]
  dsimp only
  rw [run_bind_ok (resolve_of_still h x), hmeaning]
  dsimp only
  rw [run_get_bind, hnamespace, Bool.not_true, if_neg Bool.false_ne_true,
    run_bind_ok (nameOf_of_still h p), hname, hother, if_neg Bool.false_ne_true]
  rfl

/-- In a still world, the walk along superclasses stops at an ancestor. -/
theorem verifiedSuperclass_of_still (h : s.world.Still) (ho : s.world.isClass o)
    (hrun : verifiedSuperclass fuel o s = (.ok (some p), t)) : t = s ∧ s.world.Above p o := by
  induction fuel generalizing o with
  | zero => cases hrun
  | succ fuel ih =>
    cases hq : s.world.superclass? o with
    | none =>
      rw [verifiedSuperclass_of_superclass?_eq_none hq] at hrun
      cases hrun
    | some q =>
      have hmem := World.mem_basesOf_of_superclass? hq
      cases hname : s.world.trueName? q with
      | none =>
        rw [verifiedSuperclass_of_nameless h hq hname] at hrun
        obtain ⟨rfl, habove⟩ := ih (World.isClass_superclass ho hq).1 hrun
        exact ⟨rfl, habove.tail hmem⟩
      | some x =>
        rw [verifiedSuperclass_of_named h ho hq hname] at hrun
        cases hrun
        exact ⟨rfl, .single hmem⟩

/-- In a still world, the superclass that a class names is borne by an ancestor. -/
theorem superclassName_of_still (h : s.world.Still) (ho : s.world.isClass o)
    (hrun : superclassName c o s = (.ok (some x), t)) :
    ∃ p, s.world.trueName? p = some x ∧ s.world.Above p o := by
  simp only [superclassName] at hrun
  rw [run_get_bind] at hrun
  obtain ⟨p, u, hp, hrest⟩ := run_bind_eq_ok_iff.mp hrun
  cases p with
  | none => cases hrest
  | some p =>
    obtain ⟨rfl, habove⟩ := verifiedSuperclass_of_still h ho hp
    dsimp only at hrest
    split at hrest
    · cases hrest
    · rw [run_bind_ok (nameOf_of_still h p)] at hrest
      split at hrest
      · cases hrest
      · rw [run_bind_ok (nameOf_of_still h p)] at hrest
        obtain ⟨heq, -⟩ := Prod.mk.inj hrest
        exact ⟨p, eq_some_of_nonempty (Except.ok.inj heq), habove⟩

/-- In a still world, a scope that names a superclass is made of a class, and an ancestor bears that
name. -/
theorem judgeScope_of_still (h : s.world.Still) {k : ScopeKind} {x : String}
    (hrun : judgeScope c o s = (.ok (.scope k), t)) (hk : k.superclass? = some x) :
    s.world.isClass o ∧ ∃ p, s.world.trueName? p = some x ∧ s.world.Above p o := by
  simp only [judgeScope] at hrun
  rw [run_get_bind] at hrun
  split at hrun
  · next hclass =>
    obtain ⟨superclass, u, hsuper, hrest⟩ := run_bind_eq_ok_iff.mp hrun
    cases hrest
    obtain rfl : superclass = some x := hk
    exact ⟨hclass, superclassName_of_still h hclass hsuper⟩
  · cases hrun
    cases hk

/-! ### Scopes and aliases -/

theorem classify_of_still (h : s.world.Still) (name : String) (o : Object) :
    classify name o s = (.ok (if s.world.isNamespace o then
      if s.world.trueName? o = some name then .scope else .alias else .value), s) := by
  simp only [classify]
  rw [run_get_bind]
  cases hnamespace : s.world.isNamespace o with
  | false => rfl
  | true =>
    rw [Bool.not_true, if_neg Bool.false_ne_true, run_bind_ok (nameOf_of_still h o), if_pos rfl]
    by_cases hname : s.world.trueName? o = some name
    · rw [if_pos hname, if_pos (beq_iff_eq.mpr hname)]
      rfl
    · rw [if_neg hname, if_neg fun heq ↦ hname (beq_iff_eq.mp heq)]
      rfl

theorem anonymousText_of_still (h : s.world.Still) {text : String}
    (hrun : anonymousText name o s = (.ok text, t)) : IsAnonymousText text := by
  simp only [anonymousText] at hrun
  rw [run_get_bind] at hrun
  split at hrun
  · cases hrun
    exact .inl ⟨_, rfl⟩
  · rw [run_bind_ok (nameOf_of_still h _)] at hrun
    cases hrun
    refine .inr ⟨(nonempty (s.world.trueName? (s.world.classObject o))).getD "type",
      ownName s.world name o, ?_⟩
    rfl

theorem judgeAlias_of_still (h : s.world.Still) {target : String} {shown : Bool}
    (hrun : judgeAlias c name o s = (.ok (.alias target shown), t)) :
    s.world.trueName? o = some target ∨
      (s.world.trueName? o = none ∧ IsAnonymousText target) := by
  simp only [judgeAlias] at hrun
  split at hrun
  · cases hrun
  · rw [run_bind_ok (nameOf_of_still h o)] at hrun
    cases hname : s.world.trueName? o with
    | some x =>
      rw [nonempty_trueName?, hname] at hrun
      cases hrun
      exact .inl rfl
    | none =>
      rw [nonempty_trueName?, hname] at hrun
      obtain ⟨text, u, htext, hrest⟩ := run_bind_eq_ok_iff.mp hrun
      cases hrest
      exact .inr ⟨rfl, anonymousText_of_still h htext⟩

/-- In a still world, an object of the unit becomes a scope under the name that it bears only. -/
theorem judgeConstant_scope_of_still (h : s.world.Still) {k : ScopeKind}
    (hrun : judgeConstant c name o s = (.ok (.scope k), t)) :
    s.world.trueName? o = some name ∧ judgeNamespace c name o s = (.ok (.scope k), t) := by
  obtain ⟨kind, u, hkind, hrest⟩ := run_bind_eq_ok_iff.mp hrun
  rw [classify_of_still h] at hkind
  obtain ⟨hword, rfl⟩ := Prod.mk.inj hkind
  -- no scope is made of an alias or of a value
  match kind, Except.ok.inj hword, hrest with
  | .alias, _, hrest => exact absurd rfl (judgeAlias_noScope c name o s _ t hrest k)
  | .value, _, hrest => exact (judgeValue_plain c name o s _ t hrest).elim
  | .scope, hkind, hrest =>
    split at hkind
    · split at hkind
      · next hname => exact ⟨hname, hrest⟩
      · cases hkind
    · cases hkind

/-- In a still world, a scope that names a superclass is made of a class of the unit, and an ancestor
bears that name. -/
theorem judgeNamespace_of_still (h : s.world.Still) {k : ScopeKind} {x : String}
    (hrun : judgeNamespace c name o s = (.ok (.scope k), t)) (hk : k.superclass? = some x) :
    s.world.isClass o ∧ ∃ p, s.world.trueName? p = some x ∧ s.world.Above p o := by
  simp only [judgeNamespace] at hrun
  rw [run_get_bind] at hrun
  split at hrun
  · cases hrun
  · obtain ⟨defined, u, hdefined, hrest⟩ := run_bind_eq_ok_iff.mp hrun
    -- whether the unit defines the object is a question, so the world may have gained notes
    obtain ⟨w, hw, hu⟩ := definedInUnit_learns c o c.strictMembership s
    rw [hdefined] at hu
    obtain rfl : u = s.learn w := hu
    obtain ⟨notes, rfl⟩ := hw.rest h
    split at hrest
    · obtain ⟨hclass, p, hname, habove⟩ := judgeScope_of_still (h.withNotes notes) hrest hk
      exact ⟨hclass, p, by rwa [← World.trueName?_withNotes s.world notes],
        (World.above_withNotes s.world notes).mp habove⟩
    · cases hrest

theorem judgeForeign_of_still (h : s.world.Still) {k : ScopeKind} {x : String}
    (hrun : judgeForeign c o s = (.ok (.scope k), t)) (hk : k.superclass? = some x) :
    s.world.isClass o ∧ ∃ p, s.world.trueName? p = some x ∧ s.world.Above p o := by
  simp only [judgeForeign] at hrun
  rw [run_get_bind] at hrun
  split at hrun
  · cases hrun
  · exact judgeScope_of_still h hrun hk

/-- In a still world, an alias is made of a module or class under another name than it bears. Its
target is the name that it bears, or a text that stands for a module or class without one. -/
theorem judgeConstant_alias_of_still (h : s.world.Still) {target : String} {shown : Bool}
    (hrun : judgeConstant c name o s = (.ok (.alias target shown), t)) :
    s.world.isNamespace o ∧ s.world.trueName? o ≠ some name ∧
      (s.world.trueName? o = some target ∨
        (s.world.trueName? o = none ∧ IsAnonymousText target)) := by
  obtain ⟨kind, u, hkind, hrest⟩ := run_bind_eq_ok_iff.mp hrun
  rw [classify_of_still h] at hkind
  obtain ⟨hword, rfl⟩ := Prod.mk.inj hkind
  match kind, Except.ok.inj hword, hrest with
  | .scope, _, hrest => exact absurd rfl (judgeNamespace_noAlias c name o s _ t hrest target shown)
  | .value, _, hrest => exact (judgeValue_plain c name o s _ t hrest).elim
  | .alias, hkind, hrest =>
    split at hkind
    · next hnamespace =>
      split at hkind
      · cases hkind
      · next hname => exact ⟨hnamespace, hname, judgeAlias_of_still h hrest⟩
    · cases hkind

end Run

end Closure

end DeclClosure

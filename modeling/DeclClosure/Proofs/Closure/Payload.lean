import DeclClosure.Proofs.Closure.Dispatches
import DeclClosure.Proofs.World.Standard

/-!
# The standard environment stops the walk

Names of the standard environment are stopped at two places: a symbol is not looked up, unless it is
asked for, and of an object that was found under such a name no constant is made
(`Run.judge_not_inPayload`).

What is found below a scope of the unit and what lies outside of it never was a symbol. These are the
only ways in which a name of the standard environment that is not asked for comes to be dealt with
(`slipsIn_of_takesUp?`): no superclass, mixin, metaclass, type parameter or annotation, and no seed,
leads there.

Before they compare, both places take off one root qualifier more than the name is dealt with under.
For a name without a root qualifier this makes no difference, but for other names it does.
-/

namespace DeclClosure

/-- A name is asked for with the root qualifier iff it is stored as it is. -/
theorem SymbolSet.contains_rootQualifier_append (set : SymbolSet) (name : String) :
    set.contains (Name.rootQualifier ++ name) = set.names.contains name := by
  rw [contains, Name.stripRoot_rootQualifier_append]

namespace Closure

variable {c : Setting} {s t : State} {k n : Nat} {x : String} {o : Object} {kind : NodeKind}

/-! ### Constants -/

/-- The verdict makes no constant. -/
def Verdict.MakesNoConst (v : Verdict) : Prop :=
  ∀ value ascription, v.stem? ≠ some (.const value ascription)

namespace Run

theorem judgeScope_noConst (c : Setting) (o : Object) :
    Yields Verdict.MakesNoConst (judgeScope c o) := by
  refine Yields.bind fun s ↦ ?_
  split
  · exact Yields.bind fun _ ↦ Yields.pure fun _ _ h ↦ by cases h
  · exact Yields.pure fun _ _ h ↦ by cases h

theorem judgeNamespace_noConst (c : Setting) (name : String) (o : Object) :
    Yields Verdict.MakesNoConst (judgeNamespace c name o) := by
  refine Yields.bind fun s ↦ ?_
  split
  · exact Yields.pure fun _ _ h ↦ by cases h
  · refine Yields.bind fun defined ↦ ?_
    split
    · exact judgeScope_noConst c o
    · exact Yields.bind fun _ ↦ Yields.pure fun _ _ h ↦ by cases h

theorem judgeForeign_noConst (c : Setting) (o : Object) :
    Yields Verdict.MakesNoConst (judgeForeign c o) := by
  refine Yields.bind fun s ↦ ?_
  split
  · exact Yields.pure fun _ _ h ↦ by cases h
  · exact judgeScope_noConst c o

/-- No constant is made under a name of the standard environment. -/
theorem judgeConstant_noConst (h : c.inPayload x) (o : Object) :
    Yields Verdict.MakesNoConst (judgeConstant c x o) := by
  refine Yields.bind fun kind ↦ ?_
  split
  · simp only [judgeAlias]
    rw [if_pos h]
    exact Yields.pure fun _ _ h ↦ by cases h
  · exact judgeNamespace_noConst c x o
  · rw [judgeValue, if_pos h]
    exact Yields.pure fun _ _ h ↦ by cases h

theorem judge_not_inPayload {v : Verdict} {value ascription : Option String}
    (h : judge c kind x o s = (.ok v, t)) (hv : v.stem? = some (.const value ascription)) :
    ¬c.inPayload x := by
  intro hpayload
  have hnone : Yields Verdict.MakesNoConst (judge c kind x o) := by
    simp only [judge]
    split
    · exact judgeForeign_noConst c o
    · exact judgeConstant_noConst hpayload o
  exact hnone s v t h value ascription hv

end Run

/-- A constant that no listener has listed has no name of the standard environment. -/
theorem Originates.not_inPayload {m : Node} (h : Originates c s n m) (hscope : ¬m.isScope)
    (hlisted : ¬Listed c s n m.id) : ¬c.inPayload m.name := by
  rcases h with ⟨o, v, k, -, kind, htakes, hv, hstem, -⟩ | ⟨hlisted', -⟩
  · obtain ⟨w, hrun, -⟩ := State.exists_judge_of_verdict? htakes hv
    cases hm : m.stem with
    | const value ascription => exact Run.judge_not_inPayload hrun (hstem.trans (congrArg some hm))
    | scope sk => exact absurd (Node.isScope_of_stem hm).1 hscope
    | member => exact absurd (hstem.trans (congrArg some hm)) v.stem?_ne_member
  · exact absurd hlisted' hlisted

/-! ### Names that are dealt with -/

/-- How a name of the standard environment that was not asked for may come to be dealt with when one
more event is worked off after `k` others. -/
inductive SlipsIn (c : Setting) (s : State) (k : Nat) (x : String) : Prop
  /-- The event brings an object from outside of the unit. -/
  | foreign {y : String} {o : Object} {es : List Event} :
      (s.after c k).queue.items = .foreignConstant y o :: es → Name.stripRoot y = x → SlipsIn c s k x
  /-- The event brings an object that a listener passed on, when a scope of the unit was announced to
  it, for one of the constants of that scope. -/
  | subconstant {j : Nat} {z name : String} {v o : Object} {node : Option NodeId}
      {signature : Option Signature} {ds es : List Event} {w u : World} :
      j < k → (s.after c j).queue.items = .node z v node .scope signature :: ds →
      (s.after c j).world.Evolves w → Announcement.Opens c ⟨z, v, node, .scope, signature⟩ w name →
      Query.resolve (Name.within z name) w = (.ok (some o), u) →
      (s.after c j).Gains c (.constant (Name.within z name) o) →
      (s.after c k).queue.items = .constant (Name.within z name) o :: es →
      Name.stripRoot (Name.within z name) = x → SlipsIn c s k x

/-- A symbol that leads to an object under a name of the standard environment was asked for. -/
theorem skipsSymbol_of_inPayload (hpayload : c.payload.contains x)
    (hbootstrap : ¬c.bootstrap.contains (Name.rootQualifier ++ x)) {y : String}
    (hy : Name.stripRoot y = x) : c.skipsSymbol y := by
  rw [SymbolSet.contains_rootQualifier_append, ← hy] at hbootstrap
  have hout : c.bootstrap.contains y = false := Bool.eq_false_iff.mpr hbootstrap
  rw [Setting.skipsSymbol, Setting.inPayload, hy, hpayload, hout]
  rfl

/-- When a name of the standard environment that was not asked for is taken up, it slips in. -/
theorem slipsIn_of_takesUp? (hs : s.Seeded) (htakes : (s.after c k).takesUp? = some (kind, x, o))
    (hpayload : c.payload.contains x)
    (hbootstrap : ¬c.bootstrap.contains (Name.rootQualifier ++ x)) : SlipsIn c s k x := by
  obtain ⟨e, es, hcons, hfound, -⟩ := State.exists_cons_of_takesUp? htakes
  cases e with
  | foreignConstant y p =>
    cases hfound
    exact .foreign hcons rfl
  | constant y p =>
    cases hfound
    have hpending : .constant y o ∈ (s.after c k).queue.items := hcons ▸ List.mem_cons_self
    obtain ⟨j, hj, hgains⟩ := exists_gains hs hpending nofun
    have hbrings := hgains.brings (State.after_sound hs.blank.sound j)
    cases hbrings with
    | constant _ hskips _ => exact absurd (skipsSymbol_of_inPayload hpayload hbootstrap rfl) hskips
    | @subconstant z name v _ node kind signature ds w u hscope hw hopens hresolve _ =>
      obtain rfl : kind = .scope := hopens.kind
      exact .subconstant hj hscope hw hopens hresolve hgains hcons rfl
  | symbol | node | bare => cases hfound

/-- **The standard environment stops the walk.** For every world, all registrations and seeds, every
setting, and after any number of events:

* no constant that was not listed by a listener has a name of the standard environment, not even one
  that was asked for;
* a name of the standard environment that was not asked for was dealt with only if it slipped in, from
  outside of the unit or as one of the constants of a scope of the unit. -/
theorem payload_stops_walk (c : Setting) (w : World) (t : Trackers) (seeds : List String) (n : Nat) :
    (∀ m ∈ ((State.outset c w t seeds).after c n).tree.walk, ¬m.isScope →
      ¬Listed c (State.outset c w t seeds) n m.id →
        ¬c.payload.contains (Name.stripRoot m.name)) ∧
      ∀ x ∈ ((State.outset c w t seeds).after c n).seen, c.payload.contains x →
        ¬c.bootstrap.contains (Name.rootQualifier ++ x) →
          ∃ k < n, x ∉ ((State.outset c w t seeds).after c k).seen ∧
            x ∈ ((State.outset c w t seeds).after c (k + 1)).seen ∧
            SlipsIn c (State.outset c w t seeds) k x := by
  have hs := State.seeded_outset c w t seeds
  refine ⟨fun m hm ↦ ((everywhere_originates hs.blank n).walk m hm).not_inPayload, ?_⟩
  intro x hx hpayload hbootstrap
  rcases (mem_seen_after_iff hs.blank.sound n).mp hx with hx | ⟨k, hk, kind, o, htakes⟩
  · cases hx
  · refine ⟨k, hk, State.not_mem_seen_of_takesUp? htakes, ?_,
      slipsIn_of_takesUp? hs htakes hpayload hbootstrap⟩
    exact (mem_seen_after_iff hs.blank.sound (k + 1)).mpr
      (.inr ⟨k, Nat.lt_succ_self k, kind, o, htakes⟩)

/-- A module with a constant. -/
def limitUniverse : UniverseDeclaration where
  modules := [
    { name := "pkg", file := some "/srv/pkg.src", members := [("LIMIT", .atom (.int 3))] }]

/-- The unit is the module, and the constant belongs to the standard environment. -/
def limitSetting : Setting :=
  { Setting.plain ⟨"pkg", [⟨["srv"]⟩]⟩ with payload := .ofNames ["pkg.LIMIT"] }

set_option maxRecDepth 100000 in
/-- The constant is dealt with, since it slips in, but it is not declared. -/
theorem limit_slips_in :
    limitSetting.payload.contains "pkg.LIMIT" ∧
      ¬limitSetting.bootstrap.contains (Name.rootQualifier ++ "pkg.LIMIT") ∧
      (∃ k < 4, SlipsIn limitSetting
        (State.outset limitSetting (State.startOf limitUniverse []).world {} ["pkg"]) k "pkg.LIMIT") ∧
      ∀ m ∈ ((State.outset limitSetting (State.startOf limitUniverse []).world {} ["pkg"]).after
          limitSetting 4).tree.walk, ¬m.isScope →
        ¬Listed limitSetting
          (State.outset limitSetting (State.startOf limitUniverse []).world {} ["pkg"]) 4 m.id →
        m.name ≠ "pkg.LIMIT" := by
  have hpayload : limitSetting.payload.contains "pkg.LIMIT" := by decide +kernel
  have hbootstrap : ¬limitSetting.bootstrap.contains (Name.rootQualifier ++ "pkg.LIMIT") := by
    decide +kernel
  have hseen : "pkg.LIMIT" ∈ ((State.outset limitSetting (State.startOf limitUniverse []).world {}
      ["pkg"]).after limitSetting 4).seen := by
    decide +kernel
  obtain ⟨hconst, hslips⟩ :=
    payload_stops_walk limitSetting (State.startOf limitUniverse []).world {} ["pkg"] 4
  obtain ⟨k, hk, -, -, h⟩ := hslips "pkg.LIMIT" hseen hpayload hbootstrap
  refine ⟨hpayload, hbootstrap, ⟨k, hk, h⟩, fun m hm hscope hlisted hname ↦ ?_⟩
  have hout := hconst m hm hscope hlisted
  rw [hname] at hout
  exact hout (by decide +kernel)

/-- A generic class, whose type parameter says that it lies below many root namespaces. The module
that bears the name of the root namespace has it, and has itself under its own name. -/
def rootedUniverse : UniverseDeclaration where
  modules := [
    { name := "pkg", file := some "/srv/pkg.src", members := [("C", .reference "C")] },
    { name := "builtins", file := some "/srv/builtins.src"
      members := [("T", .reference "T"), ("builtins", .module "builtins")] }]
  objects := [
    ("T", .typeVariable .single "T" (some "builtins.builtins.builtins.builtins") .invariant),
    ("C", .class { name := "C", qualname := "C", module := some "pkg" }
      [.applied (.standard "typing.Generic") [.reference "T"]] [] .absent false)]

/-- The type parameter belongs to the standard environment under a name with two root qualifiers, and
is asked for under one with three. -/
def rootedSetting : Setting :=
  { Setting.plain ⟨"pkg", [⟨["srv"]⟩]⟩ with
    payload := .ofNames ["builtins.builtins.T"]
    bootstrap := .ofNames ["builtins.builtins.builtins.T"] }

/-- A compilation that starts from the class. -/
def rootedOutset : State :=
  .outset rootedSetting (State.startOf rootedUniverse []).world {} ["pkg.C"]

set_option maxRecDepth 100000 in
/-- No object declares a name with a root qualifier. All the same the type parameter is declared under
its name in the standard environment, which is not asked for, and which did not slip in. -/
theorem payload_passed_of_rooted :
    (State.startOf rootedUniverse []).world.Unqualified ∧
      ¬Name.startsWith Name.rootQualifier "pkg.C" ∧
      rootedSetting.payload.contains "builtins.builtins.T" ∧
      ¬rootedSetting.bootstrap.contains "builtins.builtins.T" ∧
      (∃ m ∈ (rootedOutset.after rootedSetting 6).tree.walk, ¬m.isScope ∧
        ¬Listed rootedSetting rootedOutset 6 m.id ∧ m.name = "builtins.builtins.T") ∧
      "builtins.builtins.T" ∈ (rootedOutset.after rootedSetting 6).seen ∧
      ∀ k < 6, ¬SlipsIn rootedSetting rootedOutset k "builtins.builtins.T" := by
  have hforeign : ∀ k < 6, ((rootedOutset.after rootedSetting k).queue.items.head?.map
      Event.eventClass) ≠ some .foreignConstant := by
    decide +kernel
  have hbelow : ∀ k < 6, ((rootedOutset.after rootedSetting k).queue.items.head?.map
      Event.eventClass) = some .node →
        .constant ∉ (rootedOutset.after rootedSetting (k + 1)).queue.items.map Event.eventClass := by
    decide +kernel
  have hnode : ∃ m ∈ (rootedOutset.after rootedSetting 6).tree.walk, m.id = 1 ∧ ¬m.isScope ∧
      m.name = "builtins.builtins.T" := by
    decide +kernel
  have hpending : 1 ∈ (rootedOutset.after rootedSetting 5).announcements := by decide +kernel
  refine ⟨by decide +kernel, by decide +kernel, by decide +kernel, by decide +kernel, ?_,
    by decide +kernel, fun k hk hslips ↦ ?_⟩
  · obtain ⟨m, hm, hid, hscope, hname⟩ := hnode
    refine ⟨m, hm, hscope, ?_, hname⟩
    obtain ⟨x, hx⟩ := exists_announced_of_mem hpending (by decide : 5 ≤ 6)
    rw [hid]
    exact hx.not_listed (State.blank_outset _ _ _ _)
  · cases hslips with
    | foreign hcons _ =>
      refine hforeign k hk ?_
      rw [hcons]
      rfl
    | @subconstant j z name v o node signature ds es w u hj hscope _ _ _ hgains hcons _ =>
      obtain ⟨new, hqueue, hmem⟩ := hgains
      refine hbelow j (Nat.lt_trans hj hk) (by rw [hscope]; rfl) ?_
      show .constant ∈ ((rootedOutset.after rootedSetting j).next rootedSetting).queue.items.map
        Event.eventClass
      rw [hqueue]
      exact List.mem_map.mpr ⟨_, List.mem_append_right _ hmem, rfl⟩

end Closure

end DeclClosure

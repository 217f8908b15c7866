import DeclClosure.Proofs.Closure.Denotation

/-!
# Lines of superclasses

A class may be bound anew to a class below it, which then bears the same name, so the name of a
superclass says little by itself. But a class names a superclass only by a name that still stands
for one of its ancestors, and the class itself is what its own name stands for. So along the links
from a class to the superclass that it names, the classes get older, and no line of superclasses
comes back to where it was (`superclass_links_acyclic`).
-/

namespace DeclClosure

/-- Both nodes are in the tree, and the first one names the second one as its superclass. -/
def Tree.Follows (t : Tree) (m m' : Node) : Prop :=
  m ∈ t.walk ∧ m' ∈ t.walk ∧ m.superclass? = some m'.qualifiedName

/-- The age of the class that the name of a node stands for; what stands for no class has none. -/
def Node.rankIn (w : World) (m : Node) : Nat :=
  (w.meaning? m.qualifiedName).elim 0 Object.rank

namespace Closure

variable {c : Setting} {w : World} {s : State} {n : Nat} {m : Node} {kind : NodeKind}
  {name x : String} {o p : Object}

/-- A scope that names a superclass is made of a class, and an ancestor bears that name. -/
theorem State.Faithful.above_of_scope (hs : s.Faithful w) (hw : w.Still) {k : ScopeKind}
    (htakes : s.takesUp? = some (kind, name, o)) (hv : s.verdict? c = some (.scope k))
    (hk : k.superclass? = some x) :
    w.isClass o ∧ ∃ p, w.trueName? p = some x ∧ w.Above p o := by
  obtain ⟨u, t, hu, hrun⟩ := hs.exists_judge htakes hv
  have hjudge : u.world.isClass o ∧ ∃ p, u.world.trueName? p = some x ∧ u.world.Above p o := by
    simp only [Run.judge] at hrun
    split at hrun
    · exact Run.judgeForeign_of_still (hu.still hw) hrun hk
    · obtain ⟨-, hnamespace⟩ := Run.judgeConstant_scope_of_still (hu.still hw) hrun
      exact Run.judgeNamespace_of_still (hu.still hw) hnamespace hk
  obtain ⟨notes, heq⟩ := hu.world
  obtain ⟨hclass, p, hname, habove⟩ := hjudge
  rw [heq] at hclass hname habove
  rw [World.trueName?_withNotes] at hname
  exact ⟨hclass, p, hname, (World.above_withNotes w notes).mp habove⟩

/-- A node that names a superclass bears the name of a class, and the superclass is the name of an
ancestor of that class. -/
theorem exists_above_of_superclass? (hw : w.Still) (hplain : w.Unqualified) (t : Trackers)
    (seeds : List String) (hm : m ∈ ((State.outset c w t seeds).after c n).tree.walk)
    (hx : m.superclass? = some x) :
    m.qualifiedName = m.name ∧ ∃ o p, w.trueName? o = some m.name ∧ w.trueName? p = some x ∧
      w.isClass o ∧ w.Above p o := by
  obtain ⟨k, hk, hsuper⟩ := Node.exists_stem_of_superclass? hx
  obtain ⟨hscope, -, hname⟩ := Node.isScope_of_stem hk
  have horigin := (everywhere_originates (c := c) (State.blank_outset c w t seeds) n).walk m hm
  obtain ⟨o, v, j, hj, kind, htakes, hv, hstem, -⟩ := horigin.resolve_right fun h ↦ h.2 hscope
  obtain rfl := Verdict.eq_scope_of_stem? (hk ▸ hstem)
  have hfaith := faithful_after (c := c) hw t seeds j
  obtain ⟨hclass, p, hp, habove⟩ := hfaith.above_of_scope hw htakes hv hsuper
  exact ⟨hname, o, p, hfaith.trueName?_of_scope hw hplain htakes hv, hp, hclass, habove⟩

/-- The superclass of a node is named by an older class. -/
theorem rankIn_lt_of_follows (hw : w.Still) (hplain : w.Unqualified) (t : Trackers)
    (seeds : List String) {m m' : Node}
    (h : ((State.outset c w t seeds).after c n).tree.Follows m m') :
    m'.rankIn w < m.rankIn w := by
  obtain ⟨hm, -, hx⟩ := h
  obtain ⟨hname, o, p, ho, hp, hclass, habove⟩ :=
    exists_above_of_superclass? hw hplain t seeds hm hx
  simp only [Node.rankIn]
  rw [hname, (World.trueName?_eq_some_iff.mp ho).2, (World.trueName?_eq_some_iff.mp hp).2]
  exact (habove.isClass hclass).2

/-- **Superclass links are acyclic.** Let nothing be loaded or computed in a world, and let no
object declare a name that starts with the root qualifier. Whatever a compilation started from, and
after any number of its events: if a node names a superclass, then that name stands for a proper
ancestor of the class that the name of the node stands for. So no line of nodes in which each one is
named as the superclass of the one before comes back to where it was. -/
theorem superclass_links_acyclic (c : Setting) (w : World) (t : Trackers) (seeds : List String)
    (hw : w.Still) (hplain : w.Unqualified) (n : Nat) :
    (∀ m ∈ ((State.outset c w t seeds).after c n).tree.walk, ∀ x, m.superclass? = some x →
      ∃ o p, Query.resolve m.name w = (.ok (some o), w) ∧
        Query.resolve x w = (.ok (some p), w) ∧ w.isClass o ∧ w.Above p o ∧ p ≠ o) ∧
      ∀ m, ¬Relation.TransGen ((State.outset c w t seeds).after c n).tree.Follows m m := by
  refine ⟨fun m hm x hx ↦ ?_, fun m hcycle ↦ ?_⟩
  · obtain ⟨-, o, p, ho, hp, hclass, habove⟩ := exists_above_of_superclass? hw hplain t seeds hm hx
    refine ⟨o, p, ?_, ?_, hclass, habove, fun heq ↦ ?_⟩
    · rw [Query.resolve_of_still hw, (World.trueName?_eq_some_iff.mp ho).2]
    · rw [Query.resolve_of_still hw, (World.trueName?_eq_some_iff.mp hp).2]
    · exact Nat.lt_irrefl _ (heq ▸ (habove.isClass hclass).2)
  · have hlt : Relation.TransGen (· > ·) (m.rankIn w) (m.rankIn w) :=
      Relation.TransGen.lift (p := (· > ·)) (Node.rankIn w)
        (fun _ _ h ↦ rankIn_lt_of_follows (c := c) (n := n) hw hplain t seeds h) m m hcycle
    rw [Relation.transGen_eq_self] at hlt
    exact Nat.lt_irrefl _ hlt

set_option maxRecDepth 100000 in
/-- The derived class names the class that it is derived from, and there is no way back. -/
theorem superclass_links_acyclic_of_family :
    (familyWorld.Still ∧ familyWorld.Unqualified) ∧
      ∃ m m', ((State.outset (.plain ⟨"pkg", [⟨["srv"]⟩]⟩) familyWorld {} ["pkg"]).after
          (.plain ⟨"pkg", [⟨["srv"]⟩]⟩) 11).tree.Follows m m' ∧
        (∃ o p, Query.resolve "pkg.Derived" familyWorld = (.ok (some o), familyWorld) ∧
          Query.resolve "pkg.Base" familyWorld = (.ok (some p), familyWorld) ∧
            familyWorld.isClass o ∧ familyWorld.Above p o ∧ p ≠ o) ∧
        ¬Relation.TransGen ((State.outset (.plain ⟨"pkg", [⟨["srv"]⟩]⟩) familyWorld {}
          ["pkg"]).after (.plain ⟨"pkg", [⟨["srv"]⟩]⟩) 11).tree.Follows m m := by
  have hnodes : ∃ m ∈ ((State.outset (.plain ⟨"pkg", [⟨["srv"]⟩]⟩) familyWorld {} ["pkg"]).after
      (.plain ⟨"pkg", [⟨["srv"]⟩]⟩) 11).tree.walk,
      ∃ m' ∈ ((State.outset (.plain ⟨"pkg", [⟨["srv"]⟩]⟩) familyWorld {} ["pkg"]).after
        (.plain ⟨"pkg", [⟨["srv"]⟩]⟩) 11).tree.walk, m.name = "pkg.Derived" ∧
          m.superclass? = some "pkg.Base" ∧ m'.qualifiedName = "pkg.Base" := by
    decide +kernel
  obtain ⟨m, hm, m', hm', hname, hsuper, hbase⟩ := hnodes
  obtain ⟨hlinks, hacyclic⟩ := superclass_links_acyclic (.plain ⟨"pkg", [⟨["srv"]⟩]⟩) familyWorld {}
    ["pkg"] familyWorld_still familyWorld_unqualified 11
  have hlink := hlinks m hm "pkg.Base" hsuper
  rw [hname] at hlink
  exact ⟨⟨familyWorld_still, familyWorld_unqualified⟩, m, m', ⟨hm, hm', by rw [hsuper, hbase]⟩, hlink, hacyclic m⟩

end Closure

end DeclClosure

import DeclClosure.Proofs.Closure.History

/-!
# Names in the tree

Which names the nodes of a tree bear is known from the ways in which nodes come into being: an
announced node stands under a name iff the name was taken up and not undone, and all other nodes are
members that listeners have listed (`exists_node_iff`).

The names of a tree are therefore distinct iff the listed members keep out of the way of the names
that were taken up, and of each other (`nodup_names_iff`). A field with a default shows that they
need not: it is listed as a member of its class, and it is taken up as a constant of the class as
well (`not_nodup_names_of_box`).
-/

namespace DeclClosure.Closure

open DeclClosure.Tree (mem_badges_of_mem_walk)

/-- A member that a listener has listed stands in the tree under the name. -/
def ListedAs (c : Setting) (s : State) (n : Nat) (name : String) : Prop :=
  ∃ m ∈ (s.after c n).tree.walk, Listed c s n m.id ∧ m.qualifiedName = name

section Run

variable {c : Setting} {s : State} {n : Nat} {x : String}

/-- An announced node stands under the name iff the name was taken up and not undone. -/
theorem exists_announced_node_iff (hb : s.Blank) :
    (∃ m ∈ (s.after c n).tree.walk, (∃ y, Announced c s n m.id y) ∧ m.qualifiedName = x) ↔
      TakenUp c s n x ∧ ¬Undone c s n x := by
  rw [← exists_announced_stands_iff hb]
  constructor
  · rintro ⟨m, hm, ⟨y, hy⟩, rfl⟩
    have hbadge := mem_badges_of_mem_walk hm
    obtain rfl : m.qualifiedName = y := (ledger hb n).badge _ hbadge y hy
    exact ⟨m.id, hy, List.mem_map_of_mem hbadge⟩
  · rintro ⟨id, hann, hstands⟩
    obtain ⟨b, hbadge, rfl⟩ := List.mem_map.mp hstands
    obtain ⟨m, hm, rfl⟩ := Tree.mem_badges_iff.mp hbadge
    exact ⟨m, hm, ⟨x, hann⟩, (ledger hb n).badge _ hbadge x hann⟩

/-- The tree has a node of the name iff the name was taken up and not undone, or a listed member
bears it. -/
theorem exists_node_iff (hb : s.Blank) :
    (∃ m ∈ (s.after c n).tree.walk, m.qualifiedName = x) ↔
      (TakenUp c s n x ∧ ¬Undone c s n x) ∨ ListedAs c s n x := by
  rw [← exists_announced_node_iff hb]
  constructor
  · rintro ⟨m, hm, hname⟩
    rcases (ledger hb n).origin _ (mem_badges_of_mem_walk hm) with hann | hlisted
    · exact .inl ⟨m, hm, hann, hname⟩
    · exact .inr ⟨m, hm, hlisted, hname⟩
  · rintro (⟨m, hm, -, hname⟩ | ⟨m, hm, -, hname⟩) <;> exact ⟨m, hm, hname⟩

end Run

/-- **The names of a tree are distinct exactly if listed members keep out of the way.** At every
moment of a compilation, whatever it started from, no two nodes of the tree bear the same name iff
each listed member that stands there bears a name which was not taken up, or has been undone since,
and no two listed members bear the same name. -/
theorem nodup_names_iff (c : Setting) (w : World) (t : Trackers) (seeds : List String) (n : Nat) :
    ((((State.start w t seeds).begun c).after c n).tree.walk.map Node.qualifiedName).Nodup ↔
      (∀ x, ListedAs c ((State.start w t seeds).begun c) n x →
        TakenUp c ((State.start w t seeds).begun c) n x →
          Undone c ((State.start w t seeds).begun c) n x) ∧
      ∀ m ∈ (((State.start w t seeds).begun c).after c n).tree.walk,
        ∀ m' ∈ (((State.start w t seeds).begun c).after c n).tree.walk,
          Listed c ((State.start w t seeds).begun c) n m.id →
            Listed c ((State.start w t seeds).begun c) n m'.id →
              m.qualifiedName = m'.qualifiedName → m = m' := by
  have hblank : ((State.start w t seeds).begun c).Blank := (State.blank_start w t seeds).begun c
  have hs := State.after_sound (c := c) hblank.sound n
  constructor
  · intro hnodup
    have hinj := List.inj_on_of_nodup_map hnodup
    refine ⟨fun x ⟨m, hm, hlisted, hname⟩ htaken ↦ ?_, fun m hm m' hm' _ _ heq ↦ hinj hm hm' heq⟩
    by_contra hundone
    obtain ⟨m', hm', ⟨y, hann⟩, hname'⟩ := (exists_announced_node_iff hblank).mpr ⟨htaken, hundone⟩
    -- the listed member and the announced node bear one name, but no node is both
    obtain rfl := hinj hm hm' (hname.trans hname'.symm)
    exact hann.not_listed hblank hlisted
  · rintro ⟨hkept, hdistinct⟩
    have hapart : ∀ m ∈ (((State.start w t seeds).begun c).after c n).tree.walk,
        ∀ m' ∈ (((State.start w t seeds).begun c).after c n).tree.walk,
          Listed c ((State.start w t seeds).begun c) n m.id →
            (∃ y, Announced c ((State.start w t seeds).begun c) n m'.id y) →
              m.qualifiedName ≠ m'.qualifiedName := by
      intro m hm m' hm' hlisted hann heq
      obtain ⟨htaken, hundone⟩ := (exists_announced_node_iff hblank).mp ⟨m', hm', hann, rfl⟩
      exact hundone (hkept _ ⟨m, hm, hlisted, heq⟩ htaken)
    refine List.Nodup.map_on (fun m hm m' hm' heq ↦ ?_) (Tree.Sound.nodup_walk hs).of_map
    rcases (ledger hblank n).origin _ (mem_badges_of_mem_walk hm) with hann | hlisted
    · rcases (ledger hblank n).origin _ (mem_badges_of_mem_walk hm') with hann' | hlisted'
      · obtain ⟨x, hx⟩ := hann
        obtain ⟨y, hy⟩ := hann'
        exact (ledger hblank n).eq_of_announced hs hm hm' hx hy heq
      · exact absurd heq.symm (hapart m' hm' m hm hlisted' hann)
    · rcases (ledger hblank n).origin _ (mem_badges_of_mem_walk hm') with hann' | hlisted'
      · exact absurd heq (hapart m hm m' hm' hlisted hann')
      · exact hdistinct m hm m' hm' hlisted hlisted' heq

/-- A module `pkg` with a dataclass `Box` whose field `SIZE` has a default. -/
def boxUniverse : UniverseDeclaration where
  modules := [
    { name := "pkg", file := some "/srv/pkg.src", members := [("Box", .reference "Box")] }]
  objects := [("Box", .record { name := "Box", qualname := "Box", module := some "pkg" } []
    [{ name := "SIZE", ascription := .standard "int", default := .atom (.int 3) }] [])]

set_option maxRecDepth 100000 in
/-- The field is a member of the class and a constant of it, so the tree holds two nodes of one
name. -/
theorem not_nodup_names_of_box :
    ¬((((State.startOf boxUniverse ["pkg"]).begun (.plain ⟨"pkg", [⟨["srv"]⟩]⟩)).after
      (.plain ⟨"pkg", [⟨["srv"]⟩]⟩) 7).tree.walk.map Node.qualifiedName).Nodup := by
  decide +kernel

end DeclClosure.Closure

import DeclClosure.Proofs.Tree.Sound

/-!
# Complete indexes

The index of a sound tree leads to scopes of the walk. It is complete if it has no name twice and
every scope of the walk is in it under its own name; then index and walk say the same about scopes
(`Indexed.mem_index_iff`). Dressing keeps an index complete, and so do members that are listed below
scopes, the removal of nodes without children, and the addition of scopes whose names are free.
-/

namespace DeclClosure.Tree

/-- The index has every scope of the walk under its name, and no name twice. -/
structure Indexed (t : Tree) : Prop where
  /-- No name occurs twice. -/
  nodup : (t.index.map Prod.fst).Nodup
  /-- The scopes of the walk are in the index. -/
  scope : ∀ b ∈ t.badges, b.isScope → t.scope? b.name = some b.id

namespace Indexed

variable {t t' : Tree} {next : NodeId} {n m : Node} {name : String} {id : NodeId}

theorem empty : ({} : Tree).Indexed :=
  ⟨List.nodup_nil, nofun⟩

/-- The entries of a complete index are the scopes of the walk. -/
theorem mem_index_iff (h : t.Indexed) (hs : t.Sound next) :
    (name, id) ∈ t.index ↔ ∃ m ∈ t.walk, m.isScope ∧ m.name = name ∧ m.id = id := by
  constructor
  · intro hmem
    obtain ⟨b, hb, hid, hname, hscope⟩ := hs.index name id (Table.lookup_of_mem h.nodup hmem)
    obtain ⟨m, hm, rfl⟩ := mem_badges_iff.mp hb
    exact ⟨m, hm, hscope, hname, hid⟩
  · rintro ⟨m, hm, hscope, rfl, rfl⟩
    exact Table.mem_of_lookup (h.scope m.badge (mem_badges_of_mem_walk hm) hscope)

theorem modify (h : t.Indexed) {f : Node → Node} (hf : Node.Dresses f) (id : NodeId) :
    (t.modify id f).Indexed := by
  refine ⟨h.nodup, fun b hb hscope ↦ ?_⟩
  rw [badges_modify hf] at hb
  exact h.scope b hb hscope

/-- What is listed below a scope is no scope itself. -/
theorem addUnder (h : t.Indexed) (hs : t.Sound next) {owner : NodeId}
    (hm : t.node? owner = some m) (hscope : m.isScope) (hn : ¬n.isScope) (hc : n.children = []) :
    (t.addUnder owner n).Indexed := by
  refine ⟨h.nodup, fun b hb hb' ↦ ?_⟩
  rcases (hs.mem_badges_addUnder hm hscope n).2 hb with hb | hb
  · rw [Node.badges_of_children_eq_nil hc] at hb
    obtain rfl := List.mem_singleton.mp hb
    exact absurd hb' hn
  · exact h.scope b hb hb'

theorem nodup_enter (h : (t.index.map Prod.fst).Nodup) (n : Node) :
    ((t.enter n).index.map Prod.fst).Nodup := by
  simp only [enter]
  split
  · next henter =>
    have hfree := Option.isNone_iff_eq_none.mp (Bool.and_eq_true_iff.mp henter).2
    rw [List.map_append]
    refine List.nodup_append.mpr ⟨h, List.nodup_singleton _, ?_⟩
    rintro _ hx _ hy rfl
    obtain rfl : _ = n.name := List.mem_singleton.mp hy
    exact Table.not_mem_of_lookup_eq_none hfree hx
  · exact h

/-- A scope that joins the walk gets its name, if that is free. -/
theorem add (h : t.Indexed) (hs : t.Sound next) (hc : n.children = [])
    (hfree : n.isScope → t.scope? n.name = none) : (t.add n).Indexed := by
  refine ⟨?_, fun b hb hscope ↦ ?_⟩
  · simp only [Tree.add]
    refine nodup_enter ?_ n
    split <;> exact h.nodup
  · rw [scope?_add]
    rcases List.mem_cons.mp ((hs.badges_add hc).1.mem_iff.mp hb) with rfl | hb
    · have hscope : n.isScope := hscope
      show (t.scope? n.name).or (if n.isScope ∧ n.name = n.name then some n.id else none) = some n.id
      rw [hfree hscope, if_pos ⟨hscope, rfl⟩]
      rfl
    · rw [h.scope b hb hscope]
      rfl

theorem nodup_leave (h : (t.index.map Prod.fst).Nodup) (n : Node) :
    ((t.leave n).index.map Prod.fst).Nodup := by
  simp only [leave]
  split
  · exact h.sublist (List.filter_sublist.map Prod.fst)
  · exact h

/-- A node without children that leaves the walk gives up its own name and no other. -/
theorem remove (h : t.Indexed) (hs : t.Sound next) (hm : t.node? id = some m)
    (hc : m.children = []) : (t.remove id).2.Indexed := by
  obtain ⟨rfl, hm | hm⟩ := mem_walk_of_node? hm
  · have hr := (hs.removed hm).2
    refine ⟨?_, fun b hb hscope ↦ ?_⟩
    · obtain ⟨roots, -, hremove⟩ := hs.remove_eq hm
      rw [hremove]
      have hroots : (({ t with roots } : Tree).index.map Prod.fst).Nodup := h.nodup
      exact nodup_leave hroots m
    · have hwalk := hr.badges hs.toApart
      rw [Node.badges_of_children_eq_nil hc] at hwalk
      have hold : b ∈ t.badges := hwalk.mem_iff.mpr (List.mem_cons_of_mem _ hb)
      refine (hr.scope?_eq_some_iff hs hm).mpr ⟨h.scope b hold hscope, fun hid ↦ ?_⟩
      -- the walk that is left has the identity of the node no more
      have hnd := (hwalk.map Badge.id).nodup_iff.mp (List.nodup_append.mp hs.nodup_ids).1
      exact (List.nodup_cons.mp hnd).1 (List.mem_map.mpr ⟨b, hb, hid⟩)
  · rwa [remove_of_not_mem (hs.not_mem_badges hm)]

end Indexed

end DeclClosure.Tree

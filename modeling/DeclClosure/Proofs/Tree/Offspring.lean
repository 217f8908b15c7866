import DeclClosure.Proofs.Tree.Sound

/-!
# Offspring

The tree leads to a scope by its identity, wherever the scope stands. If a new node is put below the
scope, the identity leads to the scope with the node as its last child, and nothing else about the scope
has changed (`Tree.Sound.node?_addUnder`).
-/

namespace DeclClosure

namespace Node

variable {f : Node → Node} {m : Node}

mutual

theorem mem_preorder_modify :
    ∀ n : Node, (n.preorder.map Node.id).Nodup → m ∈ n.preorder → f m ∈ (n.modify m.id f).preorder
  | leaf h d, _, hm => by
    obtain rfl := List.mem_singleton.mp hm
    have hself : (leaf h d).modify (leaf h d).id f = f (leaf h d) := if_pos rfl
    rw [hself]
    exact mem_preorder_self _
  | scope h s cs, hnd, hm => by
    obtain ⟨hh, hcs⟩ := List.nodup_cons.mp hnd
    rcases List.mem_cons.mp hm with rfl | hm
    · -- the node itself: its identity does not occur below it
      have hself : (scope h s cs).modify (scope h s cs).id f = f (scope h s cs) := by
        rw [modify_scope, modifyAll_eq_self cs hh]
        exact if_pos rfl
      rw [hself]
      exact mem_preorder_self _
    · have hne : h.id ≠ m.id := fun he ↦ hh (List.mem_map.mpr ⟨m, hm, he.symm⟩)
      rw [modify_scope, if_neg hne]
      exact List.mem_cons_of_mem _ (mem_preorderAll_modifyAll cs hcs hm)

/-- Where identities are distinct, what becomes of a node that is changed stands among the others. -/
theorem mem_preorderAll_modifyAll :
    ∀ ns : List Node, ((preorderAll ns).map Node.id).Nodup → m ∈ preorderAll ns →
      f m ∈ preorderAll (modifyAll m.id f ns)
  | [], _, hm => nomatch hm
  | n :: ns, hnd, hm => by
    rw [preorderAll_cons, List.map_append] at hnd
    obtain ⟨hn, hns, -⟩ := List.nodup_append.mp hnd
    rcases List.mem_append.mp hm with hm | hm
    · exact List.mem_append_left _ (mem_preorder_modify n hn hm)
    · exact List.mem_append_right _ (mem_preorderAll_modifyAll ns hns hm)

end

end Node

namespace Tree

open Node (preorderAll)

variable {t : Tree} {next owner : NodeId} {m n : Node}

/-- An identity outside of the tree leads to the node that bears it. -/
theorem Apart.node?_of_mem_detached (h : t.Apart) (hm : m ∈ preorderAll t.detached) :
    t.node? m.id = some m := by
  obtain ⟨k, hk⟩ := exists_node? (List.mem_append_right t.badges (Node.mem_badges_of_mem hm))
  obtain ⟨hid, hwalk | hdetached⟩ := mem_walk_of_node? hk
  · exact absurd hid (h.ne_detached (mem_badges_of_mem_walk hwalk) (Node.mem_badges_of_mem hm))
  · rwa [List.inj_on_of_nodup_map h.nodup_detached hdetached hm hid] at hk

/-- A new node that is put below a scope becomes its last child. -/
theorem Sound.node?_addUnder (h : t.Sound next) (hm : t.node? owner = some m) (hs : m.isScope)
    (hn : n.id = next) (hc : n.children = []) :
    (t.addUnder owner n).node? owner = some (Node.addChild n m) := by
  have hafter : (t.addUnder owner n).Apart := (h.addUnder hm hs hn hc).toApart
  have hid : (Node.addChild n m).id = m.id := Node.id_mapChildren _ m
  obtain ⟨rfl, hwalk | hdetached⟩ := mem_walk_of_node? hm
  · have hmem : Node.addChild n m ∈ (t.addUnder m.id n).walk := mem_walk_iff.mpr
      (Node.mem_preorderAll_modifyAll t.roots h.toApart.nodup_walk (mem_walk_iff.mp hwalk))
    simpa only [hid] using hafter.node?_of_mem hmem
  · have hmem : Node.addChild n m ∈ preorderAll (t.addUnder m.id n).detached :=
      Node.mem_preorderAll_modifyAll t.detached h.nodup_detached hdetached
    simpa only [hid] using hafter.node?_of_mem_detached hmem

end Tree

end DeclClosure

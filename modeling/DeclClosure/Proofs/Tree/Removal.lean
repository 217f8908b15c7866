import DeclClosure.Proofs.Tree.Sound

/-!
# Taking a subtree out

A node of the walk and all that is below it stand together in the walk. When the node is taken out,
this block is what the walk loses: the nodes before it and those after it stay, in their order and with
everything that they declare (`Tree.remove_takes_out_subtree`). Nodes are told apart by their
identities, so it makes no difference that another node declares the same. The nodes above the one that
is taken out are still themselves, but one of them has a child less; that is why the nodes that stay are
compared by what they have of their own (`Node.own`).
-/

namespace DeclClosure

namespace Node

/-- What a node has of its own: everything but the nodes below it. -/
def own : Node → Head × (Leaf ⊕ ScopeFacts)
  | leaf h d => (h, .inl d)
  | scope h f _ => (h, .inr f)

theorem isView_own : IsView own :=
  fun _ _ _ _ _ ↦ rfl

theorem own_mapChildren (f : List Node → List Node) (n : Node) : (n.mapChildren f).own = n.own := by
  cases n <;> rfl

/-- The first of some nodes with an identity stands between others, which are left when it is taken
out. -/
theorem exists_eraseFirst_eq {m : Node} {ns : List Node}
    (h : ns.find? (fun n ↦ n.id == m.id) = some m) :
    ∃ before after, ns = before ++ m :: after ∧ eraseFirst m.id ns = before ++ after := by
  obtain ⟨hid, before, after, rfl, hbefore⟩ := List.find?_eq_some_iff_append.mp h
  have hself : (m :: after).eraseP (fun n ↦ n.id == m.id) = after := List.eraseP_cons_of_pos hid
  refine ⟨before, after, rfl, ?_⟩
  rw [eraseFirst, List.eraseP_append_right _ fun n hn ↦ by simpa using hbefore n hn, hself]

/-- The walk is left without one block, the node that was pulled out and what is below it. -/
theorem PulledOut.exists_preorderAll {m : Node} {ns ms : List Node} (h : PulledOut m ns ms)
    (hnd : ((preorderAll ns).map Node.id).Nodup) : ∃ before after,
      preorderAll ns = before ++ m.preorder ++ after ∧
        Node.views own ms = (before ++ after).map own := by
  cases h with
  | root hfind =>
    obtain ⟨before, after, rfl, herase⟩ := exists_eraseFirst_eq hfind
    refine ⟨preorderAll before, preorderAll after, ?_, ?_⟩
    · rw [preorderAll_append, preorderAll_cons, List.append_assoc]
    · rw [herase, Node.views, preorderAll_append]
  | @child owner howner hfind =>
    -- the block of the owner is the owner itself and the blocks of its children
    obtain ⟨before, after, hwalk, hmod⟩ := exists_preorderAll_of_nodup isView_own
      (fun n ↦ id_mapChildren (eraseFirst m.id) n) ns hnd howner
    obtain ⟨left, right, hchildren, herase⟩ := exists_eraseFirst_eq hfind
    have hscope := isScope_of_mem_children (List.mem_of_find?_eq_some hfind)
    refine ⟨before ++ owner :: preorderAll left, preorderAll right ++ after, ?_, ?_⟩
    · rw [hwalk, preorder_eq owner, hchildren, preorderAll_append, preorderAll_cons]
      simp only [List.append_assoc, List.cons_append]
    · rw [hmod, views_singleton, own_mapChildren, children_mapChildren hscope, herase, Node.views,
        preorderAll_append]
      simp only [List.map_append, List.map_cons, List.append_assoc, List.cons_append]

end Node

namespace Tree

variable {t : Tree} {m : Node}

theorem keep_roots (t : Tree) (n : Node) : (t.keep n).roots = t.roots := by
  simp only [keep]
  split <;> rfl

/-- A node of the walk is pulled out of it, whatever is known outside of the tree. -/
theorem Distinct.pulledOut (h : t.Distinct) (hm : m ∈ t.walk) :
    (t.remove m.id).1 = true ∧ m.PulledOut t.roots (t.remove m.id).2.roots := by
  rcases h.remove_cases hm with ⟨hpulled, hremove⟩ | ⟨owner, -, hpulled, hremove⟩
  · rw [hremove, keep_roots, leave_roots]
    exact ⟨rfl, hpulled⟩
  · rw [hremove, keep_roots, leave_roots, keep_roots]
    exact ⟨rfl, hpulled⟩

/-- **Taking out takes out one subtree.** Let no node stand twice in a tree. A node is taken out exactly
if it stands in the walk, and otherwise nothing changes. The walk through the node and what is below it
is one block of the walk, and after the node has been taken out, the walk is what stood before the block
and what stood after it: the same nodes in the same order, each with everything that it has of its
own. -/
theorem remove_takes_out_subtree (t : Tree) (h : t.Distinct) (id : NodeId) :
    ((t.remove id).1 = true ↔ ∃ n ∈ t.walk, n.id = id) ∧
      ((t.remove id).1 = false → (t.remove id).2 = t) ∧
      ∀ n ∈ t.walk, n.id = id → ∃ before after, t.walk = before ++ n.preorder ++ after ∧
        (t.remove id).2.walk.map Node.own = (before ++ after).map Node.own := by
  have hout (hid : ¬∃ n ∈ t.walk, n.id = id) : t.remove id = (false, t) := by
    refine remove_of_not_mem fun hmem ↦ hid ?_
    rw [badges, Node.map_id_badges, ← walk_eq] at hmem
    exact List.mem_map.mp hmem
  refine ⟨⟨fun htrue ↦ ?_, ?_⟩, fun hfalse ↦ ?_, ?_⟩
  · by_contra hid
    rw [hout hid] at htrue
    cases htrue
  · rintro ⟨n, hn, rfl⟩
    exact (h.pulledOut hn).1
  · by_cases hid : ∃ n ∈ t.walk, n.id = id
    · obtain ⟨n, hn, rfl⟩ := hid
      rw [(h.pulledOut hn).1] at hfalse
      cases hfalse
    · rw [hout hid]
  · rintro n hn rfl
    have hnd : ((Node.preorderAll t.roots).map Node.id).Nodup := walk_eq t ▸ h
    simp only [walk_eq]
    exact (h.pulledOut hn).2.exists_preorderAll hnd

/-- A module with two classes that declare the same, and a constant after them. -/
def twinTree : Tree where
  roots := [
    .scope ⟨0, "pkg", []⟩ { kind := .module } [
      .scope ⟨1, "pkg.C", []⟩ { kind := .class none } [.leaf ⟨2, "pkg.C.K", []⟩ (.const (some "1") none)],
      .scope ⟨3, "pkg.C", []⟩ { kind := .class none } [.leaf ⟨4, "pkg.C.K", []⟩ (.const (some "1") none)],
      .leaf ⟨5, "pkg.LIMIT", []⟩ (.const (some "2") none)]]

/-- The second class is taken out with its constant, and the first one stays. -/
theorem remove_takes_out_subtree_of_twins : twinTree.Distinct ∧ (twinTree.remove 3).1 = true ∧
    (∃ n ∈ twinTree.walk, n.id = 3 ∧ ∃ before after, twinTree.walk = before ++ n.preorder ++ after ∧
      (twinTree.remove 3).2.walk.map Node.own = (before ++ after).map Node.own) ∧
    (twinTree.remove 3).2.walk.map Node.id = [0, 1, 2, 5] := by
  have hdistinct : twinTree.Distinct := by decide
  have hnode : ∃ n ∈ twinTree.walk, n.id = 3 := by decide
  obtain ⟨hiff, -, hblock⟩ := remove_takes_out_subtree twinTree hdistinct 3
  obtain ⟨n, hn, hid⟩ := hnode
  exact ⟨hdistinct, hiff.mpr ⟨n, hn, hid⟩, ⟨n, hn, hid, hblock n hn hid⟩, by decide⟩

end Tree

end DeclClosure

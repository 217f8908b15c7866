import DeclClosure.Proofs.Tree.Sound

/-!
# Broods

What stands directly below the nodes of the walk: the brood of a node is its identity with those of
its children. Dressing changes no brood. A node that is put below a scope becomes the last child of
that scope, and a node without children that is taken out is missed by the scope that held it; all
other broods stay the same.
-/

namespace DeclClosure

namespace Node

/-- The identity of a node with those of its children. -/
def brood (n : Node) : NodeId × List NodeId :=
  (n.id, n.children.map id)

theorem isView_brood : IsView brood :=
  fun _ _ _ _ h ↦ congrArg (Prod.mk _) h

theorem map_id_eraseFirst (id : NodeId) (ns : List Node) :
    (eraseFirst id ns).map Node.id = (ns.map Node.id).erase id := by
  rw [List.erase_eq_eraseP', List.eraseP_map]
  rfl

theorem brood_addChild {m : Node} (hm : m.isScope) (n : Node) :
    (addChild n m).brood = (m.id, m.children.map id ++ [n.id]) := by
  simp only [brood, addChild]
  rw [id_mapChildren, children_mapChildren hm, List.map_append]
  rfl

theorem brood_eraseFirst {m : Node} (hm : m.isScope) (id : NodeId) :
    (m.mapChildren (eraseFirst id)).brood = (m.id, (m.children.map Node.id).erase id) := by
  simp only [brood]
  rw [id_mapChildren, children_mapChildren hm, map_id_eraseFirst]

end Node

namespace Tree

/-- The broods of the walk. -/
def broods (t : Tree) : List (NodeId × List NodeId) :=
  Node.views Node.brood t.roots

variable {t t' : Tree} {n m : Node} {id : NodeId} {ds : List NodeId}

theorem mem_broods_iff :
    (id, ds) ∈ t.broods ↔ ∃ m ∈ t.walk, m.id = id ∧ m.children.map Node.id = ds := by
  refine (Node.mem_views_iff _).trans ⟨?_, ?_⟩
  · rintro ⟨m, hm, hbrood⟩
    exact ⟨m, mem_walk_iff.mpr hm, congrArg Prod.fst hbrood, congrArg Prod.snd hbrood⟩
  · rintro ⟨m, hm, rfl, rfl⟩
    exact ⟨m, mem_walk_iff.mp hm, rfl⟩

theorem mem_broods (hm : m ∈ t.walk) : (m.id, m.children.map Node.id) ∈ t.broods :=
  mem_broods_iff.mpr ⟨m, hm, rfl, rfl⟩

/-- What stands directly below a node of the walk is in the walk. -/
theorem exists_of_mem_broods {d : NodeId} (hds : (id, ds) ∈ t.broods) (hd : d ∈ ds) :
    ∃ m ∈ t.walk, m.id = d := by
  obtain ⟨p, hp, -, rfl⟩ := mem_broods_iff.mp hds
  obtain ⟨m, hm, rfl⟩ := List.mem_map.mp hd
  exact ⟨m, child_mem_walk hm hp, rfl⟩

/-- A node has one brood. -/
theorem Apart.eq_of_mem_broods (h : t.Apart) {es : List NodeId} (hd : (id, ds) ∈ t.broods)
    (he : (id, es) ∈ t.broods) : ds = es := by
  obtain ⟨m, hm, rfl, rfl⟩ := mem_broods_iff.mp hd
  obtain ⟨k, hk, hid, rfl⟩ := mem_broods_iff.mp he
  rw [h.eq_of_id_eq hm hk hid.symm]

theorem broods_modify {f : Node → Node} (hf : Node.Dresses f) (id : NodeId) :
    (t.modify id f).broods = t.broods := by
  refine Node.views_modifyAll_of_eq Node.isView_brood (fun n ↦ ?_) id t.roots
  obtain ⟨hbadge, hchildren⟩ := hf n
  have hid : (f n).id = n.id := congrArg Badge.id hbadge
  refine ⟨hid, ?_, hchildren⟩
  simp only [Node.brood]
  rw [hid, hchildren]

/-- A scope gets a node as its last child, and nothing else happens. -/
theorem Apart.mem_broods_addUnder (h : t.Apart) {owner : NodeId}
    (howner : ∀ k, t.node? owner = some k → k.isScope) (n : Node) (hd : (id, ds) ∈ t.broods) :
    (id, if owner = id then ds ++ [n.id] else ds) ∈ (t.addUnder owner n).broods := by
  obtain ⟨m, hm, rfl, rfl⟩ := mem_broods_iff.mp hd
  by_cases howns : owner = m.id
  · subst howns
    have hs := howner m (h.node?_of_mem hm)
    obtain ⟨rest, -, hmod⟩ :=
      Node.views_addChild (n := n) Node.isView_brood h.nodup_walk (mem_walk_iff.mp hm) hs
    rw [Node.brood_addChild hs] at hmod
    rw [if_pos rfl]
    exact hmod.mem_iff.mpr List.mem_cons_self
  · rw [if_neg howns]
    -- the owner is another node, in the walk, or there is none in the walk
    by_cases hwalk : owner ∈ (Node.preorderAll t.roots).map Node.id
    · obtain ⟨k, hk, rfl⟩ := List.mem_map.mp hwalk
      have hs := howner k (h.node?_of_mem (mem_walk_iff.mpr hk))
      obtain ⟨rest, hrest, hmod⟩ := Node.views_addChild (n := n) Node.isView_brood h.nodup_walk hk hs
      rcases List.mem_cons.mp (hrest.mem_iff.mp hd) with heq | hmem
      · exact absurd (congrArg Prod.fst heq).symm howns
      · exact hmod.mem_iff.mpr (List.mem_cons_of_mem _ (List.mem_append_right _ hmem))
    · have hroots : (t.addUnder owner n).roots = t.roots := Node.modifyAll_eq_self t.roots hwalk
      simp only [broods]
      rw [hroots]
      exact hd

theorem broods_enter (t : Tree) (n : Node) : (t.enter n).broods = t.broods := by
  simp only [enter]
  split <;> rfl

/-- A new node becomes the last child of its owner, and nothing else happens. -/
theorem Apart.mem_broods_add (h : t.Apart)
    (howner : ∀ owner k, t.enclosing? n.name = some owner → t.node? owner = some k → k.isScope)
    (hd : (id, ds) ∈ t.broods) :
    (id, if t.enclosing? n.name = some id then ds ++ [n.id] else ds) ∈ (t.add n).broods := by
  simp only [add]
  rw [broods_enter]
  cases henclosing : t.enclosing? n.name with
  | none =>
    rw [if_neg (Option.some_ne_none id).symm]
    show (id, ds) ∈ Node.views Node.brood (t.roots ++ [n])
    rw [Node.views_append]
    exact List.mem_append_left _ hd
  | some owner =>
    simp only [Option.some_inj]
    exact h.mem_broods_addUnder (fun k ↦ howner owner k henclosing) n hd

theorem views_brood_singleton (hc : n.children = []) : Node.views Node.brood [n] = [(n.id, [])] := by
  rw [Node.views_singleton, hc]
  simp only [Node.brood, hc]
  rfl

/-- After a node has been put below a scope, whatever is directly below a node was there before, or
it is the new one below that scope. -/
theorem Apart.of_mem_broods_addUnder (h : t.Apart) {owner d : NodeId}
    (howner : ∀ k, t.node? owner = some k → k.isScope) (hc : n.children = [])
    (hds : (id, ds) ∈ (t.addUnder owner n).broods) (hd : d ∈ ds) :
    (∃ es, (id, es) ∈ t.broods ∧ d ∈ es) ∨ owner = id ∧ d = n.id := by
  by_cases hwalk : owner ∈ (Node.preorderAll t.roots).map Node.id
  · obtain ⟨k, hk, rfl⟩ := List.mem_map.mp hwalk
    have hs := howner k (h.node?_of_mem (mem_walk_iff.mpr hk))
    obtain ⟨rest, hrest, hmod⟩ := Node.views_addChild (n := n) Node.isView_brood h.nodup_walk hk hs
    rw [Node.brood_addChild hs, views_brood_singleton hc] at hmod
    rcases List.mem_cons.mp (hmod.mem_iff.mp hds) with heq | hmem
    · cases heq
      rcases List.mem_append.mp hd with hd | hd
      · exact .inl ⟨_, mem_broods (mem_walk_iff.mpr hk), hd⟩
      · exact .inr ⟨rfl, List.mem_singleton.mp hd⟩
    · rcases List.mem_append.mp hmem with hnew | hold
      · -- nothing is below the new node
        cases List.mem_singleton.mp hnew
        cases hd
      · exact .inl ⟨ds, hrest.mem_iff.mpr (List.mem_cons_of_mem _ hold), hd⟩
  · have hroots : (t.addUnder owner n).roots = t.roots := Node.modifyAll_eq_self t.roots hwalk
    simp only [broods] at hds
    rw [hroots] at hds
    exact .inl ⟨ds, hds, hd⟩

/-- After a new node has joined the tree, whatever is directly below a node was there before, or it
is the new one below its owner. -/
theorem Apart.of_mem_broods_add (h : t.Apart) {d : NodeId}
    (howner : ∀ owner k, t.enclosing? n.name = some owner → t.node? owner = some k → k.isScope)
    (hc : n.children = []) (hds : (id, ds) ∈ (t.add n).broods) (hd : d ∈ ds) :
    (∃ es, (id, es) ∈ t.broods ∧ d ∈ es) ∨ t.enclosing? n.name = some id ∧ d = n.id := by
  simp only [add] at hds
  rw [broods_enter] at hds
  cases henclosing : t.enclosing? n.name with
  | none =>
    rw [henclosing] at hds
    have hds : (id, ds) ∈ Node.views Node.brood (t.roots ++ [n]) := hds
    rw [Node.views_append, views_brood_singleton hc] at hds
    rcases List.mem_append.mp hds with hold | hnew
    · exact .inl ⟨ds, hold, hd⟩
    · cases List.mem_singleton.mp hnew
      cases hd
  | some owner =>
    rw [henclosing] at hds
    rw [Option.some_inj]
    exact h.of_mem_broods_addUnder (fun k ↦ howner owner k henclosing) hc hds hd

/-- When a node without children is taken out, the scope that held it misses it, and nothing else
happens. -/
theorem Removed.mem_broods (hr : t.Removed m t') (h : t.Apart) (hc : m.children = [])
    (hd : (id, ds) ∈ t.broods) (hid : id ≠ m.id) :
    (id, ds) ∈ t'.broods ∨ m.id ∈ ds ∧ (id, ds.erase m.id) ∈ t'.broods := by
  have hself := views_brood_singleton hc
  have hne : (id, ds) ≠ (m.id, []) := fun heq ↦ hid (congrArg Prod.fst heq)
  rcases hr.pulled.views Node.isView_brood h.nodup_walk with hroot | ⟨owner, rest, -, hmem, hold, hnew⟩
  · rw [hself] at hroot
    exact .inl ((List.mem_cons.mp (hroot.mem_iff.mp hd)).resolve_left hne)
  · rw [hself] at hold
    have hs := Node.isScope_of_mem_children hmem
    rw [Node.brood_eraseFirst hs] at hnew
    rcases List.mem_cons.mp (hold.mem_iff.mp hd) with heq | hrest
    · cases heq
      exact .inr ⟨List.mem_map_of_mem hmem, hnew.mem_iff.mpr List.mem_cons_self⟩
    · have hrest := (List.mem_cons.mp hrest).resolve_left hne
      exact .inl (hnew.mem_iff.mpr (List.mem_cons_of_mem _ hrest))

/-- After a node has been taken out, whatever is directly below another one was there before. -/
theorem Removed.of_mem_broods (hr : t.Removed m t') (h : t.Apart) {d : NodeId}
    (hds : (id, ds) ∈ t'.broods) (hd : d ∈ ds) : ∃ es, (id, es) ∈ t.broods ∧ d ∈ es := by
  rcases hr.pulled.views Node.isView_brood h.nodup_walk with hroot | ⟨owner, rest, -, hmem, hold, hnew⟩
  · exact ⟨ds, hroot.mem_iff.mpr (List.mem_append_right _ hds), hd⟩
  · have hs := Node.isScope_of_mem_children hmem
    rw [Node.brood_eraseFirst hs] at hnew
    rcases List.mem_cons.mp (hnew.mem_iff.mp hds) with heq | hrest
    · cases heq
      exact ⟨_, hold.mem_iff.mpr List.mem_cons_self, List.mem_of_mem_erase hd⟩
    · exact ⟨ds, hold.mem_iff.mpr (List.mem_cons_of_mem _ (List.mem_append_right _ hrest)), hd⟩

end Tree

end DeclClosure

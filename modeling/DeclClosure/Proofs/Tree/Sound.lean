import DeclClosure.Proofs.Tree.Badges
import DeclClosure.Table

/-!
# Sound trees

The nodes of a tree are apart if no identity occurs twice, those of nodes that were taken out
included. Then an identity leads to one node, and the walk is easy to follow: a node that is
attached joins it below its owner or stays outside with it (`Apart.badges_addUnder_walk`,
`Apart.badges_addUnder_detached`), a node that is taken out leaves it with all that is below it
(`Apart.removed`, `Node.PulledOut.views`), and dressing changes no badge (`badges_modify`).

A tree is sound below an identity if its nodes are apart and below it, and if the index leads to
scopes of the walk that bear the name under which they are listed. The tree without nodes is sound,
and everything that a compilation does to a tree keeps it sound: nodes with new identities are
attached (`Sound.add`, `Sound.addUnder`), nodes are dressed (`Sound.modify`), and nodes without
children are taken out (`Sound.remove`).
-/

namespace DeclClosure

namespace Node

theorem mem_preorder_self (n : Node) : n ∈ n.preorder := by
  rw [preorder_eq]
  exact List.mem_cons_self

theorem mem_preorderAll_of_mem {n : Node} {ns : List Node} (h : n ∈ ns) : n ∈ preorderAll ns := by
  obtain ⟨as, bs, rfl⟩ := List.append_of_mem h
  rw [preorderAll_append]
  exact List.mem_append_right _ (List.mem_append_left _ (mem_preorder_self n))

mutual

theorem child_mem_preorder {c o : Node} (hc : c ∈ o.children) :
    ∀ n : Node, o ∈ n.preorder → c ∈ n.preorder
  | leaf h d, ho => by
    obtain rfl := List.mem_singleton.mp ho
    cases hc
  | scope h s cs, ho => by
    refine List.mem_cons_of_mem _ ?_
    rcases List.mem_cons.mp ho with rfl | ho
    · exact mem_preorderAll_of_mem hc
    · exact child_mem_preorderAll hc cs ho

/-- What a node of the walk holds is in the walk. -/
theorem child_mem_preorderAll {c o : Node} (hc : c ∈ o.children) :
    ∀ ns : List Node, o ∈ preorderAll ns → c ∈ preorderAll ns
  | [], ho => nomatch ho
  | n :: ns, ho => by
    rcases List.mem_append.mp ho with ho | ho
    · exact List.mem_append_left _ (child_mem_preorder hc n ho)
    · exact List.mem_append_right _ (child_mem_preorderAll hc ns ho)

end

mutual

theorem holder_of_mem_preorder {m : Node} :
    ∀ n : Node, m ∈ n.preorder → m = n ∨ ∃ o ∈ n.preorder, m ∈ o.children
  | leaf h d, hm => .inl (List.mem_singleton.mp hm)
  | scope h s cs, hm => by
    rcases List.mem_cons.mp hm with rfl | hm
    · exact .inl rfl
    · rcases holder_of_mem_preorderAll cs hm with hm | ⟨o, ho, hm⟩
      · exact .inr ⟨scope h s cs, List.mem_cons_self, hm⟩
      · exact .inr ⟨o, List.mem_cons_of_mem _ ho, hm⟩

/-- A node of the walk is one of the first nodes, or some node of the walk holds it. -/
theorem holder_of_mem_preorderAll {m : Node} :
    ∀ ns : List Node, m ∈ preorderAll ns → m ∈ ns ∨ ∃ o ∈ preorderAll ns, m ∈ o.children
  | [], hm => nomatch hm
  | n :: ns, hm => by
    rcases List.mem_append.mp hm with hm | hm
    · rcases holder_of_mem_preorder n hm with rfl | ⟨o, ho, hm⟩
      · exact .inl List.mem_cons_self
      · exact .inr ⟨o, List.mem_append_left _ ho, hm⟩
    · rcases holder_of_mem_preorderAll ns hm with hm | ⟨o, ho, hm⟩
      · exact .inl (List.mem_cons_of_mem _ hm)
      · exact .inr ⟨o, List.mem_append_right _ ho, hm⟩

end

@[simp]
theorem id_mapChildren (f : List Node → List Node) (n : Node) : (n.mapChildren f).id = n.id := by
  cases n <;> rfl

@[simp]
theorem badge_mapChildren (f : List Node → List Node) (n : Node) :
    (n.mapChildren f).badge = n.badge := by
  rcases n with ⟨h, _ | _ | _ | _⟩ | _ <;> rfl

theorem children_mapChildren {n : Node} (hn : n.isScope) (f : List Node → List Node) :
    (n.mapChildren f).children = f n.children := by
  cases n with
  | leaf h d => cases hn
  | scope h s cs => rfl

theorem isScope_of_mem_children {n m : Node} (h : m ∈ n.children) : n.isScope := by
  cases n with
  | leaf _ d => cases h
  | scope hd s cs => rfl

/-- In a forest whose identities are distinct, a node joins the children of a scope. -/
theorem views_addChild {β : Type} {v : Node → β} (hv : IsView v) {m n : Node} {ns : List Node}
    (hnd : ((preorderAll ns).map Node.id).Nodup) (hm : m ∈ preorderAll ns) (hs : m.isScope) :
    ∃ rest, (views v ns).Perm (v m :: rest) ∧
      (views v (modifyAll m.id (addChild n) ns)).Perm
        (v (addChild n m) :: (views v [n] ++ rest)) := by
  obtain ⟨rest, hrest, hmod⟩ := views_modifyAll_of_nodup hv
    (fun k ↦ id_mapChildren (· ++ [n]) k) ns hnd hm
  rw [views_singleton] at hrest hmod
  rw [children_mapChildren hs, views_append] at hmod
  refine ⟨views v m.children ++ rest, hrest, hmod.trans (List.Perm.cons _ ?_)⟩
  show (views v m.children ++ views v [n] ++ rest).Perm _
  rw [List.append_assoc]
  exact List.perm_append_comm_assoc ..

/-- What is left of a forest when a node is pulled out of it, from the first nodes or from the
children of another one. -/
inductive PulledOut (m : Node) (ns : List Node) : List Node → Prop
  | root : ns.find? (fun n ↦ n.id == m.id) = some m → PulledOut m ns (eraseFirst m.id ns)
  | child {owner : Node} : owner ∈ preorderAll ns →
      owner.children.find? (fun n ↦ n.id == m.id) = some m →
      PulledOut m ns (modifyAll owner.id (mapChildren (eraseFirst m.id)) ns)

/-- A node that is pulled out goes with all that is below it; if it had an owner, that has lost this
child, and all other nodes are viewed as before. -/
theorem PulledOut.views {β : Type} {v : Node → β} {m : Node} {ns ms : List Node}
    (h : PulledOut m ns ms) (hv : IsView v) (hnd : ((preorderAll ns).map Node.id).Nodup) :
    (Node.views v ns).Perm (Node.views v [m] ++ Node.views v ms) ∨
      ∃ owner rest, owner ∈ preorderAll ns ∧ m ∈ owner.children ∧
        (Node.views v ns).Perm (v owner :: (Node.views v [m] ++ rest)) ∧
          (Node.views v ms).Perm (v (owner.mapChildren (eraseFirst m.id)) :: rest) := by
  cases h with
  | root hfind => exact .inl (views_eraseP v hfind)
  | @child owner howner hfind =>
    have hmem := List.mem_of_find?_eq_some hfind
    have hscope := isScope_of_mem_children hmem
    obtain ⟨rest, hrest, hmod⟩ := views_modifyAll_of_nodup hv
      (fun n ↦ id_mapChildren (eraseFirst m.id) n) ns hnd howner
    rw [views_singleton] at hrest hmod
    rw [children_mapChildren hscope] at hmod
    refine .inr ⟨owner, Node.views v (eraseFirst m.id owner.children) ++ rest, howner, hmem, ?_,
      hmod⟩
    refine hrest.trans (List.Perm.cons _ ?_)
    rw [← List.append_assoc]
    exact (views_eraseP v hfind).append_right rest

theorem PulledOut.badges {m : Node} {ns ms : List Node} (h : PulledOut m ns ms)
    (hnd : ((preorderAll ns).map Node.id).Nodup) :
    (Node.badges ns).Perm (Node.badges [m] ++ Node.badges ms) := by
  rcases h.views isView_badge hnd with hroot | ⟨owner, rest, -, -, hrest, hmod⟩
  · exact hroot
  · rw [badge_mapChildren] at hmod
    exact hrest.trans (List.perm_middle.symm.trans (hmod.symm.append_left _))

end Node

namespace Tree

open Node (preorderAll)

/-- The badges of the walk. -/
def badges (t : Tree) : List Badge :=
  Node.badges t.roots

/-- The badges of the nodes that were taken out. -/
def detachedBadges (t : Tree) : List Badge :=
  Node.badges t.detached

/-- No identity occurs twice in the walk. -/
def Distinct (t : Tree) : Prop :=
  (t.walk.map Node.id).Nodup

instance (t : Tree) : Decidable t.Distinct :=
  inferInstanceAs (Decidable (t.walk.map Node.id).Nodup)

/-- No identity occurs twice, in the tree or outside of it. -/
structure Apart (t : Tree) : Prop where
  /-- Identities are distinct. -/
  nodup : ((t.badges ++ t.detachedBadges).map Badge.id).Nodup

/-- Identities are distinct and below `next`, and the index leads to scopes of the walk. -/
structure Sound (t : Tree) (next : NodeId) : Prop extends Apart t where
  /-- All identities are below `next`. -/
  lt : ∀ b ∈ t.badges ++ t.detachedBadges, b.id < next
  /-- The index leads to scopes of the walk by their names. -/
  index : ∀ name id, t.scope? name = some id →
    ∃ b ∈ t.badges, b.id = id ∧ b.name = name ∧ b.isScope

theorem apart_empty : ({} : Tree).Apart :=
  ⟨List.nodup_nil⟩

theorem sound_empty (next : NodeId) : ({} : Tree).Sound next :=
  ⟨apart_empty, fun _ h ↦ (nomatch h), fun _ _ h ↦ (nomatch h)⟩

variable {t : Tree} {next : NodeId} {n m : Node} {id : NodeId}

theorem mem_walk_of_node? (h : t.node? id = some m) :
    m.id = id ∧ (m ∈ t.walk ∨ m ∈ preorderAll t.detached) := by
  simp only [node?] at h
  split at h
  · next k hk =>
    cases h
    have hid := List.find?_some hk
    exact ⟨beq_iff_eq.mp hid, .inl (List.mem_of_find?_eq_some hk)⟩
  · have hid := List.find?_some h
    exact ⟨beq_iff_eq.mp hid, .inr (List.mem_of_find?_eq_some h)⟩

theorem node?_eq_none (hw : id ∉ t.badges.map Badge.id)
    (hd : id ∉ t.detachedBadges.map Badge.id) : t.node? id = none := by
  cases h : t.node? id with
  | none => rfl
  | some m =>
    obtain ⟨rfl, hm | hm⟩ := mem_walk_of_node? h
    · exact absurd (List.mem_map_of_mem (Node.mem_badges_of_mem (mem_walk_iff.mp hm))) hw
    · exact absurd (List.mem_map_of_mem (Node.mem_badges_of_mem hm)) hd

theorem mem_badges_iff {b : Badge} : b ∈ t.badges ↔ ∃ n ∈ t.walk, n.badge = b := by
  rw [walk_eq]
  exact List.mem_map

theorem mem_badges_of_mem_walk (hm : m ∈ t.walk) : m.badge ∈ t.badges :=
  mem_badges_iff.mpr ⟨m, hm, rfl⟩

theorem root_mem_walk (hm : m ∈ t.roots) : m ∈ t.walk :=
  mem_walk_iff.mpr (Node.mem_preorderAll_of_mem hm)

theorem child_mem_walk {d : Node} (hd : d ∈ m.children) (hm : m ∈ t.walk) : d ∈ t.walk :=
  mem_walk_iff.mpr (Node.child_mem_preorderAll hd t.roots (mem_walk_iff.mp hm))

theorem badges_modify {f : Node → Node} (hf : Node.Dresses f) (id : NodeId) :
    (t.modify id f).badges = t.badges :=
  Node.badges_modifyAll_of_dresses hf id t.roots

theorem detachedBadges_modify {f : Node → Node} (hf : Node.Dresses f) (id : NodeId) :
    (t.modify id f).detachedBadges = t.detachedBadges :=
  Node.badges_modifyAll_of_dresses hf id t.detached

/-- A node is known by its identity, in the tree or outside of it. -/
theorem exists_node? {b : Badge} (hb : b ∈ t.badges ++ t.detachedBadges) :
    ∃ m, t.node? b.id = some m := by
  simp only [node?]
  cases hfind : t.walk.find? fun n ↦ n.id == b.id with
  | some k => exact ⟨k, rfl⟩
  | none =>
    rcases List.mem_append.mp hb with hb | hb
    · obtain ⟨k, hk, rfl⟩ := mem_badges_iff.mp hb
      exact absurd (beq_self_eq_true k.id) (List.find?_eq_none.mp hfind k hk)
    · obtain ⟨k, hk, rfl⟩ := List.mem_map.mp hb
      cases hfind' : (preorderAll t.detached).find? fun n ↦ n.id == k.badge.id with
      | some k' => exact ⟨k', rfl⟩
      | none => exact absurd (beq_self_eq_true k.id) (List.find?_eq_none.mp hfind' k hk)

theorem mem_badges_of_node? (hm : t.node? id = some m) :
    m.badge ∈ t.badges ++ t.detachedBadges := by
  obtain ⟨-, hm | hm⟩ := mem_walk_of_node? hm
  · exact List.mem_append_left _ (Node.mem_badges_of_mem (mem_walk_iff.mp hm))
  · exact List.mem_append_right _ (Node.mem_badges_of_mem hm)

namespace Distinct

theorem eq_of_id_eq (h : t.Distinct) {k : Node} (hm : m ∈ t.walk) (hk : k ∈ t.walk)
    (he : m.id = k.id) : m = k :=
  List.inj_on_of_nodup_map h hm hk he

/-- An identity of the walk leads to the node that bears it. -/
theorem node?_of_mem (h : t.Distinct) (hm : m ∈ t.walk) : t.node? m.id = some m := by
  simp only [node?]
  cases hfind : t.walk.find? fun n ↦ n.id == m.id with
  | none => exact absurd (beq_self_eq_true m.id) (List.find?_eq_none.mp hfind m hm)
  | some k =>
    have hid := List.find?_some hfind
    exact congrArg some (h.eq_of_id_eq (List.mem_of_find?_eq_some hfind) hm (beq_iff_eq.mp hid))

/-- Among nodes of the walk, the identity of a node leads to it. -/
theorem find?_eq_some (h : t.Distinct) (hm : m ∈ t.walk) {ns : List Node}
    (hsub : ∀ n ∈ ns, n ∈ t.walk) (hany : ns.any fun n ↦ n.id == m.id) :
    ns.find? (fun n ↦ n.id == m.id) = some m := by
  obtain ⟨r, hr, hid⟩ := List.any_eq_true.mp hany
  cases hf : ns.find? fun n ↦ n.id == m.id with
  | none => exact absurd hid (List.find?_eq_none.mp hf r hr)
  | some k =>
    have hk := List.find?_some hf
    have hmem := hsub k (List.mem_of_find?_eq_some hf)
    exact congrArg some (h.eq_of_id_eq hmem hm (beq_iff_eq.mp hk))

/-- A node of the walk that is no root is held by a scope of the walk. -/
theorem exists_holder (h : t.Distinct) (hm : m ∈ t.walk)
    (hroot : ¬t.roots.any fun n ↦ n.id == m.id) : ∃ owner, t.holder? m.id = some owner ∧
      owner ∈ t.walk ∧ owner.children.find? (fun c ↦ c.id == m.id) = some m := by
  obtain ⟨o, ho, hmo⟩ : ∃ o ∈ t.walk, m ∈ o.children := by
    rw [walk_eq] at hm ⊢
    refine (Node.holder_of_mem_preorderAll t.roots hm).resolve_left fun hmem ↦ hroot ?_
    exact List.any_eq_true.mpr ⟨m, hmem, beq_self_eq_true m.id⟩
  cases hholder : t.holder? m.id with
  | none =>
    refine absurd ?_ (List.find?_eq_none.mp hholder o ho)
    exact List.any_eq_true.mpr ⟨m, hmo, beq_self_eq_true m.id⟩
  | some owner =>
    have howner : owner ∈ t.walk := List.mem_of_find?_eq_some hholder
    have hany : owner.children.any (fun c ↦ c.id == m.id) = true := by
      simp only [holder?] at hholder
      have hsome := List.find?_some hholder
      exact hsome
    exact ⟨owner, rfl, howner, h.find?_eq_some hm (fun _ hn ↦ child_mem_walk hn howner) hany⟩

end Distinct

namespace Apart

theorem nodup_ids (h : t.Apart) :
    (t.badges.map Badge.id ++ t.detachedBadges.map Badge.id).Nodup := by
  rw [← List.map_append]
  exact h.nodup

theorem nodup_walk (h : t.Apart) : ((preorderAll t.roots).map Node.id).Nodup := by
  rw [← Node.map_id_badges]
  exact (List.nodup_append.mp h.nodup_ids).1

theorem nodup_detached (h : t.Apart) : ((preorderAll t.detached).map Node.id).Nodup := by
  rw [← Node.map_id_badges]
  exact (List.nodup_append.mp h.nodup_ids).2.1

theorem ne_detached (h : t.Apart) {b c : Badge} (hb : b ∈ t.badges)
    (hc : c ∈ t.detachedBadges) : b.id ≠ c.id :=
  (List.nodup_append.mp h.nodup_ids).2.2 _ (List.mem_map_of_mem hb) _ (List.mem_map_of_mem hc)

theorem distinct (h : t.Apart) : t.Distinct := by
  rw [Distinct, walk_eq]
  exact h.nodup_walk

theorem eq_of_id_eq (h : t.Apart) {k : Node} (hm : m ∈ t.walk) (hk : k ∈ t.walk)
    (he : m.id = k.id) : m = k :=
  h.distinct.eq_of_id_eq hm hk he

theorem eq_of_badge_id_eq (h : t.Apart) {b c : Badge} (hb : b ∈ t.badges) (hc : c ∈ t.badges)
    (he : b.id = c.id) : b = c := by
  obtain ⟨m, hm, rfl⟩ := mem_badges_iff.mp hb
  obtain ⟨k, hk, rfl⟩ := mem_badges_iff.mp hc
  rw [h.eq_of_id_eq hm hk he]

/-- In the walk, an identity leads to the node that bears it. -/
theorem node?_of_mem (h : t.Apart) (hm : m ∈ t.walk) : t.node? m.id = some m :=
  h.distinct.node?_of_mem hm

theorem badge_eq (h : t.Apart) {b c : Badge} (hb : b ∈ t.badges ++ t.detachedBadges)
    (hc : c ∈ t.badges ++ t.detachedBadges) (he : b.id = c.id) : b = c :=
  List.inj_on_of_nodup_map h.nodup hb hc he

/-- Nodes stay apart if they stay the same, wherever they are. -/
theorem of_badges {t' : Tree} (h : t.Apart)
    (hperm : (t'.badges ++ t'.detachedBadges).Perm (t.badges ++ t.detachedBadges)) : t'.Apart :=
  ⟨(hperm.map Badge.id).nodup_iff.mpr h.nodup⟩

theorem of_badges_cons {t' : Tree} {b : Badge} (h : t.Apart)
    (hperm : (t'.badges ++ t'.detachedBadges).Perm (b :: (t.badges ++ t.detachedBadges)))
    (hb : b.id ∉ (t.badges ++ t.detachedBadges).map Badge.id) : t'.Apart :=
  ⟨(hperm.map Badge.id).nodup_iff.mpr (List.nodup_cons.mpr ⟨hb, h.nodup⟩)⟩

theorem modify (h : t.Apart) {f : Node → Node} (hf : Node.Dresses f) (id : NodeId) :
    (t.modify id f).Apart := by
  refine h.of_badges ?_
  rw [badges_modify hf, detachedBadges_modify hf]

/-! ### Attaching -/

theorem modifyAll_detached (h : t.Apart) (hm : m ∈ t.walk) (f : Node → Node) :
    Node.modifyAll m.id f t.detached = t.detached := by
  refine Node.modifyAll_eq_self t.detached fun hmem ↦ ?_
  obtain ⟨k, hk, he⟩ := List.mem_map.mp hmem
  exact h.ne_detached (mem_badges_of_mem_walk hm) (Node.mem_badges_of_mem hk) he.symm

theorem modifyAll_roots (h : t.Apart) (hm : m ∈ preorderAll t.detached) (f : Node → Node) :
    Node.modifyAll m.id f t.roots = t.roots := by
  refine Node.modifyAll_eq_self t.roots fun hmem ↦ ?_
  obtain ⟨k, hk, he⟩ := List.mem_map.mp hmem
  exact h.ne_detached (Node.mem_badges_of_mem hk) (Node.mem_badges_of_mem hm) he

/-- Below a scope of the walk, a node joins the walk. -/
theorem badges_addUnder_walk (h : t.Apart) (hm : m ∈ t.walk) (hs : m.isScope) (n : Node) :
    (t.addUnder m.id n).badges.Perm (Node.badges [n] ++ t.badges)
      ∧ (t.addUnder m.id n).detached = t.detached := by
  refine ⟨?_, h.modifyAll_detached hm _⟩
  obtain ⟨rest, hrest, hmod⟩ :=
    Node.views_addChild (n := n) Node.isView_badge h.nodup_walk (mem_walk_iff.mp hm) hs
  rw [show (Node.addChild n m).badge = m.badge from Node.badge_mapChildren _ m] at hmod
  exact hmod.trans (List.perm_middle.symm.trans (hrest.symm.append_left _))

/-- Below a scope that was taken out, a node stays outside of the walk. -/
theorem badges_addUnder_detached (h : t.Apart) (hm : m ∈ preorderAll t.detached)
    (hs : m.isScope) (n : Node) :
    (t.addUnder m.id n).roots = t.roots
      ∧ (t.addUnder m.id n).detachedBadges.Perm (Node.badges [n] ++ t.detachedBadges) := by
  refine ⟨h.modifyAll_roots hm _, ?_⟩
  obtain ⟨rest, hrest, hmod⟩ :=
    Node.views_addChild (n := n) Node.isView_badge h.nodup_detached hm hs
  rw [show (Node.addChild n m).badge = m.badge from Node.badge_mapChildren _ m] at hmod
  exact hmod.trans (List.perm_middle.symm.trans (hrest.symm.append_left _))

/-- Wherever the scope is, the nodes are those that were there and the one put below it. -/
theorem badges_addUnder (h : t.Apart) {owner : NodeId} (hm : t.node? owner = some m)
    (hs : m.isScope) (n : Node) :
    ((t.addUnder owner n).badges ++ (t.addUnder owner n).detachedBadges).Perm
      (Node.badges [n] ++ (t.badges ++ t.detachedBadges)) := by
  obtain ⟨rfl, hm | hm⟩ := mem_walk_of_node? hm
  · obtain ⟨hw, hd⟩ := h.badges_addUnder_walk hm hs n
    simp only [detachedBadges, hd]
    rw [← List.append_assoc]
    exact hw.append_right _
  · obtain ⟨hw, hd⟩ := h.badges_addUnder_detached hm hs n
    have hwalk : (t.addUnder m.id n).badges = t.badges := congrArg Node.badges hw
    rw [hwalk]
    exact (hd.append_left _).trans (List.perm_append_comm_assoc ..)

end Apart

/-! ### The index -/

/-- A name is enclosed by a scope of the index. -/
theorem scope?_of_enclosing? {name : String} (h : t.enclosing? name = some id) :
    ∃ p, t.scope? p = some id := by
  induction hn : name.length using Nat.strongRecOn generalizing name with
  | ind k ih =>
    rw [enclosing?] at h
    split at h
    · cases h
    · next p hp =>
      split at h
      · next found hfound =>
        cases h
        exact ⟨p, hfound⟩
      · exact ih _ (hn ▸ Name.length_parent_lt hp) h rfl

@[simp]
theorem badges_enter (t : Tree) (n : Node) : (t.enter n).badges = t.badges := by
  simp only [enter]
  split <;> rfl

@[simp]
theorem detached_enter (t : Tree) (n : Node) : (t.enter n).detached = t.detached := by
  simp only [enter]
  split <;> rfl

/-- A scope gets its name in the index if nothing has it. -/
theorem scope?_enter (t : Tree) (n : Node) (name : String) : (t.enter n).scope? name =
    (t.scope? name).or (if n.isScope ∧ n.name = name then some n.id else none) := by
  simp only [enter]
  split
  · next henter =>
    obtain ⟨hscope, hfree⟩ := Bool.and_eq_true_iff.mp henter
    show (t.index ++ [(n.name, n.id)]).lookup name = _
    rw [List.lookup_append, List.lookup_cons]
    by_cases hname : n.name = name
    · rw [if_pos ⟨hscope, hname⟩, beq_iff_eq.mpr hname.symm]
      rfl
    · rw [if_neg fun h ↦ hname h.2, beq_eq_false_iff_ne.mpr (Ne.symm hname)]
      rfl
  · next henter =>
    split
    · next hs =>
      -- the name is taken, for the scope would have got it otherwise
      obtain ⟨hscope, rfl⟩ := hs
      cases hname : t.scope? n.name with
      | none =>
        rw [hname, hscope] at henter
        exact absurd rfl henter
      | some found => rfl
    · rw [Option.or_none]

/-- A node that is added gets its name in the index if it is a scope and nothing has the name. -/
theorem scope?_add (t : Tree) (n : Node) (name : String) : (t.add n).scope? name =
    (t.scope? name).or (if n.isScope ∧ n.name = name then some n.id else none) := by
  simp only [add]
  rw [scope?_enter]
  split <;> rfl

/-- Wherever its owner is, the nodes are those that were there and the one that is added. -/
theorem Apart.badges_add (h : t.Apart) (hc : n.children = [])
    (howner : ∀ owner, t.enclosing? n.name = some owner →
      ∃ k, t.node? owner = some k ∧ k.isScope) :
    ((t.add n).badges ++ (t.add n).detachedBadges).Perm
      (n.badge :: (t.badges ++ t.detachedBadges)) := by
  have hbadges : Node.badges [n] = [n.badge] := Node.badges_of_children_eq_nil hc
  simp only [add, badges_enter, detachedBadges, detached_enter]
  cases henclosing : t.enclosing? n.name with
  | none =>
    show (Node.badges (t.roots ++ [n]) ++ _).Perm _
    rw [Node.badges_append, hbadges, List.append_assoc]
    exact List.perm_middle
  | some owner =>
    obtain ⟨k, hk, hs⟩ := howner owner henclosing
    have hperm := h.badges_addUnder hk hs n
    rw [hbadges] at hperm
    exact hperm

@[simp]
theorem leave_roots (t : Tree) (n : Node) : (t.leave n).roots = t.roots := by
  simp only [leave]
  split <;> rfl

@[simp]
theorem leave_detached (t : Tree) (n : Node) : (t.leave n).detached = t.detached := by
  simp only [leave]
  split <;> rfl

@[simp]
theorem node?_leave (t : Tree) (n : Node) : (t.leave n).node? = t.node? := by
  simp only [leave]
  split <;> rfl

/-- A scope that has its name in the index gives it up. -/
theorem scope?_leave (t : Tree) (n : Node) (name : String) : (t.leave n).scope? name =
    if n.isScope ∧ n.name = name ∧ t.scope? name = some n.id then none else t.scope? name := by
  simp only [leave]
  split
  · next hleave =>
    obtain ⟨hscope, hid⟩ := Bool.and_eq_true_iff.mp hleave
    have hid := beq_iff_eq.mp hid
    by_cases hname : n.name = name
    · subst hname
      rw [if_pos ⟨hscope, rfl, hid⟩]
      exact Table.lookup_filter_self n.name t.index
    · rw [if_neg fun h ↦ hname h.2.1]
      exact Table.lookup_filter_ne (Ne.symm hname) t.index
  · next hleave =>
    rw [if_neg]
    rintro ⟨hscope, rfl, hid⟩
    exact hleave (Bool.and_eq_true_iff.mpr ⟨hscope, beq_iff_eq.mpr hid⟩)

/-- It does not matter whether a node is kept aside before it leaves the index or after that. -/
theorem leave_hold (t : Tree) (n : Node) : (t.hold n).leave n = (t.leave n).hold n := by
  simp only [leave]
  have hscope : (t.hold n).scope? n.name = t.scope? n.name := rfl
  rw [hscope]
  split <;> rfl

theorem keep_of_node?_eq_none (h : t.node? m.id = none) : t.keep m = t.hold m := by
  simp only [keep]
  rw [h]
  rfl

theorem keep_of_mem_detached (hm : m ∈ t.detached) : t.keep m = t := by
  simp only [keep]
  rw [if_neg]
  intro hnone
  simp only [node?] at hnone
  split at hnone
  · cases hnone
  · have hnot := List.find?_eq_none.mp (Option.isNone_iff_eq_none.mp hnone) m
      (Node.mem_preorderAll_of_mem hm)
    exact hnot (beq_self_eq_true m.id)

/-! ### Taking out -/

/-- Taking out a node of the walk takes it from the roots, or from the children of its owner. -/
theorem Distinct.remove_cases (h : t.Distinct) (hm : m ∈ t.walk) :
    (m.PulledOut t.roots (Node.eraseFirst m.id t.roots) ∧ t.remove m.id =
      (true, (({ t with roots := Node.eraseFirst m.id t.roots } : Tree).leave m).keep m)) ∨
    ∃ owner ∈ t.walk, m.PulledOut t.roots
        (Node.modifyAll owner.id (Node.mapChildren (Node.eraseFirst m.id)) t.roots) ∧
      t.remove m.id = (true, (((t.modify owner.id
        (Node.mapChildren (Node.eraseFirst m.id))).keep m).leave m).keep m) := by
  simp only [remove]
  rw [h.node?_of_mem hm]
  dsimp only
  split
  · next hroot =>
    exact .inl ⟨.root (h.find?_eq_some hm (fun _ hn ↦ root_mem_walk hn) hroot), rfl⟩
  · next hroot =>
    obtain ⟨owner, hholder, howner, hfind⟩ := h.exists_holder hm hroot
    have hany : owner.children.any (fun c ↦ c.id == m.id) = true :=
      List.any_eq_true.mpr ⟨m, List.mem_of_find?_eq_some hfind, beq_self_eq_true m.id⟩
    refine .inr ⟨owner, howner, .child (mem_walk_iff.mp howner) hfind, ?_⟩
    rw [hholder]
    dsimp only
    simp only [removeUnder]
    rw [h.node?_of_mem howner]
    dsimp only
    rw [if_pos hany]

namespace Apart

/-- A node that has been pulled out of the walk is known no more. -/
theorem node?_pulledOut (h : t.Apart) (hm : m ∈ t.walk) {roots : List Node}
    (hpulled : m.PulledOut t.roots roots) : ({ t with roots } : Tree).node? m.id = none := by
  have hid : m.id ∈ (Node.badges [m]).map Badge.id := by
    rw [Node.badges_singleton]
    exact List.mem_cons_self
  refine node?_eq_none (fun hmem ↦ ?_) fun hmem ↦ ?_
  · have hnd := ((hpulled.badges h.nodup_walk).map Badge.id).nodup_iff.mp
      (List.nodup_append.mp h.nodup_ids).1
    rw [List.map_append] at hnd
    exact (List.nodup_append.mp hnd).2.2 _ hid _ hmem rfl
  · obtain ⟨c, hc, he⟩ := List.mem_map.mp hmem
    exact h.ne_detached (mem_badges_of_mem_walk hm) hc he.symm

/-- A node of the walk is pulled out of it, leaves the index, and is kept aside. -/
theorem remove_eq (h : t.Apart) (hm : m ∈ t.walk) : ∃ roots, m.PulledOut t.roots roots ∧
    t.remove m.id = (true, (({ t with roots } : Tree).leave m).hold m) := by
  rcases h.distinct.remove_cases hm with ⟨hpulled, hremove⟩ | ⟨owner, howner, hpulled, hremove⟩
  · refine ⟨_, hpulled, ?_⟩
    have hnone := h.node?_pulledOut hm hpulled
    rw [hremove, keep, node?_leave, hnone]
    rfl
  · refine ⟨_, hpulled, ?_⟩
    -- the scope keeps the node aside before it leaves the index, and then it is known again
    have hmodify : t.modify owner.id (Node.mapChildren (Node.eraseFirst m.id)) =
        { t with roots :=
          Node.modifyAll owner.id (Node.mapChildren (Node.eraseFirst m.id)) t.roots } := by
      simp only [Tree.modify, h.modifyAll_detached howner]
    have hnone := h.node?_pulledOut hm hpulled
    rw [hremove, hmodify, keep_of_node?_eq_none hnone, leave_hold, keep_of_mem_detached]
    exact List.mem_append_right _ List.mem_cons_self

end Apart

/-- What does not stand in the walk cannot be taken out of it. -/
theorem remove_of_not_mem (hid : id ∉ t.badges.map Badge.id) : t.remove id = (false, t) := by
  have hnot : ∀ k ∈ t.walk, ¬(k.id == id) = true := fun k hk he ↦
    hid (beq_iff_eq.mp he ▸ List.mem_map_of_mem (mem_badges_of_mem_walk hk))
  simp only [remove]
  split
  · rfl
  · next n hn =>
    obtain ⟨rfl, -⟩ := mem_walk_of_node? hn
    have hroot : ¬(t.roots.any fun r ↦ r.id == n.id) = true := by
      intro hany
      obtain ⟨r, hr, he⟩ := List.any_eq_true.mp hany
      exact hnot r (root_mem_walk hr) he
    have hholder : t.holder? n.id = none := by
      refine List.find?_eq_none.mpr fun o ho hany ↦ ?_
      obtain ⟨c, hc, he⟩ := List.any_eq_true.mp hany
      exact hnot c (child_mem_walk hc ho) he
    rw [if_neg hroot, hholder]

/-- What is left of a tree when a node has been taken out of its walk. -/
structure Removed (t : Tree) (m : Node) (t' : Tree) : Prop where
  /-- The node was pulled out of the walk. -/
  pulled : m.PulledOut t.roots t'.roots
  /-- The node is known still, with what is below it. -/
  detached : t'.detached = t.detached ++ [m]
  /-- It has given up its name. -/
  scope? : ∀ name, t'.scope? name =
    if m.isScope ∧ m.name = name ∧ t.scope? name = some m.id then none else t.scope? name

/-- A node of the walk is taken out of it. -/
theorem Apart.removed (h : t.Apart) (hm : m ∈ t.walk) :
    (t.remove m.id).1 = true ∧ t.Removed m (t.remove m.id).2 := by
  obtain ⟨roots, hpulled, hremove⟩ := h.remove_eq hm
  rw [hremove]
  refine ⟨rfl, ?_, ?_, fun name ↦ scope?_leave _ m name⟩
  · show m.PulledOut t.roots (({ t with roots } : Tree).leave m).roots
    rwa [leave_roots]
  · show (({ t with roots } : Tree).leave m).detached ++ [m] = _
    rw [leave_detached]

/-- The walk has lost the node and all that is below it. -/
theorem Removed.badges {t' : Tree} (hr : t.Removed m t') (h : t.Apart) :
    t.badges.Perm (Node.badges [m] ++ t'.badges) :=
  hr.pulled.badges h.nodup_walk

theorem Removed.detachedBadges {t' : Tree} (hr : t.Removed m t') :
    t'.detachedBadges = t.detachedBadges ++ Node.badges [m] := by
  simp only [Tree.detachedBadges]
  rw [hr.detached, Node.badges_append]

/-- Wherever they are, the nodes are those that were there. -/
theorem Removed.badges_append {t' : Tree} (hr : t.Removed m t') (h : t.Apart) :
    (t'.badges ++ t'.detachedBadges).Perm (t.badges ++ t.detachedBadges) := by
  rw [hr.detachedBadges]
  refine List.perm_append_comm.trans ?_
  rw [List.append_assoc]
  exact ((hr.badges h).symm.append_left _).trans List.perm_append_comm

theorem Removed.apart {t' : Tree} (hr : t.Removed m t') (h : t.Apart) : t'.Apart :=
  h.of_badges (hr.badges_append h)

/-! ### Soundness -/

namespace Sound

/-- Soundness only depends on the badges and on where the index leads. -/
theorem of_badges {t' : Tree} {next' : NodeId} (h : t.Sound next)
    (hperm : (t'.badges ++ t'.detachedBadges).Perm (t.badges ++ t.detachedBadges))
    (hle : next ≤ next')
    (hindex : ∀ name id, t'.scope? name = some id →
      ∃ b ∈ t'.badges, b.id = id ∧ b.name = name ∧ b.isScope) : t'.Sound next' := by
  refine ⟨⟨?_⟩, fun b hb ↦ Nat.lt_of_lt_of_le (h.lt b (hperm.mem_iff.mp hb)) hle, hindex⟩
  exact (hperm.map Badge.id).nodup_iff.mpr h.nodup

theorem of_badges_cons {t' : Tree} {b : Badge} (h : t.Sound next)
    (hperm : (t'.badges ++ t'.detachedBadges).Perm (b :: (t.badges ++ t.detachedBadges)))
    (hb : b.id = next)
    (hindex : ∀ name id, t'.scope? name = some id →
      ∃ b ∈ t'.badges, b.id = id ∧ b.name = name ∧ b.isScope) : t'.Sound (next + 1) := by
  refine ⟨⟨?_⟩, fun c hc ↦ ?_, hindex⟩
  · refine (hperm.map Badge.id).nodup_iff.mpr (List.nodup_cons.mpr ⟨fun hmem ↦ ?_, h.nodup⟩)
    obtain ⟨c, hc, he⟩ := List.mem_map.mp hmem
    exact Nat.ne_of_lt (h.lt c hc) (he.trans hb)
  · rcases List.mem_cons.mp (hperm.mem_iff.mp hc) with rfl | hc
    · rw [hb]
      exact Nat.lt_succ_self next
    · exact Nat.lt_succ_of_lt (h.lt c hc)

theorem modify (h : t.Sound next) {f : Node → Node} (hf : Node.Dresses f) (id : NodeId) :
    (t.modify id f).Sound next := by
  refine h.of_badges ?_ (Nat.le_refl next) fun name id hid ↦ ?_
  · rw [badges_modify hf, detachedBadges_modify hf]
  · rw [badges_modify hf]
    exact h.index name id hid

theorem addUnder (h : t.Sound next) {owner : NodeId} (hm : t.node? owner = some m)
    (hs : m.isScope) (hn : n.id = next) (hc : n.children = []) :
    (t.addUnder owner n).Sound (next + 1) := by
  have hbadges : Node.badges [n] = [n.badge] := Node.badges_of_children_eq_nil hc
  obtain ⟨rfl, hm | hm⟩ := mem_walk_of_node? hm
  · -- the index leads where it led, and all it leads to is still in the walk
    obtain ⟨hw, hd⟩ := h.badges_addUnder_walk hm hs n
    rw [hbadges] at hw
    refine h.of_badges_cons (b := n.badge) ?_ hn fun name id hid ↦ ?_
    · simp only [detachedBadges, hd]
      exact hw.append_right _
    · obtain ⟨b, hb, hrest⟩ := h.index name id hid
      exact ⟨b, hw.mem_iff.mpr (List.mem_cons_of_mem _ hb), hrest⟩
  · obtain ⟨hw, hd⟩ := h.badges_addUnder_detached hm hs n
    rw [hbadges] at hd
    have hwalk : (t.addUnder m.id n).badges = t.badges := congrArg Node.badges hw
    refine h.of_badges_cons (b := n.badge) ?_ hn fun name id hid ↦ ?_
    · rw [hwalk]
      exact (hd.append_left _).trans List.perm_middle
    · rw [hwalk]
      exact h.index name id hid

/-- A node below a scope takes nothing out of the walk, and brings nothing but itself. -/
theorem mem_badges_addUnder (h : t.Sound next) {owner : NodeId} (hm : t.node? owner = some m)
    (hs : m.isScope) (n : Node) {b : Badge} :
    (b ∈ t.badges → b ∈ (t.addUnder owner n).badges) ∧
      (b ∈ (t.addUnder owner n).badges → b ∈ Node.badges [n] ∨ b ∈ t.badges) := by
  obtain ⟨rfl, hm | hm⟩ := mem_walk_of_node? hm
  · have hperm := (h.badges_addUnder_walk hm hs n).1
    rw [hperm.mem_iff, List.mem_append]
    exact ⟨.inr, id⟩
  · have hbadges : (t.addUnder m.id n).badges = t.badges :=
      congrArg Node.badges (h.badges_addUnder_detached hm hs n).1
    rw [hbadges]
    exact ⟨id, .inr⟩

end Sound

/-- The scope that a new node is put below stands in the tree. -/
theorem Sound.exists_enclosing (h : t.Sound next) {name : String}
    (howner : t.enclosing? name = some id) : ∃ m ∈ t.walk, m.id = id ∧ m.isScope := by
  obtain ⟨p, hp⟩ := scope?_of_enclosing? howner
  obtain ⟨b, hb, hid, -, hs⟩ := h.index p id hp
  obtain ⟨m, hm, rfl⟩ := mem_badges_iff.mp hb
  exact ⟨m, hm, hid, hs⟩

theorem Sound.isScope_of_enclosing? (h : t.Sound next) {name : String} {m : Node}
    (howner : t.enclosing? name = some id) (hm : t.node? id = some m) : m.isScope := by
  obtain ⟨k, hk, rfl, hs⟩ := h.exists_enclosing howner
  rw [h.toApart.node?_of_mem hk] at hm
  cases hm
  exact hs

/-- A node joins the walk, below the nearest scope of the index or among the roots. -/
theorem Sound.badges_add (h : t.Sound next) (hc : n.children = []) :
    (t.add n).badges.Perm (n.badge :: t.badges) ∧ (t.add n).detached = t.detached := by
  have hbadges : Node.badges [n] = [n.badge] := Node.badges_of_children_eq_nil hc
  simp only [add, badges_enter, detached_enter]
  split
  · next owner howner =>
    obtain ⟨m, hm, rfl, hs⟩ := h.exists_enclosing howner
    obtain ⟨hw, hd⟩ := h.badges_addUnder_walk hm hs n
    rw [hbadges] at hw
    exact ⟨hw, hd⟩
  · refine ⟨?_, rfl⟩
    show (Node.badges (t.roots ++ [n])).Perm _
    rw [Node.badges_append, hbadges]
    exact List.perm_append_singleton _ _

theorem Sound.add (h : t.Sound next) (hn : n.id = next) (hc : n.children = []) :
    (t.add n).Sound (next + 1) := by
  obtain ⟨hw, hd⟩ := h.badges_add hc
  refine h.of_badges_cons (b := n.badge) ?_ hn fun name id hid ↦ ?_
  · simp only [detachedBadges, hd]
    exact hw.append_right _
  · rw [scope?_add, Option.or_eq_some_iff] at hid
    rcases hid with hid | ⟨-, hid⟩
    · obtain ⟨b, hb, hrest⟩ := h.index name id hid
      exact ⟨b, hw.mem_iff.mpr (List.mem_cons_of_mem _ hb), hrest⟩
    · obtain ⟨⟨hs, rfl⟩, hself⟩ := Option.ite_none_right_eq_some.mp hid
      obtain rfl := Option.some.inj hself
      exact ⟨n.badge, hw.mem_iff.mpr List.mem_cons_self, rfl, rfl, hs⟩

theorem Sound.name_of_scope? (h : t.Sound next) (hm : m ∈ t.walk) (name : String)
    (hname : t.scope? name = some m.id) : name = m.name ∧ m.isScope := by
  obtain ⟨b, hb, hid, rfl, hs⟩ := h.index name m.id hname
  rw [h.eq_of_badge_id_eq hb (mem_badges_iff.mpr ⟨m, hm, rfl⟩) hid] at hs ⊢
  exact ⟨rfl, hs⟩

/-- After a node of a sound tree has been taken out, the index leads where it led, but not to the
node. -/
theorem Removed.scope?_eq_some_iff {t' : Tree} (hr : t.Removed m t') (h : t.Sound next)
    (hm : m ∈ t.walk) {name : String} :
    t'.scope? name = some id ↔ t.scope? name = some id ∧ id ≠ m.id := by
  rw [hr.scope?]
  split
  · next hleft =>
    obtain ⟨-, -, hid⟩ := hleft
    refine ⟨nofun, ?_⟩
    rintro ⟨hfound, hne⟩
    rw [hid] at hfound
    exact absurd (Option.some.inj hfound).symm hne
  · next hleft =>
    refine ⟨fun hfound ↦ ⟨hfound, ?_⟩, And.left⟩
    rintro rfl
    obtain ⟨rfl, hs⟩ := h.name_of_scope? hm name hfound
    exact hleft ⟨hs, rfl, hfound⟩

theorem Removed.sound {t' : Tree} (hr : t.Removed m t') (h : t.Sound next) (hm : m ∈ t.walk)
    (hc : m.children = []) : t'.Sound next := by
  refine h.of_badges (hr.badges_append h.toApart) (Nat.le_refl next) fun name id hid ↦ ?_
  have hw := hr.badges h.toApart
  rw [Node.badges_of_children_eq_nil hc] at hw
  obtain ⟨hold, hne⟩ := (hr.scope?_eq_some_iff h hm).mp hid
  obtain ⟨b, hb, hbid, hrest⟩ := h.index name id hold
  refine ⟨b, ?_, hbid, hrest⟩
  rcases List.mem_cons.mp (hw.mem_iff.mp hb) with rfl | hb
  · exact absurd hbid.symm hne
  · exact hb

/-- A node that was taken out before does not stand in the walk. -/
theorem Apart.not_mem_badges (h : t.Apart) (hm : m ∈ preorderAll t.detached) :
    m.id ∉ t.badges.map Badge.id := by
  intro hmem
  obtain ⟨b, hb, he⟩ := List.mem_map.mp hmem
  exact h.ne_detached hb (Node.mem_badges_of_mem hm) he

theorem Sound.remove (h : t.Sound next) (hm : t.node? id = some m) (hc : m.children = []) :
    (t.remove id).2.Sound next := by
  obtain ⟨rfl, hm | hm⟩ := mem_walk_of_node? hm
  · exact (h.removed hm).2.sound h hm hc
  · rwa [remove_of_not_mem (h.not_mem_badges hm)]

theorem Sound.nodup_walk (h : t.Sound next) : (t.walk.map Node.id).Nodup :=
  h.toApart.distinct

end Tree

end DeclClosure

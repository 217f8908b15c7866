import DeclClosure.Proofs.Tree.Placement

/-!
# Nested names

In a nested tree every node lies by name in the scope that it stands directly below
(`Badge.LiesIn`): a callable bears the name of the scope in front of its own, and the name of every
other node goes on from that of the scope, by one segment or by more. Roots bear their full names.

A tree stays nested when a node is dressed, when a node is put below a scope in which it lies, when
one is added, since the index leads to a scope whose name encloses the new one, and when a node is
taken out.
-/

namespace DeclClosure

/-- By its names the node lies in a scope: the qualified name is its own name within the scope, or it
is its own name, which the scope encloses. -/
def Badge.LiesIn (b : Badge) (scope : String) : Prop :=
  b.qualifiedName = Name.within scope b.name ∨
    b.qualifiedName = b.name ∧ Name.Encloses scope b.name

namespace Node

/-- A change that leaves badges alone leaves those of the nodes alone from which it starts. -/
theorem map_badge_modifyAll {f : Node → Node} (hf : ∀ n, (f n).badge = n.badge) (id : NodeId)
    (ns : List Node) : (modifyAll id f ns).map badge = ns.map badge := by
  induction ns with
  | nil => rfl
  | cons n ns ih =>
    have hn : (n.modify id f).badge = n.badge := by
      cases n with
      | leaf h d =>
        rw [modify_leaf]
        split
        · exact hf _
        · rfl
      | scope h s cs =>
        rw [modify_scope]
        split
        · exact hf _
        · rfl
    show (n.modify id f).badge :: (modifyAll id f ns).map badge = _
    rw [hn, ih]
    rfl

/-- When a node is pulled out, no other badges than before are among those from which the forest
starts. -/
theorem PulledOut.map_badge_subset {m : Node} {ns ms : List Node} (h : PulledOut m ns ms) :
    ms.map badge ⊆ ns.map badge := by
  cases h with
  | root hfind => exact List.map_subset badge List.eraseP_subset
  | @child owner howner hfind =>
    rw [map_badge_modifyAll fun n ↦ badge_mapChildren _ n]
    exact List.Subset.refl _

end Node

namespace Tree

/-- All nodes are named for the places where they stand. -/
structure Nested (t : Tree) : Prop where
  /-- The roots bear their full names. -/
  roots : ∀ r ∈ t.roots, r.qualifiedName = r.name
  /-- A node lies in the scope that it stands directly below. -/
  below : ∀ p ∈ t.walk, ∀ d ∈ p.children, d.badge.LiesIn p.name

namespace Nested

variable {t t' : Tree} {next : NodeId} {n m p d : Node} {id : NodeId} {es : List NodeId}

theorem empty : ({} : Tree).Nested :=
  ⟨nofun, nofun⟩

/-- Only the roots count, and what is below them. -/
theorem of_roots (hroots : t'.roots = t.roots) (h : t.Nested) : t'.Nested := by
  refine ⟨hroots ▸ h.roots, ?_⟩
  simp only [walk]
  rw [hroots]
  exact h.below

/-- Roots with badges that were there before bear full names. -/
theorem roots_of_badges (h : t.Nested)
    (hroots : t'.roots.map Node.badge ⊆ t.roots.map Node.badge) :
    ∀ r ∈ t'.roots, r.qualifiedName = r.name := by
  intro r hr
  obtain ⟨r', hr', hbadge⟩ := List.mem_map.mp (hroots (List.mem_map_of_mem hr))
  have hname := h.roots r' hr'
  rwa [show r'.qualifiedName = r.qualifiedName from congrArg Badge.qualifiedName hbadge,
    show r'.name = r.name from congrArg Badge.name hbadge] at hname

/-- What stood directly below a node lies in it for as long as both have their badges. -/
theorem liesIn_of_mem_broods (h : t.Nested) (hs : t.Sound next) (hes : (p.id, es) ∈ t.broods)
    (hd : d.id ∈ es) (hp : p.badge ∈ t.badges) (hdb : d.badge ∈ t.badges) :
    d.badge.LiesIn p.name := by
  obtain ⟨p', hp', hpid, rfl⟩ := mem_broods_iff.mp hes
  obtain ⟨d', hd', hdid⟩ := List.mem_map.mp hd
  have hpbadge : p'.badge = p.badge :=
    hs.eq_of_badge_id_eq (mem_badges_iff.mpr ⟨p', hp', rfl⟩) hp hpid
  have hdbadge : d'.badge = d.badge := hs.eq_of_badge_id_eq
    (mem_badges_iff.mpr ⟨d', child_mem_walk hd' hp', rfl⟩) hdb hdid
  have hlies := h.below p' hp' d' hd'
  rwa [hdbadge, show p'.name = p.name from congrArg Badge.name hpbadge] at hlies

theorem lt_of_mem_broods (hs : t.Sound next) (hes : (id, es) ∈ t.broods) : id < next := by
  obtain ⟨p, hp, rfl, -⟩ := mem_broods_iff.mp hes
  exact hs.lt p.badge (List.mem_append_left _ (mem_badges_of_mem_walk hp))

/-- Dressing a node moves nothing. -/
theorem modify (h : t.Nested) (hs : t.Sound next) {f : Node → Node} (hf : Node.Dresses f)
    (id : NodeId) : (t.modify id f).Nested := by
  have hroots := Node.map_badge_modifyAll (fun n ↦ (hf n).1) id t.roots
  refine ⟨h.roots_of_badges fun b hb ↦ hroots ▸ hb, fun p hp d hd ↦ ?_⟩
  have hes : (p.id, p.children.map Node.id) ∈ (t.modify id f).broods := mem_broods hp
  have hbadge : ∀ k ∈ (t.modify id f).walk, k.badge ∈ t.badges := fun k hk ↦
    badges_modify hf id ▸ mem_badges_of_mem_walk hk
  rw [broods_modify hf] at hes
  exact h.liesIn_of_mem_broods hs hes (List.mem_map_of_mem hd) (hbadge p hp)
    (hbadge d (child_mem_walk hd hp))

/-- The badge of a node of the new tree is that of the node that was put there, or was there before;
the identity tells which. -/
theorem badge_of_mem_addUnder (hs : t.Sound next) {owner : NodeId}
    (hm : t.node? owner = some m) (hscope : m.isScope) (hid : n.id = next) (hc : n.children = [])
    (hp : p ∈ (t.addUnder owner n).walk) :
    (p.badge = n.badge ∧ p.id = next) ∨ (p.badge ∈ t.badges ∧ p.id < next) := by
  rcases (hs.mem_badges_addUnder hm hscope n).2 (mem_badges_of_mem_walk hp) with hnew | hold
  · rw [Node.badges_of_children_eq_nil hc] at hnew
    have hbadge := List.mem_singleton.mp hnew
    exact .inl ⟨hbadge, (congrArg Badge.id hbadge).trans hid⟩
  · exact .inr ⟨hold, hs.lt p.badge (List.mem_append_left _ hold)⟩

/-- A new node is put below a scope in which it lies. -/
theorem addUnder (h : t.Nested) (hs : t.Sound next) {owner : NodeId}
    (hm : t.node? owner = some m) (hscope : m.isScope) (hid : n.id = next) (hc : n.children = [])
    (hlies : ∀ b ∈ t.badges, b.id = owner → n.badge.LiesIn b.name) :
    (t.addUnder owner n).Nested := by
  have hroots :=
    Node.map_badge_modifyAll (fun k ↦ Node.badge_mapChildren (· ++ [n]) k) owner t.roots
  refine ⟨h.roots_of_badges fun b hb ↦ hroots ▸ hb, fun p hp d hd ↦ ?_⟩
  have howner : ∀ k, t.node? owner = some k → k.isScope := by
    intro k hk
    rw [hm] at hk
    cases hk
    exact hscope
  have hold : ∀ k ∈ (t.addUnder owner n).walk, k.id < next → k.badge ∈ t.badges := by
    intro k hk hlt
    have hbadge := badge_of_mem_addUnder hs hm hscope hid hc hk
    exact (hbadge.resolve_left fun h ↦ Nat.ne_of_lt hlt h.2).1
  have hdwalk := child_mem_walk hd hp
  rcases hs.of_mem_broods_addUnder howner hc (mem_broods hp) (List.mem_map_of_mem hd) with
    ⟨es, hes, hmem⟩ | ⟨rfl, hdid⟩
  · obtain ⟨q, hq, hqid⟩ := exists_of_mem_broods hes hmem
    have hqlt : q.id < next := hs.lt q.badge (List.mem_append_left _ (mem_badges_of_mem_walk hq))
    exact h.liesIn_of_mem_broods hs hes hmem (hold p hp (lt_of_mem_broods hs hes))
      (hold d hdwalk (hqid ▸ hqlt))
  · have hdbadge := badge_of_mem_addUnder hs hm hscope hid hc hdwalk
    obtain ⟨hdbadge, -⟩ := hdbadge.resolve_right fun h ↦ Nat.ne_of_lt h.2 (hdid.trans hid)
    have hpid : p.id < next := by
      have hlt : m.id < next := hs.lt m.badge (mem_badges_of_node? hm)
      rwa [(mem_walk_of_node? hm).1] at hlt
    rw [hdbadge]
    exact hlies p.badge (hold p hp hpid) rfl

/-- A new node is added. The index leads to a scope by a name that encloses the new one. -/
theorem add (h : t.Nested) (hs : t.Sound next) (hid : n.id = next) (hc : n.children = [])
    (hname : n.qualifiedName = n.name) : (t.add n).Nested := by
  have hroots := t.roots_add n
  cases henclosing : t.enclosing? n.name with
  | none =>
    rw [henclosing] at hroots
    refine ⟨?_, ?_⟩
    · rw [hroots]
      refine List.forall_mem_append.mpr ⟨h.roots, fun r hr ↦ ?_⟩
      rwa [List.mem_singleton.mp hr]
    · rw [walk_eq, hroots, rootsWith, Node.preorderAll_append, Node.preorderAll_cons,
        Node.preorder_eq, hc]
      refine List.forall_mem_append.mpr ⟨forall_walk_iff.mp h.below, fun p hp d hd ↦ ?_⟩
      rw [List.mem_singleton.mp hp, hc] at hd
      cases hd
  | some owner =>
    rw [henclosing] at hroots
    obtain ⟨q, hq, rfl, hscope⟩ := hs.exists_enclosing henclosing
    rw [enclosing?_eq] at henclosing
    obtain ⟨x, hx, hindex, -⟩ := Name.nearest?_eq_some_iff.mp henclosing
    obtain ⟨rfl, -⟩ := hs.name_of_scope? hq x hindex
    refine of_roots hroots (h.addUnder hs (hs.node?_of_mem hq) hscope hid hc fun b hb hbid ↦ ?_)
    obtain rfl := hs.eq_of_badge_id_eq hb (mem_badges_iff.mpr ⟨q, hq, rfl⟩) hbid
    exact .inr ⟨hname, hx⟩

/-- A node without children is taken out. -/
theorem remove (h : t.Nested) (hs : t.Sound next) (hm : m ∈ t.walk) (hc : m.children = []) :
    (t.remove m.id).2.Nested := by
  obtain ⟨-, hr⟩ := hs.removed hm
  refine ⟨h.roots_of_badges hr.pulled.map_badge_subset, fun p hp d hd ↦ ?_⟩
  have hbadge : ∀ k ∈ (t.remove m.id).2.walk, k.badge ∈ t.badges := by
    intro k hk
    have hperm := hr.badges hs.toApart
    rw [Node.badges_of_children_eq_nil hc] at hperm
    exact hperm.mem_iff.mpr (List.mem_cons_of_mem _ (mem_badges_of_mem_walk hk))
  obtain ⟨es, hes, hmem⟩ := hr.of_mem_broods hs.toApart (mem_broods hp) (List.mem_map_of_mem hd)
  exact h.liesIn_of_mem_broods hs hes hmem (hbadge p hp)
    (hbadge d (child_mem_walk hd hp))

end Nested

end Tree

end DeclClosure

import DeclClosure.Proofs.Tree.Broods
import DeclClosure.Proofs.Tree.Enclosing

/-!
# Where added nodes go

A history lists the calls that added nodes to an empty tree and took nodes out of it. A new node
belongs below the scope that stands in the tree at that moment and has the longest name that encloses
its own, the one added earliest if there are several, or among the roots if there is none
(`History.PlacesLexically`).

The tree does not look at its nodes to find that scope, it asks its index. There a scope holds its
name from the moment it is added, if no other scope holds the name then, until it is itself taken out
(`History.holder?`, `History.Accounts.index`). So the index is wrong about a scope that has left the
tree with one above it, which holds its name still, and about one whose name was held by another
scope when it was added, for it never gets the name. These are the only ways for a node to go
astray (`History.placesLexically_iff`); a scope that was nested in a scope that was taken out adopts
nodes outside of the tree (`History.not_placesLexically_of_nested`).
-/

namespace DeclClosure

namespace Tree

open Node (preorderAll)

/-- A node with this identity stands in the walk. -/
def stands (t : Tree) (id : NodeId) : Bool :=
  t.walk.any fun n ↦ n.id == id

theorem stands_iff {t : Tree} {id : NodeId} : t.stands id ↔ id ∈ t.badges.map Badge.id := by
  refine List.any_eq_true.trans ⟨?_, fun h ↦ ?_⟩
  · rintro ⟨n, hn, hid⟩
    exact List.mem_map.mpr ⟨n.badge, mem_badges_of_mem_walk hn, beq_iff_eq.mp hid⟩
  · obtain ⟨b, hb, rfl⟩ := List.mem_map.mp h
    obtain ⟨n, hn, rfl⟩ := mem_badges_iff.mp hb
    exact ⟨n, hn, beq_self_eq_true n.id⟩

/-- The roots after a node has become the last child of its owner, or the last root. -/
def rootsWith (t : Tree) (n : Node) : Option NodeId → List Node
  | some owner => Node.modifyAll owner (Node.addChild n) t.roots
  | none => t.roots ++ [n]

theorem roots_add (t : Tree) (n : Node) : (t.add n).roots = t.rootsWith n (t.enclosing? n.name) := by
  have henter : ∀ t' : Tree, (t'.enter n).roots = t'.roots := by
    intro t'
    simp only [enter]
    split <;> rfl
  simp only [add]
  rw [henter]
  cases t.enclosing? n.name <;> rfl

/-- A node that becomes a child makes the roots no more. -/
theorem length_rootsWith_some (t : Tree) (n : Node) (owner : NodeId) :
    (t.rootsWith n (some owner)).length = t.roots.length := by
  have hids := Node.map_id_modifyAll (fun k ↦ Node.id_mapChildren (· ++ [n]) k) owner t.roots
  simpa [rootsWith, Node.addChild] using congrArg List.length hids

/-- A call that changes a tree. -/
inductive Call where
  /-- A node is added. -/
  | add (n : Node)
  /-- The node with an identity is taken out. -/
  | remove (id : NodeId)

/-- The calls that have been made on a tree that was empty, the newest one first. -/
abbrev History := List Call

namespace History

/-- The tree after the calls. -/
def tree : History → Tree
  | [] => {}
  | .add n :: h => (tree h).add n
  | .remove id :: h => ((tree h).remove id).2

/-- The nodes that have been added, in their order. -/
def added : History → List Node
  | [] => []
  | .add n :: h => added h ++ [n]
  | .remove _ :: h => added h

/-- Every node has been added once, and had nothing below it. -/
structure Fresh (h : History) : Prop where
  /-- No identity was added twice. -/
  nodup : (h.added.map Node.id).Nodup
  /-- Nodes came without children. -/
  children : ∀ n ∈ h.added, n.children = []

/-- The scope that has a name in the index: it was added when no scope held the name, and has not
been taken out by a call of its own since. -/
def holder? : History → String → Option NodeId
  | [], _ => none
  | .add n :: h, p => (holder? h p).or (if n.isScope ∧ n.name = p then some n.id else none)
  | .remove id :: h, p =>
    if holder? h p = some id ∧ (tree h).stands id then none else holder? h p

/-- The scope of a name that stands in the tree, the one added earliest if there are several. -/
def bearer? (h : History) (p : String) : Option NodeId :=
  (h.added.find? fun n ↦ n.isScope && n.name == p && h.tree.stands n.id).map Node.id

/-- The node becomes the last child of the standing scope with the longest name that encloses its
own, or the last root if there is none. -/
def PlacesLexically (h : History) (n : Node) : Prop :=
  (h.tree.add n).roots = h.tree.rootsWith n (Name.nearest? h.bearer? n.name)

/-- What is known of the tree after the calls. -/
structure Accounts (h : History) : Prop where
  /-- No identity occurs twice. -/
  apart : h.tree.Apart
  /-- The nodes are those that were added, in the tree or outside of it. -/
  nodes : (h.tree.badges ++ h.tree.detachedBadges).Perm (h.added.map Node.badge)
  /-- The index leads to those who hold the names. -/
  index : ∀ p, h.tree.scope? p = h.holder? p

variable {h : History} {n : Node} {id : NodeId} {p : String}

theorem Fresh.tail {call : Call} (hf : Fresh (call :: h)) : h.Fresh := by
  obtain ⟨hnodup, hchildren⟩ := hf
  cases call with
  | add n =>
    simp only [added, List.map_append] at hnodup hchildren
    exact ⟨(List.nodup_append.mp hnodup).1, fun m hm ↦ hchildren m (List.mem_append_left _ hm)⟩
  | remove id => exact ⟨hnodup, hchildren⟩

theorem Fresh.not_mem (hf : Fresh (.add n :: h)) : n.id ∉ h.added.map Node.id := by
  have hnodup := hf.nodup
  simp only [added, List.map_append] at hnodup
  exact fun hmem ↦ (List.nodup_append.mp hnodup).2.2 _ hmem _ List.mem_cons_self rfl

theorem Fresh.children_eq_nil (hf : Fresh (.add n :: h)) : n.children = [] :=
  hf.children n (List.mem_append_right _ List.mem_cons_self)

/-- Who holds a name was added as a scope of that name. -/
theorem mem_added_of_holder? (hp : h.holder? p = some id) :
    ∃ m ∈ h.added, m.isScope ∧ m.name = p ∧ m.id = id := by
  induction h with
  | nil => cases hp
  | cons call h ih =>
    cases call with
    | add n =>
      simp only [holder?, Option.or_eq_some_iff] at hp
      rcases hp with hp | ⟨-, hp⟩
      · obtain ⟨m, hm, hrest⟩ := ih hp
        exact ⟨m, List.mem_append_left _ hm, hrest⟩
      · obtain ⟨⟨hs, hname⟩, hid⟩ := Option.ite_none_right_eq_some.mp hp
        exact ⟨n, List.mem_append_right _ List.mem_cons_self, hs, hname, Option.some.inj hid⟩
    | remove id' =>
      simp only [holder?, Option.ite_none_left_eq_some] at hp
      exact ih hp.2

theorem mem_added_of_bearer? (hp : h.bearer? p = some id) :
    ∃ m ∈ h.added, m.isScope ∧ m.name = p ∧ m.id = id ∧ h.tree.stands m.id := by
  obtain ⟨m, hfind, hid⟩ := Option.map_eq_some_iff.mp hp
  have hm := List.find?_some hfind
  obtain ⟨hsn, hstands⟩ := Bool.and_eq_true_iff.mp hm
  obtain ⟨hs, hname⟩ := Bool.and_eq_true_iff.mp hsn
  exact ⟨m, List.mem_of_find?_eq_some hfind, hs, beq_iff_eq.mp hname, hid, hstands⟩

/-- No scope holds one name and bears another one. -/
theorem Fresh.name_unique (hf : h.Fresh) {q : String} (hp : h.holder? p = some id)
    (hq : h.bearer? q = some id) : p = q := by
  obtain ⟨m, hm, -, rfl, hid⟩ := mem_added_of_holder? hp
  obtain ⟨k, hk, -, rfl, hid', -⟩ := mem_added_of_bearer? hq
  rw [List.inj_on_of_nodup_map hf.nodup hm hk (hid.trans hid'.symm)]

namespace Accounts

/-- What has been added is known by its identity, with its badge. -/
theorem badge_of_node? (ha : h.Accounts) {m k : Node} (hm : m ∈ h.added)
    (hk : h.tree.node? m.id = some k) : k.badge = m.badge := by
  have hmem : m.badge ∈ h.tree.badges ++ h.tree.detachedBadges :=
    ha.nodes.mem_iff.mpr (List.mem_map_of_mem hm)
  obtain ⟨hid, -⟩ := mem_walk_of_node? hk
  exact ha.apart.badge_eq (mem_badges_of_node? hk) hmem hid

theorem exists_node? (ha : h.Accounts) {m : Node} (hm : m ∈ h.added) :
    ∃ k, h.tree.node? m.id = some k :=
  Tree.exists_node? (ha.nodes.mem_iff.mpr (List.mem_map_of_mem hm))

theorem enclosing?_eq (ha : h.Accounts) (name : String) :
    h.tree.enclosing? name = Name.nearest? h.holder? name := by
  rw [Tree.enclosing?_eq, funext ha.index]

/-- The owner of a new node is a scope that is known to the tree. -/
theorem owner (ha : h.Accounts) {name : String} (howner : h.tree.enclosing? name = some id) :
    ∃ k, h.tree.node? id = some k ∧ k.isScope := by
  rw [ha.enclosing?_eq] at howner
  obtain ⟨p, -, hp, -⟩ := Name.nearest?_eq_some_iff.mp howner
  obtain ⟨m, hm, hs, -, rfl⟩ := mem_added_of_holder? hp
  obtain ⟨k, hk⟩ := ha.exists_node? hm
  exact ⟨k, hk, (congrArg Badge.isScope (ha.badge_of_node? hm hk)).trans hs⟩

theorem add (ha : h.Accounts) (hf : Fresh (.add n :: h)) : Accounts (.add n :: h) := by
  have hperm := ha.apart.badges_add hf.children_eq_nil fun owner howner ↦ ha.owner howner
  refine ⟨ha.apart.of_badges_cons hperm fun hmem ↦ hf.not_mem ?_, ?_, fun p ↦ ?_⟩
  · rw [(ha.nodes.map Badge.id).mem_iff, List.map_map] at hmem
    exact hmem
  · show ((h.tree.add n).badges ++ (h.tree.add n).detachedBadges).Perm
      ((h.added ++ [n]).map Node.badge)
    rw [List.map_append]
    exact hperm.trans ((ha.nodes.cons n.badge).trans (List.perm_append_singleton _ _).symm)
  · show (h.tree.add n).scope? p = _
    rw [scope?_add, ha.index]
    rfl

/-- A node that holds a name is a scope of that name. -/
theorem holds_iff (ha : h.Accounts) {m : Node} (hm : m ∈ h.tree.walk) (p : String) :
    (m.isScope ∧ m.name = p ∧ h.holder? p = some m.id) ↔ h.holder? p = some m.id := by
  refine ⟨fun hall ↦ hall.2.2, fun hp ↦ ?_⟩
  obtain ⟨k, hk, hs, rfl, hid⟩ := mem_added_of_holder? hp
  have hbadge : m.badge = k.badge := ha.badge_of_node? hk (by rw [hid, ha.apart.node?_of_mem hm])
  have hscope : m.isScope = k.isScope := congrArg Badge.isScope hbadge
  exact ⟨hscope.trans hs, congrArg Badge.name hbadge, hp⟩

theorem remove (ha : h.Accounts) (id : NodeId) : Accounts (.remove id :: h) := by
  by_cases hstands : h.tree.stands id
  · obtain ⟨m, hm, hid⟩ := List.any_eq_true.mp hstands
    obtain rfl := beq_iff_eq.mp hid
    have hr : h.tree.Removed m (tree (.remove m.id :: h)) := (ha.apart.removed hm).2
    refine ⟨hr.apart ha.apart, (hr.badges_append ha.apart).trans ha.nodes, fun p ↦ ?_⟩
    rw [hr.scope?]
    simp only [ha.index, ha.holds_iff hm, holder?, hstands, and_true]
  · have hsame : tree (.remove id :: h) = h.tree := by
      show (h.tree.remove id).2 = h.tree
      rw [remove_of_not_mem fun hmem ↦ hstands (stands_iff.mpr hmem)]
    refine ⟨by rw [hsame]; exact ha.apart, by rw [hsame]; exact ha.nodes, fun p ↦ ?_⟩
    rw [hsame, ha.index]
    show _ = if h.holder? p = some id ∧ h.tree.stands id then none else h.holder? p
    rw [if_neg fun hp ↦ hstands hp.2]

end Accounts

/-- The tree after calls with fresh nodes is accounted for. -/
theorem accounts (hf : h.Fresh) : h.Accounts := by
  induction h with
  | nil => exact ⟨apart_empty, .refl _, fun _ ↦ rfl⟩
  | cons call h ih =>
    have ha := ih hf.tail
    cases call with
    | add n => exact ha.add hf
    | remove id => exact ha.remove id

/-- If the roots are what they would be with the new node as the last child of a standing scope, that
scope is the one that the index led to: its brood has become longer. -/
theorem enclosing?_of_roots_add (hf : Fresh (.add n :: h)) {m : Node} (hm : m ∈ h.added)
    (hs : m.isScope) (hstands : h.tree.stands m.id)
    (hroots : (h.tree.add n).roots = h.tree.rootsWith n (some m.id)) :
    h.tree.enclosing? n.name = some m.id := by
  have ha := accounts hf.tail
  obtain ⟨k, hk, hid⟩ := List.any_eq_true.mp hstands
  have hid : k.id = m.id := beq_iff_eq.mp hid
  have hknown : h.tree.node? m.id = some k := hid ▸ ha.apart.node?_of_mem hk
  have hscope : k.isScope := (congrArg Badge.isScope (ha.badge_of_node? hm hknown)).trans hs
  have howner : ∀ j, h.tree.node? m.id = some j → j.isScope := by
    intro j hj
    rw [hknown] at hj
    cases hj
    exact hscope
  -- what the brood of the scope would be, and what it has become
  have hmoved := ha.apart.mem_broods_addUnder howner n (Tree.mem_broods hk)
  rw [if_pos hid.symm] at hmoved
  have hplaced := ha.apart.mem_broods_add (n := n) (fun owner j howner hj ↦ by
    obtain ⟨j', hj', hs'⟩ := ha.owner howner
    rw [hj] at hj'
    cases hj'
    exact hs') (Tree.mem_broods hk)
  have hsame : (h.tree.addUnder m.id n).broods = (h.tree.add n).broods :=
    congrArg (Node.views Node.brood) hroots.symm
  rw [hsame] at hmoved
  have hone := (accounts hf).apart.eq_of_mem_broods hplaced hmoved
  split at hone
  · next howner => rw [howner, hid]
  · have hlength := congrArg List.length hone
    rw [List.length_append, List.length_singleton] at hlength
    omega

/-- A node is placed lexically if the index leads to the scope that it belongs below, and only
then. -/
theorem placesLexically_iff_nearest? (hf : Fresh (.add n :: h)) :
    h.PlacesLexically n ↔ Name.nearest? h.holder? n.name = Name.nearest? h.bearer? n.name := by
  rw [PlacesLexically, ← (accounts hf.tail).enclosing?_eq]
  refine ⟨fun heq ↦ ?_, fun heq ↦ by rw [roots_add, heq]⟩
  cases hbearer : Name.nearest? h.bearer? n.name with
  | none =>
    -- a node that becomes a root makes the roots more
    cases howner : h.tree.enclosing? n.name with
    | none => rfl
    | some owner =>
      rw [roots_add, hbearer, howner] at heq
      have hmore := congrArg List.length heq
      rw [length_rootsWith_some] at hmore
      simp only [rootsWith, List.length_append, List.length_singleton] at hmore
      omega
  | some bearer =>
    rw [hbearer] at heq
    obtain ⟨p, -, hp, -⟩ := Name.nearest?_eq_some_iff.mp hbearer
    obtain ⟨m, hm, hs, -, rfl, hstands⟩ := mem_added_of_bearer? hp
    exact enclosing?_of_roots_add hf hm hs hstands heq

/-- A new node stands in the tree unless its owner has left the tree. -/
theorem stands_add_iff (hf : Fresh (.add n :: h)) :
    (h.tree.add n).stands n.id ↔
      ∀ owner, Name.nearest? h.holder? n.name = some owner → h.tree.stands owner := by
  have ha := accounts hf.tail
  have hself : Node.badges [n] = [n.badge] := Node.badges_of_children_eq_nil hf.children_eq_nil
  have hnew : n.id ∉ h.tree.badges.map Badge.id := by
    intro hmem
    obtain ⟨b, hb, hid⟩ := List.mem_map.mp hmem
    have hmem := ha.nodes.mem_iff.mp (List.mem_append_left _ hb)
    obtain ⟨m, hm, rfl⟩ := List.mem_map.mp hmem
    exact hf.not_mem (List.mem_map.mpr ⟨m, hm, hid⟩)
  rw [stands_iff, ← ha.enclosing?_eq]
  simp only [badges]
  rw [roots_add]
  cases howner : h.tree.enclosing? n.name with
  | none =>
    refine ⟨fun _ owner hnone ↦ (nomatch hnone), fun _ ↦ ?_⟩
    show n.id ∈ (Node.badges (h.tree.roots ++ [n])).map Badge.id
    rw [Node.badges_append, hself, List.map_append]
    exact List.mem_append_right _ List.mem_cons_self
  | some owner =>
    obtain ⟨k, hk, hs⟩ := ha.owner howner
    obtain ⟨rfl, hwalk | hout⟩ := mem_walk_of_node? hk
    · have hperm := (ha.apart.badges_addUnder_walk hwalk hs n).1
      rw [hself] at hperm
      refine ⟨fun _ owner heq ↦ ?_, fun _ ↦ ?_⟩
      · cases heq
        exact stands_iff.mpr (List.mem_map_of_mem (mem_badges_of_mem_walk hwalk))
      · exact (hperm.map Badge.id).mem_iff.mpr List.mem_cons_self
    · have hroots : h.tree.rootsWith n (some k.id) = h.tree.roots :=
        (ha.apart.badges_addUnder_detached hout hs n).1
      rw [hroots]
      refine ⟨fun hmem ↦ absurd hmem hnew, fun hall ↦ ?_⟩
      exact absurd (stands_iff.mp (hall k.id rfl)) (ha.apart.not_mem_badges hout)

/-- **Where added nodes go.** After any calls that added distinct nodes without children, one after
the other and with nodes taken out in between, a new node is placed lexically iff, for the longest
name that encloses its own and that any scope holds in the index or bears in the tree, the scope that
holds it is the earliest of those that bear it. It joins the tree iff the scope that holds the
longest of the enclosing names in the index stands in the tree, or there is none. -/
theorem placesLexically_iff (h : History) (n : Node) (hf : Fresh (.add n :: h)) :
    (h.PlacesLexically n ↔ ∀ p, Name.Encloses p n.name →
      (∀ q, Name.Encloses q n.name → p.length < q.length →
        h.holder? q = none ∧ h.bearer? q = none) → h.holder? p = h.bearer? p) ∧
      ((h.tree.add n).stands n.id ↔
        ∀ owner, Name.nearest? h.holder? n.name = some owner → h.tree.stands owner) := by
  refine ⟨(placesLexically_iff_nearest? hf).trans ?_, stands_add_iff hf⟩
  exact Name.nearest?_eq_nearest?_iff fun p q id hp hq ↦ hf.tail.name_unique hp hq

/-- A package with a class, and a constant that is below the class by its name. -/
def nestedHistory : History := [
  .add (.scope ⟨1, "pkg.C", []⟩ { kind := .class none } []),
  .add (.scope ⟨0, "pkg", []⟩ { kind := .module } [])]

/-- The constant. -/
def nestedConst : Node := .leaf ⟨2, "pkg.C.K", []⟩ (.const none none)

/-- The names that enclose that of the constant. -/
theorem encloses_nestedConst_iff :
    Name.Encloses p nestedConst.name ↔ p = "pkg.C" ∨ p = "pkg" := by
  have hclass : Name.parent? nestedConst.name = some "pkg.C" := by decide
  have hpackage : Name.parent? "pkg.C" = some "pkg" := by decide
  have hroot : Name.parent? "pkg" = none := by decide
  rw [Name.parent?_eq_some hclass, Name.parent?_eq_some hpackage]
  exact or_congr_right (or_iff_left (Name.parent?_eq_none_iff.mp hroot p))

theorem fresh_nested : Fresh (.add nestedConst :: nestedHistory) :=
  ⟨by decide, by decide⟩

/-- As long as both stand, the constant goes below the class and joins the tree. -/
theorem placesLexically_of_nested :
    Fresh (.add nestedConst :: nestedHistory) ∧ nestedHistory.PlacesLexically nestedConst ∧
      (nestedHistory.tree.add nestedConst).stands nestedConst.id := by
  obtain ⟨hplaces, hstands⟩ := placesLexically_iff nestedHistory nestedConst fresh_nested
  refine ⟨fresh_nested, hplaces.mpr fun p hp _ ↦ ?_, hstands.mpr fun owner howner ↦ ?_⟩
  · rcases encloses_nestedConst_iff.mp hp with rfl | rfl <;> decide +kernel
  · have hclass : Name.nearest? nestedHistory.holder? nestedConst.name = some 1 := by decide +kernel
    rw [hclass] at howner
    obtain rfl := Option.some.inj howner
    decide +kernel

/-- When the package has been taken out, and the class with it, the class holds its name still: the
constant goes below a class that stands nowhere in the tree, and does not become a root. -/
theorem not_placesLexically_of_nested :
    Fresh (.add nestedConst :: .remove 0 :: nestedHistory) ∧
      ¬PlacesLexically (.remove 0 :: nestedHistory) nestedConst ∧
      ¬((tree (.remove 0 :: nestedHistory)).add nestedConst).stands nestedConst.id ∧
      Name.nearest? (bearer? (.remove 0 :: nestedHistory)) nestedConst.name = none := by
  refine ⟨⟨by decide, by decide⟩, fun hplaces ↦ ?_, by decide +kernel, by decide +kernel⟩
  have hlength := congrArg List.length hplaces
  exact absurd hlength (by decide +kernel)

end History

end Tree

end DeclClosure

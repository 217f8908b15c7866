import DeclClosure.Proofs.Tree.Views

/-!
# The order of the walk

A place in a tree is a list of numbers: the number of a root, that of one of its children, and so on.
The place of a node is the start of the places below it, so in the lexicographic order of places parents
come before children and siblings in their order, each with everything below it. The walk goes through
all places in this order, once through each (`Node.pairwise_placesAll`, `Node.mem_placesAll_iff`,
`Node.map_atAll?_placesAll`). Places count and not nodes, since one node may stand in several.

The view of a tree nests the views of its nodes in the same order: read from the outside in, the
documents in it are those of the nodes of the walk, one by one (`Node.outlineItems_viewAll`).
-/

namespace DeclClosure

open Json (Value)

/-! ### Places -/

namespace Node

/-- The node at a place, as it is counted from a node on. The empty place is the node itself. -/
def at? (n : Node) : List ℕ → Option Node
  | [] => some n
  | k :: place => n.children[k]?.bind fun c ↦ c.at? place

/-- The node at a place, as it is counted among some nodes. The empty place has none. -/
def atAll? (ns : List Node) : List ℕ → Option Node
  | [] => none
  | k :: place => ns[k]?.bind fun n ↦ n.at? place

/-- The place when one more node stands in front. -/
def shifted : List ℕ → List ℕ
  | [] => []
  | k :: place => (k + 1) :: place

mutual

/-- The places of a node and of everything below it, in the order of the walk. -/
def places : Node → List (List ℕ)
  | leaf _ _ => [[]]
  | scope _ _ cs => [] :: placesAll cs

/-- The places of some nodes and of everything below them, in the order of the walk. -/
def placesAll : List Node → List (List ℕ)
  | [] => []
  | n :: ns => n.places.map (0 :: ·) ++ (placesAll ns).map shifted

end

variable {n : Node} {ns : List Node} {place p q : List ℕ} {k : ℕ}

theorem zero_cons_mem_placesAll_iff : 0 :: place ∈ placesAll (n :: ns) ↔ place ∈ n.places := by
  rw [placesAll, List.mem_append, List.mem_map, List.mem_map]
  refine ⟨?_, fun h ↦ .inl ⟨place, h, rfl⟩⟩
  rintro (⟨q, hq, heq⟩ | ⟨q, hq, heq⟩)
  · rwa [← (List.cons.inj heq).2]
  · cases q <;> cases heq

theorem succ_cons_mem_placesAll_iff :
    (k + 1) :: place ∈ placesAll (n :: ns) ↔ k :: place ∈ placesAll ns := by
  rw [placesAll, List.mem_append, List.mem_map, List.mem_map]
  refine ⟨?_, fun h ↦ .inr ⟨k :: place, h, rfl⟩⟩
  rintro (⟨q, hq, heq⟩ | ⟨q, hq, heq⟩)
  · cases heq
  · cases q with
    | nil => cases heq
    | cons l q =>
      cases heq
      exact hq

theorem nil_notMem_placesAll (ns : List Node) : [] ∉ placesAll ns := by
  induction ns with
  | nil => exact List.not_mem_nil
  | cons n ns ih =>
    rw [placesAll, List.mem_append, List.mem_map, List.mem_map]
    rintro (⟨q, hq, heq⟩ | ⟨q, hq, heq⟩)
    · cases heq
    · cases q with
      | nil => exact ih hq
      | cons => cases heq

theorem exists_cons_of_mem_placesAll (h : place ∈ placesAll ns) : ∃ k rest, place = k :: rest :=
  List.exists_cons_of_ne_nil fun heq ↦ nil_notMem_placesAll ns (heq ▸ h)

mutual

/-- A place is among those of a node exactly if there is a node at it. -/
theorem mem_places_iff : ∀ (n : Node) (place : List ℕ), place ∈ n.places ↔ (n.at? place).isSome
  | leaf _ _, [] | scope _ _ _, [] => by simp [places, at?]
  | leaf _ _, k :: place => by simp [places, at?, children]
  | scope h f cs, k :: place => by
    rw [places, List.mem_cons, or_iff_right (List.cons_ne_nil k place)]
    exact mem_placesAll_iff cs (k :: place)

theorem mem_placesAll_iff : ∀ (ns : List Node) (place : List ℕ),
    place ∈ placesAll ns ↔ (atAll? ns place).isSome
  | ns, [] => by simp [nil_notMem_placesAll, atAll?]
  | [], k :: place => by simp [placesAll, atAll?]
  | n :: ns, 0 :: place => zero_cons_mem_placesAll_iff.trans (mem_places_iff n place)
  | n :: ns, (k + 1) :: place =>
    succ_cons_mem_placesAll_iff.trans (mem_placesAll_iff ns (k :: place))

end

theorem shifted_lt_shifted (h : p < q) : shifted p < shifted q := by
  match p, q, h with
  | [], k :: q, _ => exact List.nil_lt_cons _ _
  | k :: p, l :: q, h =>
    refine List.cons_lt_cons_iff.mpr ((List.cons_lt_cons_iff.mp h).imp Nat.succ_lt_succ ?_)
    exact And.imp_left (congrArg (· + 1))

mutual

/-- The places of a node come in their order. -/
theorem pairwise_places : ∀ n : Node, n.places.Pairwise (· < ·)
  | leaf _ _ => List.pairwise_singleton _ _
  | scope h f cs => by
    refine List.pairwise_cons.mpr ⟨fun place hplace ↦ ?_, pairwise_placesAll cs⟩
    obtain ⟨k, rest, rfl⟩ := exists_cons_of_mem_placesAll hplace
    exact List.nil_lt_cons _ _

theorem pairwise_placesAll : ∀ ns : List Node, (placesAll ns).Pairwise (· < ·)
  | [] => List.Pairwise.nil
  | n :: ns => by
    refine List.pairwise_append.mpr ⟨List.pairwise_map.mpr ?_, List.pairwise_map.mpr ?_, ?_⟩
    · exact (pairwise_places n).imp fun hlt ↦ List.cons_lt_cons_iff.mpr (.inr ⟨rfl, hlt⟩)
    · exact (pairwise_placesAll ns).imp shifted_lt_shifted
    · -- what is at or below the first node has the number zero, and all others have not
      rintro _ hself _ hother
      obtain ⟨p, -, rfl⟩ := List.mem_map.mp hself
      obtain ⟨q, hq, rfl⟩ := List.mem_map.mp hother
      obtain ⟨k, rest, rfl⟩ := exists_cons_of_mem_placesAll hq
      exact List.cons_lt_cons_iff.mpr (.inl k.succ_pos)

end

mutual

/-- At the places of a node stand the nodes of its preorder. -/
theorem map_at?_places : ∀ n : Node, n.places.map n.at? = n.preorder.map some
  | leaf _ _ => rfl
  | scope h f cs => by
    have hbelow : (placesAll cs).map (scope h f cs).at? = (placesAll cs).map (atAll? cs) := by
      refine List.map_congr_left fun place hplace ↦ ?_
      obtain ⟨k, rest, rfl⟩ := exists_cons_of_mem_placesAll hplace
      rfl
    rw [places, List.map_cons, hbelow, map_atAll?_placesAll cs]
    rfl

theorem map_atAll?_placesAll : ∀ ns : List Node,
    (placesAll ns).map (atAll? ns) = (preorderAll ns).map some
  | [] => rfl
  | n :: ns => by
    have hself : atAll? (n :: ns) ∘ (0 :: ·) = n.at? := rfl
    have hothers : atAll? (n :: ns) ∘ shifted = atAll? ns := by
      funext place
      cases place <;> rfl
    rw [placesAll, List.map_append, List.map_map, List.map_map, hself, hothers, map_at?_places n,
      map_atAll?_placesAll ns, preorderAll_cons, List.map_append]

end

mutual

theorem length_preorder : ∀ n : Node, n.preorder.length = n.count
  | leaf _ _ => rfl
  | scope _ _ cs => congrArg (· + 1) (length_preorderAll cs)

/-- There are as many nodes in the preorders as there are at all. -/
theorem length_preorderAll : ∀ ns : List Node, (preorderAll ns).length = countAll ns
  | [] => rfl
  | n :: ns => by
    rw [preorderAll_cons, List.length_append, length_preorder n, length_preorderAll ns, countAll_cons]

end

end Node

/-! ### Documents within documents -/

namespace Json

mutual

/-- An object and the objects that it has under `children`, theirs, and so on, each before those in
it. -/
def Value.outline : Value → List Value
  | .object members => .object members :: outlineMembers members
  | .list items => outlineItems items
  | _ => []

/-- The outline of what some members have under `children`. -/
def outlineMembers : List (String × Value) → List Value
  | [] => []
  | (key, v) :: members => if "children" = key then v.outline else outlineMembers members

/-- The outlines of some documents, one after the other. -/
def outlineItems : List Value → List Value
  | [] => []
  | v :: vs => v.outline ++ outlineItems vs

end

theorem outlineMembers_eq (members : List (String × Value)) :
    outlineMembers members = ((members.lookup "children").map Value.outline).getD [] := by
  induction members with
  | nil => rfl
  | cons m members ih =>
    rw [outlineMembers, lookup_cons_eq_ite]
    split
    · rfl
    · exact ih

end Json

namespace Node

theorem get?_children_view_leaf (h : Head) (d : Leaf) : (leaf h d).view.get? "children" = none := by
  rw [get?_view_leaf, Head.lookup_view]
  cases d <;> simp [Leaf.view, lookup_cons_eq_ite]

theorem get?_children_view_scope (h : Head) (f : ScopeFacts) (cs : List Node) :
    (scope h f cs).view.get? "children" = some (.list (viewAll cs)) := by
  have hfacts : f.view.lookup "children" = none :=
    Table.lookup_eq_none_of_not_mem fun hmem ↦ absurd (f.keys_view.subset hmem) (by decide)
  rw [get?_view_scope, Head.lookup_view, hfacts]
  rfl

/-- The view of a node comes first in its outline, and then what it nests. -/
theorem outline_view_eq (n : Node) :
    n.view.outline = n.view :: ((n.view.get? "children").map Value.outline).getD [] := by
  cases n <;> exact congrArg _ (Json.outlineMembers_eq _)

mutual

theorem outline_view : ∀ n : Node, n.view.outline = n.preorder.map view
  | leaf h d => by
    rw [outline_view_eq, get?_children_view_leaf]
    rfl
  | scope h f cs => by
    rw [outline_view_eq, get?_children_view_scope]
    exact congrArg _ (outlineItems_viewAll cs)

/-- The views of some nodes nest the views of everything below them, in the order of the walk. -/
theorem outlineItems_viewAll : ∀ ns : List Node,
    Json.outlineItems (viewAll ns) = (preorderAll ns).map view
  | [] => rfl
  | n :: ns => by
    rw [viewAll, Json.outlineItems, outline_view n, outlineItems_viewAll ns, preorderAll_cons,
      List.map_append]

end

end Node

/-! ### The walk through a tree -/

namespace Tree

/-- The node at a place of a tree. -/
def at? (t : Tree) (place : List ℕ) : Option Node :=
  Node.atAll? t.roots place

/-- **The walk is the recursion through the tree.** With its stack the walk meets the nodes that the
recursion meets, in the same order. They are the nodes at all places of the tree, each place once and in
lexicographic order: a parent before what is below it, and siblings in the order in which they came, each
with everything below it before the next. The document of the tree nests the documents of the nodes in
this order, and the size of the tree is their number. -/
theorem walk_in_order (t : Tree) :
    t.walk = Node.preorderAll t.roots ∧
      (∃ places : List (List ℕ), places.Pairwise (· < ·) ∧
        (∀ place, place ∈ places ↔ (t.at? place).isSome) ∧ t.walk.map some = places.map t.at?) ∧
      (∃ docs, t.view.get? "nodes" = some docs ∧ docs.outline = t.walk.map Node.view) ∧
      t.size = Node.countAll t.roots := by
  rw [size, walk_eq]
  refine ⟨rfl, ⟨Node.placesAll t.roots, Node.pairwise_placesAll _, Node.mem_placesAll_iff _, ?_⟩,
    ⟨.list (Node.viewAll t.roots), rfl, Node.outlineItems_viewAll _⟩, Node.length_preorderAll _⟩
  exact (Node.map_atAll?_placesAll t.roots).symm

end Tree

end DeclClosure

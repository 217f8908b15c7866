import DeclClosure.Proofs.Tree.Badges
import DeclClosure.Proofs.Tree.Enclosing
import DeclClosure.Tree.Description

/-!
# Trees without comments

`Tree.uncommented` is a tree with all comments cleared, those on nodes outside of the walk included.
What the tree is asked for by identity or by name does not depend on comments (`Tree.node?_uncommented`,
`Tree.enclosing?_uncommented`), and neither does what is done to it: clearing the comments first or last
comes to the same (`Tree.uncommented_add`, `Tree.uncommented_remove`). A change of a node may be made
before or after as well if it does not look at comments (`Tree.uncommented_modify`), and one that only
adds a comment leaves nothing behind (`Tree.uncommented_modify_self`).
-/

namespace DeclClosure

/-- The head without comments. -/
def Head.uncommented (h : Head) : Head :=
  { h with comments := [] }

namespace Node

mutual

/-- The node with all comments cleared, also below it. -/
def uncommented : Node → Node
  | leaf h d => leaf h.uncommented d
  | scope h f cs => scope h.uncommented f (uncommentedAll cs)

/-- Some nodes with all comments cleared. -/
def uncommentedAll : List Node → List Node
  | [] => []
  | n :: ns => n.uncommented :: uncommentedAll ns

end

theorem uncommentedAll_eq_map (ns : List Node) : uncommentedAll ns = ns.map uncommented := by
  induction ns with
  | nil => rfl
  | cons n ns ih => rw [uncommentedAll, ih, List.map_cons]

/-! ### What does not depend on comments -/

section Facts

variable (n : Node)

@[simp]
theorem id_uncommented : n.uncommented.id = n.id := by
  cases n <;> rfl

@[simp]
theorem name_uncommented : n.uncommented.name = n.name := by
  cases n <;> rfl

@[simp]
theorem isScope_uncommented : n.uncommented.isScope = n.isScope := by
  cases n <;> rfl

@[simp]
theorem typeParameters_uncommented : n.uncommented.typeParameters = n.typeParameters := by
  cases n <;> rfl

@[simp]
theorem ofNode_uncommented : NodeType.ofNode n.uncommented = NodeType.ofNode n := by
  rcases n with ⟨h, d⟩ | ⟨h, f, cs⟩
  · cases d <;> rfl
  · rfl

@[simp]
theorem children_uncommented : n.uncommented.children = n.children.map uncommented := by
  cases n with
  | leaf => rfl
  | scope h f cs => exact uncommentedAll_eq_map cs

/-- A comment is nothing to declare. -/
@[simp]
theorem isEmpty_uncommented : n.uncommented.isEmpty = n.isEmpty := by
  cases n with
  | leaf => rfl
  | scope h f cs =>
    simp only [uncommented, isEmpty, uncommentedAll_eq_map, List.isEmpty_map]

end Facts

mutual

theorem preorder_uncommented : ∀ n : Node, n.uncommented.preorder = n.preorder.map uncommented
  | leaf h d => rfl
  | scope h f cs => by
    simp only [uncommented, preorder, List.map_cons, preorderAll_uncommentedAll cs]

theorem preorderAll_uncommentedAll :
    ∀ ns : List Node, preorderAll (uncommentedAll ns) = (preorderAll ns).map uncommented
  | [] => rfl
  | n :: ns => by
    simp only [uncommentedAll, preorderAll, List.map_append, preorder_uncommented n,
      preorderAll_uncommentedAll ns]

end

theorem find?_id_map_uncommented (id : NodeId) (ns : List Node) :
    (ns.map uncommented).find? (fun n ↦ n.id == id)
      = (ns.find? fun n ↦ n.id == id).map uncommented := by
  rw [List.find?_map]
  simp only [Function.comp_def, id_uncommented]

theorem eraseFirst_map_uncommented (id : NodeId) (ns : List Node) :
    eraseFirst id (ns.map uncommented) = (eraseFirst id ns).map uncommented := by
  simp only [eraseFirst, List.eraseP_map, Function.comp_def, id_uncommented]

/-! ### Changes -/

/-- The change does not look at comments, and makes none. -/
def Overlooks (f : Node → Node) : Prop :=
  ∀ n, (f n).uncommented = f n.uncommented

theorem overlooks_mapFacts (f : ScopeFacts → ScopeFacts) : Overlooks (mapFacts f) := by
  rintro (_ | _) <;> rfl

theorem overlooks_mapMethod (f : MethodFacts → MethodFacts) : Overlooks (mapMethod f) := by
  rintro (⟨h, d⟩ | _)
  · cases d <;> rfl
  · rfl

/-- The nodes below a scope may be changed before or after comments are cleared. -/
theorem uncommented_mapChildren {f g : List Node → List Node}
    (h : ∀ ns, (f ns).map uncommented = g (ns.map uncommented)) (n : Node) :
    (mapChildren f n).uncommented = mapChildren g n.uncommented := by
  cases n with
  | leaf => rfl
  | scope hd s cs =>
    simp only [mapChildren, uncommented, uncommentedAll_eq_map, h]

theorem uncommented_addChild (child n : Node) :
    (addChild child n).uncommented = addChild child.uncommented n.uncommented :=
  uncommented_mapChildren (fun ns ↦ by simp) n

theorem uncommented_addComment (text : String) (n : Node) :
    (addComment text n).uncommented = n.uncommented := by
  cases n <;> rfl

mutual

theorem uncommented_modify {f g : Node → Node} (h : ∀ n, (f n).uncommented = g n.uncommented)
    (id : NodeId) : ∀ n : Node, (n.modify id f).uncommented = n.uncommented.modify id g
  | leaf hd d => by
    simp only [uncommented]
    by_cases hid : hd.id = id
    · rw [modify_leaf, modify_leaf, if_pos hid, if_pos (show hd.uncommented.id = id from hid)]
      exact h _
    · rw [modify_leaf, modify_leaf, if_neg hid, if_neg (show hd.uncommented.id ≠ id from hid)]
      rfl
  | scope hd s cs => by
    simp only [uncommented]
    rw [modify_scope, modify_scope, ← uncommentedAll_modifyAll h id cs]
    by_cases hid : hd.id = id
    · rw [if_pos hid, if_pos (show hd.uncommented.id = id from hid)]
      exact h _
    · rw [if_neg hid, if_neg (show hd.uncommented.id ≠ id from hid)]
      rfl

/-- A change may be made before or after comments are cleared, with its counterpart. -/
theorem uncommentedAll_modifyAll {f g : Node → Node}
    (h : ∀ n, (f n).uncommented = g n.uncommented) (id : NodeId) :
    ∀ ns : List Node, uncommentedAll (modifyAll id f ns) = modifyAll id g (uncommentedAll ns)
  | [] => rfl
  | n :: ns => by
    simp only [modifyAll, uncommentedAll, uncommented_modify h id n,
      uncommentedAll_modifyAll h id ns]

end

mutual

theorem modify_id (id : NodeId) : ∀ n : Node, n.modify id (fun m ↦ m) = n
  | leaf hd d => by
    rw [modify_leaf]
    split <;> rfl
  | scope hd s cs => by
    rw [modify_scope, modifyAll_id id cs]
    split <;> rfl

theorem modifyAll_id (id : NodeId) : ∀ ns : List Node, modifyAll id (fun m ↦ m) ns = ns
  | [] => rfl
  | n :: ns => by rw [modifyAll, modify_id id n, modifyAll_id id ns]

end

end Node

/-! ### Trees -/

namespace Tree

open Node (uncommentedAll)

/-- The tree with all comments cleared. -/
def uncommented (t : Tree) : Tree :=
  { t with
    roots := uncommentedAll t.roots
    detached := uncommentedAll t.detached }

variable (t : Tree)

theorem walk_uncommented : t.uncommented.walk = t.walk.map Node.uncommented := by
  rw [walk_eq, walk_eq]
  exact Node.preorderAll_uncommentedAll t.roots

theorem node?_uncommented (id : NodeId) :
    t.uncommented.node? id = (t.node? id).map Node.uncommented := by
  simp only [node?]
  rw [walk_uncommented, Node.find?_id_map_uncommented]
  cases t.walk.find? fun n ↦ n.id == id with
  | some n => rfl
  | none =>
    simp only [Option.map_none, uncommented]
    rw [Node.preorderAll_uncommentedAll, Node.find?_id_map_uncommented]

/-- The index does not look at the nodes. -/
theorem enclosing?_uncommented (name : String) :
    t.uncommented.enclosing? name = t.enclosing? name := by
  rw [enclosing?_eq, enclosing?_eq]
  rfl

theorem uncommented_modify {f g : Node → Node} (h : ∀ n, (f n).uncommented = g n.uncommented)
    (id : NodeId) : (t.modify id f).uncommented = t.uncommented.modify id g := by
  simp only [modify, uncommented, Node.uncommentedAll_modifyAll h]

/-- A change to nothing but comments is none when they are cleared. -/
theorem uncommented_modify_self {f : Node → Node} (h : ∀ n, (f n).uncommented = n.uncommented)
    (id : NodeId) : (t.modify id f).uncommented = t.uncommented := by
  rw [t.uncommented_modify h (g := fun n ↦ n)]
  simp only [modify, Node.modifyAll_id]

theorem uncommented_addUnder (owner : NodeId) (n : Node) :
    (t.addUnder owner n).uncommented = t.uncommented.addUnder owner n.uncommented :=
  t.uncommented_modify (Node.uncommented_addChild n) owner

theorem uncommented_enter (n : Node) :
    (t.enter n).uncommented = t.uncommented.enter n.uncommented := by
  simp only [enter, Node.isScope_uncommented, Node.name_uncommented, Node.id_uncommented]
  have hscope : t.uncommented.scope? n.name = t.scope? n.name := rfl
  rw [hscope]
  split <;> rfl

theorem uncommented_add (n : Node) : (t.add n).uncommented = t.uncommented.add n.uncommented := by
  simp only [add, uncommented_enter, Node.name_uncommented, enclosing?_uncommented]
  cases t.enclosing? n.name with
  | some owner => simp only [t.uncommented_modify (Node.uncommented_addChild n)]
  | none => simp only [uncommented, Node.uncommentedAll_eq_map, List.map_append, List.map_cons,
      List.map_nil]

theorem holder?_uncommented (id : NodeId) :
    t.uncommented.holder? id = (t.holder? id).map Node.uncommented := by
  simp only [holder?, walk_uncommented, List.find?_map, Function.comp_def,
    Node.children_uncommented, List.any_map, Node.id_uncommented]

theorem uncommented_leave (n : Node) :
    (t.leave n).uncommented = t.uncommented.leave n.uncommented := by
  simp only [leave, Node.isScope_uncommented, Node.name_uncommented, Node.id_uncommented]
  have hscope : t.uncommented.scope? n.name = t.scope? n.name := rfl
  rw [hscope]
  split <;> rfl

theorem uncommented_keep (n : Node) :
    (t.keep n).uncommented = t.uncommented.keep n.uncommented := by
  simp only [keep, Node.id_uncommented, node?_uncommented, Option.isNone_map]
  split
  · simp only [hold, uncommented, Node.uncommentedAll_eq_map, List.map_append, List.map_cons,
      List.map_nil]
  · rfl

theorem uncommented_removeUnder (owner : NodeId) (n : Node) :
    (t.removeUnder owner n).2.uncommented
      = (t.uncommented.removeUnder owner n.uncommented).2 := by
  simp only [removeUnder, node?_uncommented]
  cases t.node? owner with
  | none => rfl
  | some scope =>
    simp only [Option.map_some, Node.children_uncommented, List.any_map, Function.comp_def,
      Node.id_uncommented]
    split
    · rw [uncommented_keep, t.uncommented_modify (Node.uncommented_mapChildren fun ns ↦
        (Node.eraseFirst_map_uncommented n.id ns).symm)]
    · rfl

/-- A node may be taken out before or after comments are cleared. -/
theorem uncommented_remove (id : NodeId) :
    (t.remove id).2.uncommented = (t.uncommented.remove id).2 := by
  have hroots : t.uncommented.roots = t.roots.map Node.uncommented :=
    Node.uncommentedAll_eq_map t.roots
  simp only [remove, node?_uncommented, hroots, List.any_map, Function.comp_def,
    Node.id_uncommented, holder?_uncommented]
  cases t.node? id with
  | none => rfl
  | some n =>
    simp only [Option.map_some]
    split
    · rw [uncommented_keep, uncommented_leave, Node.eraseFirst_map_uncommented]
      simp only [uncommented, Node.uncommentedAll_eq_map]
    · cases t.holder? id with
      | none => rfl
      | some owner =>
        simp only [Option.map_some, Node.id_uncommented]
        rw [uncommented_keep, uncommented_leave, uncommented_removeUnder]

end Tree

end DeclClosure

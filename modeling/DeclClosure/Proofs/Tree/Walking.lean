import DeclClosure.Tree.Basic

/-!
# Walking with a stack

The walk keeps a stack of nodes. What is still to be met from a stack on is the preorders of its nodes,
one after the other, whatever nodes the stack holds and from whatever levels they come: taking a node
off and putting those below it on takes that node off the preorders and leaves the rest of them as they
are (`preorderAll_round`). So the walk meets the nodes of a tree in the order of the recursion through
it (`Tree.walk_eq`), and all that is said about walks is said about preorders.
-/

namespace DeclClosure

namespace Node

theorem preorder_eq (n : Node) : n.preorder = n :: preorderAll n.children := by
  cases n <;> rfl

theorem preorderAll_cons (n : Node) (ns : List Node) :
    preorderAll (n :: ns) = n.preorder ++ preorderAll ns := rfl

@[simp]
theorem preorderAll_append (ns ms : List Node) :
    preorderAll (ns ++ ms) = preorderAll ns ++ preorderAll ms := by
  induction ns with
  | nil => rfl
  | cons n ns ih => rw [List.cons_append, preorderAll_cons, preorderAll_cons, ih, List.append_assoc]

/-- One round of the walk meets one node, and what is to be met after it stays the same. -/
theorem preorderAll_round (n : Node) (stack : List Node) :
    preorderAll (n :: stack) = n :: preorderAll (pushAll n.children.reverse stack) := by
  rw [preorderAll_cons, preorder_eq, pushAll_reverse, preorderAll_append, List.cons_append]

/-- From any stack on, the walk meets the preorders of the nodes on it. -/
theorem walkFrom_eq_preorderAll (stack : List Node) : walkFrom stack = preorderAll stack := by
  -- by rounds, and not over the tree: a stack holds what is left of several levels at once
  induction stack using walkFrom.induct with
  | case1 => rw [walkFrom]; rfl
  | case2 n stack ih => rw [walkFrom, ih, preorderAll_round]

end Node

namespace Tree

variable {t : Tree} {n : Node}

theorem walk_eq (t : Tree) : t.walk = Node.preorderAll t.roots := by
  rw [walk, Node.walkFrom_eq_preorderAll, Node.pushAll_reverse, List.append_nil]

theorem mem_walk_iff : n ∈ t.walk ↔ n ∈ Node.preorderAll t.roots := by
  rw [walk_eq]

theorem forall_walk_iff {P : Node → Prop} :
    (∀ n ∈ t.walk, P n) ↔ ∀ n ∈ Node.preorderAll t.roots, P n := by
  rw [walk_eq]

end Tree

end DeclClosure

import DeclClosure.Proofs.Tree.Walking
import Mathlib.Data.List.Nodup

/-!
# Views of nodes

What of a node stays the same for as long as it is in a tree is its badge: the identity, the names,
and whether it is a scope. A badge is one view of a node among others; a view may look at everything
about a node but only at the identities of its children (`IsView`).

A change of nodes that leaves the view and the children alone leaves the views of the whole walk as
they are (`views_modifyAll_of_eq`). Where identities are distinct, a change at one identity is a
change at one place: a node and what is below it is one block of the walk, and the views before and
after the block stay what they are (`exists_preorderAll_of_nodup`). So the views of a forest are those
of the changed node and some others that the change does not touch (`views_modifyAll_of_nodup`); all
that is said about attaching and taking out nodes rests on this.
-/

namespace DeclClosure

/-- What of a node stays the same for as long as it is in a tree. -/
structure Badge where
  /-- The identity. -/
  id : NodeId
  /-- The name as declared. -/
  name : String
  /-- The qualified name. -/
  qualifiedName : String
  /-- The node is a scope. -/
  isScope : Bool
deriving DecidableEq, Repr

namespace Node

/-- The badge of a node. -/
def badge (n : Node) : Badge :=
  ⟨n.id, n.name, n.qualifiedName, n.isScope⟩

/-- The badges of some nodes and of everything below them, in the order of the walk. -/
def badges (ns : List Node) : List Badge :=
  (preorderAll ns).map badge

/-- What a function shows of some nodes and of everything below them, in the order of the walk. -/
def views {β : Type} (v : Node → β) (ns : List Node) : List β :=
  (preorderAll ns).map v

/-- The function looks at nothing but the identities of what is below a node. -/
def IsView {β : Type} (v : Node → β) : Prop :=
  ∀ h f cs ds, cs.map Node.id = ds.map Node.id → v (scope h f cs) = v (scope h f ds)

theorem isView_badge : IsView badge :=
  fun _ _ _ _ _ ↦ rfl

/-- The change leaves the badge and the children of every node as they are. -/
def Dresses (f : Node → Node) : Prop :=
  ∀ n, (f n).badge = n.badge ∧ (f n).children = n.children

section Views

variable {β : Type} (v : Node → β)

theorem views_append (ns ms : List Node) : views v (ns ++ ms) = views v ns ++ views v ms := by
  simp [views]

theorem views_singleton (n : Node) : views v [n] = v n :: views v n.children := by
  simp only [views, preorderAll_cons, preorder_eq]
  show _ :: (_ ++ []).map _ = _
  simp

theorem map_preorder (n : Node) : n.preorder.map v = views v [n] := by
  rw [views_singleton, preorder_eq]
  rfl

theorem views_cons (n : Node) (ns : List Node) : views v (n :: ns) = views v [n] ++ views v ns :=
  views_append v [n] ns

theorem mem_views_iff {b : β} {ns : List Node} : b ∈ views v ns ↔ ∃ n ∈ preorderAll ns, v n = b :=
  List.mem_map

/-- The first of some nodes that is found, with everything below it, and the others. -/
theorem views_eraseP {p : Node → Bool} {n : Node} {ns : List Node} (h : ns.find? p = some n) :
    (views v ns).Perm (views v [n] ++ views v (ns.eraseP p)) := by
  induction ns with
  | nil => cases h
  | cons m ns ih =>
    rw [views_cons v m ns]
    by_cases hm : p m
    · rw [List.find?_cons_of_pos hm] at h
      cases h
      rw [List.eraseP_cons_of_pos hm]
    · rw [List.find?_cons_of_neg hm] at h
      rw [List.eraseP_cons_of_neg hm, views_cons v m (ns.eraseP p)]
      exact ((ih h).append_left _).trans (List.perm_append_comm_assoc ..)

end Views

@[simp]
theorem badges_append (ns ms : List Node) : badges (ns ++ ms) = badges ns ++ badges ms :=
  views_append badge ns ms

theorem badges_singleton (n : Node) : badges [n] = n.badge :: badges n.children :=
  views_singleton badge n

theorem badges_of_children_eq_nil {n : Node} (h : n.children = []) : badges [n] = [n.badge] := by
  rw [badges_singleton, h]
  rfl

@[simp]
theorem map_id_badges (ns : List Node) : (badges ns).map Badge.id = (preorderAll ns).map id := by
  simp only [badges, List.map_map]
  rfl

theorem mem_badges_of_mem {n : Node} {ns : List Node} (h : n ∈ preorderAll ns) :
    n.badge ∈ badges ns :=
  List.mem_map_of_mem h

/-! ### Changes that dress nodes -/

/-- A change that leaves the identities of nodes alone leaves those of a list alone. -/
theorem map_id_modifyAll {f : Node → Node} (hid : ∀ n, (f n).id = n.id) (id : NodeId)
    (ns : List Node) : (modifyAll id f ns).map Node.id = ns.map Node.id := by
  induction ns with
  | nil => rfl
  | cons n ns ih =>
    have hn : (n.modify id f).id = n.id := by
      cases n with
      | leaf h d =>
        simp only [modify]
        split
        · exact hid _
        · rfl
      | scope h s cs =>
        simp only [modify]
        split
        · exact hid _
        · rfl
    show (n.modify id f).id :: (modifyAll id f ns).map Node.id = _
    rw [hn, ih]
    rfl

section Dressing

variable {β : Type} {v : Node → β} {f : Node → Node}

mutual

theorem views_modify_of_eq (hv : IsView v)
    (hf : ∀ n, (f n).id = n.id ∧ v (f n) = v n ∧ (f n).children = n.children) (id : NodeId) :
    ∀ n : Node, views v [n.modify id f] = views v [n]
  | leaf h d => by
    simp only [modify]
    split
    · rw [views_singleton, views_singleton, (hf _).2.1, (hf _).2.2]
    · rfl
  | scope h s cs => by
    have hcs := views_modifyAll_of_eq hv hf id cs
    have hself : v (scope h s (modifyAll id f cs)) = v (scope h s cs) :=
      hv h s _ _ (map_id_modifyAll (fun n ↦ (hf n).1) id cs)
    simp only [modify]
    split
    · rw [views_singleton, views_singleton, (hf _).2.1, (hf _).2.2, hself]
      exact congrArg _ hcs
    · rw [views_singleton, views_singleton, hself]
      exact congrArg _ hcs

/-- A change that leaves the view and the children of nodes alone changes the view of nothing. -/
theorem views_modifyAll_of_eq (hv : IsView v)
    (hf : ∀ n, (f n).id = n.id ∧ v (f n) = v n ∧ (f n).children = n.children) (id : NodeId) :
    ∀ ns : List Node, views v (modifyAll id f ns) = views v ns
  | [] => rfl
  | n :: ns => by
    show views v (n.modify id f :: modifyAll id f ns) = _
    rw [views_cons, views_cons v n, views_modify_of_eq hv hf id n, views_modifyAll_of_eq hv hf id ns]

end

end Dressing

/-- Dressing the nodes of an identity changes no badge. -/
theorem badges_modifyAll_of_dresses {f : Node → Node} (hf : Dresses f) (id : NodeId)
    (ns : List Node) : badges (modifyAll id f ns) = badges ns :=
  views_modifyAll_of_eq isView_badge
    (fun n ↦ ⟨congrArg Badge.id (hf n).1, (hf n).1, (hf n).2⟩) id ns

/-! ### Changes at one place -/

theorem modify_leaf (id : NodeId) (f : Node → Node) (h : Head) (d : Leaf) :
    (leaf h d).modify id f = if h.id = id then f (leaf h d) else leaf h d := rfl

theorem modify_scope (id : NodeId) (f : Node → Node) (h : Head) (s : ScopeFacts) (cs : List Node) :
    (scope h s cs).modify id f =
      if h.id = id then f (scope h s (modifyAll id f cs)) else scope h s (modifyAll id f cs) := rfl

mutual

theorem modify_eq_self {f : Node → Node} {id : NodeId} :
    ∀ n : Node, id ∉ n.preorder.map Node.id → n.modify id f = n
  | leaf h d, hid => by
    rw [modify_leaf, if_neg]
    rintro rfl
    exact hid List.mem_cons_self
  | scope h s cs, hid => by
    have hcs : id ∉ (preorderAll cs).map Node.id := fun hc ↦ hid (List.mem_cons_of_mem _ hc)
    rw [modify_scope, modifyAll_eq_self cs hcs, if_neg]
    rintro rfl
    exact hid List.mem_cons_self

/-- Nothing changes where the identity does not occur. -/
theorem modifyAll_eq_self {f : Node → Node} {id : NodeId} :
    ∀ ns : List Node, id ∉ (preorderAll ns).map Node.id → modifyAll id f ns = ns
  | [], _ => rfl
  | n :: ns, hid => by
    rw [preorderAll_cons, List.map_append, List.mem_append] at hid
    show n.modify id f :: modifyAll id f ns = _
    rw [modify_eq_self n fun h ↦ hid (.inl h), modifyAll_eq_self ns fun h ↦ hid (.inr h)]

end

section Nodup

variable {β : Type} {v : Node → β} {f : Node → Node} {m : Node}

mutual

theorem exists_preorder_of_nodup (hv : IsView v) (hid : ∀ n, (f n).id = n.id) :
    ∀ n : Node, (n.preorder.map Node.id).Nodup → m ∈ n.preorder → ∃ before after,
      n.preorder = before ++ m.preorder ++ after ∧
        views v [n.modify m.id f] = before.map v ++ views v [f m] ++ after.map v
  | leaf h d, _, hm => by
    obtain rfl := List.mem_singleton.mp hm
    have hself : (leaf h d).modify (leaf h d).id f = f (leaf h d) := if_pos rfl
    refine ⟨[], [], (List.append_nil _).symm, ?_⟩
    rw [hself]
    exact (List.append_nil _).symm
  | scope h s cs, hnd, hm => by
    obtain ⟨hh, hcs⟩ := List.nodup_cons.mp hnd
    rcases List.mem_cons.mp hm with rfl | hm
    · -- the node itself: its identity does not occur below it
      have hself : (scope h s cs).modify (scope h s cs).id f = f (scope h s cs) := by
        rw [modify_scope, modifyAll_eq_self cs hh]
        exact if_pos rfl
      refine ⟨[], [], (List.append_nil _).symm, ?_⟩
      rw [hself]
      exact (List.append_nil _).symm
    · -- below it: its own identity is another one, so the scope itself stays
      obtain ⟨before, after, hwalk, hmod⟩ := exists_preorderAll_of_nodup hv hid cs hcs hm
      have hne : h.id ≠ m.id := fun he ↦ hh (List.mem_map.mpr ⟨m, hm, he.symm⟩)
      have hself : v (scope h s (modifyAll m.id f cs)) = v (scope h s cs) :=
        hv h s _ _ (map_id_modifyAll hid m.id cs)
      refine ⟨scope h s cs :: before, after, congrArg (scope h s cs :: ·) hwalk, ?_⟩
      rw [modify_scope, if_neg hne, views_singleton, hself]
      exact congrArg (v (scope h s cs) :: ·) hmod

/-- Where identities are distinct, a node and what is below it is one block of the walk, and a change
at the identity of the node changes the views of this block alone. -/
theorem exists_preorderAll_of_nodup (hv : IsView v) (hid : ∀ n, (f n).id = n.id) :
    ∀ ns : List Node, ((preorderAll ns).map Node.id).Nodup → m ∈ preorderAll ns → ∃ before after,
      preorderAll ns = before ++ m.preorder ++ after ∧
        views v (modifyAll m.id f ns) = before.map v ++ views v [f m] ++ after.map v
  | [], _, hm => nomatch hm
  | n :: ns, hnd, hm => by
    rw [preorderAll_cons, List.map_append] at hnd
    obtain ⟨hn, hns, hdisj⟩ := List.nodup_append.mp hnd
    have hne : ∀ k ∈ n.preorder, ∀ k' ∈ preorderAll ns, k.id ≠ k'.id := fun k hk k' hk' ↦
      hdisj k.id (List.mem_map_of_mem hk) k'.id (List.mem_map_of_mem hk')
    rw [preorderAll_cons]
    show ∃ before after, _ ∧ views v (n.modify m.id f :: modifyAll m.id f ns) = _
    -- only the part of the forest that holds the node changes
    rcases List.mem_append.mp hm with hm | hm
    · have hout : m.id ∉ (preorderAll ns).map Node.id := by
        intro h
        obtain ⟨k, hk, he⟩ := List.mem_map.mp h
        exact hne m hm k hk he.symm
      obtain ⟨before, after, hwalk, hmod⟩ := exists_preorder_of_nodup hv hid n hn hm
      refine ⟨before, after ++ preorderAll ns, ?_, ?_⟩
      · rw [hwalk, List.append_assoc]
      · rw [modifyAll_eq_self ns hout, views_cons, hmod, List.append_assoc, List.map_append]
        rfl
    · have hout : m.id ∉ n.preorder.map Node.id := by
        intro h
        obtain ⟨k, hk, he⟩ := List.mem_map.mp h
        exact hne k hk m hm he
      obtain ⟨before, after, hwalk, hmod⟩ := exists_preorderAll_of_nodup hv hid ns hns hm
      refine ⟨n.preorder ++ before, after, ?_, ?_⟩
      · simp only [hwalk, List.append_assoc]
      · rw [modify_eq_self n hout, views_cons, hmod, ← map_preorder, List.map_append]
        simp only [List.append_assoc]

end

/-- Where identities are distinct, a change at the identity of a node touches that node alone. -/
theorem views_modifyAll_of_nodup (hv : IsView v) (hid : ∀ n, (f n).id = n.id) (ns : List Node)
    (hnd : ((preorderAll ns).map Node.id).Nodup) (hm : m ∈ preorderAll ns) : ∃ rest,
      (views v ns).Perm (views v [m] ++ rest) ∧
        (views v (modifyAll m.id f ns)).Perm (views v [f m] ++ rest) := by
  obtain ⟨before, after, hwalk, hmod⟩ := exists_preorderAll_of_nodup hv hid ns hnd hm
  have hblock (block : List β) : (before.map v ++ block ++ after.map v).Perm
      (block ++ (before.map v ++ after.map v)) := by
    rw [List.append_assoc]
    exact List.perm_append_comm_assoc ..
  refine ⟨before.map v ++ after.map v, ?_, hmod ▸ hblock _⟩
  rw [views, hwalk, List.map_append, List.map_append, map_preorder]
  exact hblock _

end Nodup

end Node

end DeclClosure

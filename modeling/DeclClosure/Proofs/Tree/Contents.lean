import DeclClosure.Proofs.Tree.Sound

/-!
# What nodes declare

The badge of a node says which node it is; this module is about what it declares. Its stem, the
value of a constant or the kind of a scope, is given when the node is made. The names of other
classes that it records, its relatives, may become more; `Node.Records` says which names a change
may add.

A property of nodes that does not look below them (`Node.IsShallow`) can be followed through
everything that is done to a tree: it holds everywhere (`Tree.Everywhere`) after a change if the
changed node has it, after a node is attached if that node has it, and after a node is taken out.
-/

namespace DeclClosure

namespace Node

/-- What a node declares for good. -/
inductive Stem where
  | const (value ascription : Option String)
  | scope (kind : ScopeKind)
  /-- A field, a callable, or nothing. -/
  | member
deriving DecidableEq, Repr

/-- What the node declares for good. -/
def stem : Node → Stem
  | leaf _ (.const value ascription) => .const value ascription
  | leaf _ _ => .member
  | scope _ f _ => .scope f.kind

/-- The superclass that a node names. -/
def superclass? : Node → Option String
  | leaf _ _ => none
  | scope _ f _ => f.kind.superclass?

/-- The names of other classes that a node records: the superclass, the mixins and the metaclass. -/
def relatives : Node → List String
  | leaf _ _ => []
  | scope _ f _ => f.kind.superclass?.toList ++ f.mixins.map MixinRef.name ++ f.metaclass.toList

/-- The name of the owner of a callable and how it is bound to it, if the node is a callable. -/
def callable? (n : Node) : Option (String × MethodKind) :=
  n.method?.map fun f ↦ (f.owner, f.kind)

/-- The node records no facts that would be worth a declaration. -/
def isBare : Node → Bool
  | leaf _ _ => true
  | scope _ f _ => f.mixins.isEmpty && f.typeParameters.isEmpty && f.helpers.isEmpty

/-- Besides its kind, a scope declares mixins at most, and no remarks have been made on the node. -/
def MixesOnly : Node → Prop
  | leaf h _ => h.comments = []
  | scope h f _ => f.typeParameters = [] ∧ f.helpers = [] ∧ f.metaclass = none ∧ h.comments = []

/-- Nothing has been added to what the node was made with. -/
structure IsFresh (n : Node) : Prop where
  /-- There are no mixins. -/
  mixins : n.mixins = []
  /-- There is nothing else. -/
  mixesOnly : n.MixesOnly

/-- The only class that a fresh node may name is the superclass. -/
theorem IsFresh.relatives {n : Node} (h : n.IsFresh) : n.relatives = n.superclass?.toList := by
  cases n with
  | leaf h' d => rfl
  | scope h' f cs =>
    have hmixins : f.mixins = [] := h.mixins
    simp only [Node.relatives, superclass?]
    rw [hmixins, h.mixesOnly.2.2.1]
    exact (List.append_nil _).trans (List.append_nil _)

/-- A node is empty if it has no children and is bare. -/
theorem isEmpty_iff {n : Node} : n.isEmpty ↔ n.children = [] ∧ n.isBare := by
  cases n with
  | leaf h d => exact ⟨fun _ ↦ ⟨rfl, rfl⟩, fun _ ↦ rfl⟩
  | scope h f cs =>
    simp only [isEmpty, isBare, children, Bool.and_eq_true, List.isEmpty_iff]
    tauto

/-- The change leaves a node where it is, with what it declares for good. What the node records may
become more, but it records none but some more names. -/
structure Records (names : List String) (f : Node → Node) : Prop where
  /-- It leaves the badge and the children alone. -/
  dresses : Dresses f
  /-- It leaves the stem alone. -/
  stem : ∀ n, (f n).stem = n.stem
  /-- It adds no other names. -/
  relatives : ∀ n, ∀ x ∈ (f n).relatives, x ∈ n.relatives ∨ x ∈ names
  /-- It adds no mixins of other names. -/
  mixins : ∀ n, ∀ r ∈ (f n).mixins, r ∈ n.mixins ∨ r.name ∈ names
  /-- It keeps the mixins. -/
  kept : ∀ n, n.mixins ⊆ (f n).mixins
  /-- It adds no mixin that is there. -/
  nodup : ∀ n, n.mixins.Nodup → (f n).mixins.Nodup
  /-- It makes no node bare. -/
  bare : ∀ n, (f n).isBare → n.isBare
  /-- It leaves callables with their owner, and makes none. -/
  callable : ∀ n, (f n).callable? = n.callable?

theorem isScope_of_stem {n : Node} {k : ScopeKind} (h : n.stem = .scope k) :
    n.isScope ∧ n.superclass? = k.superclass? ∧ n.qualifiedName = n.name := by
  cases n with
  | leaf h d => cases d <;> cases h
  | scope hd f cs =>
    obtain rfl : f.kind = k := Stem.scope.inj h
    exact ⟨rfl, rfl, rfl⟩

/-- The property of nodes does not look at what is below them. -/
def IsShallow (P : Node → Prop) : Prop :=
  ∀ h f cs ds, P (scope h f cs) → P (scope h f ds)

theorem exists_stem_of_isScope {n : Node} (h : n.isScope) : ∃ k, n.stem = .scope k := by
  cases n with
  | leaf h d => cases h
  | scope hd f cs => exact ⟨f.kind, rfl⟩

/-- A callable declares neither a constant nor a scope. -/
theorem stem_of_callable {n : Node} (h : n.callable?.isSome) : n.stem = .member := by
  cases n with
  | leaf hd d => cases d with
    | method f => rfl
    | _ => cases h
  | scope hd f cs => cases h

/-- Only callables have another name than their qualified one. -/
theorem qualifiedName_of_stem_ne_member {n : Node} (h : n.stem ≠ .member) :
    n.qualifiedName = n.name := by
  cases n with
  | leaf hd d => cases d with
    | method f => exact absurd rfl h
    | _ => rfl
  | scope hd f cs => rfl

/-- Only scopes name superclasses. -/
theorem exists_stem_of_superclass? {n : Node} {x : String} (h : n.superclass? = some x) :
    ∃ k, n.stem = .scope k ∧ k.superclass? = some x := by
  cases n with
  | leaf h' d => cases h
  | scope hd f cs => exact ⟨f.kind, rfl, h⟩

variable {P : Node → Prop}

theorem forall_preorder_iff {n : Node} :
    (∀ m ∈ n.preorder, P m) ↔ P n ∧ ∀ m ∈ preorderAll n.children, P m := by
  rw [preorder_eq]
  exact List.forall_mem_cons

mutual

theorem forall_preorder_modify (hP : IsShallow P) {id : NodeId} {f : Node → Node}
    (hf : ∀ n, n.id = id → (∀ m ∈ n.preorder, P m) → ∀ m ∈ (f n).preorder, P m) :
    ∀ n : Node, (∀ m ∈ n.preorder, P m) → ∀ m ∈ (n.modify id f).preorder, P m
  | leaf h d, hn => by
    rw [modify_leaf]
    split
    · next hid => exact hf _ hid hn
    · exact hn
  | scope h s cs, hn => by
    obtain ⟨hself, hcs⟩ := forall_preorder_iff.mp hn
    -- the changed children are put below the scope before the scope itself is changed
    have hchanged : ∀ m ∈ (scope h s (modifyAll id f cs)).preorder, P m :=
      forall_preorder_iff.mpr ⟨hP h s cs _ hself, forall_preorderAll_modifyAll hP hf cs hcs⟩
    rw [modify_scope]
    split
    · next hid => exact hf _ hid hchanged
    · exact hchanged

/-- What holds everywhere in a forest holds everywhere after a change that keeps it. -/
theorem forall_preorderAll_modifyAll (hP : IsShallow P) {id : NodeId} {f : Node → Node}
    (hf : ∀ n, n.id = id → (∀ m ∈ n.preorder, P m) → ∀ m ∈ (f n).preorder, P m) :
    ∀ ns : List Node, (∀ m ∈ preorderAll ns, P m) → ∀ m ∈ preorderAll (modifyAll id f ns), P m
  | [], hns => hns
  | n :: ns, hns => by
    rw [preorderAll_cons] at hns
    obtain ⟨hn, hns⟩ := List.forall_mem_append.mp hns
    show ∀ m ∈ (n.modify id f).preorder ++ preorderAll (modifyAll id f ns), P m
    exact List.forall_mem_append.mpr
      ⟨forall_preorder_modify hP hf n hn, forall_preorderAll_modifyAll hP hf ns hns⟩

end

theorem forall_preorder_addChild (hP : IsShallow P) {child n : Node}
    (hchild : ∀ m ∈ child.preorder, P m) (hn : ∀ m ∈ n.preorder, P m) :
    ∀ m ∈ (addChild child n).preorder, P m := by
  cases n with
  | leaf h d => exact hn
  | scope h s cs =>
    obtain ⟨hself, hcs⟩ := forall_preorder_iff.mp hn
    refine forall_preorder_iff.mpr ⟨hP h s cs _ hself, ?_⟩
    show ∀ m ∈ preorderAll (cs ++ [child]), P m
    rw [preorderAll_append, preorderAll_cons]
    exact List.forall_mem_append.mpr
      ⟨hcs, List.forall_mem_append.mpr ⟨hchild, List.forall_mem_nil _⟩⟩

theorem preorderAll_eraseFirst_subset (id : NodeId) (ns : List Node) :
    preorderAll (eraseFirst id ns) ⊆ preorderAll ns := by
  induction ns with
  | nil => exact List.Subset.refl _
  | cons n ns ih =>
    rw [preorderAll_cons]
    by_cases hn : n.id == id
    · have herase : eraseFirst id (n :: ns) = ns := List.eraseP_cons_of_pos hn
      rw [herase]
      exact List.subset_append_right _ _
    · have herase : eraseFirst id (n :: ns) = n :: eraseFirst id ns := List.eraseP_cons_of_neg hn
      rw [herase, preorderAll_cons]
      exact List.append_subset.mpr
        ⟨List.subset_append_left _ _, List.subset_append_of_subset_right _ ih⟩

theorem forall_preorder_eraseChild (hP : IsShallow P) (id : NodeId) {n : Node}
    (hn : ∀ m ∈ n.preorder, P m) : ∀ m ∈ (n.mapChildren (eraseFirst id)).preorder, P m := by
  cases n with
  | leaf h d => exact hn
  | scope h s cs =>
    obtain ⟨hself, hcs⟩ := forall_preorder_iff.mp hn
    refine forall_preorder_iff.mpr ⟨hP h s cs _ hself, fun m hm ↦ ?_⟩
    exact hcs m (preorderAll_eraseFirst_subset id cs hm)

mutual

theorem preorder_subset_preorder {n : Node} : ∀ r : Node, n ∈ r.preorder → n.preorder ⊆ r.preorder
  | leaf h d, hn => by
    obtain rfl := List.mem_singleton.mp hn
    exact List.Subset.refl _
  | scope h s cs, hn => by
    rcases List.mem_cons.mp hn with rfl | hn
    · exact List.Subset.refl _
    · exact List.subset_cons_of_subset _ (preorder_subset_preorderAll cs hn)

/-- What is below a node of a forest is in the forest. -/
theorem preorder_subset_preorderAll {n : Node} :
    ∀ ns : List Node, n ∈ preorderAll ns → n.preorder ⊆ preorderAll ns
  | [], hn => nomatch hn
  | r :: ns, hn => by
    rcases List.mem_append.mp hn with hn | hn
    · exact List.subset_append_of_subset_left _ (preorder_subset_preorder r hn)
    · exact List.subset_append_of_subset_right _ (preorder_subset_preorderAll ns hn)

end

end Node

namespace Tree

open Node (preorderAll)

/-- Every node has the property, in the tree or outside of it. -/
structure Everywhere (t : Tree) (P : Node → Prop) : Prop where
  /-- Every node of the walk has it. -/
  walk : ∀ m ∈ t.walk, P m
  /-- Every node that was taken out has it. -/
  detached : ∀ m ∈ preorderAll t.detached, P m

namespace Everywhere

variable {P : Node → Prop} {t : Tree} {n : Node} {id : NodeId}

theorem empty : Everywhere {} P :=
  ⟨nofun, nofun⟩

theorem mono {Q : Node → Prop} (h : t.Everywhere P) (hPQ : ∀ m, P m → Q m) : t.Everywhere Q :=
  ⟨fun m hm ↦ hPQ m (h.walk m hm), fun m hm ↦ hPQ m (h.detached m hm)⟩

theorem modify (h : t.Everywhere P) (hP : Node.IsShallow P) {f : Node → Node}
    (hf : ∀ n, n.id = id → (∀ m ∈ n.preorder, P m) → ∀ m ∈ (f n).preorder, P m) :
    (t.modify id f).Everywhere P :=
  ⟨forall_walk_iff.mpr
      (Node.forall_preorderAll_modifyAll hP hf t.roots (forall_walk_iff.mp h.walk)),
    Node.forall_preorderAll_modifyAll hP hf t.detached h.detached⟩

/-- A node is dressed. -/
theorem dress (h : t.Everywhere P) (hP : Node.IsShallow P) {f : Node → Node}
    (hf : Node.Dresses f) (hnode : ∀ n, n.id = id → P n → P (f n)) :
    (t.modify id f).Everywhere P := by
  refine h.modify hP fun n hid hn ↦ ?_
  obtain ⟨hself, hcs⟩ := Node.forall_preorder_iff.mp hn
  refine Node.forall_preorder_iff.mpr ⟨hnode n hid hself, ?_⟩
  rwa [(hf n).2]

theorem addUnder (h : t.Everywhere P) (hP : Node.IsShallow P) (owner : NodeId)
    (hc : n.children = []) (hn : P n) : (t.addUnder owner n).Everywhere P := by
  refine h.modify hP fun scope _ hscope ↦ Node.forall_preorder_addChild hP ?_ hscope
  refine Node.forall_preorder_iff.mpr ⟨hn, ?_⟩
  rw [hc]
  exact nofun

theorem add (h : t.Everywhere P) (hP : Node.IsShallow P) (hc : n.children = []) (hn : P n) :
    (t.add n).Everywhere P := by
  have henter : ∀ {t' : Tree}, t'.Everywhere P → (t'.enter n).Everywhere P := fun {t'} ht' ↦ by
    refine ⟨?_, by rw [detached_enter]; exact ht'.detached⟩
    have hroots : (t'.enter n).roots = t'.roots := by
      simp only [enter]
      split <;> rfl
    simp only [Tree.walk]
    rw [hroots]
    exact ht'.walk
  simp only [Tree.add]
  refine henter ?_
  split
  · exact h.addUnder hP _ hc hn
  · refine ⟨?_, h.detached⟩
    refine forall_walk_iff.mpr ?_
    rw [Node.preorderAll_append]
    refine List.forall_mem_append.mpr ⟨forall_walk_iff.mp h.walk, ?_⟩
    show ∀ m ∈ n.preorder ++ [], P m
    rw [List.append_nil, Node.preorder_eq, hc]
    exact List.forall_mem_cons.mpr ⟨hn, List.forall_mem_nil _⟩

theorem leave (h : t.Everywhere P) (n : Node) : (t.leave n).Everywhere P := by
  simp only [Tree.leave]
  split
  · exact ⟨h.walk, h.detached⟩
  · exact h

theorem keep (h : t.Everywhere P) (hn : ∀ m ∈ n.preorder, P m) : (t.keep n).Everywhere P := by
  simp only [Tree.keep]
  split
  · refine ⟨h.walk, ?_⟩
    show ∀ m ∈ preorderAll (t.detached ++ [n]), P m
    rw [Node.preorderAll_append]
    refine List.forall_mem_append.mpr ⟨h.detached, ?_⟩
    show ∀ m ∈ n.preorder ++ [], P m
    rwa [List.append_nil]
  · exact h

theorem remove (h : t.Everywhere P) (hP : Node.IsShallow P) (id : NodeId) :
    (t.remove id).2.Everywhere P := by
  simp only [Tree.remove]
  split
  · exact h
  · next n hn =>
    -- what is taken out has the property with all that is below it, for it was in the tree
    have hwalk := forall_walk_iff.mp h.walk
    have hall : ∀ m ∈ n.preorder, P m := by
      obtain ⟨-, hmem | hmem⟩ := mem_walk_of_node? hn
      · exact fun m hm ↦
          hwalk m (Node.preorder_subset_preorderAll t.roots (mem_walk_iff.mp hmem) hm)
      · exact fun m hm ↦ h.detached m (Node.preorder_subset_preorderAll t.detached hmem hm)
    split
    · have herased : Everywhere { t with roots := Node.eraseFirst id t.roots } P :=
        ⟨forall_walk_iff.mpr fun m hm ↦
          hwalk m (Node.preorderAll_eraseFirst_subset id t.roots hm), h.detached⟩
      exact (herased.leave n).keep hall
    · split
      · next owner howner =>
        refine (leave ?_ n).keep hall
        simp only [removeUnder]
        split
        · split
          · refine keep (h.modify hP fun k _ hk ↦ ?_) hall
            exact Node.forall_preorder_eraseChild hP n.id hk
          · exact h
        · exact h
      · exact h

end Everywhere

theorem Sound.everywhere_lt {t : Tree} {next : NodeId} (h : t.Sound next) :
    t.Everywhere fun m ↦ m.id < next :=
  ⟨fun m hm ↦ h.lt m.badge (List.mem_append_left _ (mem_badges_of_mem_walk hm)),
    fun m hm ↦ h.lt m.badge (List.mem_append_right _ (Node.mem_badges_of_mem hm))⟩

/-- What holds of a node of the walk holds of every node with its identity. -/
theorem Apart.everywhere {P : Node → Prop} {t : Tree} {m : Node} (h : t.Apart) (hm : m ∈ t.walk)
    (hP : P m) : t.Everywhere fun k ↦ k.id = m.id → P k := by
  refine ⟨fun k hk hid ↦ ?_, fun k hk hid ↦ ?_⟩
  · rwa [h.eq_of_id_eq hk hm hid]
  · -- outside of the tree no node has the identity
    have hwalk : m.id ∈ t.badges.map Badge.id := List.mem_map_of_mem (mem_badges_of_mem_walk hm)
    rw [← hid] at hwalk
    exact absurd hwalk (h.not_mem_badges hk)

end Tree

end DeclClosure

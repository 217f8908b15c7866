import DeclClosure.Proofs.Closure.Changes
import DeclClosure.Proofs.Tree.Offspring

/-!
# Listings

A listener that lists items puts a node below the announced scope for one after the other, and stops where
something fails. So the scope has obtained further children at its end, one for each item up to some
point, and one for every item if nothing has failed (`Run.Lists`). This follows the structure of the
listener: what it does besides leaves the tree alone.
-/

namespace DeclClosure.Closure

variable {a : Announcement} {s t u : State} {ms ns : List Node}

/-- From `s` to `t` the tree has stayed what it is. -/
structure State.Beside (s t : State) : Prop where
  /-- The tree is the same. -/
  tree : t.tree = s.tree
  /-- No identity has been given away. -/
  nextNode : t.nextNode = s.nextNode

instance : IsPreorder State State.Beside where
  refl _ := ⟨rfl, rfl⟩
  trans _ _ _ hst htu := ⟨htu.tree.trans hst.tree, htu.nextNode.trans hst.nextNode⟩

/-- From `s` to `t` the announced scope has obtained some children, and is otherwise what it was. -/
structure Announcement.Adopts (a : Announcement) (s : State) (ms : List Node) (t : State) : Prop where
  /-- The tree is still in order. -/
  sound : t.Sound
  /-- The children come after those that were there. -/
  shows : ∀ scope, a.Shows s scope → a.Shows t (scope.mapChildren (· ++ ms))

namespace Announcement

theorem Shows.unique {scope scope' : Node} (h : a.Shows s scope) (h' : a.Shows s scope') :
    scope = scope' := by
  have hid : scope.id = scope'.id := Option.some.inj (h.id.symm.trans h'.id)
  have hknown := h'.known
  rw [← hid, h.known] at hknown
  exact Option.some.inj hknown

theorem Shows.beside {scope : Node} (h : a.Shows s scope) (ht : s.Beside t) : a.Shows t scope :=
  ⟨h.id, ht.tree ▸ h.known, h.isScope⟩

theorem Adopts.beside (hs : s.Sound) (ht : s.Beside t) : a.Adopts s [] t := by
  refine ⟨?_, fun scope h ↦ ?_⟩
  · rw [State.Sound, ht.tree, ht.nextNode]
    exact hs
  · have hsame : scope.mapChildren (· ++ []) = scope := by
      cases scope <;> simp [Node.mapChildren]
    rw [hsame]
    exact h.beside ht

theorem Adopts.trans (hst : a.Adopts s ms t) (htu : a.Adopts t ns u) : a.Adopts s (ms ++ ns) u := by
  refine ⟨htu.sound, fun scope h ↦ ?_⟩
  have hafter := htu.shows _ (hst.shows scope h)
  have hboth : (scope.mapChildren (· ++ ms)).mapChildren (· ++ ns) =
      scope.mapChildren (· ++ (ms ++ ns)) := by
    cases scope <;> simp [Node.mapChildren]
  rwa [hboth] at hafter

/-- A node without children is put below the announced scope. -/
theorem Shows.adopts_list {scope : Node} (h : a.Shows s scope) (hs : s.Sound) (child : NodeId → Node)
    (hid : (child s.nextNode).id = s.nextNode) (hchildren : (child s.nextNode).children = []) :
    a.Adopts s [child s.nextNode] (s.list scope.id child) := by
  refine ⟨hs.addUnder h.known h.isScope hid hchildren, fun scope' h' ↦ ?_⟩
  obtain rfl := h.unique h'
  have hsame : (scope.mapChildren (· ++ [child s.nextNode])).id = scope.id := Node.id_mapChildren _ _
  refine ⟨hsame ▸ h.id, ?_, ?_⟩
  · rw [hsame]
    exact hs.node?_addUnder h.known h.isScope hid hchildren
  · have hscope := h.isScope
    cases scope
    · cases hscope
    · rfl

end Announcement

/-- Everything in one of two lists that are related one by one has its counterpart in the other. -/
theorem exists_mem_of_forall₂ {α β : Type} {R : α → β → Prop} {as : List α} {bs : List β}
    (h : List.Forall₂ R as bs) : (∀ x ∈ as, ∃ y ∈ bs, R x y) ∧ ∀ y ∈ bs, ∃ x ∈ as, R x y := by
  induction h with
  | nil => exact ⟨nofun, nofun⟩
  | @cons x y as bs hxy _ ih =>
    constructor
    · intro x' hx'
      rcases List.mem_cons.mp hx' with rfl | hx'
      · exact ⟨y, List.mem_cons_self, hxy⟩
      · obtain ⟨y', hy', h⟩ := ih.1 x' hx'
        exact ⟨y', List.mem_cons_of_mem y hy', h⟩
    · intro y' hy'
      rcases List.mem_cons.mp hy' with rfl | hy'
      · exact ⟨x, List.mem_cons_self, hxy⟩
      · obtain ⟨x', hx', h⟩ := ih.2 y' hy'
        exact ⟨x', List.mem_cons_of_mem x hx', h⟩

namespace Run

variable {α β γ : Type} {Q : α → Node → Prop} {as bs : List α} {x : α}

/-- The program lists items below the announced scope. The nodes are for the items up to some point;
they are for all of them if the program succeeds. -/
def Lists (a : Announcement) (Q : α → Node → Prop) (as : List α) (m : Run β) : Prop :=
  ∀ s, s.Sound → (∃ scope, a.Shows s scope) → ∃ done ms, done <+: as ∧ List.Forall₂ Q done ms ∧
    a.Adopts s ms (m s).2 ∧ ∀ b t, m s = (.ok b, t) → done = as

namespace Lists

/-- A program that leaves the tree alone lists nothing. -/
theorem beside {m : Run β} (h : Moves State.Beside m) : Lists a Q [] m := fun s hs _ ↦
  ⟨[], [], List.prefix_rfl, .nil, .beside hs (h s), fun _ _ _ ↦ rfl⟩

/-- One program lists some items and the next one lists others. -/
theorem bind {m : Run β} {f : β → Run γ} (hm : Lists a Q as m) (hf : ∀ b, Lists a Q bs (f b)) :
    Lists a Q (as ++ bs) (m >>= f) := by
  intro s hs hshows
  obtain ⟨done, ms, hdone, hms, hadopts, hall⟩ := hm s hs hshows
  rw [run_bind]
  rcases hrun : m s with ⟨e | b, t⟩
  · rw [hrun] at hadopts
    exact ⟨done, ms, hdone.trans (List.prefix_append as bs), hms, hadopts, fun _ _ h ↦ by cases h⟩
  · rw [hrun] at hadopts
    obtain ⟨scope, h⟩ := hshows
    obtain ⟨done', ns, hdone', hns, hadopts', hall'⟩ :=
      hf b t hadopts.sound ⟨_, hadopts.shows scope h⟩
    obtain rfl := hall b t hrun
    refine ⟨done ++ done', ms ++ ns, (List.prefix_append_right_inj done).mpr hdone',
      List.rel_append hms hns, hadopts.trans hadopts', fun c u hc ↦ ?_⟩
    rw [hall' c u hc]

theorem beside_bind {m : Run β} {f : β → Run γ} (hm : Moves State.Beside m)
    (hf : ∀ b, Lists a Q bs (f b)) : Lists a Q bs (m >>= f) :=
  (beside hm).bind hf

theorem bind_beside {m : Run β} {f : β → Run γ} (hm : Lists a Q as m)
    (hf : ∀ b, Moves State.Beside (f b)) : Lists a Q as (m >>= f) := by
  have h := hm.bind fun b ↦ beside (a := a) (Q := Q) (hf b)
  rwa [List.append_nil] at h

/-- A program for each item, one after the other. -/
theorem forM {f : α → Run PUnit} (h : ∀ x ∈ as, Lists a Q [x] (f x)) : Lists a Q as (as.forM f) := by
  induction as with
  | nil => exact beside (Moves.pure _)
  | cons x as ih =>
    exact (h x List.mem_cons_self).bind fun _ ↦ ih fun y hy ↦ h y (List.mem_cons_of_mem x hy)

/-- A leaf is put below the announced scope. -/
theorem addChild {name : String} {d : Leaf} (hQ : ∀ id, Q x (.leaf ⟨id, name, []⟩ d)) :
    Lists a Q [x] (addChild a fun id ↦ .leaf ⟨id, name, []⟩ d) := by
  intro s hs _
  rcases addChild_cases a (fun id ↦ .leaf ⟨id, name, []⟩ d) s with ⟨f, hrun⟩ | ⟨scope, h, hrun⟩
  · rw [hrun]
    exact ⟨[], [], List.nil_prefix, .nil, .beside hs (refl_of State.Beside s), fun _ _ h ↦ by cases h⟩
  · rw [hrun]
    have hadopts := h.adopts_list hs (fun id ↦ .leaf ⟨id, name, []⟩ d) rfl rfl
    exact ⟨[x], _, List.prefix_rfl, .cons (hQ s.nextNode) .nil, hadopts, fun _ _ _ ↦ rfl⟩

end Lists

theorem Learning.beside {m : Run β} (h : Learning m) : Moves State.Beside m := by
  refine h.mono fun s t hst ↦ ?_
  obtain ⟨w, -, rfl⟩ := hst
  exact ⟨rfl, rfl⟩

theorem pushType_beside (o : Object) : Moves State.Beside (pushType o) := by
  refine Moves.get.bind fun s ↦ ?_
  split
  · refine (nameOf_learns o).beside.bind fun name ↦ ?_
    split
    · exact Moves.modify fun s ↦ ⟨rfl, rfl⟩
    · exact Moves.pure _
  · exact Moves.pure _

end Run

end DeclClosure.Closure

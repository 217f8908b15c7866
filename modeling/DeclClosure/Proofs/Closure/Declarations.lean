import DeclClosure.Proofs.Closure.Changes
import DeclClosure.Proofs.Closure.Termination

/-!
# One declaration a name

Nodes join the tree in two ways. What is taken up under a name is attached and announced
(`Announced`); its name was not dealt with before and is from then on, so no two announced nodes
share a name. What listeners list below a scope (`Listed`) is not held against the names that were
dealt with. The ledger of a run (`Ledger`) says that there is no third way, and that an announced
node bears the name under which it was announced for as long as it stands in the tree.

So two announced nodes never share a name (`Ledger.eq_of_announced`).
-/

namespace DeclClosure.Closure

open DeclClosure.Tree (mem_badges_of_mem_walk)

/-- Within `n` events a node was announced as a declaration under a name. -/
def Announced (c : Setting) (s : State) (n : Nat) (id : NodeId) (name : String) : Prop :=
  ∃ k ≤ n, ∃ o kind signature, kind ≠ .method ∧
    .node name o (some id) kind signature ∈ (s.after c k).queue.items

/-- Within `n` events a listener has listed the node, when another node was announced to it. -/
def Listed (c : Setting) (s : State) (n : Nat) (id : NodeId) : Prop :=
  ∃ k < n, (s.after c k).Tells ∧ (s.after c k).nextNode ≤ id ∧ id < (s.after c (k + 1)).nextNode

/-- Nothing has been declared. -/
structure State.Blank (s : State) : Prop where
  /-- The tree is empty. -/
  tree : s.tree = {}
  /-- No node is announced. -/
  queue : ∀ e ∈ s.queue.items, ¬e.IsAnnouncement

theorem State.Blank.sound {s : State} (h : s.Blank) : s.Sound := by
  simp only [Sound]
  rw [h.tree]
  exact Tree.sound_empty s.nextNode

theorem State.blank_start (w : World) (t : Trackers) (seeds : List String) :
    (State.start w t seeds).Blank := by
  refine ⟨rfl, fun e he ↦ ?_⟩
  obtain ⟨name, -, rfl⟩ := List.mem_map.mp he
  exact id

theorem State.Blank.begun {s : State} (h : s.Blank) (c : Setting) : (s.begun c).Blank :=
  ⟨h.tree, h.queue⟩

/-- The state in which a compilation of some seeds works off its first event. -/
abbrev State.outset (c : Setting) (w : World) (t : Trackers) (seeds : List String) : State :=
  (start w t seeds).begun c

theorem State.blank_outset (c : Setting) (w : World) (t : Trackers) (seeds : List String) :
    (outset c w t seeds).Blank :=
  (blank_start w t seeds).begun c

/-- What is known of the announced nodes of a run after `n` events. -/
structure Ledger (c : Setting) (s : State) (n : Nat) : Prop where
  /-- Their identities have been given out. -/
  fresh : ∀ id x, Announced c s n id x → id < (s.after c n).nextNode
  /-- Their names have been dealt with. -/
  seen : ∀ id x, Announced c s n id x → x ∈ (s.after c n).seen
  /-- A name belongs to one of them. -/
  id_unique : ∀ id id' x, Announced c s n id x → Announced c s n id' x → id = id'
  /-- Each has one name. -/
  name_unique : ∀ id x y, Announced c s n id x → Announced c s n id y → x = y
  /-- They bear it in the tree. -/
  badge : ∀ b ∈ (s.after c n).tree.badges, ∀ x, Announced c s n b.id x → b.qualifiedName = x
  /-- All other nodes are listed. -/
  origin : ∀ b ∈ (s.after c n).tree.badges, (∃ x, Announced c s n b.id x) ∨ Listed c s n b.id

section Run

variable {c : Setting} {s : State} {n : Nat} {id : NodeId} {x : String}

theorem Announced.succ (h : Announced c s n id x) : Announced c s (n + 1) id x := by
  obtain ⟨k, hk, hrest⟩ := h
  exact ⟨k, by omega, hrest⟩

theorem Listed.succ (h : Listed c s n id) : Listed c s (n + 1) id := by
  obtain ⟨k, hk, hrest⟩ := h
  exact ⟨k, by omega, hrest⟩

/-- What is newly announced is in the queue. -/
theorem announced_succ (h : Announced c s (n + 1) id x) :
    Announced c s n id x ∨ ∃ o kind signature, kind ≠ .method ∧
      .node x o (some id) kind signature ∈ (s.after c (n + 1)).queue.items := by
  obtain ⟨k, hk, hrest⟩ := h
  rcases Nat.lt_or_eq_of_le hk with hlt | rfl
  · exact .inl ⟨k, by omega, hrest⟩
  · exact .inr hrest

/-- Nothing is announced in a step that only tends to what is there. -/
theorem announced_succ_of_queue
    (hqueue : ∀ e ∈ (s.after c (n + 1)).queue.items, e.IsAnnouncement →
      e ∈ (s.after c n).queue.items)
    (h : Announced c s (n + 1) id x) : Announced c s n id x := by
  rcases announced_succ h with h | ⟨o, kind, signature, hkind, hmem⟩
  · exact h
  · exact ⟨n, by omega, o, kind, signature, hkind, hqueue _ hmem hkind⟩

theorem Ledger.start (h : s.Blank) : Ledger c s 0 := by
  have hnone : ∀ id x, ¬Announced c s 0 id x := by
    rintro id x ⟨k, hk, o, kind, signature, hkind, hmem⟩
    obtain rfl := Nat.le_zero.mp hk
    exact h.queue _ hmem hkind
  refine ⟨fun id x hx ↦ absurd hx (hnone id x), fun id x hx ↦ absurd hx (hnone id x),
    fun id _ x hx ↦ absurd hx (hnone id x), fun id x _ hx ↦ absurd hx (hnone id x),
    fun b _ x hx ↦ absurd hx (hnone b.id x), fun b hb ↦ ?_⟩
  have hempty : (s.after c 0).tree.badges = [] := by
    show s.tree.badges = []
    rw [h.tree]
    rfl
  rw [hempty] at hb
  cases hb

theorem State.Sound.lt {t : State} (h : t.Sound) {b : Badge} (hb : b ∈ t.tree.badges) :
    b.id < t.nextNode :=
  Tree.Sound.lt h b (List.mem_append_left _ hb)

/-- A step that declares nothing keeps the ledger; `t` is the state before it, but for a name that
now counts as dealt with. -/
theorem Ledger.tend {t : State} (h : Ledger c s n) (htree : t.tree = (s.after c n).tree)
    (hnode : t.nextNode = (s.after c n).nextNode) (hqueue : t.queue = (s.after c n).queue)
    (hseen : (s.after c n).seen ⊆ t.seen)
    (htells : t.nextNode < (s.after c (n + 1)).nextNode → (s.after c n).Tells)
    {gone : NodeId → Prop} (ht : t.Tends gone (s.after c (n + 1))) : Ledger c s (n + 1) := by
  have hold : ∀ {id x}, Announced c s (n + 1) id x → Announced c s n id x :=
    announced_succ_of_queue (by rw [← hqueue]; exact ht.queue)
  refine ⟨fun id x hx ↦ ?_, fun id x hx ↦ ?_, fun id id' x hx hx' ↦ ?_, fun id x y hx hy ↦ ?_,
    fun b hb x hx ↦ ?_, fun b hb ↦ ?_⟩
  · exact Nat.lt_of_lt_of_le (h.fresh id x (hold hx)) (hnode ▸ ht.next)
  · rw [ht.seen]
    exact hseen (h.seen id x (hold hx))
  · exact h.id_unique id id' x (hold hx) (hold hx')
  · exact h.name_unique id x y (hold hx) (hold hy)
  · rcases ht.new b hb with hb | hle
    · exact h.badge b (htree ▸ hb) x (hold hx)
    · rw [hnode] at hle
      exact absurd (h.fresh b.id x (hold hx)) (Nat.not_lt.mpr hle)
  · rcases ht.new b hb with hb | hle
    · rcases h.origin b (htree ▸ hb) with ⟨x, hx⟩ | hlisted
      · exact .inl ⟨x, hx.succ⟩
      · exact .inr hlisted.succ
    · -- a new node was listed, since nothing was declared
      have hlt := ht.sound.lt hb
      refine .inr ⟨n, by omega, htells (Nat.lt_of_le_of_lt hle hlt), ?_, hlt⟩
      rwa [← hnode]

/-- A step that declares an object under a new name keeps the ledger. -/
theorem Ledger.attach {kind : NodeKind} {name : String} {o : Object} (h : Ledger c s n)
    (hs : (s.after c n).Sound) (hname : name ∉ (s.after c n).seen)
    (ht : ((s.after c n).markSeen name).Attaches kind name o (s.after c (n + 1))) :
    Ledger c s (n + 1) := by
  -- what is announced now was announced before, or is the new node under its name
  have hold : ∀ {id x}, Announced c s (n + 1) id x →
      Announced c s n id x ∨ (id = (s.after c n).nextNode ∧ x = name) := by
    intro id x hx
    rcases announced_succ hx with hx | ⟨o', kind', signature, hkind, hmem⟩
    · exact .inl hx
    · rcases ht.queue _ hmem hkind with hmem | heq
      · exact .inl ⟨n, by omega, o', kind', signature, hkind, hmem⟩
      · cases heq
        exact .inr ⟨rfl, rfl⟩
  have hnew : Announced c s (n + 1) (s.after c n).nextNode name :=
    ⟨n + 1, by omega, o, kind, none, ht.kind_ne, ht.announced⟩
  have hnext : (s.after c (n + 1)).nextNode = (s.after c n).nextNode + 1 := ht.next
  have hseen : (s.after c (n + 1)).seen = (s.after c n).seen ++ [name] := ht.seen
  obtain ⟨-, b₀, hid₀, -, hqualified₀, hperm⟩ := ht.badges hs
  refine ⟨fun id x hx ↦ ?_, fun id x hx ↦ ?_, fun id id' x hx hx' ↦ ?_, fun id x y hx hy ↦ ?_,
    fun b hb x hx ↦ ?_, fun b hb ↦ ?_⟩
  · rw [hnext]
    rcases hold hx with hx | ⟨rfl, -⟩
    · exact Nat.lt_succ_of_lt (h.fresh id x hx)
    · exact Nat.lt_succ_self _
  · rw [hseen]
    rcases hold hx with hx | ⟨-, rfl⟩
    · exact List.mem_append_left _ (h.seen id x hx)
    · exact List.mem_append_right _ List.mem_cons_self
  · -- two nodes of one name: an older one would have had its name dealt with before
    rcases hold hx with hx | ⟨rfl, rfl⟩
    · rcases hold hx' with hx' | ⟨rfl, rfl⟩
      · exact h.id_unique id id' x hx hx'
      · exact absurd (h.seen id x hx) hname
    · rcases hold hx' with hx' | ⟨rfl, -⟩
      · exact absurd (h.seen id' x hx') hname
      · rfl
  · -- two names of one node: an older one would have its identity below the next
    rcases hold hx with hx | ⟨rfl, rfl⟩
    · rcases hold hy with hy | ⟨rfl, rfl⟩
      · exact h.name_unique id x y hx hy
      · exact absurd (h.fresh _ x hx) (Nat.lt_irrefl _)
    · rcases hold hy with hy | ⟨-, rfl⟩
      · exact absurd (h.fresh _ y hy) (Nat.lt_irrefl _)
      · rfl
  · rcases List.mem_cons.mp (hperm.mem_iff.mp hb) with rfl | hb
    · rcases hold hx with hx | ⟨-, rfl⟩
      · rw [hid₀] at hx
        exact absurd (h.fresh _ x hx) (Nat.lt_irrefl _)
      · exact hqualified₀
    · rcases hold hx with hx | ⟨hid, -⟩
      · exact h.badge b hb x hx
      · exact absurd hid (Nat.ne_of_lt (hs.lt hb))
  · rcases List.mem_cons.mp (hperm.mem_iff.mp hb) with rfl | hb
    · rw [hid₀]
      exact .inl ⟨name, hnew⟩
    · rcases h.origin b hb with ⟨x, hx⟩ | hlisted
      · exact .inl ⟨x, hx.succ⟩
      · exact .inr hlisted.succ

/-- The ledger of a run. -/
theorem ledger (h : s.Blank) (n : Nat) : Ledger c s n := by
  induction n with
  | zero => exact .start h
  | succ n ih =>
    have hs : (s.after c n).Sound := State.after_sound h.sound n
    have hchange : (s.after c n).Change c (s.after c (n + 1)) := State.change hs
    cases hchange with
    | quiet htakes htells ht => exact ih.tend rfl rfl rfl (List.Subset.refl _) htells ht
    | @dropped _ name _ htakes hname hv hnext ht =>
      exact ih.tend (t := (s.after c n).markSeen name) rfl rfl rfl (List.subset_append_left _ _)
        (fun hlt ↦ absurd (hnext ▸ hlt) (Nat.lt_irrefl _)) ht
    | declared htakes hname hv hann ht => exact ih.attach hs hname ht

/-- An announced node that shares its name with another announced node is that node. -/
theorem Ledger.eq_of_announced (h : Ledger c s n) (hs : (s.after c n).Sound) {m m' : Node}
    (hm : m ∈ (s.after c n).tree.walk) (hm' : m' ∈ (s.after c n).tree.walk) {x y : String}
    (hx : Announced c s n m.id x) (hy : Announced c s n m'.id y)
    (heq : m.qualifiedName = m'.qualifiedName) : m = m' := by
  have hname : m.qualifiedName = x := h.badge _ (mem_badges_of_mem_walk hm) x hx
  have hname' : m'.qualifiedName = y := h.badge _ (mem_badges_of_mem_walk hm') y hy
  have hxy : x = y := by rw [← hname, heq, hname']
  have hid : m.id = m'.id := h.id_unique _ _ y (hxy ▸ hx) hy
  exact hs.apart.eq_of_id_eq hm hm' hid

end Run

end DeclClosure.Closure

import DeclClosure.Proofs.Closure.Declarations

/-!
# What became of a name

A run takes up a name at most once, and the names that have been dealt with are those that were
taken up (`mem_seen_after_iff`). What happens then is final: either nothing is announced for the
name (`Dropped`), or a node is attached and announced (`exists_announced_or_dropped`), and never
both (`Announced.not_dropped`). An announced node stays in the tree until its own announcement is
worked off, which may take it out (`Pruned`); from then on it never comes back.

Together: a node that was announced under a name stands in the tree iff the name was taken up,
something was announced for it, and its node has not been taken out (`exists_announced_stands_iff`).
-/

namespace DeclClosure.Closure

/-- Within `n` events an object was taken up under the name. -/
def TakenUp (c : Setting) (s : State) (n : Nat) (name : String) : Prop :=
  ∃ k < n, ∃ kind o, (s.after c k).takesUp? = some (kind, name, o)

/-- Within `n` events an object was taken up under the name for which nothing was announced. -/
def Dropped (c : Setting) (s : State) (n : Nat) (name : String) : Prop :=
  ∃ k < n, ∃ kind o, (s.after c k).takesUp? = some (kind, name, o) ∧
    ∀ v, (s.after c k).verdict? c = some v → v.announces kind o = none

/-- A node with this identity stands in the tree. -/
def State.Stands (s : State) (id : NodeId) : Prop :=
  id ∈ s.tree.badges.map Badge.id

/-- Within `n` events the announcement of a scope under the name was worked off, and its node was
taken out of the tree. -/
def Pruned (c : Setting) (s : State) (n : Nat) (name : String) : Prop :=
  ∃ k < n, ∃ o id signature es,
    (s.after c k).queue.items = .node name o (some id) .scope signature :: es ∧
      (s.after c k).Stands id ∧ ¬(s.after c (k + 1)).Stands id

/-- Nothing came of the name, or what came of it was taken out of the tree. -/
def Undone (c : Setting) (s : State) (n : Nat) (name : String) : Prop :=
  Dropped c s n name ∨ Pruned c s n name

variable {c : Setting} {s : State} {n : Nat} {id : NodeId} {x : String}

theorem TakenUp.mono {m : Nat} (hle : n ≤ m) (h : TakenUp c s n x) : TakenUp c s m x := by
  obtain ⟨k, hk, hrest⟩ := h
  exact ⟨k, by omega, hrest⟩

theorem Dropped.takenUp (h : Dropped c s n x) : TakenUp c s n x := by
  obtain ⟨k, hk, kind, o, htakes, -⟩ := h
  exact ⟨k, hk, kind, o, htakes⟩

/-! ### Names are taken up once -/

/-- After a step, the names that have been dealt with are those before it and the one taken up in
it. -/
theorem State.Change.mem_seen_iff {t : State} (h : s.Change c t) :
    x ∈ t.seen ↔ x ∈ s.seen ∨ ∃ kind o, s.takesUp? = some (kind, x, o) := by
  have hmark : ∀ {kind name o}, s.takesUp? = some (kind, name, o) →
      (x ∈ (s.markSeen name).seen ↔ x ∈ s.seen ∨ ∃ kind o, s.takesUp? = some (kind, x, o)) := by
    intro kind name o htakes
    rw [htakes]
    show x ∈ s.seen ++ [name] ↔ _
    rw [List.mem_append, List.mem_singleton]
    refine or_congr_right ⟨?_, ?_⟩
    · rintro rfl
      exact ⟨kind, o, rfl⟩
    · rintro ⟨kind', o', heq⟩
      cases heq
      rfl
  cases h with
  | quiet htakes _ ht =>
    rw [ht.seen, htakes]
    refine ⟨.inl, ?_⟩
    rintro (h | ⟨kind, o, heq⟩)
    · exact h
    · cases heq
  | dropped htakes _ _ _ ht => rw [ht.seen, hmark htakes]
  | declared htakes _ _ _ ht => rw [ht.seen, hmark htakes]

/-- The names that have been dealt with are those that were at the start and those that were taken
up. -/
theorem mem_seen_after_iff (hs : s.Sound) (n : Nat) :
    x ∈ (s.after c n).seen ↔ x ∈ s.seen ∨ TakenUp c s n x :=
  State.after_iff (P := fun t ↦ x ∈ t.seen) (Q := fun t ↦ ∃ kind o, t.takesUp? = some (kind, x, o))
    (fun k ↦ (State.change (State.after_sound hs k)).mem_seen_iff) n

/-- A name is taken up in one step only. -/
theorem takesUp?_unique (hs : s.Sound) {k k' : Nat} {kind kind' : NodeKind} {o o' : Object}
    (h : (s.after c k).takesUp? = some (kind, x, o))
    (h' : (s.after c k').takesUp? = some (kind', x, o')) : k = k' := by
  have hnot : ∀ {k k' kind kind' o o'}, (s.after c k).takesUp? = some (kind, x, o) →
      (s.after c k').takesUp? = some (kind', x, o') → ¬k < k' := fun {k _ kind _ o _} h h' hlt ↦
    State.not_mem_seen_of_takesUp? h' ((mem_seen_after_iff hs _).mpr (.inr ⟨k, hlt, kind, o, h⟩))
  exact Nat.le_antisymm (Nat.le_of_not_lt (hnot h' h)) (Nat.le_of_not_lt (hnot h h'))

/-! ### Dropped or announced -/

/-- For a name that was taken up, a node was announced or nothing was. -/
theorem exists_announced_or_dropped (hs : s.Sound) (h : TakenUp c s n x) :
    (∃ id, Announced c s n id x) ∨ Dropped c s n x := by
  obtain ⟨k, hk, kind, o, htakes⟩ := h
  have hchange : (s.after c k).Change c (s.after c (k + 1)) := State.change (State.after_sound hs k)
  rcases hchange.of_takesUp? htakes with ⟨hdrop, -⟩ | ⟨v, kind', p, -, -, ht⟩
  · exact .inr ⟨k, hk, kind, o, htakes, hdrop⟩
  · exact .inl ⟨_, k + 1, hk, _, _, _, ht.kind_ne, ht.announced⟩

/-- A pending announcement of a declaration comes from a step that took up an object under the name;
the verdict was to announce just this, and the announced node got the identity that was next. -/
theorem exists_declaring_of_mem (hb : s.Blank) {node : Option NodeId} {kind : NodeKind} {o : Object}
    {signature : Option Signature} (hkind : kind ≠ .method)
    (h : .node x o node kind signature ∈ (s.after c n).queue.items) :
    ∃ k < n, ∃ found p v, (s.after c k).takesUp? = some (found, x, p) ∧
      (s.after c k).verdict? c = some v ∧ v.announces found p = some (kind, o) ∧
        signature = none ∧ node = some (s.after c k).nextNode ∧
          (s.after c k).nextNode < (s.after c (k + 1)).nextNode := by
  induction n with
  | zero => exact absurd hkind (hb.queue _ h)
  | succ n ih =>
    have hearlier : .node x o node kind signature ∈ (s.after c n).queue.items →
        ∃ k < n + 1, ∃ found p v, (s.after c k).takesUp? = some (found, x, p) ∧
          (s.after c k).verdict? c = some v ∧ v.announces found p = some (kind, o) ∧
            signature = none ∧ node = some (s.after c k).nextNode ∧
              (s.after c k).nextNode < (s.after c (k + 1)).nextNode := fun h ↦ by
      obtain ⟨k, hk, hrest⟩ := ih h
      exact ⟨k, by omega, hrest⟩
    have hchange : (s.after c n).Change c (s.after c (n + 1)) :=
      State.change (State.after_sound hb.sound n)
    -- only a declaring step announces anything, and what it announces is what it took up
    cases hchange with
    | quiet _ _ ht => exact hearlier (ht.queue _ h hkind)
    | dropped _ _ _ _ ht => exact hearlier (ht.queue _ h hkind)
    | declared htakes _ hv hann ht =>
      rcases ht.queue _ h hkind with hmem | heq
      · exact hearlier hmem
      · cases heq
        refine ⟨n, by omega, _, _, _, htakes, hv, hann, rfl, rfl, ?_⟩
        rw [ht.next]
        exact Nat.lt_succ_self _

theorem exists_declaring (hb : s.Blank) {kind : NodeKind} {o : Object} {signature : Option Signature}
    (hkind : kind ≠ .method)
    (h : .node x o (some id) kind signature ∈ (s.after c n).queue.items) :
    ∃ k < n, ∃ found p v, (s.after c k).takesUp? = some (found, x, p) ∧
      (s.after c k).verdict? c = some v ∧ v.announces found p = some (kind, o) ∧
        signature = none ∧ id = (s.after c k).nextNode ∧ id < (s.after c (k + 1)).nextNode := by
  obtain ⟨k, hk, found, p, v, htakes, hv, hann, hnone, hid, hlt⟩ :=
    exists_declaring_of_mem hb hkind h
  obtain rfl := Option.some.inj hid
  exact ⟨k, hk, found, p, v, htakes, hv, hann, hnone, rfl, hlt⟩

/-- What is announced was taken up in one of the steps; the verdict on it was to announce something,
and the announced node got the identity that was next. -/
theorem Announced.exists_verdict (hb : s.Blank) (h : Announced c s n id x) :
    ∃ k < n, ∃ kind o v, (s.after c k).takesUp? = some (kind, x, o) ∧
      (s.after c k).verdict? c = some v ∧ v.announces kind o ≠ none ∧
        id = (s.after c k).nextNode ∧ id < (s.after c (k + 1)).nextNode := by
  obtain ⟨m, hm, o, kind, signature, hkind, hmem⟩ := h
  obtain ⟨k, hk, found, p, v, htakes, hv, hann, -, hid⟩ := exists_declaring hb hkind hmem
  refine ⟨k, by omega, found, p, v, htakes, hv, ?_, hid⟩
  rw [hann]
  exact Option.some_ne_none _

/-- If a node was announced under a name, the name was not dropped. -/
theorem Announced.not_dropped (hb : s.Blank) (h : Announced c s n id x) : ¬Dropped c s n x := by
  rintro ⟨k, -, kind, o, htakes, hnone⟩
  obtain ⟨k', -, kind', o', v, htakes', hv, hann, -⟩ := h.exists_verdict hb
  obtain rfl := takesUp?_unique hb.sound htakes htakes'
  rw [htakes] at htakes'
  cases htakes'
  exact hann (hnone v hv)

theorem nextNode_mono (hs : s.Sound) {k m : Nat} (hle : k ≤ m) :
    (s.after c k).nextNode ≤ (s.after c m).nextNode := by
  induction m, hle using Nat.le_induction with
  | base => exact Nat.le_refl _
  | succ m _ ih => exact Nat.le_trans ih (State.change (State.after_sound hs m)).next_le

/-- An identity is given out in one step only. -/
theorem step_unique (hs : s.Sound) {k m : Nat} (hle : (s.after c k).nextNode ≤ id)
    (hlt : id < (s.after c (k + 1)).nextNode) (hle' : (s.after c m).nextNode ≤ id)
    (hlt' : id < (s.after c (m + 1)).nextNode) : k = m := by
  have hnot : ∀ {i j : Nat}, id < (s.after c (i + 1)).nextNode → (s.after c j).nextNode ≤ id →
      ¬i < j := fun hlt hle hij ↦
    Nat.lt_irrefl _ (Nat.lt_of_lt_of_le hlt (Nat.le_trans (nextNode_mono hs hij) hle))
  exact Nat.le_antisymm (Nat.le_of_not_lt (hnot hlt' hle)) (Nat.le_of_not_lt (hnot hlt hle'))

theorem State.takesUp?_of_tells (h : s.Tells) : s.takesUp? = none := by
  obtain ⟨name, o, node, kind, signature, es, hcons⟩ := h
  rw [State.takesUp?_of_cons hcons]
  rfl

/-- An announced node was not listed: in each step, nodes come into being in one of the two ways. -/
theorem Announced.not_listed (hb : s.Blank) (h : Announced c s n id x) {m : Nat} :
    ¬Listed c s m id := by
  rintro ⟨k', -, htells, hle, hlt⟩
  obtain ⟨k, -, kind, o, v, htakes, -, -, hid, hnext⟩ := h.exists_verdict hb
  -- an identity is given out once, so both would have to happen in one step
  obtain rfl := step_unique hb.sound (Nat.le_of_eq hid.symm) hnext hle hlt
  rw [State.takesUp?_of_tells htells] at htakes
  cases htakes

/-! ### Standing and being taken out -/

theorem State.stands_of_mem_walk {m : Node} (hm : m ∈ s.tree.walk) : s.Stands m.id :=
  List.mem_map_of_mem (Tree.mem_badges_of_mem_walk hm)

theorem State.exists_of_stands (h : s.Stands id) : ∃ m ∈ s.tree.walk, m.id = id := by
  obtain ⟨b, hb, rfl⟩ := List.mem_map.mp h
  obtain ⟨m, hm, rfl⟩ := Tree.mem_badges_iff.mp hb
  exact ⟨m, hm, rfl⟩

theorem State.Sound.lt_of_stands (hs : s.Sound) (h : s.Stands id) : id < s.nextNode := by
  obtain ⟨b, hb, rfl⟩ := List.mem_map.mp h
  exact hs.lt hb

/-- A node that stands in the tree is known as the one in the walk. -/
theorem State.Sound.mem_walk (hs : s.Sound) {m : Node} (hknown : s.tree.node? m.id = some m)
    (h : s.Stands m.id) : m ∈ s.tree.walk := by
  obtain ⟨k, hk, hid⟩ := State.exists_of_stands h
  have hnode := hs.apart.node?_of_mem hk
  rw [hid, hknown] at hnode
  cases hnode
  exact hk

theorem State.Tends.stands {t : State} {gone : NodeId → Prop} (h : s.Tends gone t)
    (hid : s.Stands id) :
    t.Stands id ∨ gone id := by
  obtain ⟨b, hb, rfl⟩ := List.mem_map.mp hid
  exact (h.kept b hb).imp_left List.mem_map_of_mem

/-- A node that stands in the tree has done so, as what it is, ever since it got its identity. -/
theorem mem_badges_of_le (hs : s.Sound) {b : Badge} {k : Nat} (hid : b.id < (s.after c k).nextNode)
    (hle : k ≤ n) (h : b ∈ (s.after c n).tree.badges) : b ∈ (s.after c k).tree.badges := by
  induction n, hle using Nat.le_induction with
  | base => exact h
  | succ n hle ih =>
    have hsound := State.after_sound (c := c) hs n
    have hchange : (s.after c n).Change c (s.after c (n + 1)) := State.change hsound
    refine ih ((hchange.new hsound h).resolve_right fun hnew ↦ ?_)
    exact Nat.lt_irrefl _ (Nat.lt_of_lt_of_le hid (Nat.le_trans (nextNode_mono hs hle) hnew))

theorem stands_of_le (hs : s.Sound) {k : Nat} (hid : id < (s.after c k).nextNode) (hle : k ≤ n)
    (h : (s.after c n).Stands id) : (s.after c k).Stands id := by
  obtain ⟨b, hb, rfl⟩ := List.mem_map.mp h
  exact List.mem_map_of_mem (mem_badges_of_le hs hid hle hb)

/-- A node that is gone does not come back. -/
theorem not_stands_of_le (hs : s.Sound) {k : Nat} (hid : id < (s.after c k).nextNode)
    (hgone : ¬(s.after c k).Stands id) (hle : k ≤ n) :
    id < (s.after c n).nextNode ∧ ¬(s.after c n).Stands id :=
  ⟨Nat.lt_of_lt_of_le hid (nextNode_mono hs hle), fun h ↦ hgone (stands_of_le hs hid hle h)⟩

/-- A node that is announced for the first time stands in the tree. -/
theorem stands_of_announced_succ (hb : s.Blank) (h : Announced c s (n + 1) id x)
    (hnew : ¬Announced c s n id x) : (s.after c (n + 1)).Stands id := by
  have hsound := State.after_sound (c := c) hb.sound n
  have hchange : (s.after c n).Change c (s.after c (n + 1)) := State.change hsound
  cases hchange with
  | quiet _ _ ht => exact absurd (announced_succ_of_queue ht.queue h) hnew
  | dropped _ _ _ _ ht => exact absurd (announced_succ_of_queue ht.queue h) hnew
  | declared _ _ _ _ ht =>
    rcases announced_succ h with h | ⟨o, kind, signature, hkind, hmem⟩
    · exact absurd h hnew
    rcases ht.queue _ hmem hkind with hmem | heq
    · exact absurd ⟨n, by omega, o, kind, signature, hkind, hmem⟩ hnew
    · cases heq
      obtain ⟨-, b₀, hid₀, -, -, hperm⟩ := ht.badges hsound
      exact List.mem_map.mpr ⟨b₀, hperm.mem_iff.mpr List.mem_cons_self, hid₀⟩

/-- An announced node stands in the tree unless it was taken out when its announcement was worked
off. -/
theorem Announced.stands_or_pruned (hb : s.Blank) (h : Announced c s n id x) :
    (s.after c n).Stands id ∨ Pruned c s n x := by
  induction n with
  | zero =>
    obtain ⟨k, hk, o, kind, signature, hkind, hmem⟩ := h
    obtain rfl := Nat.le_zero.mp hk
    exact absurd hkind (hb.queue _ hmem)
  | succ n ih =>
    by_cases hearlier : Announced c s n id x
    · rcases ih hearlier with hstands | ⟨k, hk, hrest⟩
      · -- a node that goes is the one whose announcement is worked off, and that bears its name
        by_cases hnow : (s.after c (n + 1)).Stands id
        · exact .inl hnow
        obtain ⟨b, hmem, rfl⟩ := List.mem_map.mp hstands
        have hsound := State.after_sound (c := c) hb.sound n
        have hchange : (s.after c n).Change c (s.after c (n + 1)) := State.change hsound
        rcases hchange.kept hsound hmem with hmem | ⟨name, o, signature, es, hitems⟩
        · exact absurd (List.mem_map_of_mem hmem) hnow
        have hann : Announced c s n b.id name :=
          ⟨n, by omega, o, .scope, signature, nofun, hitems ▸ List.mem_cons_self⟩
        obtain rfl := (ledger hb n).name_unique _ _ _ hann hearlier
        exact .inr ⟨n, by omega, o, b.id, signature, es, hitems, hstands, hnow⟩
      · exact .inr ⟨k, by omega, hrest⟩
    · exact .inl (stands_of_announced_succ hb h hearlier)

/-- A node that was announced under a name does not stand in the tree if the node of that name was
taken out. -/
theorem Announced.not_stands (hb : s.Blank) (h : Announced c s n id x) (hpruned : Pruned c s n x) :
    ¬(s.after c n).Stands id := by
  obtain ⟨k, hk, o, id', signature, es, hitems, hstands, hgone⟩ := hpruned
  have hann : Announced c s n id' x :=
    ⟨k, by omega, o, .scope, signature, nofun, hitems ▸ List.mem_cons_self⟩
  obtain rfl := (ledger hb n).id_unique _ _ _ h hann
  obtain ⟨b, hmem, rfl⟩ := List.mem_map.mp hstands
  have hsound := State.after_sound (c := c) hb.sound k
  have hlt : b.id < (s.after c (k + 1)).nextNode :=
    Nat.lt_of_lt_of_le (hsound.lt hmem) (State.change hsound).next_le
  exact (not_stands_of_le hb.sound hlt hgone hk).2

theorem Undone.takenUp (hb : s.Blank) (h : Undone c s n x) : TakenUp c s n x := by
  rcases h with hdropped | ⟨k, hk, o, id, signature, es, hitems, -⟩
  · exact hdropped.takenUp
  · have hann : Announced c s k id x :=
      ⟨k, by omega, o, .scope, signature, nofun, hitems ▸ List.mem_cons_self⟩
    obtain ⟨j, hj, kind, p, v, htakes, -⟩ := hann.exists_verdict hb
    exact ⟨j, by omega, kind, p, htakes⟩

/-- A node that was announced under the name stands in the tree iff the name was taken up and not
undone afterwards. -/
theorem exists_announced_stands_iff (hb : s.Blank) (n : Nat) :
    (∃ id, Announced c s n id x ∧ (s.after c n).Stands id) ↔
      TakenUp c s n x ∧ ¬Undone c s n x := by
  constructor
  · rintro ⟨id, hann, hstands⟩
    obtain ⟨k, hk, kind, o, v, htakes, -⟩ := hann.exists_verdict hb
    refine ⟨⟨k, hk, kind, o, htakes⟩, ?_⟩
    rintro (hdropped | hpruned)
    · exact hann.not_dropped hb hdropped
    · exact hann.not_stands hb hpruned hstands
  · rintro ⟨htaken, hundone⟩
    rcases exists_announced_or_dropped hb.sound htaken with ⟨id, hann⟩ | hdropped
    · rcases hann.stands_or_pruned hb with hstands | hpruned
      · exact ⟨id, hann, hstands⟩
      · exact absurd (.inr hpruned) hundone
    · exact absurd (.inl hdropped) hundone

end DeclClosure.Closure

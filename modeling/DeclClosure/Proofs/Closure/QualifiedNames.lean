import DeclClosure.Proofs.Closure.Dispatches
import DeclClosure.Proofs.Tree.Headlines

/-!
# Listings keep qualified names

A declaration is put below the nearest scope that the index has, which may be several segments away,
and listeners name what they list after the announcement of the scope and not after the scope. Names
in a listing are relative to the scope above. They fit together all the same: an announced node bears
the name under which it is announced (`State.Fitting`), so in every tree of a run nodes lie by name in
the scopes that they stand below (`State.Fitting.next`), and the names in the listing can be put
together again (`listing_qualifies`).

Here a run may be more than one compilation: symbols may be put into the queue at any time
(`State.Reached`).
-/

namespace DeclClosure.Closure

/-- The states that are reached from a state without events, when events are worked off and others,
which announce no declarations, are put into the queue in between. -/
inductive State.Reached (c : Setting) : State → Prop
  | start (w : World) (t : Trackers) : Reached c (start w t [])
  | push {s : State} {e : Event} : Reached c s → ¬e.IsAnnouncement → Reached c (s.push e)
  | note {s : State} (n : Note) : Reached c s → Reached c (s.note n)
  | next {s : State} : Reached c s → Reached c (s.next c)

variable {c : Setting} {a : Announcement} {s t : State}

namespace State.Reached

theorem after (h : s.Reached c) (n : Nat) : (s.after c n).Reached c :=
  State.after_induction h (fun _ ↦ next) n

/-- A compilation leads to such a state, whether it succeeds or fails. -/
theorem compile (h : s.Reached c) : (Run.compile c s).2.Reached c := by
  obtain ⟨n, x, -, ⟨-, -, hcompile⟩ | ⟨f, -, hcompile⟩⟩ := Run.exists_compile c s
  · rw [hcompile]
    exact ((h.note _).after n).note _
  · rw [hcompile]
    exact (h.note _).after n

/-- Seeds may be put into the queue before every compilation. -/
theorem seed (h : s.Reached c) (names : List String) : (Run.seed names s).2.Reached c := by
  induction names generalizing s with
  | nil => exact h
  | cons x names ih => exact ih (h.push (e := .symbol x) id)

/-- A compilation may start from seeds. -/
theorem seeds (c : Setting) (w : World) (t : Trackers) (names : List String) :
    (State.start w t names).Reached c := by
  induction names using List.reverseRecOn with
  | nil => exact start w t
  | append_singleton names x ih =>
    have hpush : State.start w t (names ++ [x]) = (State.start w t names).push (.symbol x) := by
      simp only [State.start, List.map_append, List.map_cons, List.map_nil]
      rfl
    rw [hpush]
    exact ih.push id

end State.Reached

/-! ### What is below an announced scope -/

/-- A node bears a name, wherever it stands in the tree. -/
def State.Bears (s : State) (id : NodeId) (name : String) : Prop :=
  id < s.nextNode ∧ ∀ b ∈ s.tree.badges, b.id = id → b.qualifiedName = name

/-- An announced scope bears the name of the announcement, in a tree that is nested. -/
structure Announcement.Names (a : Announcement) (s : State) : Prop where
  /-- The tree is sound. -/
  sound : s.Sound
  /-- The tree is nested. -/
  nested : s.tree.Nested
  /-- The name is not empty. -/
  proper : a.kind.isScope → a.name ≠ ""
  /-- The scope bears it. -/
  bears : a.kind.isScope → ∀ id, a.node = some id → s.Bears id a.name

/-- Nodes that are kept bear the same names, and new ones have other identities. -/
theorem State.Bears.keep {id : NodeId} {name : String} (h : s.Bears id name)
    (hnext : s.nextNode ≤ t.nextNode)
    (hnew : ∀ b ∈ t.tree.badges, b ∈ s.tree.badges ∨ s.nextNode ≤ b.id) : t.Bears id name := by
  refine ⟨Nat.lt_of_lt_of_le h.1 hnext, fun b hb hid ↦ ?_⟩
  rcases hnew b hb with hb | hle
  · exact h.2 b hb hid
  · rw [hid] at hle
    exact absurd h.1 (Nat.not_lt.mpr hle)

/-- A node that was added bears its name, since no other one has its identity. -/
theorem State.bears_of_added {b₀ : Badge} (hs : s.Sound) (hid : b₀.id = s.nextNode)
    (hnext : s.nextNode < t.nextNode)
    (hnew : ∀ b ∈ t.tree.badges, b = b₀ ∨ b ∈ s.tree.badges) :
    t.Bears s.nextNode b₀.qualifiedName := by
  refine ⟨hnext, fun b hb hbid ↦ ?_⟩
  rcases hnew b hb with rfl | hb
  · rfl
  · have hlt : b.id < s.nextNode := Tree.Sound.lt hs b (List.mem_append_left _ hb)
    exact absurd hbid hlt.ne

theorem State.Tends.bears {gone : NodeId → Prop} {id : NodeId} {name : String} (h : s.Tends gone t)
    (hs : s.Bears id name) : t.Bears id name :=
  hs.keep h.next h.new

namespace Announcement.Names

/-- A leaf is listed below the announced scope, in which it lies. -/
theorem addUnder (h : a.Names s) {scope n : Node} (hkind : a.kind.isScope)
    (hshows : a.Shows s scope) (hid : n.id = s.nextNode) (hc : n.children = [])
    (hlies : n.badge.LiesIn a.name) :
    (s.tree.addUnder scope.id n).Nested := by
  refine h.nested.addUnder h.sound hshows.known hshows.isScope hid hc fun b hb hbid ↦ ?_
  have hname := (h.bears hkind scope.id hshows.id).2 b hb hbid
  -- the badge is that of the scope, and a scope has no other name
  have hbadge : b = scope.badge := h.sound.apart.badge_eq (List.mem_append_left _ hb)
    (Tree.mem_badges_of_node? hshows.known) hbid
  have hscope := hshows.isScope
  subst hbadge
  cases scope with
  | leaf => cases hscope
  | scope hd f cs =>
    have hname : hd.name = a.name := hname
    show n.badge.LiesIn hd.name
    rwa [hname]

theorem act (h : a.Names s) (hact : Act c a s t) : a.Names t := by
  have htends := hact.tends h.sound
  refine ⟨htends.sound, ?_, h.proper, fun hkind id hid ↦ htends.bears (h.bears hkind id hid)⟩
  cases hact with
  | learn _ | keep _ | want _ _ | found _ _ _ _ | target _ _ _ => exact h.nested
  | dress hid hf => exact h.nested.modify h.sound hf.dresses _
  | record hcomp hid hname hw hf => exact h.nested.modify h.sound hf.dresses _
  | @list scope name d hkind hshows hd =>
    refine h.addUnder (hkind ▸ rfl) hshows rfl rfl ?_
    have hname : (Node.leaf ⟨s.nextNode, Name.within a.name name, []⟩ d).qualifiedName =
        Name.within a.name name := by
      cases d with
      | method f => exact hd.elim
      | _ => rfl
    exact .inr ⟨hname, name, rfl⟩
  | @listMethod scope name f signature hkind hshows hf =>
    refine h.addUnder hkind hshows rfl rfl (.inl ?_)
    obtain ⟨-, howner⟩ := hf
    have hne : f.owner ≠ "" := howner ▸ h.proper hkind
    have hname : (Node.leaf ⟨s.nextNode, name, []⟩ (.method f)).qualifiedName =
        Name.within f.owner name := if_neg hne
    rwa [howner] at hname
  | @prune scope hprunes hkind hshows hempty hpayload =>
    obtain ⟨-, hm | hm⟩ := Tree.mem_walk_of_node? hshows.known
    · exact h.nested.remove h.sound hm (Node.isEmpty_iff.mp hempty).1
    · have hsame : (s.tree.remove scope.id).2 = s.tree := by
        rw [Tree.remove_of_not_mem (h.sound.apart.not_mem_badges hm)]
      simp only [State.prune]
      rw [hsame]
      exact h.nested

theorem acts (h : a.Names s) (hacts : Acts c a s t) : a.Names t := by
  induction hacts with
  | refl => exact h
  | tail _ hact ih => exact ih.act hact

end Announcement.Names

/-! ### Runs -/

/-- No object is taken up under an empty name. -/
theorem State.ne_empty_of_takesUp? {kind : NodeKind} {name : String} {o : Object}
    (h : s.takesUp? = some (kind, name, o)) : name ≠ "" := by
  rintro rfl
  obtain ⟨-, -, -, -, hskip⟩ := State.exists_cons_of_takesUp? h
  exact (State.skipReason?_eq_none_iff.mp hskip).1 rfl

/-- The names of all nodes fit the places where they stand, and the names under which scopes are
announced. -/
structure State.Fitting (s : State) : Prop where
  /-- The tree is sound. -/
  sound : s.Sound
  /-- The tree is nested. -/
  nested : s.tree.Nested
  /-- Every callable has an owner. -/
  owners : s.tree.Everywhere fun m ↦ ∀ owner kind, m.callable? = some (owner, kind) → owner ≠ ""
  /-- An announced declaration bears the name of the announcement. -/
  announced : ∀ x o node kind signature, .node x o node kind signature ∈ s.queue.items →
    kind ≠ .method → x ≠ "" ∧ ∀ id, node = some id → s.Bears id x

namespace State.Fitting

/-- What is left alone by events that announce no declarations. -/
theorem of_tree_eq (h : s.Fitting) (htree : t.tree = s.tree) (hnext : t.nextNode = s.nextNode)
    (hqueue : ∀ e ∈ t.queue.items, e.IsAnnouncement → e ∈ s.queue.items) : t.Fitting := by
  refine ⟨?_, htree ▸ h.nested, htree ▸ h.owners, fun x o node kind signature hmem hkind ↦ ?_⟩
  · simp only [Sound]
    rw [htree, hnext]
    exact h.sound
  · simp only [Bears]
    rw [htree, hnext]
    exact h.announced x o node kind signature (hqueue _ hmem hkind) hkind

/-- Listeners announced a node that bears the name of the announcement. -/
theorem names (h : s.Fitting) {x : String} {o : Object} {node : Option NodeId} {kind : NodeKind}
    {signature : Option Signature} {es : List Event}
    (hcons : s.queue.items = .node x o node kind signature :: es) :
    (Announcement.mk x o node kind signature).Names s.popped := by
  have hmem : Event.node x o node kind signature ∈ s.queue.items := hcons ▸ List.mem_cons_self
  have hne : kind.isScope → kind ≠ .method := NodeKind.ne_method
  exact ⟨h.sound, h.nested, fun hscope ↦ (h.announced _ _ _ _ _ hmem (hne hscope)).1,
    fun hscope ↦ (h.announced _ _ _ _ _ hmem (hne hscope)).2⟩

/-- The tree stays nested: a verdict adds a node under its full name, and what listeners list lies
in the announced scope. -/
theorem nested_next (h : s.Fitting) : (s.next c).tree.Nested := by
  cases State.turn c s with
  | idle w _ _ hnext | resolved w _ _ _ _ _ hnext | undecided w _ _ _ hnext =>
    rw [hnext]
    exact h.nested
  | told _ hcons hacts => exact ((h.names hcons).acts hacts).nested
  | @enacted kind name o v w _ _ _ _ hnext =>
    rw [hnext]
    rcases ((s.popped.markSeen name).learn w).tree_enact kind name o v with
      htree | ⟨m, hid, -, hstem, -, hchildren, htree⟩
    · rw [htree]
      exact h.nested
    · rw [htree]
      refine h.nested.add h.sound hid hchildren (Node.qualifiedName_of_stem_ne_member ?_)
      intro hmember
      rw [hmember] at hstem
      exact v.stem?_ne_member hstem

/-- Callables that are listed take the name of the announced scope for that of their owner. -/
theorem owners_next (h : s.Fitting) :
    (s.next c).tree.Everywhere fun m ↦
      ∀ owner kind, m.callable? = some (owner, kind) → owner ≠ "" := by
  refine State.everywhere_next (fun _ _ _ _ h ↦ h) ?_ ?_ h.owners
  · intro x o node kind signature es hcons hacts
    refine hacts.everywhere (fun _ _ _ _ h ↦ h) ?_ ?_ h.owners
    · intro _ _ f m _ _ _ _ hf _ hm owner kind hcallable
      rw [hf.callable] at hcallable
      exact hm owner kind hcallable
    · intro _ _ name d _ hd owner kind hcallable
      cases hd with
      | member _ hmember _ =>
        rw [Node.callable?_of_isMember hmember] at hcallable
        cases hcallable
      | @callable f _ hscope _ howner _ =>
        obtain ⟨rfl, -⟩ : f.owner = owner ∧ f.kind = kind := Prod.mk.inj (Option.some.inj hcallable)
        rw [howner]
        exact (h.names hcons).proper hscope
  · -- what a verdict makes is no callable
    intro _ _ _ v _ _ m _ _ hstem _ owner kind hcallable
    rw [Node.stem_of_callable (Option.isSome_of_eq_some hcallable)] at hstem
    exact absurd hstem v.stem?_ne_member

/-- What is announced bears its name from the start, and goes on to bear it. -/
theorem announced_next (h : s.Fitting) {x : String} {o : Object} {node : Option NodeId}
    {kind : NodeKind} {signature : Option Signature}
    (hmem : .node x o node kind signature ∈ (s.next c).queue.items) (hkind : kind ≠ .method) :
    x ≠ "" ∧ ∀ id, node = some id → (s.next c).Bears id x := by
  have htends : ∀ {u : State}, u.nextNode = s.nextNode → u.tree = s.tree →
      u.queue = s.queue → u.Tends s.Shows (s.next c) →
        x ≠ "" ∧ ∀ id, node = some id → (s.next c).Bears id x := by
    intro u hnext htree hqueue ht
    have hold := h.announced x o node kind signature (hqueue ▸ ht.queue _ hmem hkind) hkind
    refine ⟨hold.1, fun id hid ↦ ht.bears ?_⟩
    simp only [Bears]
    rw [hnext, htree]
    exact hold.2 id hid
  cases State.change (c := c) h.sound with
  | quiet _ _ ht => exact htends rfl rfl rfl ht
  | @dropped _ name _ _ _ _ _ ht => exact htends (u := s.markSeen name) rfl rfl rfl ht
  | @declared _ _ name _ _ _ htakes _ _ _ ht =>
    obtain ⟨-, b₀, hid₀, -, hname₀, hperm⟩ := ht.badges (s := s.markSeen name) h.sound
    have hnew : ∀ b ∈ (s.next c).tree.badges, b = b₀ ∨ b ∈ s.tree.badges := fun b hb ↦
      List.mem_cons.mp (hperm.mem_iff.mp hb)
    have hnext : s.nextNode < (s.next c).nextNode := ht.next ▸ Nat.lt_succ_self _
    rcases ht.queue _ hmem hkind with hold | hannounced
    · -- the new node has another identity than those that were announced before
      have hold := h.announced x o node kind signature hold hkind
      refine ⟨hold.1, fun id hid ↦ (hold.2 id hid).keep hnext.le fun b hb ↦ ?_⟩
      exact (hnew b hb).symm.imp_right fun heq ↦ (heq ▸ hid₀).ge
    · cases hannounced
      refine ⟨State.ne_empty_of_takesUp? htakes, fun id hid ↦ ?_⟩
      obtain rfl : s.nextNode = id := Option.some.inj hid
      exact hname₀ ▸ State.bears_of_added h.sound hid₀ hnext hnew

theorem next (h : s.Fitting) : (s.next c).Fitting :=
  ⟨(State.change h.sound).sound h.sound, h.nested_next, h.owners_next,
    fun _ _ _ _ _ hmem hkind ↦ h.announced_next hmem hkind⟩

end State.Fitting

/-- Names fit the places where nodes stand, whatever was put into the queue. -/
theorem State.Reached.fitting (h : s.Reached c) : s.Fitting := by
  induction h with
  | start w t => exact ⟨Tree.sound_empty _, .empty, .empty, nofun⟩
  | push _ he ih =>
    refine ih.of_tree_eq rfl rfl fun e hmem hann ↦ ?_
    rcases List.mem_append.mp hmem with hmem | hmem
    · exact hmem
    · exact absurd (List.mem_singleton.mp hmem ▸ hann) he
  | note n _ ih => exact ih.of_tree_eq rfl rfl fun _ hmem _ ↦ hmem
  | next _ ih => exact ih.next

/-- **Listings keep qualified names.** Let events be worked off, in as many compilations as there may
be, from a state in which nothing was declared. Then one comes down to every node of the tree from a
root, and on every such way the listing has a line for each node, in the same block and in this order.
The names that these lines declare, put together with points, are the qualified name of the node to
which the way leads. -/
theorem listing_qualifies (h : s.Reached c) :
    (∀ m ∈ s.tree.walk, ∃ names lines, s.tree.Declared names lines m) ∧
      ∀ names lines m, s.tree.Declared names lines m →
        ".".intercalate names = m.qualifiedName ∧ List.Forall₂ LineNames names lines ∧
          ∃ block before after, s.tree.listing = before ++ "\n".intercalate block ++ after ∧
            lines.Sublist block := by
  refine ⟨fun m hm ↦ Tree.Declared.exists_of_mem_walk hm, fun names lines m hm ↦
    ⟨hm.intercalate_names h.fitting.nested fun d hd f hf ↦ ?_, hm.lineNames, hm.listed⟩⟩
  exact h.fitting.owners.walk d hd f.owner f.kind (by rw [Node.callable?, hf]; rfl)

set_option maxRecDepth 100000 in
/-- A method of a class of a package is read in two lines, the first of which has two segments. -/
theorem listing_of_served :
    ∃ t, t.Reached servedSetting ∧ (∃ u, Run.compile servedSetting
        (State.start (State.startOf servedUniverse []).world {} ["pkg.C"]) = (.ok u, t)) ∧
      ∃ lines m, t.tree.Declared ["pkg.C", "run"] lines m ∧ m.id = 1 ∧
        m.qualifiedName = "pkg.C.run" ∧ List.Forall₂ LineNames ["pkg.C", "run"] lines := by
  have hsteps : ∀ k < 4, (servedOutset.after servedSetting k).advances servedSetting := by
    decide +kernel
  have hnil : (servedOutset.after servedSetting 4).queue.items = [] :=
    List.isEmpty_iff.mp (by decide +kernel)
  have hway : ∃ p ∈ (servedOutset.after servedSetting 4).tree.roots, p.written none = "pkg.C" ∧
      ∃ d ∈ p.children, d.id = 1 ∧ d.written (some p.name) = "run" := by decide +kernel
  rw [servedOutset, State.outset] at hsteps hnil hway
  obtain ⟨t, ht, htree⟩ := Run.exists_compile_of_advances hsteps hnil
  have hreached : t.Reached servedSetting := by
    have h := (State.Reached.seeds servedSetting (State.startOf servedUniverse []).world {}
      ["pkg.C"]).compile
    rwa [ht] at h
  rw [← htree] at hway
  obtain ⟨p, hp, hpwritten, d, hd, hid, hdwritten⟩ := hway
  have hdeclared := (Tree.Declared.root hp).child hd
  rw [hpwritten, hdwritten] at hdeclared
  obtain ⟨hname, hlines, -⟩ := (listing_qualifies hreached).2 _ _ _ hdeclared
  exact ⟨t, hreached, ⟨(), ht⟩, _, d, hdeclared, hid, hname.symm, hlines⟩

end DeclClosure.Closure

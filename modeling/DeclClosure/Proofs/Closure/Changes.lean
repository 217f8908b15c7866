import DeclClosure.Proofs.Closure.Steps

/-!
# What a step does to the tree

A step either takes up an object under a new name (`State.takesUp?`), and then its verdict decides
whether one node is attached and announced (`State.Attaches`), or it leaves the names that were
dealt with as they are and announces nothing but callables (`State.Tends`). In the second case it
may list new members below the node whose announcement is worked off, and may take that node out of
the tree; every other node stays where it is.

Both rest on `State.Turn`, which says case by case what a step makes of the state, with the conditions
under which it does so. Whatever holds of all states of a run is shown along its cases.

Trees stay sound all along (`State.after_sound`), and whatever a step does, identities are given out
in their order, no node goes unless its announcement is worked off, and all that is new has a new
identity (`State.Change.next_le`, `State.Change.kept`, `State.Change.new`).
-/

namespace DeclClosure.Closure

/-- The event announces a declaration that is no callable. -/
def Event.IsAnnouncement : Event → Prop
  | .node _ _ _ kind _ => kind ≠ .method
  | _ => False

/-- The tree is sound below the identity of the next node. -/
def State.Sound (s : State) : Prop :=
  s.tree.Sound s.nextNode

theorem State.Sound.apart {s : State} (h : s.Sound) : s.tree.Apart :=
  Tree.Sound.toApart h

/-- The oldest event announces a scope of the unit with this identity. -/
def State.Shows (s : State) (id : NodeId) : Prop :=
  ∃ name o signature es, s.queue.items = .node name o (some id) .scope signature :: es

/-- The oldest event announces a node. -/
def State.Tells (s : State) : Prop :=
  ∃ name o node kind signature es, s.queue.items = .node name o node kind signature :: es

/-- Nothing has been declared from `s` to `t`: names that have been dealt with are the same, new
nodes are members that listeners have listed, and the nodes that were there are kept but for those
that may have gone. -/
structure State.Tends (gone : NodeId → Prop) (s t : State) : Prop where
  /-- The tree is sound. -/
  sound : t.Sound
  /-- Identities are given out in their order. -/
  next : s.nextNode ≤ t.nextNode
  /-- No name has been dealt with. -/
  seen : t.seen = s.seen
  /-- Nodes are kept unless they may have gone. -/
  kept : ∀ b ∈ s.tree.badges, b ∈ t.tree.badges ∨ gone b.id
  /-- All other nodes are new. -/
  new : ∀ b ∈ t.tree.badges, b ∈ s.tree.badges ∨ s.nextNode ≤ b.id
  /-- New events announce callables at most. -/
  queue : ∀ e ∈ t.queue.items, e.IsAnnouncement → e ∈ s.queue.items

namespace State.Tends

variable {gone : NodeId → Prop} {s t u : State}

/-- What leaves the tree alone. -/
theorem of_tree_eq (hs : s.Sound) (htree : t.tree = s.tree) (hnext : t.nextNode = s.nextNode)
    (hseen : t.seen = s.seen)
    (hqueue : ∀ e ∈ t.queue.items, e.IsAnnouncement → e ∈ s.queue.items) : s.Tends gone t := by
  refine ⟨?_, Nat.le_of_eq hnext.symm, hseen, fun b hb ↦ .inl ?_, fun b hb ↦ .inl ?_, hqueue⟩
  · simp only [Sound]
    rw [htree, hnext]
    exact hs
  · rwa [htree]
  · rwa [← htree]

theorem learn (hs : s.Sound) (w : World) : s.Tends gone (s.learn w) :=
  of_tree_eq hs rfl rfl rfl fun _ he _ ↦ he

theorem push (hs : s.Sound) {e : Event} (he : ¬e.IsAnnouncement) : s.Tends gone (s.push e) := by
  refine of_tree_eq hs rfl rfl rfl fun d hd hann ↦ ?_
  rcases List.mem_append.mp hd with hd | hd
  · exact hd
  · obtain rfl := List.mem_singleton.mp hd
    exact absurd hann he

theorem trans (h₁ : s.Tends gone t) (h₂ : t.Tends gone u) : s.Tends gone u := by
  refine ⟨h₂.sound, Nat.le_trans h₁.next h₂.next, h₂.seen.trans h₁.seen, fun b hb ↦ ?_,
    fun b hb ↦ ?_, fun e he hann ↦ h₁.queue e (h₂.queue e he hann) hann⟩
  · rcases h₁.kept b hb with hb | hgone
    · exact h₂.kept b hb
    · exact .inr hgone
  · rcases h₂.new b hb with hb | hle
    · exact h₁.new b hb
    · exact .inr (Nat.le_trans h₁.next hle)

/-- A member is listed below a scope, in the tree or outside of it. -/
theorem list (hs : s.Sound) {scope : Node} (hknown : s.tree.node? scope.id = some scope)
    (hscope : scope.isScope) (name : String) (d : Leaf) :
    s.Tends gone (s.list scope.id fun id ↦ .leaf ⟨id, name, []⟩ d) := by
  have hsound : (s.list scope.id fun id ↦ .leaf ⟨id, name, []⟩ d).Sound :=
    Tree.Sound.addUnder hs hknown hscope rfl rfl
  refine ⟨hsound, Nat.le_succ _, rfl, fun b hb ↦ .inl ?_, fun b hb ↦ ?_, fun e he _ ↦ he⟩
  · exact (Tree.Sound.mem_badges_addUnder hs hknown hscope _).1 hb
  · rcases (Tree.Sound.mem_badges_addUnder hs hknown hscope _).2 hb with hb | hb
    · obtain rfl := List.mem_singleton.mp hb
      exact .inr (Nat.le_refl _)
    · exact .inl hb

/-- A scope without children is taken out. -/
theorem prune (hs : s.Sound) {scope : Node} (hknown : s.tree.node? scope.id = some scope)
    (hempty : scope.isEmpty) (hscope : scope.isScope) (hgone : gone scope.id) :
    s.Tends gone (s.prune scope.id) := by
  have hchildren : scope.children = [] := by
    cases scope with
    | leaf h d => cases hscope
    | scope h f cs =>
      simp only [Node.isEmpty] at hempty
      have hcs := (Bool.and_eq_true_iff.mp
        (Bool.and_eq_true_iff.mp (Bool.and_eq_true_iff.mp hempty).1).1).1
      exact List.isEmpty_iff.mp hcs
  have hsound : (s.tree.remove scope.id).2.Sound s.nextNode := Tree.Sound.remove hs hknown hchildren
  obtain ⟨-, hm | hm⟩ := Tree.mem_walk_of_node? hknown
  · -- the walk loses the scope and nothing else, for nothing is below it
    have hwalk := (hs.apart.removed hm).2.badges hs.apart
    rw [Node.badges_of_children_eq_nil hchildren] at hwalk
    refine ⟨hsound, Nat.le_refl _, rfl, fun b hb ↦ ?_, fun b hb ↦ .inl ?_, fun e he _ ↦ he⟩
    · rcases List.mem_cons.mp (hwalk.mem_iff.mp hb) with rfl | hb
      · exact .inr hgone
      · exact .inl hb
    · exact hwalk.mem_iff.mpr (List.mem_cons_of_mem _ hb)
  · have hsame : (s.tree.remove scope.id).2 = s.tree := by
      rw [Tree.remove_of_not_mem (hs.apart.not_mem_badges hm)]
    exact of_tree_eq hs hsame rfl rfl fun e he _ ↦ he

theorem dress (hs : s.Sound) {f : Node → Node} (hf : Node.Dresses f) (id : NodeId) :
    s.Tends gone (s.dress id f) := by
  have hbadges : (s.dress id f).tree.badges = s.tree.badges := Tree.badges_modify hf id
  refine ⟨Tree.Sound.modify hs hf id, Nat.le_refl _, rfl, fun b hb ↦ .inl ?_, fun b hb ↦ .inl ?_,
    fun e he _ ↦ he⟩
  · rwa [hbadges]
  · rwa [← hbadges]

end State.Tends

variable {c : Setting} {a : Announcement} {s t : State}

/-- An act declares nothing, and takes out no node but the announced one. -/
theorem Act.tends (hs : s.Sound) (h : Act c a s t) :
    s.Tends (fun id ↦ a.kind = .scope ∧ a.node = some id) t := by
  cases h with
  | learn hw => exact .learn hs _
  | keep call => exact .of_tree_eq hs rfl rfl rfl fun e he _ ↦ he
  | want name hk => exact .push hs id
  | dress hid hf => exact .dress hs hf.dresses _
  | @record w name o id f hcomp hid hname hw hf =>
    -- asking for a symbol announces nothing, and recording it dresses a node
    have hlearn : s.Tends (fun id ↦ a.kind = .scope ∧ a.node = some id) (s.learn w) := .learn hs w
    have hpush : s.Tends (fun id ↦ a.kind = .scope ∧ a.node = some id)
        ((s.learn w).push (.symbol name)) := hlearn.trans (.push hlearn.sound fun h ↦ h)
    exact hpush.trans (.dress hpush.sound hf.dresses _)
  | list name hkind hshows hd => exact .list hs hshows.known hshows.isScope _ _
  | @listMethod _ name f signature hkind hshows hf =>
    -- the announcement of a callable is no announcement of a declaration
    have hlist : s.Tends (fun id ↦ a.kind = .scope ∧ a.node = some id) _ :=
      .list hs hshows.known hshows.isScope name (.method f)
    exact hlist.trans (.push hlist.sound fun h ↦ h rfl)
  | @found w v name o hopens hrun hw hv =>
    have hlearn : s.Tends (fun id ↦ a.kind = .scope ∧ a.node = some id) (s.learn v) := .learn hs v
    exact hlearn.trans (.push hlearn.sound id)
  | @target w _ _ hleads hname hw =>
    have hlearn : s.Tends (fun id ↦ a.kind = .scope ∧ a.node = some id) (s.learn w) := .learn hs w
    exact hlearn.trans (.push hlearn.sound id)
  | prune hprunes hkind hshows hempty hpayload =>
    exact .prune hs hshows.known hempty hshows.isScope ⟨hkind, hshows.id⟩

/-- So does a sequence of acts. -/
theorem Acts.tends (hs : s.Sound) (h : Acts c a s t) :
    s.Tends (fun id ↦ a.kind = .scope ∧ a.node = some id) t := by
  induction h with
  | refl => exact .learn hs s.world
  | tail _ hact ih => exact ih.trans (hact.tends ih.sound)

/-! ### Objects that are taken up -/

/-- The object that an event brings, with the kind of a scope that may be made of it and the name
under which it was found. -/
def Event.found? : Event → Option (NodeKind × String × Object)
  | .constant name o => some (.scope, Name.stripRoot name, o)
  | .foreignConstant name o => some (.foreignScope, Name.stripRoot name, o)
  | _ => none

namespace State

/-- The object that the oldest event brings, with the kind of a scope that may be made of it and the
name under which it was found, unless it is left out. -/
def takesUp? (s : State) : Option (NodeKind × String × Object) :=
  (s.queue.items.head?.bind Event.found?).filter fun f ↦
    (s.popped.skipReason? f.2.1 f.2.2).isNone

/-- The verdict on the object that the oldest event brings, if it is taken up and there is one. -/
def verdict? (c : Setting) (s : State) : Option Verdict :=
  s.takesUp?.bind fun (kind, name, o) ↦
    let judge := if kind.isForeign then Run.judgeForeign c o else Run.judgeConstant c name o
    (judge (s.popped.markSeen name)).1.toOption

end State

/-- The verdict on an object, of the unit or outside of it as the kind of a scope that may be made of
it tells. -/
def Run.judge (c : Setting) (kind : NodeKind) (name : String) (o : Object) : Run Verdict :=
  if kind.isForeign then judgeForeign c o else judgeConstant c name o

/-- What is announced for a verdict: the kind of the declaration and the object, if there is one. -/
def Verdict.announces (kind : NodeKind) (o : Object) : Verdict → Option (NodeKind × Object)
  | .drop _ | .alias _ false => none
  | .alias _ true => some (.const, o)
  | .const announced _ _ => some (.const, announced)
  | .scope _ => some (kind, o)

/-- One node is attached under a name and announced. -/
structure State.Attaches (kind : NodeKind) (name : String) (o : Object) (s t : State) : Prop where
  /-- It is no callable. -/
  kind_ne : kind ≠ .method
  /-- It joins the tree. -/
  tree : ∃ n : Node, n.id = s.nextNode ∧ n.name = name ∧ n.qualifiedName = name ∧ n.children = [] ∧
    t.tree = s.tree.add n
  /-- It takes the next identity. -/
  next : t.nextNode = s.nextNode + 1
  /-- The names that were dealt with stay the same. -/
  seen : t.seen = s.seen
  /-- It is announced. -/
  announced : .node name o (some s.nextNode) kind none ∈ t.queue.items
  /-- Nothing else is announced. -/
  queue : ∀ e ∈ t.queue.items, e.IsAnnouncement →
    e ∈ s.queue.items ∨ e = .node name o (some s.nextNode) kind none

namespace State

theorem attaches {kind : NodeKind} {name : String} {o : Object} {node : NodeId → Node} (s : State)
    (hkind : kind ≠ .method) (hid : (node s.nextNode).id = s.nextNode)
    (hname : (node s.nextNode).name = name) (hqualified : (node s.nextNode).qualifiedName = name)
    (hchildren : (node s.nextNode).children = []) :
    s.Attaches kind name o (s.attach kind name o node) := by
  refine ⟨hkind, ⟨_, hid, hname, hqualified, hchildren, rfl⟩, rfl, rfl, ?_, fun e he _ ↦ ?_⟩
  · exact List.mem_append_right _ List.mem_cons_self
  · rcases List.mem_append.mp he with he | he
    · exact .inl he
    · exact .inr (List.mem_singleton.mp he)

theorem attachConst_attaches (s : State) (name : String) (o : Object)
    (value ascription : Option String) :
    s.Attaches .const name o (s.attachConst name o value ascription) := by
  simp only [attachConst]
  exact s.attaches (fun h ↦ nomatch h) rfl rfl rfl rfl

theorem attachScope_attaches (s : State) {kind : NodeKind} (hkind : kind ≠ .method) (name : String)
    (o : Object) (k : ScopeKind) : s.Attaches kind name o (s.attachScope kind name o k) := by
  simp only [attachScope]
  cases k.superclass? with
  | none => exact s.attaches hkind rfl rfl rfl rfl
  | some superclass =>
    have h : (s.push (.symbol superclass)).Attaches kind name o
        ((s.push (.symbol superclass)).attach kind name o
          fun id ↦ .scope ⟨id, name, []⟩ { kind := k } []) :=
      attaches _ hkind rfl rfl rfl rfl
    refine ⟨hkind, h.tree, h.next, h.seen, h.announced, fun e he hann ↦ ?_⟩
    rcases h.queue e he hann with he | he
    · rcases List.mem_append.mp he with he | he
      · exact .inl he
      · obtain rfl := List.mem_singleton.mp he
        exact absurd hann id
    · exact .inr he

/-- Closing a namespace changes nothing else. -/
theorem closeNamespace_eq (s : State) (name : String) :
    ∃ aliases, s.closeNamespace name = { s with aliases } := by
  simp only [closeNamespace]
  split
  · exact ⟨s.aliases, rfl⟩
  · exact ⟨_, rfl⟩

/-- Enacting a verdict attaches the node that is announced for it. -/
theorem enact_attaches {v : Verdict} {kind k : NodeKind} (hkind : kind ≠ .method) (s : State)
    (name : String) {o p : Object} (hv : v.announces kind o = some (k, p)) :
    s.Attaches k name p (s.enact kind name o v) := by
  match v, hv with
  | .const announced value ascription, rfl =>
    exact s.attachConst_attaches name announced value ascription
  | .scope k, rfl => exact s.attachScope_attaches hkind name o k
  | .alias target true, rfl =>
    obtain ⟨aliases, halias⟩ := s.closeNamespace_eq name
    have h := attachConst_attaches { s with aliases } name o (some target) none
    show s.Attaches .const name o ((s.closeNamespace name).attachConst name o (some target) none)
    rw [halias]
    exact ⟨h.kind_ne, h.tree, h.next, h.seen, h.announced, h.queue⟩

/-- Enacting a verdict for which nothing is announced changes nothing but the closed namespaces. -/
theorem enact_of_announces_eq_none {v : Verdict} {kind : NodeKind} (s : State) (name : String)
    {o : Object} (hv : v.announces kind o = none) :
    ∃ aliases, s.enact kind name o v = { s with aliases } := by
  match v, hv with
  | .drop reason, _ => exact ⟨s.aliases, rfl⟩
  | .alias target false, _ => exact s.closeNamespace_eq name

/-- Attaching a node adds its badge to those of the walk. -/
theorem Attaches.badges {kind : NodeKind} {name : String} {o : Object} {s t : State}
    (h : s.Attaches kind name o t) (hs : s.Sound) :
    t.Sound ∧ ∃ b : Badge, b.id = s.nextNode ∧ b.name = name ∧ b.qualifiedName = name ∧
      t.tree.badges.Perm (b :: s.tree.badges) := by
  obtain ⟨n, hid, hname, hqualified, hchildren, htree⟩ := h.tree
  refine ⟨?_, n.badge, hid, hname, hqualified, ?_⟩
  · simp only [Sound]
    rw [htree, h.next]
    exact Tree.Sound.add hs hid hchildren
  · rw [htree]
    exact (Tree.Sound.badges_add hs hchildren).1

end State

/-! ### Steps -/

theorem State.takesUp?_of_cons {e : Event} {es : List Event} (h : s.queue.items = e :: es) :
    s.takesUp? = e.found?.filter fun f ↦ (s.popped.skipReason? f.2.1 f.2.2).isNone := by
  simp only [takesUp?]
  rw [h]
  rfl

/-- The object that is taken up was brought by the oldest event. -/
theorem State.exists_cons_of_takesUp? {kind : NodeKind} {name : String} {o : Object}
    (h : s.takesUp? = some (kind, name, o)) :
    ∃ e es, s.queue.items = e :: es ∧ e.found? = some (kind, name, o) ∧
      s.popped.skipReason? name o = none := by
  obtain ⟨hfound, hskip⟩ := Option.filter_eq_some_iff.mp h
  obtain ⟨e, he, hfound⟩ := Option.bind_eq_some_iff.mp hfound
  obtain ⟨es, hcons⟩ := List.head?_eq_some_iff.mp he
  exact ⟨e, es, hcons, hfound, Option.isNone_iff_eq_none.mp hskip⟩

/-- A name that is taken up is new. -/
theorem State.not_mem_seen_of_takesUp? {kind : NodeKind} {name : String} {o : Object}
    (h : s.takesUp? = some (kind, name, o)) : name ∉ s.seen := by
  obtain ⟨-, -, -, -, hskip⟩ := State.exists_cons_of_takesUp? h
  exact State.not_mem_seen hskip

/-- What may become of an object that is taken up is a scope. -/
theorem State.isScope_of_takesUp? {kind : NodeKind} {name : String} {o : Object}
    (h : s.takesUp? = some (kind, name, o)) : kind.isScope := by
  obtain ⟨e, -, -, hfound, -⟩ := State.exists_cons_of_takesUp? h
  cases e with
  | constant | foreignConstant =>
    cases hfound
    rfl
  | symbol | node | bare => cases hfound

theorem State.ne_method_of_takesUp? {kind : NodeKind} {name : String} {o : Object}
    (h : s.takesUp? = some (kind, name, o)) : kind ≠ .method :=
  NodeKind.ne_method (State.isScope_of_takesUp? h)

theorem State.verdict?_of_takesUp? {kind : NodeKind} {name : String} {o : Object}
    (h : s.takesUp? = some (kind, name, o)) :
    s.verdict? c = (Run.judge c kind name o (s.popped.markSeen name)).1.toOption := by
  simp only [verdict?]
  rw [h]
  rfl

/-- What a step does, told by the state that it leaves. -/
inductive State.Turn (c : Setting) (s t : State) : Prop
  /-- Nothing comes of the oldest event, if there is any. -/
  | idle (w : World) : s.takesUp? = none → s.world.Evolves w → t = s.popped.learn w → Turn c s t
  /-- A symbol leads to an object. -/
  | resolved {name : String} {o : Object} {es : List Event} (w : World) : s.takesUp? = none →
      s.queue.items = .symbol name :: es → ¬c.skipsSymbol (Name.stripRoot name) →
      s.world.Evolves w → Query.resolve (Name.stripRoot name) s.world = (.ok (some o), w) →
      t = (s.popped.learn w).push (.constant (Name.stripRoot name) o) → Turn c s t
  /-- Listeners are told of a node. -/
  | told {name : String} {o : Object} {node : Option NodeId} {kind : NodeKind}
      {signature : Option Signature} {es : List Event} : s.takesUp? = none →
      s.queue.items = .node name o node kind signature :: es →
      Acts c ⟨name, o, node, kind, signature⟩ s.popped t → Turn c s t
  /-- An object is taken up, and there is no verdict on it. -/
  | undecided {kind : NodeKind} {name : String} {o : Object} (w : World) :
      s.takesUp? = some (kind, name, o) → s.verdict? c = none → s.world.Evolves w →
      t = (s.popped.markSeen name).learn w → Turn c s t
  /-- An object is taken up, and the verdict on it is enacted. -/
  | enacted {kind : NodeKind} {name : String} {o : Object} {v : Verdict} (w : World) :
      s.takesUp? = some (kind, name, o) → s.verdict? c = some v → s.world.Evolves w →
      Run.judge c kind name o (s.popped.markSeen name)
        = (.ok v, (s.popped.markSeen name).learn w) →
      t = ((s.popped.markSeen name).learn w).enact kind name o v → Turn c s t

/-- What becomes of an object that the oldest event brings. -/
theorem Outcome.turn {kind : NodeKind} {name : String} {o : Object} {e : Event} {es : List Event}
    {r : Except Failure Unit × State} (hcons : s.queue.items = e :: es)
    (hfound : e.found? = some (kind, name, o))
    (h : Outcome kind (Run.judge c kind name o) name o s.popped r) : s.Turn c r.2 := by
  have htakes := State.takesUp?_of_cons hcons
  rw [hfound, Option.filter_some] at htakes
  dsimp only at htakes
  cases h with
  | skipped reason hskip =>
    rw [hskip] at htakes
    exact .idle (s.world.note _) htakes (.of_eq rfl rfl) rfl
  | failed f w hskip hw hrun =>
    rw [hskip] at htakes
    refine .undecided w htakes ?_ hw rfl
    rw [State.verdict?_of_takesUp? htakes, hrun]
    rfl
  | enacted v w hskip hw hrun =>
    rw [hskip] at htakes
    refine .enacted w htakes ?_ hw hrun rfl
    rw [State.verdict?_of_takesUp? htakes, hrun]
    rfl

/-- A symbol of the standard environment that was not asked for leads to nothing. -/
theorem State.next_of_skipped {name : String} {es : List Event}
    (hcons : s.queue.items = .symbol name :: es) (hskips : c.skipsSymbol (Name.stripRoot name)) :
    s.next c = s.popped.note (.payloadSymbol (Name.stripRoot name)) := by
  rw [State.next_of_cons hcons]
  show (Run.onSymbol c name s.popped).2 = _
  simp only [Run.onSymbol]
  rw [if_pos hskips]
  rfl

/-- Every step is of one of these kinds. -/
theorem State.turn (c : Setting) (s : State) : s.Turn c (s.next c) := by
  rcases s.next_cases c with ⟨hnil, hnext⟩ | ⟨e, es, r, hcons, -, hstep, hnext⟩
  · have hpopped : s.popped = s := by
      simp only [popped]
      rw [hnil, List.tail_nil, ← hnil]
    refine .idle s.world ?_ (refl_of _ _) ?_
    · simp only [takesUp?]
      rw [hnil]
      rfl
    · rw [hnext, hpopped]
      rfl
  have htakes := State.takesUp?_of_cons hcons
  cases hstep with
  | missed w hw _ hr =>
    rw [hnext, hr]
    exact .idle w htakes hw rfl
  | @resolved name _ w o hw hresolve hr =>
    by_cases hskips : c.skipsSymbol (Name.stripRoot name)
    · rw [State.next_of_skipped hcons hskips]
      exact .idle (s.world.note _) htakes (.of_eq rfl rfl) rfl
    · rw [hnext, hr]
      exact .resolved w htakes hcons hskips hw hresolve rfl
  | constant hout =>
    rw [hnext]
    exact Outcome.turn hcons rfl hout
  | foreign hout =>
    rw [hnext]
    exact Outcome.turn hcons rfl hout
  | node hacts =>
    rw [hnext]
    exact .told htakes hcons hacts
  | bare =>
    rw [hnext]
    exact .idle s.world htakes (refl_of _ _) rfl

/-- The run that a verdict comes from, and what it does. -/
theorem State.exists_judge_of_verdict? {kind : NodeKind} {name : String} {o : Object} {v : Verdict}
    (h : s.takesUp? = some (kind, name, o)) (hv : s.verdict? c = some v) :
    ∃ w, Run.judge c kind name o (s.popped.markSeen name)
        = (.ok v, (s.popped.markSeen name).learn w) ∧
      s.next c = ((s.popped.markSeen name).learn w).enact kind name o v := by
  cases State.turn c s with
  | idle w hnone | resolved w hnone | told hnone =>
    rw [hnone] at h
    cases h
  | undecided w _ hnone =>
    rw [hnone] at hv
    cases hv
  | enacted w htakes hv' _ hrun hnext =>
    rw [h] at htakes
    cases htakes
    rw [hv] at hv'
    cases hv'
    exact ⟨w, hrun, hnext⟩

/-! ### What it does to the declarations -/

/-- What the next step does to the declarations. -/
inductive State.Change (c : Setting) (s : State) : State → Prop
  /-- It takes up no object; new nodes come with the announcement of one. -/
  | quiet {t : State} : s.takesUp? = none → (s.nextNode < t.nextNode → s.Tells) →
      s.Tends s.Shows t → Change c s t
  /-- It takes up an object for which nothing is announced. -/
  | dropped {t : State} {kind : NodeKind} {name : String} {o : Object} :
      s.takesUp? = some (kind, name, o) → name ∉ s.seen →
      (∀ v, s.verdict? c = some v → v.announces kind o = none) →
      t.nextNode = s.nextNode → (s.markSeen name).Tends s.Shows t → Change c s t
  /-- It takes up an object that is declared and announced. -/
  | declared {t : State} {kind k : NodeKind} {name : String} {o p : Object} {v : Verdict} :
      s.takesUp? = some (kind, name, o) → name ∉ s.seen → s.verdict? c = some v →
      v.announces kind o = some (k, p) → (s.markSeen name).Attaches k name p t → Change c s t

theorem State.Turn.change (hs : s.Sound) (h : s.Turn c t) : s.Change c t := by
  -- what leaves the tree alone and puts nothing into the queue
  have hstill : ∀ {u v : State}, v.tree = u.tree → v.nextNode = u.nextNode → v.seen = u.seen →
      v.queue = u.popped.queue → u.Sound → u.Tends s.Shows v := fun htree hn hseen hq hu ↦
    .of_tree_eq hu htree hn hseen fun e he _ ↦ List.mem_of_mem_tail (by rwa [hq] at he)
  have hnever : ∀ {v : State}, v.nextNode = s.nextNode → s.nextNode < v.nextNode → s.Tells :=
    fun heq hlt ↦ absurd (heq ▸ hlt) (Nat.lt_irrefl _)
  cases h with
  | idle w htakes _ ht =>
    subst ht
    exact .quiet htakes (hnever rfl) (hstill rfl rfl rfl rfl hs)
  | resolved w htakes _ _ _ _ ht =>
    subst ht
    have hlearn : s.Tends s.Shows (s.popped.learn w) := hstill rfl rfl rfl rfl hs
    exact .quiet htakes (hnever rfl) (hlearn.trans (.push hlearn.sound id))
  | told htakes hcons hacts =>
    have hpopped : s.Tends s.Shows s.popped := hstill rfl rfl rfl rfl hs
    have htends := hacts.tends (s := s.popped) hs
    refine .quiet htakes (fun _ ↦ ⟨_, _, _, _, _, _, hcons⟩) (hpopped.trans
      ⟨htends.sound, htends.next, htends.seen, fun b hb ↦ ?_, htends.new, htends.queue⟩)
    -- what may go is the announced scope, so the oldest event shows it
    refine (htends.kept b hb).imp_right fun hgone ↦ ?_
    obtain ⟨rfl, rfl⟩ := hgone
    exact ⟨_, _, _, _, hcons⟩
  | @undecided kind name o w htakes hv _ ht =>
    subst ht
    refine .dropped htakes (State.not_mem_seen_of_takesUp? htakes) (fun v hv' ↦ ?_) rfl
      (hstill (u := s.markSeen name) rfl rfl rfl rfl hs)
    rw [hv] at hv'
    cases hv'
  | @enacted kind name o v w htakes hv _ _ ht =>
    subst ht
    have hname := State.not_mem_seen_of_takesUp? htakes
    cases hann : v.announces kind o with
    | none =>
      -- nothing but a closed namespace is left of such a verdict
      obtain ⟨aliases, halias⟩ :=
        State.enact_of_announces_eq_none ((s.popped.markSeen name).learn w) name hann
      rw [halias]
      refine .dropped htakes hname (fun v' hv' ↦ ?_) rfl
        (hstill (u := s.markSeen name) rfl rfl rfl rfl hs)
      rw [hv] at hv'
      cases hv'
      exact hann
    | some kp =>
      have h := State.enact_attaches (State.ne_method_of_takesUp? htakes)
        ((s.popped.markSeen name).learn w) name hann
      refine .declared htakes hname hv hann ?_
      exact ⟨h.kind_ne, h.tree, h.next, h.seen, h.announced,
        fun e he ha ↦ (h.queue e he ha).imp_left List.mem_of_mem_tail⟩

theorem State.change (hs : s.Sound) : s.Change c (s.next c) :=
  (State.turn c s).change hs

namespace State.Change

/-- A step that takes up an object drops it or declares it. -/
theorem of_takesUp? {kind : NodeKind} {name : String} {o : Object} (h : s.Change c t)
    (htakes : s.takesUp? = some (kind, name, o)) :
    ((∀ v, s.verdict? c = some v → v.announces kind o = none) ∧ t.nextNode = s.nextNode) ∨
      ∃ v k p, s.verdict? c = some v ∧ v.announces kind o = some (k, p) ∧
        (s.markSeen name).Attaches k name p t := by
  cases h with
  | quiet hnone =>
    rw [hnone] at htakes
    cases htakes
  | dropped htakes' _ hdrop hnext =>
    rw [htakes] at htakes'
    cases htakes'
    exact .inl ⟨hdrop, hnext⟩
  | declared htakes' _ hv hann ht =>
    rw [htakes] at htakes'
    cases htakes'
    exact .inr ⟨_, _, _, hv, hann, ht⟩

/-- What is announced for the verdict on it is attached. -/
theorem attaches {kind k : NodeKind} {name : String} {o p : Object} {v : Verdict}
    (h : s.Change c t) (htakes : s.takesUp? = some (kind, name, o)) (hv : s.verdict? c = some v)
    (hann : v.announces kind o = some (k, p)) : (s.markSeen name).Attaches k name p t := by
  rcases h.of_takesUp? htakes with ⟨hdrop, -⟩ | ⟨v', k', p', hv', hann', ht⟩
  · rw [hdrop v hv] at hann
    cases hann
  · rw [hv] at hv'
    cases hv'
    rw [hann] at hann'
    cases hann'
    exact ht

theorem sound (hs : s.Sound) (h : s.Change c t) : t.Sound := by
  cases h with
  | quiet _ _ ht => exact ht.sound
  | dropped _ _ _ _ ht => exact ht.sound
  | declared _ _ _ _ ht => exact (ht.badges hs).1

/-- Identities are given out in their order. -/
theorem next_le (h : s.Change c t) : s.nextNode ≤ t.nextNode := by
  cases h with
  | quiet _ _ ht => exact ht.next
  | dropped _ _ _ hnext => exact Nat.le_of_eq hnext.symm
  | declared _ _ _ _ ht =>
    rw [ht.next]
    exact Nat.le_succ s.nextNode

/-- A node stays unless its announcement is worked off. -/
theorem kept (hs : s.Sound) (h : s.Change c t) {b : Badge} (hb : b ∈ s.tree.badges) :
    b ∈ t.tree.badges ∨ s.Shows b.id := by
  cases h with
  | quiet _ _ ht => exact ht.kept b hb
  | dropped _ _ _ _ ht => exact ht.kept b hb
  | declared _ _ _ _ ht =>
    obtain ⟨-, b₀, -, -, -, hperm⟩ := ht.badges hs
    exact .inl (hperm.mem_iff.mpr (List.mem_cons_of_mem b₀ hb))

/-- All other nodes are new. -/
theorem new (hs : s.Sound) (h : s.Change c t) {b : Badge} (hb : b ∈ t.tree.badges) :
    b ∈ s.tree.badges ∨ s.nextNode ≤ b.id := by
  cases h with
  | quiet _ _ ht => exact ht.new b hb
  | dropped _ _ _ _ ht => exact ht.new b hb
  | declared _ _ _ _ ht =>
    obtain ⟨-, b₀, hid, -, -, hperm⟩ := ht.badges hs
    rcases List.mem_cons.mp (hperm.mem_iff.mp hb) with rfl | hb
    · exact .inr (Nat.le_of_eq hid.symm)
    · exact .inl hb

end State.Change

/-- The trees of a run are sound. -/
theorem State.after_sound (hs : s.Sound) (n : Nat) : (s.after c n).Sound :=
  State.after_induction hs (fun _ ht ↦ (State.change ht).sound ht) n

end DeclClosure.Closure

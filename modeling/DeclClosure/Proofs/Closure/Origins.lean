import DeclClosure.Proofs.Closure.History

/-!
# Where nodes come from

A node was made of an object that was taken up under its name, or a listener has listed it. In the
first case it declares what the verdict on the object says, for as long as there is a trace of it
(`MadeOf`); in the second it is no scope. There is no third way, neither in the tree nor among the
nodes that were taken out of it (`everywhere_originates`).

Two lemmas carry what holds of all nodes through a run: `Act.everywhere` for the acts of listeners
and `State.everywhere_enact` for verdicts. `State.everywhere_next` puts them together to a step, and
`everywhere_after` to a run, over which the property may refer to what has happened so far. A node
that is there keeps whatever does not get lost when something is recorded on it (`holdsAt_of_le`).
-/

namespace DeclClosure.Closure

variable {c : Setting} {s t : State} {n : Nat} {m : Node} {P : Node → Prop}

theorem Act.nextNode_le {a : Announcement} (h : Act c a s t) : s.nextNode ≤ t.nextNode := by
  cases h <;> first | exact Nat.le_refl _ | exact Nat.le_succ _

theorem Acts.nextNode_le {a : Announcement} (h : Acts c a s t) : s.nextNode ≤ t.nextNode := by
  induction h with
  | refl => exact Nat.le_refl _
  | tail _ hact ih => exact Nat.le_trans ih hact.nextNode_le

/-! ### What happens to all nodes -/

/-- From `s` to `t` a leaf is listed below the announced scope: a member, if the scope is one of the
unit, or a callable, which is announced. -/
inductive Announcement.Lists (c : Setting) (a : Announcement) (s t : State) : Leaf → Prop
  | member {d : Leaf} : a.kind = .scope → d.IsMember → t.queue = s.queue → Lists c a s t d
  | callable {f : MethodFacts} (signature : Option Signature) : a.kind.isScope → c.ListsMethods →
      f.owner = a.name →
      t.queue = s.queue.push (.node a.name a.value (some s.nextNode) .method signature) →
      Lists c a s t (.method f)

/-- A property of nodes survives an act if leaves that may be listed have it, and if it is kept by
changes of the announced node that record no names but those that the act asks for. A scope outside of
the unit is changed only to record a name. -/
theorem Act.everywhere {a : Announcement} (h : Act c a s t) (hP : Node.IsShallow P)
    (hrecord : ∀ names f m, a.node = some m.id → (names = [] → ¬a.kind.isForeign) →
      Node.Records names f →
      (∀ x ∈ names, .symbol x ∈ t.queue.items ∧
        ∃ o w, Query.nameOf o s.world = (.ok (some x), w) ∧ a.Composes c s o x f) →
      P m → P (f m))
    (hlist : s.nextNode < t.nextNode → ∀ name d, a.Lists c s t d →
      P (.leaf ⟨s.nextNode, name, []⟩ d))
    (hs : s.tree.Everywhere P) : t.tree.Everywhere P := by
  cases h with
  | learn hw => exact hs
  | keep call => exact hs
  | want name hk => exact hs
  | dress hid hf =>
    exact hs.dress hP hf.dresses fun m hm hP ↦
      hrecord [] _ m (hm ▸ hid.node) (fun _ ↦ hid.ours) hf nofun hP
  | @record w name o id f hcomp hid hname hw hf =>
    refine hs.dress hP hf.dresses fun m hm hP ↦
      hrecord [name] f m (hm ▸ hid) nofun hf (fun x hx ↦ ?_) hP
    obtain rfl := List.mem_singleton.mp hx
    exact ⟨List.mem_append_right _ List.mem_cons_self, o, w, hname, hcomp⟩
  | list name hkind hshows hd =>
    exact hs.addUnder hP _ rfl (hlist (Nat.lt_succ_self _) _ _ (.member hkind hd rfl))
  | listMethod name signature hkind hshows hf =>
    exact hs.addUnder hP _ rfl
      (hlist (Nat.lt_succ_self _) _ _ (.callable signature hkind hf.1 hf.2 rfl))
  | found hopens hrun hw hv => exact hs
  | target hleads hname hw => exact hs
  | prune hprunes hkind hshows hempty hpayload => exact hs.remove hP _

/-- It survives a sequence of acts, in which new leaves get new identities. -/
theorem Acts.everywhere {a : Announcement} (h : Acts c a s t) (hP : Node.IsShallow P)
    (hrecord : ∀ u names f m, Acts c a s u → Acts c a u t → a.node = some m.id →
      (names = [] → ¬a.kind.isForeign) → Node.Records names f →
      (∀ x ∈ names, ∃ o w, Query.nameOf o u.world = (.ok (some x), w) ∧
        a.Composes c u o x f) → P m → P (f m))
    (hlist : ∀ u v name d, s.nextNode ≤ u.nextNode → a.Lists c u v d →
      P (.leaf ⟨u.nextNode, name, []⟩ d))
    (hs : s.tree.Everywhere P) : t.tree.Everywhere P := by
  -- of each act it is known what came before it and what comes after it
  have hall : ∀ u, Acts c a u t → Acts c a s u → u.tree.Everywhere P → t.tree.Everywhere P := by
    intro u hafter
    induction hafter using Relation.ReflTransGen.head_induction_on with
    | refl => exact fun _ hu ↦ hu
    | @head u v hact hrest ih =>
      intro hbefore hu
      refine ih (hbefore.tail hact)
        (hact.everywhere hP (fun names f m hid hours hf hasked ↦ ?_) (fun _ name d hd ↦ ?_) hu)
      · exact hrecord u names f m hbefore (.head hact hrest) hid hours hf fun x hx ↦ (hasked x hx).2
      · exact hlist u v name d (Acts.nextNode_le hbefore) hd
  exact hall s h .refl hs

/-- What the node that a verdict makes declares for good, if it makes one. -/
def Verdict.stem? : Verdict → Option Node.Stem
  | .drop _ | .alias _ false => none
  | .alias target true => some (.const (some target) none)
  | .const _ value ascription => some (.const value ascription)
  | .scope k => some (.scope k)

/-- What a verdict makes is a constant or a scope. -/
theorem Verdict.stem?_ne_member (v : Verdict) : v.stem? ≠ some .member := by
  match v with
  | .drop _ | .alias _ true | .alias _ false | .const _ _ _ | .scope _ => exact nofun

/-- A verdict leaves the tree alone, or one node joins it. -/
theorem State.tree_enact (s : State) (kind : NodeKind) (name : String) (o : Object) (v : Verdict) :
    (s.enact kind name o v).tree = s.tree ∨
      ∃ m : Node, m.id = s.nextNode ∧ m.name = name ∧ v.stem? = some m.stem ∧
        m.IsFresh ∧ m.children = [] ∧
          (s.enact kind name o v).tree = s.tree.add m := by
  match v with
  | .drop reason => exact .inl rfl
  | .const announced value ascription =>
    exact .inr ⟨.leaf ⟨s.nextNode, name, []⟩ (.const value ascription), rfl, rfl, rfl, ⟨rfl, rfl⟩,
      rfl, rfl⟩
  | .alias target shown =>
    obtain ⟨aliases, halias⟩ := s.closeNamespace_eq name
    cases shown with
    | false =>
      refine .inl ?_
      show (s.closeNamespace name).tree = s.tree
      rw [halias]
    | true =>
      refine .inr ⟨.leaf ⟨s.nextNode, name, []⟩ (.const (some target) none), rfl, rfl, rfl, ⟨rfl, rfl⟩,
        rfl, ?_⟩
      show ((s.closeNamespace name).attachConst name o (some target) none).tree = _
      rw [halias]
      rfl
  | .scope k =>
    refine .inr ⟨.scope ⟨s.nextNode, name, []⟩ { kind := k } [], rfl, rfl, rfl,
      ⟨rfl, rfl, rfl, rfl, rfl⟩, rfl, ?_⟩
    show (s.attachScope kind name o k).tree = _
    simp only [attachScope]
    cases k.superclass? <;> rfl

/-- A property of nodes survives a verdict if the node that the verdict makes has it. -/
theorem State.everywhere_enact {kind : NodeKind} {name : String} {o : Object} {v : Verdict}
    (hP : Node.IsShallow P)
    (hmade : ∀ m : Node, m.id = s.nextNode → m.name = name → v.stem? = some m.stem →
      m.IsFresh → P m)
    (hs : s.tree.Everywhere P) : (s.enact kind name o v).tree.Everywhere P := by
  rcases s.tree_enact kind name o v with
    htree | ⟨m, hid, hname, hstem, hfresh, hchildren, htree⟩
  · rwa [htree]
  · rw [htree]
    exact hs.add hP hchildren (hmade m hid hname hstem hfresh)

/-- A property of nodes survives a step if the acts of listeners keep it and the node that a verdict
makes has it. -/
theorem State.everywhere_next (hP : Node.IsShallow P)
    (hacts : ∀ name o node kind signature es,
      s.queue.items = .node name o node kind signature :: es →
        Acts c ⟨name, o, node, kind, signature⟩ s.popped (s.next c) →
          (s.next c).tree.Everywhere P)
    (hmade : ∀ kind name o v, s.takesUp? = some (kind, name, o) → s.verdict? c = some v →
      ∀ m : Node, m.id = s.nextNode → m.name = name → v.stem? = some m.stem → m.IsFresh → P m)
    (hs : s.tree.Everywhere P) : (s.next c).tree.Everywhere P := by
  cases State.turn c s with
  | idle w _ _ hnext | resolved w _ _ _ _ _ hnext | undecided w _ _ _ hnext =>
    rw [hnext]
    exact hs
  | told _ hcons hrun => exact hacts _ _ _ _ _ _ hcons hrun
  | enacted w htakes hv _ _ hnext =>
    rw [hnext]
    exact State.everywhere_enact hP (hmade _ _ _ _ htakes hv) hs

/-- A property of nodes that depends on the number of events holds of all nodes of a run if a node
does not lose it as time goes by, the acts of listeners keep it and the nodes that verdicts make have
it. -/
theorem everywhere_after {Q : Nat → Node → Prop} (htree : s.tree = {})
    (hQ : ∀ n, Node.IsShallow (Q n)) (hlater : ∀ n m, Q n m → Q (n + 1) m)
    (hacts : ∀ n name o node kind signature es,
      (s.after c n).queue.items = .node name o node kind signature :: es →
        Acts c ⟨name, o, node, kind, signature⟩ (s.after c n).popped (s.after c (n + 1)) →
          (s.after c n).tree.Everywhere (Q (n + 1)) → (s.after c (n + 1)).tree.Everywhere (Q (n + 1)))
    (hmade : ∀ n kind name o v, (s.after c n).takesUp? = some (kind, name, o) →
      (s.after c n).verdict? c = some v → ∀ m : Node, m.id = (s.after c n).nextNode → m.name = name →
        v.stem? = some m.stem → m.IsFresh → Q (n + 1) m)
    (n : Nat) : (s.after c n).tree.Everywhere (Q n) := by
  induction n with
  | zero =>
    show s.tree.Everywhere _
    rw [htree]
    exact .empty
  | succ n ih =>
    have hearlier := ih.mono (hlater n)
    exact State.everywhere_next (hQ (n + 1))
      (fun name o node kind signature es hcons h ↦
        hacts n name o node kind signature es hcons h hearlier)
      (hmade n) hearlier

/-! ### What one node keeps -/

/-- A node that was there before survives acts with what recording does not take from it. -/
theorem Acts.holdsAt {a : Announcement} {id : NodeId} (h : Acts c a s t) (hP : Node.IsShallow P)
    (hkeep : ∀ names f m, Node.Records names f → P m → P (f m)) (hid : id < s.nextNode)
    (hs : s.tree.Everywhere fun m ↦ m.id = id → P m) :
    t.tree.Everywhere fun m ↦ m.id = id → P m := by
  refine h.everywhere (fun head f cs cs' hm hself ↦ hP head f cs cs' (hm hself)) ?_ ?_ hs
  · intro u names f m _ _ _ _ hf _ hm hself
    have hsame : (f m).id = m.id := congrArg Badge.id (hf.dresses m).1
    exact hkeep names f m hf (hm (hsame ▸ hself))
  · -- what is listed has a new identity
    rintro u v name d hle - rfl
    exact absurd hid (Nat.not_lt.mpr hle)

/-- So it does survive a run. -/
theorem holdsAt_of_le {k : Nat} {id : NodeId} (hP : Node.IsShallow P)
    (hkeep : ∀ names f m, Node.Records names f → P m → P (f m)) (hs : s.Sound)
    (hid : id < (s.after c k).nextNode) (hle : k ≤ n)
    (h : (s.after c k).tree.Everywhere fun m ↦ m.id = id → P m) :
    (s.after c n).tree.Everywhere fun m ↦ m.id = id → P m := by
  induction n, hle using Nat.le_induction with
  | base => exact h
  | succ n hle ih =>
    have hlt : id < (s.after c n).nextNode := Nat.lt_of_lt_of_le hid (nextNode_mono hs hle)
    refine State.everywhere_next (fun head f cs cs' hm hself ↦ hP head f cs cs' (hm hself)) ?_ ?_ ih
    · intro name o node kind signature es _ hacts
      exact hacts.holdsAt hP hkeep hlt ih
    · -- neither has what a verdict makes an old one
      intro kind name o v _ _ m hnew _ _ _ hself
      exact absurd hlt (Nat.not_lt.mpr (Nat.le_of_eq (hnew.symm.trans hself)))

/-! ### Origins -/

/-- Within `n` events the node was made of the object, which was taken up under its name, and it
declares what the verdict on the object says. -/
def MadeOf (c : Setting) (s : State) (n : Nat) (m : Node) (o : Object) (v : Verdict) : Prop :=
  ∃ k < n, ∃ kind, (s.after c k).takesUp? = some (kind, m.name, o) ∧
    (s.after c k).verdict? c = some v ∧ v.stem? = some m.stem ∧ m.id = (s.after c k).nextNode

/-- Within `n` events the node was made of an object, or a listener has listed it. -/
def Originates (c : Setting) (s : State) (n : Nat) (m : Node) : Prop :=
  (∃ o v, MadeOf c s n m o v) ∨ (Listed c s n m.id ∧ ¬m.isScope)

theorem MadeOf.succ {o : Object} {v : Verdict} (h : MadeOf c s n m o v) :
    MadeOf c s (n + 1) m o v := by
  obtain ⟨k, hk, hrest⟩ := h
  exact ⟨k, by omega, hrest⟩

theorem Originates.succ (h : Originates c s n m) : Originates c s (n + 1) m := by
  rcases h with ⟨o, v, hmade⟩ | ⟨hlisted, hscope⟩
  · exact .inl ⟨o, v, hmade.succ⟩
  · exact .inr ⟨hlisted.succ, hscope⟩

theorem isShallow_originates : Node.IsShallow (Originates c s n) :=
  fun _ _ _ _ h ↦ h

/-- Dressing a node does not change where it comes from. -/
theorem Originates.dress {names : List String} {f : Node → Node} (hf : Node.Records names f)
    (h : Originates c s n m) : Originates c s n (f m) := by
  have hbadge := (hf.dresses m).1
  have hid : (f m).id = m.id := congrArg Badge.id hbadge
  have hname : (f m).name = m.name := congrArg Badge.name hbadge
  have hscope : (f m).isScope = m.isScope := congrArg Badge.isScope hbadge
  rcases h with ⟨o, v, k, hk, kind, htakes, hv, hstem, hnext⟩ | ⟨hlisted, hnot⟩
  · refine .inl ⟨o, v, k, hk, kind, ?_, hv, ?_, ?_⟩
    · rwa [hname]
    · rwa [hf.stem]
    · rwa [hid]
  · exact .inr ⟨by rwa [hid], by rwa [hscope]⟩

/-- What listeners add in a step comes from there. -/
theorem Acts.everywhere_originates {a : Announcement} {u : State} (htells : (s.after c n).Tells)
    (hs : (s.after c n).nextNode ≤ u.nextNode) (ht : t.nextNode ≤ (s.after c (n + 1)).nextNode)
    (h : Acts c a u t) (hu : u.tree.Everywhere (Originates c s (n + 1))) :
    t.tree.Everywhere (Originates c s (n + 1)) := by
  induction h using Relation.ReflTransGen.head_induction_on with
  | refl => exact hu
  | @head u v hact hrest ih =>
    refine ih (Nat.le_trans hs hact.nextNode_le) (hact.everywhere isShallow_originates ?_ ?_ hu)
    · exact fun names f m _ _ hf _ hm ↦ hm.dress hf
    · -- the new member gets an identity that is given out in this step
      intro hlt name d _
      have hlast : u.nextNode < (s.after c (n + 1)).nextNode :=
        Nat.lt_of_lt_of_le hlt (Nat.le_trans (Acts.nextNode_le hrest) ht)
      exact .inr ⟨⟨n, Nat.lt_succ_self n, htells, hs, hlast⟩, nofun⟩

/-- Every node of a run comes from somewhere. -/
theorem everywhere_originates (hb : s.Blank) (n : Nat) :
    (s.after c n).tree.Everywhere (Originates c s n) := by
  refine everywhere_after (Q := Originates c s) hb.tree (fun _ ↦ isShallow_originates)
    (fun _ _ ↦ Originates.succ) ?_ ?_ n
  · intro n name o node kind signature es hcons hacts hearlier
    exact Acts.everywhere_originates (u := (s.after c n).popped) ⟨_, _, _, _, _, es, hcons⟩
      (Nat.le_refl _) (Nat.le_refl _) hacts hearlier
  · intro n kind name o v htakes hv m hid hname hstem _
    exact .inl ⟨o, v, n, Nat.lt_succ_self n, kind, by rwa [hname], hv, hstem, hid⟩

end DeclClosure.Closure

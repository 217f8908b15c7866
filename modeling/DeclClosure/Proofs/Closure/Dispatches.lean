import DeclClosure.Proofs.Closure.Arrivals
import DeclClosure.Proofs.Closure.Keeping

/-!
# Every node is dispatched once, while it is attached

A node is attached in one step, and the event that announces it is dispatched in a later one. In
between other events are worked off, and scopes may be taken out of the tree.

What an event says of the node that it carries is right: a declaration is announced as what the
verdict made of it (`fits_of_declared`), and what is announced as a callable is one
(`fits_of_callable`). In the other direction every callable of the tree was announced
(`everywhere_announced`). Since the only nodes that are taken out are scopes, in the step that
dispatches them, and no node is carried by two events, a node stands in the tree when it is
dispatched.
-/

namespace DeclClosure

/-- The node is what an announcement of this kind says that it is. -/
def NodeKind.Fits : NodeKind → Node → Prop
  | .const, m => ∃ value ascription, m.stem = .const value ascription
  | .scope, m | .foreignScope, m => m.isScope
  | .method, m => m.callable?.isSome

namespace Closure

open DeclClosure.Tree (mem_badges_of_mem_walk)

/-- Within `n` events the node was announced as a callable. -/
def CalledOut (c : Setting) (s : State) (n : Nat) (id : NodeId) : Prop :=
  ∃ k ≤ n, ∃ x o signature, .node x o (some id) .method signature ∈ (s.after c k).queue.items

variable {c : Setting} {a : Announcement} {s t : State} {k n : Nat} {id : NodeId} {m : Node}
  {x : String} {o : Object} {kind : NodeKind} {signature : Option Signature} {es : List Event}

/-! ### Declarations -/

/-- What is announced for a verdict is what the verdict makes. -/
theorem Verdict.stem?_of_announces {v : Verdict} {found : NodeKind} {p : Object}
    (h : v.announces found o = some (kind, p)) :
    (kind = .const ∧ ∃ value ascription, v.stem? = some (.const value ascription)) ∨
      (kind = found ∧ ∃ k, v.stem? = some (.scope k)) := by
  match v, h with
  | .const _ value ascription, rfl => exact .inl ⟨rfl, value, ascription, rfl⟩
  | .alias target true, rfl => exact .inl ⟨rfl, some target, none, rfl⟩
  | .scope k, rfl => exact .inr ⟨rfl, k, rfl⟩
  | .alias target false, h => cases h

/-- Something is announced for a verdict that makes a node. -/
theorem Verdict.announces_of_stem? {v : Verdict} {found : NodeKind} {st : Node.Stem}
    (h : v.stem? = some st) : v.announces found o ≠ none := by
  match v, h with
  | .const _ _ _, _ | .alias _ true, _ | .scope _, _ => exact nofun
  | .alias target false, h => cases h

/-- A node of the tree that was announced as a declaration is what the verdict made of the object that
was taken up: a constant, or a scope of the kind under which it was found. -/
theorem fits_of_declared (hb : s.Blank) (hkind : kind ≠ .method)
    (h : .node x o (some m.id) kind signature ∈ (s.after c k).queue.items)
    (hm : m ∈ (s.after c n).tree.walk) :
    kind.Fits m ∧ ∃ i found p, (s.after c i).takesUp? = some (found, x, p) ∧
      (s.after c i).nextNode = m.id ∧ m.id < (s.after c (i + 1)).nextNode ∧
        kind = if m.isScope then found else .const := by
  obtain ⟨i, hi, found, p, v, htakes, hv, hann, -, hid, hlt⟩ := exists_declaring hb hkind h
  rcases (everywhere_originates hb n).walk m hm with ⟨q, v', j, hj, found', htakes', hv', hstem, hid'⟩ |
    ⟨hlisted, -⟩
  · -- the node was made in the step that announced it
    have hlt' : m.id < (s.after c (j + 1)).nextNode := hid' ▸ State.nextNode_lt_of_announces
      (State.after_sound hb.sound j) htakes' hv' (Verdict.announces_of_stem? hstem)
    obtain rfl := step_unique hb.sound (Nat.le_of_eq hid.symm) hlt (Nat.le_of_eq hid'.symm) hlt'
    rw [hv] at hv'
    cases hv'
    rcases Verdict.stem?_of_announces hann with ⟨rfl, value, ascription, hmade⟩ | ⟨rfl, sk, hmade⟩
    · rw [hstem] at hmade
      have hstem : m.stem = .const value ascription := Option.some.inj hmade
      have hleaf : ¬m.isScope := by
        intro hscope
        obtain ⟨sk, hsk⟩ := Node.exists_stem_of_isScope hscope
        rw [hsk] at hstem
        cases hstem
      exact ⟨⟨value, ascription, hstem⟩, i, found, p, htakes, hid.symm, hlt, (if_neg hleaf).symm⟩
    · rw [hstem] at hmade
      have hscope := (Node.isScope_of_stem (Option.some.inj hmade)).1
      refine ⟨?_, i, kind, p, htakes, hid.symm, hlt, (if_pos hscope).symm⟩
      cases kind with
      | method => exact absurd rfl hkind
      | const => cases State.isScope_of_takesUp? htakes
      | scope | foreignScope => exact hscope
  · have hann : Announced c s k m.id x :=
      ⟨k, Nat.le_refl k, o, kind, signature, hkind, h⟩
    exact absurd hlisted (hann.not_listed hb)

/-! ### Callables -/

theorem CalledOut.succ (h : CalledOut c s n id) : CalledOut c s (n + 1) id := by
  obtain ⟨k, hk, hrest⟩ := h
  exact ⟨k, by omega, hrest⟩

/-- Listeners announce the callables that they list. -/
theorem Acts.everywhere_calledOut {u : State} (h : Acts c a u t)
    (hqueue : t.queue.items ⊆ (s.after c n).queue.items)
    (hu : u.tree.Everywhere fun m ↦ m.callable?.isSome → CalledOut c s n m.id) :
    t.tree.Everywhere fun m ↦ m.callable?.isSome → CalledOut c s n m.id := by
  induction h using Relation.ReflTransGen.head_induction_on with
  | refl => exact hu
  | @head u v hact hrest ih =>
    refine ih (hact.everywhere (fun _ _ _ _ h ↦ h) ?_ ?_ hu)
    · intro names f m _ _ hf _ hm hcallable
      have hsame : (f m).id = m.id := congrArg Badge.id (hf.dresses m).1
      rw [hf.callable m] at hcallable
      rw [hsame]
      exact hm hcallable
    · intro _ name d hd hcallable
      cases hd with
      | member hkind hmember _ =>
        rw [Node.callable?_of_isMember hmember] at hcallable
        cases hcallable
      | callable observed hkind hlists howner hpush =>
        refine ⟨n, Nat.le_refl n, a.name, a.value, observed, hqueue (Acts.queue_subset hrest ?_)⟩
        rw [hpush]
        exact List.mem_append_right _ List.mem_cons_self

/-- Every callable was announced. -/
theorem everywhere_calledOut (hb : s.Blank) (n : Nat) :
    (s.after c n).tree.Everywhere fun m ↦ m.callable?.isSome → CalledOut c s n m.id := by
  refine everywhere_after (Q := fun n m ↦ m.callable?.isSome → CalledOut c s n m.id) hb.tree
    (fun _ _ _ _ _ h ↦ h) (fun _ _ hm hcallable ↦ (hm hcallable).succ) ?_ ?_ n
  · intro n name o node kind signature es _ hacts hearlier
    exact Acts.everywhere_calledOut hacts (List.Subset.refl _) hearlier
  · -- what a verdict makes is no callable
    intro n kind x o v _ _ m _ _ hstem _ hcallable
    rw [Node.stem_of_callable hcallable] at hstem
    exact absurd hstem v.stem?_ne_member

theorem everywhere_callable_of_le (hs : s.Sound) (hid : id < (s.after c k).nextNode) (hle : k ≤ n)
    (h : (s.after c k).tree.Everywhere fun m ↦ m.id = id → m.callable?.isSome) :
    (s.after c n).tree.Everywhere fun m ↦ m.id = id → m.callable?.isSome :=
  holdsAt_of_le (fun _ _ _ _ h ↦ h) (fun _ _ m hf hm ↦ by rwa [hf.callable m]) hs hid hle h

/-- An event that announces a callable joined the queue in a step that listed the callable. -/
theorem exists_listing (hs : s.Seeded)
    (h : .node x o (some id) .method signature ∈ (s.after c k).queue.items) :
    ∃ i < k, (s.after c i).nextNode ≤ id ∧ id < (s.after c (i + 1)).nextNode ∧
      (s.after c (i + 1)).tree.Everywhere fun m ↦ m.id = id → m.callable?.isSome := by
  obtain ⟨i, hi, hbrings⟩ := exists_brings hs h nofun
  cases hbrings with
  | declaration htakes hv hann =>
    rcases Verdict.stem?_of_announces hann with ⟨hkind, -⟩ | ⟨hkind, -⟩
    · cases hkind
    · cases hkind ▸ State.isScope_of_takesUp? htakes
  | callable observed hcons hkind hle hlt hcallable => exact ⟨i, hi, hle, hlt, hcallable⟩

/-- What is announced as a callable is one. -/
theorem fits_of_callable (hs : s.Seeded)
    (h : .node x o (some m.id) .method signature ∈ (s.after c k).queue.items) (hle : k ≤ n)
    (hm : m ∈ (s.after c n).tree.walk) : NodeKind.method.Fits m := by
  obtain ⟨i, hi, -, hlt, hcallable⟩ := exists_listing hs h
  exact (everywhere_callable_of_le hs.blank.sound hlt (Nat.le_trans hi hle) hcallable).walk m hm rfl

/-! ### Dispatches -/

/-- Whatever announces a node carries one that has got its identity. -/
theorem exists_carried (hs : s.Seeded) {node : Option NodeId}
    (h : .node x o node kind signature ∈ (s.after c n).queue.items) :
    ∃ id < (s.after c n).nextNode, node = some id := by
  cases node with
  | some id =>
    have hmem : id ∈ (s.after c n).carried := List.mem_filterMap.mpr ⟨_, h, rfl⟩
    exact ⟨id, (State.carried_after hs n).2 id hmem, rfl⟩
  | none =>
    obtain ⟨i, -, hbrings⟩ := exists_brings hs h nofun
    cases hbrings

/-- A node stands in the tree when it is dispatched, as what it was announced as. -/
theorem exists_fits_of_cons (hl : c.listeners.entries.Sublist Listener.defaults) (hs : s.Seeded)
    {node : Option NodeId}
    (hcons : (s.after c n).queue.items = .node x o node kind signature :: es) :
    ∃ m ∈ (s.after c n).tree.walk, node = some m.id ∧ kind.Fits m := by
  have hmem : .node x o node kind signature ∈ (s.after c n).queue.items :=
    hcons ▸ List.mem_cons_self
  obtain ⟨id, hlt, rfl⟩ := exists_carried hs hmem
  -- it was not taken out, for that happens when its announcement is worked off
  have hstands : (s.after c n).Stands id := by
    refine (stands_or_removed hl hs.blank hs.next n id hlt).resolve_right ?_
    rintro ⟨-, k, hk, y, p, signature', es', hcons', -⟩
    exact absurd (dispatched_unique hs hcons' hcons rfl rfl) (Nat.ne_of_lt hk)
  obtain ⟨m, hm, rfl⟩ := State.exists_of_stands hstands
  refine ⟨m, hm, rfl, ?_⟩
  by_cases hkind : kind = .method
  · subst hkind
    exact fits_of_callable hs hmem (Nat.le_refl n) hm
  · exact (fits_of_declared hs.blank hkind hmem hm).1

/-- A node that joins the tree in a step got its identity in it. -/
theorem window_of_joins (hs : s.Sound) (hm : m ∈ (s.after c (k + 1)).tree.walk)
    (hnew : ¬(s.after c k).Stands m.id) :
    (s.after c k).nextNode ≤ m.id ∧ m.id < (s.after c (k + 1)).nextNode := by
  have hsound := State.after_sound (c := c) hs k
  have hchange : (s.after c k).Change c (s.after c (k + 1)) := State.change hsound
  refine ⟨?_, (State.after_sound hs (k + 1)).lt_of_stands (State.stands_of_mem_walk hm)⟩
  refine (hchange.new hsound (mem_badges_of_mem_walk hm)).resolve_left fun hold ↦ hnew ?_
  exact List.mem_map_of_mem hold

/-- A node that joins the tree when an object is taken up is announced as the declaration of that
object. -/
theorem exists_announcement (hs : s.Seeded) {found : NodeKind}
    (htakes : (s.after c k).takesUp? = some (found, x, o))
    (hm : m ∈ (s.after c (k + 1)).tree.walk) (hnew : ¬(s.after c k).Stands m.id) :
    ∃ p, .node x p (some m.id) (if m.isScope then found else .const) none
      ∈ (s.after c (k + 1)).queue.items := by
  have hsound := State.after_sound (c := c) hs.blank.sound k
  obtain ⟨hle, hlt⟩ := window_of_joins hs.blank.sound hm hnew
  have hchange : (s.after c k).Change c (s.after c (k + 1)) := State.change hsound
  rcases hchange.of_takesUp? htakes with ⟨-, hnext⟩ | ⟨v, kind, p, hv, hann, ht⟩
  · exact absurd (hnext ▸ hlt) (Nat.not_lt.mpr hle)
  · have hnext : (s.after c (k + 1)).nextNode = (s.after c k).nextNode + 1 := ht.next
    rw [hnext] at hlt
    have hid : m.id = (s.after c k).nextNode := Nat.le_antisymm (Nat.le_of_lt_succ hlt) hle
    have hmem : .node x p (some m.id) kind none ∈ (s.after c (k + 1)).queue.items :=
      hid ▸ ht.announced
    obtain ⟨-, i, found', q, htakes', hi, hlt', hkind⟩ :=
      fits_of_declared hs.blank ht.kind_ne hmem hm
    -- the step that gave the identity out is this one
    obtain rfl := step_unique hs.blank.sound (Nat.le_of_eq hi) hlt' hle (hnext ▸ hlt)
    rw [htakes] at htakes'
    cases htakes'
    exact ⟨p, hkind ▸ hmem⟩

/-- A node that joins the tree when no object is taken up is announced only if it is a callable. -/
theorem callable_of_announced (hs : s.Seeded) (htakes : (s.after c k).takesUp? = none)
    (hm : m ∈ (s.after c (k + 1)).tree.walk) (hnew : ¬(s.after c k).Stands m.id)
    (h : .node x o (some m.id) kind signature ∈ (s.after c n).queue.items) :
    m.callable?.isSome := by
  obtain ⟨hle, hlt⟩ := window_of_joins hs.blank.sound hm hnew
  by_cases hkind : kind = .method
  · subst hkind
    -- the step that listed the callable is this one
    obtain ⟨i, -, hle', hlt', hcallable⟩ := exists_listing hs h
    obtain rfl := step_unique hs.blank.sound hle hlt hle' hlt'
    exact hcallable.walk m hm rfl
  · obtain ⟨i, -, found, p, v, htakes', -, -, -, hid, hlt'⟩ := exists_declaring hs.blank hkind h
    obtain rfl := step_unique hs.blank.sound hle hlt (Nat.le_of_eq hid.symm) hlt'
    rw [htakes] at htakes'
    cases htakes'

/-- **Every node is dispatched once, while it is attached.** Let a compilation have any of the
library's listeners, in their order, and let it succeed, whatever the world, the registrations and
the seeds are. Then it works off a number of events such that nothing is pending any more, and of the
events that announce nodes the following holds. A node that joins the tree when an object is taken up
is announced by one that is worked off, as a scope of the kind under which the object was found or as
a constant. A node that joins the tree otherwise is announced by one that is worked off if it is a
callable, and by none if it is not. No two events that are worked off announce one node. And when one
of them is worked off, it carries a node, this node stands in the tree, and it is of the kind that the
event says. -/
theorem nodes_dispatched_once (c : Setting) (w : World) (t : Trackers) (seeds : List String)
    (hl : c.listeners.entries.Sublist Listener.defaults) {u : State}
    (h : Run.compile c (State.start w t seeds) = (.ok (), u)) :
    ∃ n, u.tree = ((State.outset c w t seeds).after c n).tree ∧
      ((State.outset c w t seeds).after c n).queue.items = [] ∧
      (∀ k < n, ∀ m ∈ ((State.outset c w t seeds).after c (k + 1)).tree.walk,
        ¬((State.outset c w t seeds).after c k).Stands m.id →
          (∀ found x o, ((State.outset c w t seeds).after c k).takesUp? = some (found, x, o) →
            ∃ j < n, ∃ p es, ((State.outset c w t seeds).after c j).queue.items =
              .node x p (some m.id) (if m.isScope then found else .const) none :: es) ∧
          (((State.outset c w t seeds).after c k).takesUp? = none → m.callable?.isSome →
            ∃ j < n, ∃ x o signature es, ((State.outset c w t seeds).after c j).queue.items =
              .node x o (some m.id) .method signature :: es) ∧
          (((State.outset c w t seeds).after c k).takesUp? = none → ¬m.callable?.isSome →
            ∀ j x o kind signature es, ((State.outset c w t seeds).after c j).queue.items ≠
              .node x o (some m.id) kind signature :: es)) ∧
      (∀ i j id x y o p kind kind' signature signature' es ds,
        ((State.outset c w t seeds).after c i).queue.items =
            .node x o (some id) kind signature :: es →
          ((State.outset c w t seeds).after c j).queue.items =
            .node y p (some id) kind' signature' :: ds → i = j) ∧
      ∀ j x o node kind signature es, ((State.outset c w t seeds).after c j).queue.items =
          .node x o node kind signature :: es →
        ∃ m ∈ ((State.outset c w t seeds).after c j).tree.walk,
          node = some m.id ∧ kind.Fits m := by
  have hs := State.seeded_outset c w t seeds
  obtain ⟨n, -, hnil, htree⟩ := Run.exists_of_compile_eq_ok h
  refine ⟨n, htree, hnil, fun k hk m hm hnew ↦ ⟨?_, ?_, ?_⟩, ?_, ?_⟩
  · intro found x o htakes
    obtain ⟨p, hmem⟩ := exists_announcement hs htakes hm hnew
    obtain ⟨j, -, hj, es, hcons⟩ := exists_cons_of_mem hmem hk hnil
    exact ⟨j, hj, p, es, hcons⟩
  · intro _ hcallable
    obtain ⟨i, hi, x, o, signature, hmem⟩ :=
      (everywhere_calledOut hs.blank (k + 1)).walk m hm hcallable
    obtain ⟨j, -, hj, es, hcons⟩ := exists_cons_of_mem hmem (Nat.le_trans hi hk) hnil
    exact ⟨j, hj, x, o, signature, es, hcons⟩
  · intro htakes hcallable j x o kind signature es hcons
    exact hcallable (callable_of_announced hs htakes hm hnew (hcons ▸ List.mem_cons_self))
  · intro i j id x y o p kind kind' signature signature' es ds hi hj
    exact dispatched_unique hs hi hj rfl rfl
  · intro j x o node kind signature es hcons
    exact exists_fits_of_cons hl hs hcons

/-- A class with a method. -/
def servedUniverse : UniverseDeclaration where
  modules := [{ name := "pkg", file := some "/srv/pkg.src", members := [("C", .reference "C")] }]
  objects := [("C", .class { name := "C", qualname := "C", module := some "pkg" } []
    [("run", .function
      { name := "run", qualname := "C.run", module := some "pkg", file := some "/srv/pkg.src" }
      [] [] .absent .absent)] .absent false)]

/-- The unit is the module. -/
def servedSetting : Setting :=
  .plain ⟨"pkg", [⟨["srv"]⟩]⟩

/-- A compilation that starts from the class. -/
def servedOutset : State :=
  .outset servedSetting (State.startOf servedUniverse []).world {} ["pkg.C"]

set_option maxRecDepth 100000 in
/-- The class and its method are dispatched. -/
theorem dispatched_of_served :
    servedSetting.listeners.entries.Sublist Listener.defaults ∧
      (∃ u, Run.compile servedSetting
        (State.start (State.startOf servedUniverse []).world {} ["pkg.C"]) = (.ok (), u)) ∧
      (∃ j x o es, (servedOutset.after servedSetting j).queue.items =
        .node x o (some 0) .scope none :: es) ∧
      ∃ j x o signature es, (servedOutset.after servedSetting j).queue.items =
        .node x o (some 1) .method signature :: es := by
  have hl : servedSetting.listeners.entries.Sublist Listener.defaults := .refl _
  have hsteps : ∀ k < 4, (servedOutset.after servedSetting k).advances servedSetting := by
    decide +kernel
  have hnil : (servedOutset.after servedSetting 4).queue.items = [] :=
    List.isEmpty_iff.mp (by decide +kernel)
  have hpending : ∀ k < 4, (servedOutset.after servedSetting k).queue.items.isEmpty = false := by
    decide +kernel
  -- the class is attached in the second step, its method in the third
  have hscope : ∃ m ∈ (servedOutset.after servedSetting 2).tree.walk, m.id = 0 ∧ m.isScope := by
    decide +kernel
  have hfirst : ¬(servedOutset.after servedSetting 1).Stands 0 := by
    show 0 ∉ (servedOutset.after servedSetting 1).tree.badges.map Badge.id
    decide +kernel
  have htakes : ((servedOutset.after servedSetting 1).takesUp?.map Prod.fst) = some .scope := by
    decide +kernel
  have hmethod : ∃ m ∈ (servedOutset.after servedSetting 3).tree.walk, m.id = 1 ∧
      m.callable?.isSome := by
    decide +kernel
  have hsecond : ¬(servedOutset.after servedSetting 2).Stands 1 := by
    show 1 ∉ (servedOutset.after servedSetting 2).tree.badges.map Badge.id
    decide +kernel
  have hlists : (servedOutset.after servedSetting 2).takesUp?.isNone := by decide +kernel
  rw [servedOutset, State.outset] at hsteps hnil
  rw [servedOutset] at hpending hscope hfirst htakes hmethod hsecond hlists ⊢
  obtain ⟨u, hu, -⟩ := Run.exists_compile_of_advances hsteps hnil
  obtain ⟨n, -, hend, hcarried, -, -⟩ := nodes_dispatched_once servedSetting
    (State.startOf servedUniverse []).world {} ["pkg.C"] hl hu
  have hn : 4 ≤ n := by
    refine Nat.le_of_not_lt fun hlt ↦ ?_
    have hfull := hpending n hlt
    rw [hend] at hfull
    cases hfull
  obtain ⟨m, hm, hid, hisScope⟩ := hscope
  rw [← hid] at hfirst
  obtain ⟨⟨found, x, o⟩, htakes, hfound⟩ := Option.map_eq_some_iff.mp htakes
  obtain ⟨j, -, p, es, hj⟩ := (hcarried 1 (by omega) m hm hfirst).1 found x o htakes
  rw [hid, if_pos hisScope, show found = .scope from hfound] at hj
  obtain ⟨f, hf, hid', hcallable⟩ := hmethod
  rw [← hid'] at hsecond
  obtain ⟨i, -, y, q, signature, ds, hi⟩ := (hcarried 2 (by omega) f hf hsecond).2.1
    (Option.isNone_iff_eq_none.mp hlists) hcallable
  rw [hid'] at hi
  exact ⟨hl, ⟨u, hu⟩, ⟨j, x, p, es, hj⟩, i, y, q, signature, ds, hi⟩

end Closure

end DeclClosure

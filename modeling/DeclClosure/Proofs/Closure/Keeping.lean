import DeclClosure.Proofs.Closure.Origins
import DeclClosure.Proofs.Closure.Pruning
import DeclClosure.Proofs.Tree.Indexed

/-!
# No declaration is lost

All along a run, the index of the tree has exactly the scopes of the walk, each under its own name
(`State.indexed_after`): a scope is declared under a name that was not dealt with, and the names of
all scopes in the tree were dealt with, so its name is free. No node stands in two places, for
identities are distinct.

With any of the library's listeners, a node that was ever attached stands in the tree, unless it is a
scope that the pruning listener took out when it had nothing to declare (`stands_or_removed`). For a
scope is only taken out when its own announcement is worked off, after all other listeners were told
of it; it is announced once, so no listener is told of a scope that has left the tree, and nothing is
ever listed outside of the tree.
-/

namespace DeclClosure.Closure

variable {c : Setting} {a : Announcement} {s t : State} {n : Nat} {id : NodeId}

/-! ### The index -/

theorem Node.children_eq_nil_of_isEmpty {m : Node} (h : m.isEmpty) : m.children = [] :=
  (Node.isEmpty_iff.mp h).1

/-- What listeners do keeps the index complete. -/
theorem Act.indexed (hs : s.Sound) (h : Act c a s t) (hi : s.tree.Indexed) : t.tree.Indexed := by
  cases h with
  | learn _ | keep _ | want _ _ | found _ _ _ _ | target _ _ _ => exact hi
  | dress hid hf => exact hi.modify hf.dresses _
  | record hcomp hid hname hw hf => exact hi.modify hf.dresses _
  | list name hkind hshows hd => exact hi.addUnder hs hshows.known hshows.isScope nofun rfl
  | listMethod name signature hkind hshows hf =>
    exact hi.addUnder hs hshows.known hshows.isScope nofun rfl
  | prune hprunes hkind hshows hempty hpayload =>
    exact hi.remove hs hshows.known (Node.children_eq_nil_of_isEmpty hempty)

theorem Acts.indexed (hs : s.Sound) (h : Acts c a s t) (hi : s.tree.Indexed) :
    t.tree.Indexed := by
  induction h with
  | refl => exact hi
  | tail hacts hact ih => exact hact.indexed (Acts.tends hs hacts).sound ih

/-- A verdict keeps the index complete if no scope has the name. -/
theorem State.indexed_enact {kind : NodeKind} {name : String} {o : Object} {v : Verdict}
    (hs : s.Sound) (hfree : s.tree.scope? name = none) (hi : s.tree.Indexed) :
    (s.enact kind name o v).tree.Indexed := by
  rcases s.tree_enact kind name o v with htree | ⟨m, -, rfl, -, -, hchildren, htree⟩
  · rwa [htree]
  · rw [htree]
    exact hi.add hs hchildren fun _ ↦ hfree

/-- The name of a scope that stands in the tree has been dealt with. -/
theorem mem_seen_of_isScope (hb : s.Blank) {m : Node} (hm : m ∈ (s.after c n).tree.walk)
    (hscope : m.isScope) : m.name ∈ (s.after c n).seen := by
  obtain ⟨o, v, k, hk, kind, htakes, -⟩ :=
    ((everywhere_originates hb n).walk m hm).resolve_right fun h ↦ h.2 hscope
  exact (mem_seen_after_iff hb.sound n).mpr (.inr ⟨k, hk, kind, o, htakes⟩)

/-- All along a run the index is complete. -/
theorem State.indexed_after (hb : s.Blank) (n : Nat) : (s.after c n).tree.Indexed := by
  induction n with
  | zero =>
    show s.tree.Indexed
    rw [hb.tree]
    exact .empty
  | succ n ih =>
    have hsound := State.after_sound (c := c) hb.sound n
    show ((s.after c n).next c).tree.Indexed
    cases State.turn c (s.after c n) with
    | idle w _ _ hnext | resolved w _ _ _ _ _ hnext | undecided w _ _ _ hnext =>
      rw [hnext]
      exact ih
    | told _ _ hacts => exact Acts.indexed (s := (s.after c n).popped) hsound hacts ih
    | @enacted kind name o v w htakes _ _ _ hnext =>
      -- a scope of that name would have made the name one that was dealt with
      have hfree : (s.after c n).tree.scope? name = none := by
        cases hname : (s.after c n).tree.scope? name with
        | none => rfl
        | some id =>
          obtain ⟨b, hmem, -, rfl, hscope⟩ := Tree.Sound.index hsound name id hname
          obtain ⟨m, hm, rfl⟩ := Tree.mem_badges_iff.mp hmem
          exact absurd (mem_seen_of_isScope hb hm hscope) (State.not_mem_seen_of_takesUp? htakes)
      rw [hnext]
      exact State.indexed_enact (s := ((s.after c n).popped.markSeen name).learn w) hsound hfree ih

/-! ### Standing -/

/-- The pruning listener takes out the node in the step that follows `k` events, when the announcement
of the node as a scope with a name of the standard environment is worked off; the node has nothing to
declare. -/
def RemovedIn (c : Setting) (s : State) (k : Nat) (id : NodeId) : Prop :=
  ∃ name o signature es,
    (s.after c k).queue.items = .node name o (some id) .scope signature :: es ∧
      c.inPayload name ∧ (s.after c k).Stands id ∧ ¬(s.after c (k + 1)).Stands id ∧
        ∃ m ∈ (s.after c (k + 1)).tree.detached, m.id = id ∧ m.isEmpty

/-- Within `n` events the pruning listener took out the node, which had nothing to declare. -/
def RemovedEmpty (c : Setting) (s : State) (n : Nat) (id : NodeId) : Prop :=
  c.Prunes ∧ ∃ k < n, RemovedIn c s k id

theorem RemovedEmpty.succ (h : RemovedEmpty c s n id) : RemovedEmpty c s (n + 1) id := by
  obtain ⟨hprunes, k, hk, hin⟩ := h
  exact ⟨hprunes, k, Nat.lt_succ_of_lt hk, hin⟩

/-- A step that works off no announcement takes no node out of the tree, and what is new stands
there. -/
theorem State.Change.stands (hs : s.Sound) (h : s.Change c t) (hno : ¬s.Tells) :
    (∀ id, s.Stands id → t.Stands id) ∧
      ∀ id, s.nextNode ≤ id → id < t.nextNode → t.Stands id := by
  refine ⟨fun id hid ↦ ?_, fun id hle hlt ↦ ?_⟩
  · obtain ⟨b, hb, rfl⟩ := List.mem_map.mp hid
    rcases h.kept hs hb with hb | ⟨name, o, signature, es, hcons⟩
    · exact List.mem_map_of_mem hb
    · exact absurd ⟨name, o, _, .scope, signature, es, hcons⟩ hno
  · cases h with
    | quiet _ htells _ => exact absurd (htells (Nat.lt_of_le_of_lt hle hlt)) hno
    | dropped _ _ _ hnext _ => exact absurd hlt (Nat.not_lt.mpr (hnext ▸ hle))
    | declared _ _ _ _ ht =>
      obtain ⟨-, b, hb, -, -, hperm⟩ := ht.badges hs
      have hnext : t.nextNode = s.nextNode + 1 := ht.next
      have hself : b.id = s.nextNode := hb
      rw [hnext] at hlt
      have hid : id = s.nextNode := Nat.le_antisymm (Nat.le_of_lt_succ hlt) hle
      refine List.mem_map.mpr ⟨b, hperm.mem_iff.mpr List.mem_cons_self, ?_⟩
      rw [hself, hid]

/-- A step that works off an announcement is made of acts that prune nothing, after which the announced
scope may be removed. -/
theorem exists_acts_of_cons (hl : c.listeners.entries.Sublist Listener.defaults) (hb : s.Blank)
    {name : String} {o : Object} {node : Option NodeId} {kind : NodeKind}
    {signature : Option Signature} {es : List Event}
    (hcons : (s.after c n).queue.items = .node name o node kind signature :: es) :
    ∃ u, Acts c.withoutPruning ⟨name, o, node, kind, signature⟩ (s.after c n).popped u ∧
      (s.after c (n + 1) = u ∨ ∃ scope ∈ u.tree.walk, scope.children = [] ∧
        s.after c (n + 1) = u.prune scope.id ∧ c.Prunes ∧ RemovedIn c s n scope.id) := by
  obtain ⟨u, r, hacts, hpruning, hnext, -⟩ := State.next_pruning hl hcons
  have hnext : s.after c (n + 1) = r.2 := hnext
  refine ⟨u, hacts, ?_⟩
  cases hpruning with
  | kept r hr => exact .inl hnext
  | @pruned scope hkind hprunes hpayload hshows hempty =>
    obtain rfl : kind = .scope := hkind
    obtain rfl : node = some scope.id := hshows.id
    have hpopped : (s.after c n).popped.Sound := State.after_sound hb.sound n
    have husound : u.Sound := (Acts.tends hpopped hacts).sound
    -- the scope stands in the tree, for its announcement has been pending until now
    have hbefore : (s.after c n).Stands scope.id :=
      stands_of_mem_announcements hb (State.mem_announcements hcons nofun)
    have hwalk : scope ∈ u.tree.walk := husound.mem_walk hshows.known
      ((Acts.stands c.not_prunes_withoutPruning hpopped hacts).1 scope.id hbefore)
    have hchildren := Node.children_eq_nil_of_isEmpty hempty
    refine .inr ⟨scope, hwalk, hchildren, hnext, hprunes, name, o, signature, es, hcons, hpayload,
      hbefore, ?_, scope, ?_, rfl, hempty⟩
    · rw [hnext]
      exact fun h ↦ ((husound.stands_prune_iff hwalk hchildren).mp h).2 rfl
    · rw [hnext]
      show scope ∈ (u.tree.remove scope.id).2.detached
      rw [(husound.apart.removed hwalk).2.detached]
      exact List.mem_append_right _ List.mem_cons_self

/-- With any of the library's listeners, every node that has got an identity stands in the tree, or
it was removed when it had nothing to declare. -/
theorem stands_or_removed (hl : c.listeners.entries.Sublist Listener.defaults) (hb : s.Blank)
    (hnone : s.nextNode = 0) (n : Nat) :
    ∀ id < (s.after c n).nextNode, (s.after c n).Stands id ∨ RemovedEmpty c s n id := by
  induction n with
  | zero =>
    intro id hid
    have hid : id < s.nextNode := hid
    rw [hnone] at hid
    exact absurd hid (Nat.not_lt_zero id)
  | succ n ih =>
    have hsound := State.after_sound (c := c) hb.sound n
    by_cases htells : (s.after c n).Tells
    · obtain ⟨name, o, node, kind, signature, es, hcons⟩ := htells
      obtain ⟨u, hacts, hend⟩ := exists_acts_of_cons hl hb hcons
      obtain ⟨hkept, hnew⟩ :=
        Acts.stands (s := (s.after c n).popped) c.not_prunes_withoutPruning hsound hacts
      -- a scope that is announced now stands in the tree, and so does what is listed below it
      have hstands : kind.isScope → ∀ i, node = some i → (s.after c n).Stands i := by
        rintro hscope i rfl
        exact stands_of_mem_announcements hb
          (State.mem_announcements hcons (NodeKind.ne_method hscope))
      have hall : ∀ id < u.nextNode, u.Stands id ∨ RemovedEmpty c s n id := by
        intro id hid
        rcases Nat.lt_or_ge id (s.after c n).nextNode with hlt | hge
        · exact (ih id hlt).imp_left (hkept id)
        · exact .inl (hnew hstands id hge hid)
      rcases hend with hnext | ⟨scope, hwalk, hchildren, hnext, hprunes, hremoved⟩
      · rw [hnext]
        exact fun id hid ↦ (hall id hid).imp_right RemovedEmpty.succ
      · have husound : u.Sound := (Acts.tends (s := (s.after c n).popped) hsound hacts).sound
        intro id hid
        rw [hnext] at hid ⊢
        rcases hall id hid with hu | hearlier
        · by_cases hself : id = scope.id
          · exact .inr ⟨hprunes, n, Nat.lt_succ_self n, hself ▸ hremoved⟩
          · exact .inl ((husound.stands_prune_iff hwalk hchildren).mpr ⟨hu, hself⟩)
        · exact .inr hearlier.succ
    · have hchange : (s.after c n).Change c (s.after c (n + 1)) := State.change hsound
      obtain ⟨hkept, hnew⟩ := hchange.stands hsound htells
      intro id hid
      rcases Nat.lt_or_ge id (s.after c n).nextNode with hlt | hge
      · exact (ih id hlt).imp (hkept id) RemovedEmpty.succ
      · exact .inl (hnew id hge hid)

/-- **No declaration is lost.** Let a compilation have any of the library's listeners, in their
order. For every world, all registrations and all seeds, and after any number of events: the index of
the tree has exactly the scopes that the walk meets, each under its own name, and no name twice; the
walk meets no node twice; and every node that was ever attached, as a declaration or as a member that
a listener listed, stands in the tree, except for the scopes that the pruning listener took out when
they had nothing to declare. -/
theorem declarations_kept (c : Setting) (w : World) (t : Trackers) (seeds : List String) (n : Nat)
    (hl : c.listeners.entries.Sublist Listener.defaults) :
    ((∀ name id, (name, id) ∈ ((State.outset c w t seeds).after c n).tree.index ↔
        ∃ m ∈ ((State.outset c w t seeds).after c n).tree.walk,
          m.isScope ∧ m.name = name ∧ m.id = id) ∧
      (((State.outset c w t seeds).after c n).tree.index.map Prod.fst).Nodup) ∧
      (((State.outset c w t seeds).after c n).tree.walk.map Node.id).Nodup ∧
      ∀ id, ((∃ x, Announced c (State.outset c w t seeds) n id x) ∨
          Listed c (State.outset c w t seeds) n id) →
        ((State.outset c w t seeds).after c n).Stands id ∨
          RemovedEmpty c (State.outset c w t seeds) n id := by
  have hb := State.blank_outset c w t seeds
  have hsound := State.after_sound (c := c) hb.sound n
  have hindexed := State.indexed_after (c := c) hb n
  refine ⟨⟨fun name id ↦ hindexed.mem_index_iff hsound, hindexed.nodup⟩,
    Tree.Sound.nodup_walk hsound, fun id hid ↦ stands_or_removed hl hb rfl n id ?_⟩
  -- every attached node has got its identity
  rcases hid with ⟨x, hx⟩ | ⟨k, hk, -, -, hlt⟩
  · exact (ledger hb n).fresh id x hx
  · exact Nat.lt_of_lt_of_le hlt (nextNode_mono hb.sound hk)

/-- A class of the standard environment with nothing in it but a class with nothing in it. -/
def hollowUniverse : UniverseDeclaration where
  modules := [{ name := "pkg", file := some "/srv/pkg.src", members := [("P", .reference "P")] }]
  objects := [
    ("Q", .class { name := "Q", qualname := "P.Q", module := some "pkg" } [] [] .absent false),
    ("P", .class { name := "P", qualname := "P", module := some "pkg" } []
      [("Q", .reference "Q")] .absent false)]

/-- The unit bootstraps both classes. -/
def hollowSetting : Setting :=
  { Setting.plain ⟨"pkg", [⟨["srv"]⟩]⟩ with
    payload := .ofNames ["pkg.P", "pkg.P.Q"]
    bootstrap := .ofNames ["pkg.P", "pkg.P.Q"] }

/-- A compilation that starts from both classes. -/
def hollowOutset : State :=
  .outset hollowSetting (State.startOf hollowUniverse []).world {} ["pkg.P", "pkg.P.Q"]

set_option maxRecDepth 100000 in
/-- The outer class still is in the index when the queue has run dry, and the inner class was
removed. -/
theorem declarations_kept_of_hollow :
    hollowSetting.listeners.entries.Sublist Listener.defaults ∧
      ("pkg.P", 0) ∈ (hollowOutset.after hollowSetting 6).tree.index ∧
        RemovedEmpty hollowSetting hollowOutset 6 1 := by
  have hl : hollowSetting.listeners.entries.Sublist Listener.defaults := .refl _
  have hstands : ∃ m ∈ (hollowOutset.after hollowSetting 6).tree.walk,
      m.isScope ∧ m.name = "pkg.P" ∧ m.id = 0 := by decide +kernel
  have hpending : 1 ∈ (hollowOutset.after hollowSetting 5).announcements := by decide +kernel
  have hgone : 1 ∉ (hollowOutset.after hollowSetting 6).tree.badges.map Badge.id := by
    decide +kernel
  obtain ⟨⟨hindex, -⟩, -, hkept⟩ :=
    declarations_kept hollowSetting (State.startOf hollowUniverse []).world {}
      ["pkg.P", "pkg.P.Q"] 6 hl
  have hannounced : ∃ x, Announced hollowSetting hollowOutset 6 1 x :=
    exists_announced_of_mem hpending (by decide)
  rw [hollowOutset] at hstands hgone hannounced ⊢
  exact ⟨hl, (hindex "pkg.P" 0).mpr hstands, (hkept 1 (.inl hannounced)).resolve_left hgone⟩

end DeclClosure.Closure

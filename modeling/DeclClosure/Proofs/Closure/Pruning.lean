import DeclClosure.Proofs.Closure.Announcements

/-!
# The listener that prunes comes last

Among the listeners of the library, and among any of them that a compilation has in their order, the
one that takes out scopes with nothing to declare comes last. So a dispatch is made of acts of
listeners that prune nothing, and of what the last one does about the node as the others have left
it: it takes the node out, or the node has something to declare or does not concern it (`Pruning`).

Acts of listeners that prune nothing keep all nodes in the tree, and what they list below a node that
stands in the tree stands there too (`Acts.stands`).
-/

namespace DeclClosure.Closure

variable {c : Setting} {a : Announcement} {s t u : State} {id : NodeId}

/-- The setting without the listeners that prune. -/
def Setting.withoutPruning (c : Setting) : Setting :=
  c.without .removeEmptyPayloadScopes

theorem Setting.not_prunes_withoutPruning (c : Setting) : ¬c.withoutPruning.Prunes :=
  c.not_mem_without .removeEmptyPayloadScopes

/-- Whatever a configuration chooses, the listeners are some of those of the library, in their
order. -/
theorem Listener.chosen_sublist (config : Config) :
    (Listener.chosen config).entries.Sublist Listener.defaults :=
  List.filter_sublist

/-- The listeners that do not prune, and after them the one that does, if there is one. -/
theorem Setting.listeners_eq (h : c.listeners.entries.Sublist Listener.defaults) :
    ∃ last, c.listeners.entries = c.withoutPruning.listeners.entries ++ last ∧
      (last = [] ∧ ¬c.Prunes ∨
        last = [("remove_empty_payload_scopes", .removeEmptyPayloadScopes)] ∧ c.Prunes) := by
  have hsplit : Listener.defaults = Listener.defaults.dropLast
      ++ [("remove_empty_payload_scopes", .removeEmptyPayloadScopes)] := rfl
  rw [hsplit] at h
  obtain ⟨ls, last, heq, hls, hlast⟩ := List.sublist_append_iff.mp h
  have hkeeps : ∀ l ∈ Listener.defaults.dropLast, l.2 ≠ .removeEmptyPayloadScopes := by decide
  have hfilter : ls.filter (fun l ↦ l.2 ≠ .removeEmptyPayloadScopes) = ls :=
    List.filter_eq_self.mpr fun l hl ↦ decide_eq_true (hkeeps l (hls.subset hl))
  refine ⟨last, ?_, ?_⟩
  · show c.listeners.entries = c.listeners.entries.filter _ ++ last
    rw [heq, List.filter_append, hfilter]
    rcases List.sublist_singleton.mp hlast with rfl | rfl
    · simp
    · simp
  · simp only [Prunes]
    rw [heq, List.map_append, List.mem_append]
    have hnot : .removeEmptyPayloadScopes ∉ ls.map Prod.snd := by
      intro hmem
      obtain ⟨l, hl, hl'⟩ := List.mem_map.mp hmem
      exact hkeeps l (hls.subset hl) hl'
    rcases List.sublist_singleton.mp hlast with rfl | rfl
    · exact .inl ⟨rfl, fun hor ↦ hor.elim hnot nofun⟩
    · exact .inr ⟨rfl, .inr List.mem_cons_self⟩

/-! ### What the last listener does -/

/-- What comes of an announcement after all listeners but the one that prunes have been told. -/
inductive Pruning (c : Setting) (a : Announcement) (u : State) : Except Failure Unit × State → Prop
  /-- The node stays where it is. If nothing failed and it is a scope of the unit with a name of the
  standard environment, it has something to declare. -/
  | kept (r : Except Failure Unit) : (r = .ok () → a.kind = .scope → c.Prunes →
      c.inPayload a.name → ∃ scope, a.Shows u scope ∧ ¬scope.isEmpty) → Pruning c a u (r, u)
  /-- The node is a scope of the unit with a name of the standard environment and nothing to declare,
  and is taken out. -/
  | pruned {scope : Node} : a.kind = .scope → c.Prunes → c.inPayload a.name → a.Shows u scope →
      scope.isEmpty → Pruning c a u (.ok (), u.prune scope.id)

theorem Run.removeIfEmpty_pruning (hkind : a.kind = .scope) (hprunes : c.Prunes) (u : State) :
    Pruning c a u (removeIfEmpty c a u) := by
  simp only [removeIfEmpty]
  by_cases hpayload : c.inPayload a.name
  · rw [if_pos hpayload, run_bind]
    have hstay := scopeOf_stays (a := a) "is_empty" u
    rcases hrun : scopeOf a "is_empty" u with ⟨f | scope, v⟩
    · rw [hrun] at hstay
      obtain rfl : u = v := hstay
      exact .kept (.error f) fun h ↦ by cases h
    · obtain ⟨rfl, hshows⟩ := scopeOf_eq_ok hrun
      dsimp only
      by_cases hempty : scope.isEmpty
      · rw [if_pos hempty]
        exact .pruned hkind hprunes hpayload hshows hempty
      · rw [if_neg hempty]
        exact .kept (.ok ()) fun _ _ _ _ ↦ ⟨scope, hshows, hempty⟩
  · rw [if_neg hpayload]
    exact .kept (.ok ()) fun _ _ _ h ↦ absurd h hpayload

theorem Run.tell_pruning (hprunes : c.Prunes) (name : String) (u : State) :
    Pruning c a u (tell c a name .removeEmptyPayloadScopes u) := by
  cases hkind : a.kind with
  | scope =>
    have htell : tell c a name .removeEmptyPayloadScopes = removeIfEmpty c a := by
      simp only [tell, hkind]
      rfl
    rw [htell]
    exact removeIfEmpty_pruning hkind hprunes u
  | const | method | foreignScope =>
    -- the listener is only told of scopes of the unit
    have htell : tell c a name .removeEmptyPayloadScopes = pure () := by
      simp only [tell, hkind]
      rfl
    rw [htell]
    refine .kept (.ok ()) fun _ h ↦ ?_
    rw [hkind] at h
    cases h

/-- A dispatch is made of acts that prune nothing and of what the last listener does. -/
theorem Run.dispatch_pruning (hl : c.listeners.entries.Sublist Listener.defaults) (a : Announcement)
    (s : State) :
    ∃ u, Acts c.withoutPruning a s u ∧ Pruning c a u (c.listeners.dispatch (tell c a) s) := by
  obtain ⟨last, heq, hlast⟩ := Setting.listeners_eq hl
  have hacts := dispatch_acts (c := c.withoutPruning) (a := a) s
  have hdispatch : c.listeners.dispatch (tell c a) = (do
      c.withoutPruning.listeners.dispatch (tell c.withoutPruning a)
      last.forM fun l ↦ tell c a l.1 l.2) := by
    simp only [Registry.dispatch, Setting.withoutPruning, tell_without]
    rw [heq]
    exact List.forM_append
  refine ⟨_, hacts, ?_⟩
  rw [hdispatch, run_bind]
  rcases c.withoutPruning.listeners.dispatch (tell c.withoutPruning a) s with ⟨f | ⟨⟩, u⟩
  · exact .kept (.error f) nofun
  · dsimp only
    rcases hlast with ⟨rfl, hnot⟩ | ⟨rfl, hprunes⟩
    · exact .kept (.ok ()) fun _ _ h ↦ absurd h hnot
    · have hone : ([("remove_empty_payload_scopes", Listener.removeEmptyPayloadScopes)].forM
          fun l ↦ tell c a l.1 l.2) u
            = tell c a "remove_empty_payload_scopes" .removeEmptyPayloadScopes u := by
        show (tell c a "remove_empty_payload_scopes" .removeEmptyPayloadScopes >>=
          fun _ ↦ pure PUnit.unit) u = _
        rw [run_bind]
        rcases tell c a "remove_empty_payload_scopes" .removeEmptyPayloadScopes u with ⟨_ | _, v⟩
          <;> rfl
      rw [hone]
      exact tell_pruning hprunes _ u

/-- The step that works off an announcement is made of acts that prune nothing and of what the last
listener does. -/
theorem State.next_pruning (hl : c.listeners.entries.Sublist Listener.defaults) {name : String}
    {o : Object} {node : Option NodeId} {kind : NodeKind} {signature : Option Signature}
    {es : List Event} (hcons : s.queue.items = .node name o node kind signature :: es) :
    ∃ u r, Acts c.withoutPruning ⟨name, o, node, kind, signature⟩ s.popped u ∧
      Pruning c ⟨name, o, node, kind, signature⟩ u r ∧ s.next c = r.2 ∧
        (s.advances c → r.1 = .ok ()) := by
  obtain ⟨u, hacts, hpruning⟩ :=
    Run.dispatch_pruning hl ⟨name, o, node, kind, signature⟩ s.popped
  refine ⟨u, _, hacts, hpruning, State.next_of_cons hcons, fun hadvances ↦ ?_⟩
  rw [State.dispatch_of_advances hcons hadvances]

/-! ### What stands in the tree -/

/-- What is listed below a node that stands in the tree stands there too. -/
theorem State.Sound.stands_list (hs : s.Sound) {scope : Node}
    (hknown : s.tree.node? scope.id = some scope) (hscope : scope.isScope)
    (hstands : s.Stands scope.id) (name : String) (d : Leaf) :
    (s.list scope.id fun id ↦ .leaf ⟨id, name, []⟩ d).Stands s.nextNode := by
  have hperm := (hs.apart.badges_addUnder_walk (hs.mem_walk hknown hstands) hscope
    (.leaf ⟨s.nextNode, name, []⟩ d)).1
  exact (hperm.map Badge.id).mem_iff.mpr List.mem_cons_self

/-- Whatever stood in the tree when a node was listed stands there still. -/
theorem State.Sound.stands_list_of_stands (hs : s.Sound) {scope : Node}
    (hknown : s.tree.node? scope.id = some scope) (hscope : scope.isScope) (name : String) (d : Leaf)
    (hstands : s.Stands id) : (s.list scope.id fun id ↦ .leaf ⟨id, name, []⟩ d).Stands id := by
  have htends : s.Tends (fun _ ↦ False) (s.list scope.id fun id ↦ .leaf ⟨id, name, []⟩ d) :=
    .list hs hknown hscope name d
  exact (htends.stands hstands).resolve_right fun h ↦ h

/-- An act of a listener that does not prune takes no node out of the tree, and what it lists stands
there if the announced scope does. -/
theorem Act.stands (hc : ¬c.Prunes) (hs : s.Sound) (h : Act c a s t) :
    (∀ id, s.Stands id → t.Stands id) ∧
      ((a.kind.isScope → ∀ i, a.node = some i → s.Stands i) →
        ∀ id, s.nextNode ≤ id → id < t.nextNode → t.Stands id) := by
  have hnone : ∀ {id : NodeId} {P : Prop}, s.nextNode ≤ id → id < s.nextNode → P :=
    fun hle hlt ↦ absurd hlt (Nat.not_lt.mpr hle)
  cases h with
  | learn _ | keep _ | want _ _ | found _ _ _ _ | target _ _ _ =>
    exact ⟨fun _ hid ↦ hid, fun _ _ hle hlt ↦ hnone hle hlt⟩
  | @dress i f hid hf =>
    refine ⟨fun _ h ↦ ?_, fun _ _ hle hlt ↦ hnone hle hlt⟩
    simp only [State.Stands, State.dress]
    rwa [Tree.badges_modify hf.dresses]
  | @record w name o i f hcomp hid hname hw hf =>
    refine ⟨fun _ h ↦ ?_, fun _ _ hle hlt ↦ hnone hle hlt⟩
    simp only [State.Stands, State.dress]
    rwa [Tree.badges_modify hf.dresses]
  | @list scope name d hkind hshows hd =>
    refine ⟨fun i hi ↦ ?_, fun hstands i hle hlt ↦ ?_⟩
    · exact hs.stands_list_of_stands hshows.known hshows.isScope _ d hi
    · obtain rfl : i = s.nextNode := Nat.le_antisymm (Nat.le_of_lt_succ hlt) hle
      have hscope := hstands (hkind ▸ rfl) scope.id hshows.id
      exact hs.stands_list hshows.known hshows.isScope hscope _ d
  | @listMethod scope name f signature hkind hshows hf =>
    refine ⟨fun i hi ↦ ?_, fun hstands i hle hlt ↦ ?_⟩
    · exact hs.stands_list_of_stands hshows.known hshows.isScope name (.method f) hi
    · obtain rfl : i = s.nextNode := Nat.le_antisymm (Nat.le_of_lt_succ hlt) hle
      have hscope := hstands hkind scope.id hshows.id
      exact hs.stands_list hshows.known hshows.isScope hscope name (.method f)
  | prune hprunes => exact absurd hprunes hc

/-- So does a sequence of such acts. -/
theorem Acts.stands (hc : ¬c.Prunes) (hs : s.Sound) (h : Acts c a s t) :
    (∀ id, s.Stands id → t.Stands id) ∧
      ((a.kind.isScope → ∀ i, a.node = some i → s.Stands i) →
        ∀ id, s.nextNode ≤ id → id < t.nextNode → t.Stands id) := by
  induction h with
  | refl => exact ⟨fun _ h ↦ h, fun _ _ hle hlt ↦ absurd hlt (Nat.not_lt.mpr hle)⟩
  | @tail u t hacts hact ih =>
    obtain ⟨hkept, hnew⟩ := hact.stands hc (Acts.tends hs hacts).sound
    refine ⟨fun id hid ↦ hkept id (ih.1 id hid), fun hstands id hle hlt ↦ ?_⟩
    rcases Nat.lt_or_ge id u.nextNode with hlt' | hge
    · exact hkept id (ih.2 hstands id hle hlt')
    · exact hnew (fun hscope i hi ↦ ih.1 i (hstands hscope i hi)) id hge hlt

/-- A node without children that is taken out leaves the tree, and all others stay. -/
theorem State.Sound.stands_prune_iff (hs : s.Sound) {m : Node} (hm : m ∈ s.tree.walk)
    (hc : m.children = []) : (s.prune m.id).Stands id ↔ s.Stands id ∧ id ≠ m.id := by
  have hwalk := (hs.apart.removed hm).2.badges hs.apart
  rw [Node.badges_of_children_eq_nil hc] at hwalk
  have hids := hwalk.map Badge.id
  have hnd := hids.nodup_iff.mp (List.nodup_append.mp hs.apart.nodup_ids).1
  show id ∈ (s.tree.remove m.id).2.badges.map Badge.id ↔ id ∈ s.tree.badges.map Badge.id ∧ id ≠ m.id
  rw [hids.mem_iff]
  constructor
  · intro hid
    refine ⟨List.mem_cons_of_mem _ hid, ?_⟩
    rintro rfl
    exact (List.nodup_cons.mp hnd).1 hid
  · rintro ⟨hid, hne⟩
    exact (List.mem_cons.mp hid).resolve_left hne

end DeclClosure.Closure

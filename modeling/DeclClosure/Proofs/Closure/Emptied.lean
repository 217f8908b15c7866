import DeclClosure.Proofs.Closure.Keeping
import DeclClosure.Proofs.Tree.Broods

/-!
# Scopes that were hollowed out

The pruning listener looks at a scope once, when its announcement is worked off. A scope of the
standard environment that stays has something to declare then: a fact, which it never loses, or a
child. In every step, a scope that stays in the tree keeps its children but for one that the pruning
listener takes out (`sublist_or_removed`). So if such a scope is empty in the end, it was hollowed
out (`HollowedOut`): after its own announcement was worked off, the only child that it still had was
taken out as an empty scope of the standard environment, and it has been empty since.

That does happen, when a class of the standard environment is declared and holds nothing but another
one that is announced after it.
-/

namespace DeclClosure.Closure

open DeclClosure.Tree (mem_badges_of_mem_walk)

variable {c : Setting} {a : Announcement} {s t : State} {k n : Nat} {id : NodeId}
  {ds : List NodeId} {m m' : Node}

/-! ### Children -/

theorem State.stands_of_mem_broods (h : (id, ds) ∈ s.tree.broods) : s.Stands id := by
  obtain ⟨m, hm, rfl, -⟩ := Tree.mem_broods_iff.mp h
  exact State.stands_of_mem_walk hm

/-- Acts of listeners that prune nothing leave every scope its children. -/
theorem Act.sublist_brood (hc : ¬c.Prunes) (hs : s.Sound) (h : Act c a s t)
    (hd : (id, ds) ∈ s.tree.broods) : ∃ es, (id, es) ∈ t.tree.broods ∧ ds.Sublist es := by
  have hlist : ∀ {scope : Node} (d : Node), a.Shows s scope →
      ∃ es, (id, es) ∈ (s.tree.addUnder scope.id d).broods ∧ ds.Sublist es := by
    intro scope d hshows
    have howner : ∀ k, s.tree.node? scope.id = some k → k.isScope := by
      intro k hk
      rw [hshows.known] at hk
      cases hk
      exact hshows.isScope
    refine ⟨_, hs.apart.mem_broods_addUnder howner d hd, ?_⟩
    split
    · exact List.sublist_append_left _ _
    · exact .refl _
  cases h with
  | learn _ | keep _ | want _ _ | found _ _ _ _ | target _ _ _ => exact ⟨ds, hd, .refl _⟩
  | @dress i f hid hf =>
    refine ⟨ds, ?_, .refl _⟩
    simp only [State.dress]
    rwa [Tree.broods_modify hf.dresses]
  | @record w name o i f hcomp hid hname hw hf =>
    refine ⟨ds, ?_, .refl _⟩
    simp only [State.dress]
    rwa [Tree.broods_modify hf.dresses]
  | list name hkind hshows hd => exact hlist _ hshows
  | listMethod name signature hkind hshows hf => exact hlist _ hshows
  | prune hprunes => exact absurd hprunes hc

theorem Acts.sublist_brood (hc : ¬c.Prunes) (hs : s.Sound) (h : Acts c a s t)
    (hd : (id, ds) ∈ s.tree.broods) : ∃ es, (id, es) ∈ t.tree.broods ∧ ds.Sublist es := by
  induction h with
  | refl => exact ⟨ds, hd, .refl _⟩
  | tail hacts hact ih =>
    obtain ⟨es, hes, hsub⟩ := ih
    obtain ⟨fs, hfs, hsub'⟩ := hact.sublist_brood hc (Acts.tends hs hacts).sound hes
    exact ⟨fs, hfs, hsub.trans hsub'⟩

/-- A verdict leaves every scope its children. -/
theorem State.sublist_brood_enact (hs : s.Sound) (hd : (id, ds) ∈ s.tree.broods) (kind : NodeKind)
    (name : String) (o : Object) (v : Verdict) :
    ∃ es, (id, es) ∈ (s.enact kind name o v).tree.broods ∧ ds.Sublist es := by
  rcases s.tree_enact kind name o v with htree | ⟨m, -, -, -, -, -, htree⟩
  · rw [htree]
    exact ⟨ds, hd, .refl _⟩
  · rw [htree]
    refine ⟨_, hs.apart.mem_broods_add (fun _ _ ↦ Tree.Sound.isScope_of_enclosing? hs) hd, ?_⟩
    split
    · exact List.sublist_append_left _ _
    · exact .refl _

/-- In a step, a scope that stays in the tree keeps its children, but for one that the pruning
listener takes out. -/
theorem sublist_or_removed (hl : c.listeners.entries.Sublist Listener.defaults) (hb : s.Blank)
    (hd : (id, ds) ∈ (s.after c n).tree.broods) (hstands : (s.after c (n + 1)).Stands id) :
    ∃ es, ds.Sublist es ∧ ((id, es) ∈ (s.after c (n + 1)).tree.broods ∨
      ∃ d ∈ es, RemovedIn c s n d ∧ (id, es.erase d) ∈ (s.after c (n + 1)).tree.broods) := by
  have hsound : (s.after c n).Sound := State.after_sound hb.sound n
  have hstay : ((s.after c n).next c).tree = (s.after c n).tree →
      ∃ es, ds.Sublist es ∧ ((id, es) ∈ (s.after c (n + 1)).tree.broods ∨
        ∃ d ∈ es, RemovedIn c s n d ∧ (id, es.erase d) ∈ (s.after c (n + 1)).tree.broods) :=
    fun htree ↦ ⟨ds, .refl _, .inl (congrArg Tree.broods htree ▸ hd)⟩
  cases State.turn c (s.after c n) with
  | idle w _ _ hnext | resolved w _ _ _ _ _ hnext | undecided w _ _ _ hnext =>
    exact hstay (by rw [hnext]; rfl)
  | told _ hcons _ =>
    obtain ⟨u, hacts, hend⟩ := exists_acts_of_cons hl hb hcons
    have hpopped : (s.after c n).popped.Sound := hsound
    obtain ⟨es, hes, hsub⟩ := hacts.sublist_brood c.not_prunes_withoutPruning hpopped hd
    refine ⟨es, hsub, ?_⟩
    rcases hend with hnext | ⟨scope, hwalk, hchildren, hnext, -, hremoved⟩
    · rw [hnext]
      exact .inl hes
    · -- the scope that is taken out is another one, and may have been a child
      have husound : u.Sound := (Acts.tends hpopped hacts).sound
      rw [hnext] at hstands ⊢
      have hne := ((husound.stands_prune_iff hwalk hchildren).mp hstands).2
      exact ((husound.apart.removed hwalk).2.mem_broods husound.apart hchildren hes hne).imp_right
        fun hmem ↦ ⟨scope.id, hmem.1, hremoved, hmem.2⟩
  | @enacted kind name o v w _ _ _ _ hnext =>
    obtain ⟨es, hes, hsub⟩ := State.sublist_brood_enact
      (s := ((s.after c n).popped.markSeen name).learn w) hsound hd kind name o v
    refine ⟨es, hsub, .inl ?_⟩
    show (id, es) ∈ ((s.after c n).next c).tree.broods
    rw [hnext]
    exact hes

/-- A scope that had children and has none in the end has lost its last child in some step, and has
had none since. The induction is on the time. -/
theorem exists_last_child (hl : c.listeners.entries.Sublist Listener.defaults) (hb : s.Blank)
    (hd : (id, ds) ∈ (s.after c k).tree.broods) (hne : ds ≠ []) (hle : k ≤ n)
    (hend : (id, []) ∈ (s.after c n).tree.broods) :
    ∃ j d, k ≤ j ∧ j < n ∧ (id, [d]) ∈ (s.after c j).tree.broods ∧ RemovedIn c s j d ∧
      ∀ i, j < i → i ≤ n → (id, []) ∈ (s.after c i).tree.broods := by
  induction n, hle using Nat.le_induction with
  | base => exact absurd ((State.after_sound hb.sound k).apart.eq_of_mem_broods hd hend) hne
  | succ n hle ih =>
    have hstands : (s.after c (n + 1)).Stands id := State.stands_of_mem_broods hend
    -- before the step it stood in the tree as well, with some children or none
    have hlt : id < (s.after c n).nextNode := Nat.lt_of_lt_of_le
      ((State.after_sound hb.sound k).lt_of_stands (State.stands_of_mem_broods hd))
      (nextNode_mono hb.sound hle)
    obtain ⟨m, hm, rfl⟩ := State.exists_of_stands (stands_of_le hb.sound hlt (Nat.le_succ n) hstands)
    generalize hes : m.children.map Node.id = es
    replace hes : (m.id, es) ∈ (s.after c n).tree.broods := hes ▸ Tree.mem_broods hm
    by_cases hnil : es = []
    · subst hnil
      obtain ⟨j, d, hkj, hjn, hj, hremoved, hsince⟩ := ih hes
      refine ⟨j, d, hkj, Nat.lt_succ_of_lt hjn, hj, hremoved, fun i hji hin ↦ ?_⟩
      rcases Nat.lt_or_eq_of_le hin with hlt | rfl
      · exact hsince i hji (Nat.le_of_lt_succ hlt)
      · exact hend
    · have hafter : (s.after c (n + 1)).Sound := State.after_sound hb.sound (n + 1)
      obtain ⟨fs, hsub, hfs | ⟨d, hmem, hremoved, hfs⟩⟩ := sublist_or_removed hl hb hes hstands
      · rw [hafter.apart.eq_of_mem_broods hfs hend] at hsub
        exact absurd (List.sublist_nil.mp hsub) hnil
      · -- what is left without the child is nothing, so it was the only one
        have herase := hafter.apart.eq_of_mem_broods hfs hend
        obtain rfl : fs = [d] := (List.erase_eq_nil_iff.mp herase).resolve_left (List.ne_nil_of_mem hmem)
        obtain rfl : es = [d] := (List.sublist_singleton.mp hsub).resolve_left hnil
        refine ⟨n, d, hle, Nat.lt_succ_self n, hes, hremoved, fun i hni hin ↦ ?_⟩
        obtain rfl : i = n + 1 := Nat.le_antisymm hin hni
        exact hend

/-! ### Facts -/

/-- A node that is bare was bare at all times. -/
theorem isBare_of_le (hb : s.Blank) (hle : k ≤ n) (hm : m ∈ (s.after c k).tree.walk)
    (hm' : m' ∈ (s.after c n).tree.walk) (hid : m'.id = m.id) (hbare : m'.isBare) : m.isBare := by
  have hsound : (s.after c k).Sound := State.after_sound hb.sound k
  -- whatever listeners do to a node, they do not make it bare
  have hend := holdsAt_of_le (P := fun q ↦ q.isBare → m.isBare) (fun _ _ _ _ h ↦ h)
    (fun _ _ q hf hq hfbare ↦ hq (hf.bare q hfbare)) hb.sound
    (hsound.lt_of_stands (State.stands_of_mem_walk hm)) hle (hsound.apart.everywhere hm fun h ↦ h)
  exact hend.walk m' hm' hid hbare

/-! ### Empty scopes -/

/-- The scope is announced under a name of the standard environment. After its announcement has been
worked off, a child that is all that it still has to declare is taken out, as an empty scope of the
standard environment too, and from then on it is empty. -/
def HollowedOut (c : Setting) (s : State) (id : NodeId) : Prop :=
  ∃ j x o signature es, (s.after c j).queue.items = .node x o (some id) .scope signature :: es ∧
    c.inPayload x ∧ ∃ k d, j < k ∧ RemovedIn c s k d ∧
      (∃ m ∈ (s.after c k).tree.walk, m.id = id ∧ m.children.map Node.id = [d] ∧ m.isBare) ∧
        ∀ i, k < i → ∃ m ∈ (s.after c i).tree.walk, m.id = id ∧ m.isEmpty

/-- An announced scope bears the name under which it was announced. -/
theorem Announced.name_eq {x : String} (hb : s.Blank) (h : Announced c s n m.id x)
    (hm : m ∈ (s.after c n).tree.walk) (hscope : m.isScope) : m.name = x := by
  obtain ⟨k, hk⟩ := Node.exists_stem_of_isScope hscope
  rw [← (Node.isScope_of_stem hk).2.2]
  exact (ledger hb n).badge _ (mem_badges_of_mem_walk hm) x h

/-- What the pruning listener leaves in the tree when it is told of a scope of the standard
environment has something to declare. -/
theorem exists_not_isEmpty (hl : c.listeners.entries.Sublist Listener.defaults) (hprunes : c.Prunes)
    (hb : s.Blank) {x : String} {o : Object} {signature : Option Signature} {es : List Event}
    (hcons : (s.after c n).queue.items = .node x o (some id) .scope signature :: es)
    (hadvances : (s.after c n).advances c) (hpayload : c.inPayload x)
    (hstands : (s.after c (n + 1)).Stands id) :
    ∃ m ∈ (s.after c (n + 1)).tree.walk, m.id = id ∧ ¬m.isEmpty := by
  obtain ⟨u, r, hacts, hpruning, hnext, hok⟩ := State.next_pruning hl hcons
  have hnext : s.after c (n + 1) = r.2 := hnext
  have hpopped : (s.after c n).popped.Sound := State.after_sound hb.sound n
  have husound : u.Sound := (Acts.tends hpopped hacts).sound
  rw [hnext] at hstands ⊢
  cases hpruning with
  | kept r hr =>
    obtain ⟨scope, hshows, hne⟩ := hr (hok hadvances) rfl hprunes hpayload
    obtain rfl := Option.some.inj hshows.id
    exact ⟨scope, husound.mem_walk hshows.known hstands, rfl, hne⟩
  | @pruned scope _ _ _ hshows hempty =>
    obtain rfl := Option.some.inj hshows.id
    -- a scope that is taken out does not stand in the tree
    have hbefore : u.Stands scope.id :=
      (Acts.stands c.not_prunes_withoutPruning hpopped hacts).1 _
        (stands_of_mem_announcements hb (State.mem_announcements hcons nofun))
    have hwalk := husound.mem_walk hshows.known hbefore
    have hchildren := Node.children_eq_nil_of_isEmpty hempty
    exact absurd rfl ((husound.stands_prune_iff hwalk hchildren).mp hstands).2

/-- When a compilation is done, an announced scope of the standard environment is empty exactly if it
was hollowed out. -/
theorem isEmpty_iff_hollowedOut (hl : c.listeners.entries.Sublist Listener.defaults)
    (hprunes : c.Prunes) (hb : s.Blank) (hsteps : ∀ k < n, (s.after c k).advances c)
    (hnil : (s.after c n).queue.items = []) (hm : m ∈ (s.after c n).tree.walk) (hscope : m.isScope)
    {x : String} {o : Object} (hann : AnnouncedAs c s .scope x o m.id)
    (hpayload : c.inPayload m.name) : m.isEmpty ↔ HollowedOut c s m.id := by
  have hsound : (s.after c n).Sound := State.after_sound hb.sound n
  constructor
  · intro hempty
    obtain ⟨hchildren, hbare⟩ := Node.isEmpty_iff.mp hempty
    obtain ⟨j, hjn, signature, es, hcons⟩ := hann.exists_cons hnil
    have hname : m.name = x := Announced.name_eq hb
      ⟨j, Nat.le_of_lt hjn, o, .scope, signature, nofun, hcons ▸ List.mem_cons_self⟩ hm hscope
    have hlt : m.id < (s.after c (j + 1)).nextNode := Nat.lt_of_lt_of_le
      ((State.heralds_after hb j).lt _ (State.mem_announcements hcons nofun))
      (nextNode_mono hb.sound (Nat.le_succ j))
    -- right after that it had something to declare, which was a child
    obtain ⟨p, hp, hpid, hne⟩ := exists_not_isEmpty hl hprunes hb hcons (hsteps j hjn) (hname ▸ hpayload)
      (stands_of_le hb.sound hlt hjn (State.stands_of_mem_walk hm))
    have hpbare : p.isBare := isBare_of_le hb hjn hp hm hpid.symm hbare
    have hpchildren : p.children.map Node.id ≠ [] := by
      intro h
      exact hne (Node.isEmpty_iff.mpr ⟨List.map_eq_nil_iff.mp h, hpbare⟩)
    have hend : (m.id, []) ∈ (s.after c n).tree.broods := by
      have hbrood := Tree.mem_broods hm
      rwa [hchildren] at hbrood
    obtain ⟨k, d, hjk, hkn, hlast, hremoved, hsince⟩ :=
      exists_last_child hl hb (hpid ▸ Tree.mem_broods hp) hpchildren hjn hend
    refine ⟨j, x, o, signature, es, hcons, hname ▸ hpayload, k, d, hjk, hremoved, ?_, ?_⟩
    · obtain ⟨q, hq, hqid, hqchildren⟩ := Tree.mem_broods_iff.mp hlast
      exact ⟨q, hq, hqid, hqchildren, isBare_of_le hb (Nat.le_of_lt hkn) hq hm hqid.symm hbare⟩
    · intro i hki
      rcases Nat.le_total i n with hin | hni
      · obtain ⟨q, hq, hqid, hqchildren⟩ := Tree.mem_broods_iff.mp (hsince i hki hin)
        have hqbare : q.isBare := isBare_of_le hb hin hq hm hqid.symm hbare
        exact ⟨q, hq, hqid, Node.isEmpty_iff.mpr ⟨List.map_eq_nil_iff.mp hqchildren, hqbare⟩⟩
      · rw [State.after_of_nil hnil hni]
        exact ⟨m, hm, rfl, hempty⟩
  · rintro ⟨-, -, -, -, -, -, -, k, d, -, -, -, hsince⟩
    obtain ⟨q, hq, hqid, hqempty⟩ := hsince (n + (k + 1)) (by omega)
    rw [State.after_of_nil hnil (Nat.le_add_right n (k + 1))] at hq
    rwa [← hsound.apart.eq_of_id_eq hq hm hqid]

/-- A scope that was hollowed out stands in the tree to the end, as an empty scope with a name of the
standard environment that was announced. -/
theorem HollowedOut.exists_empty (hb : s.Blank) (h : HollowedOut c s id)
    (hnil : (s.after c n).queue.items = []) :
    ∃ m ∈ (s.after c n).tree.walk, m.id = id ∧ m.isScope ∧
      (∃ x o, AnnouncedAs c s .scope x o id) ∧ c.inPayload m.name ∧ m.isEmpty := by
  obtain ⟨j, x, o, signature, es, hcons, hpayload, k, d, hjk, -, ⟨p, hp, rfl, hchildren, -⟩, hsince⟩ := h
  have hpending : .node x o (some p.id) .scope signature ∈ (s.after c j).queue.items :=
    hcons ▸ List.mem_cons_self
  obtain ⟨m, hm, hid, hempty⟩ := hsince (n + (k + 1)) (by omega)
  have hsame : s.after c (n + (k + 1)) = s.after c n :=
    State.after_of_nil hnil (Nat.le_add_right n (k + 1))
  -- it had a child, so it is a scope, and it is the same node still
  have hpscope : p.isScope := by
    obtain ⟨q, qs, hq, -⟩ := List.map_eq_cons_iff.mp hchildren
    exact Node.isScope_of_mem_children (hq ▸ List.mem_cons_self)
  have hsound : (s.after c k).Sound := State.after_sound hb.sound k
  have hlt : m.id < (s.after c k).nextNode :=
    hid ▸ hsound.lt_of_stands (State.stands_of_mem_walk hp)
  have hbadge : m.badge = p.badge := by
    have hmem := mem_badges_of_le hb.sound hlt (by omega) (mem_badges_of_mem_walk hm)
    exact hsound.apart.badge_eq (List.mem_append_left _ hmem)
      (List.mem_append_left _ (mem_badges_of_mem_walk hp)) hid
  have hscope : m.isScope := (congrArg Badge.isScope hbadge).trans hpscope
  have hname : m.name = x := Announced.name_eq (n := n + (k + 1)) hb
    ⟨j, by omega, o, .scope, signature, nofun, hid ▸ hpending⟩ hm hscope
  rw [hsame] at hm
  exact ⟨m, hm, hid, hscope, ⟨x, o, j, signature, hpending⟩, hname ▸ hpayload, hempty⟩

/-- **Which empty scopes are left.** Let a compilation have any of the library's listeners, in their
order, the one that prunes among them. For every world, all registrations, all seeds and whatever the
standard environment is, once the compilation has succeeded: no scope of the tree that was announced
as one of the unit and whose name belongs to the standard environment is empty, exactly if no scope
was hollowed out. -/
theorem payload_scopes_nonempty_iff (c : Setting) (w : World) (tr : Trackers) (seeds : List String)
    (hl : c.listeners.entries.Sublist Listener.defaults) (hprunes : c.Prunes) {t : State}
    (h : Run.compile c (State.start w tr seeds) = (.ok (), t)) :
    (∀ m ∈ t.tree.walk, m.isScope →
        (∃ x o, AnnouncedAs c (State.outset c w tr seeds) .scope x o m.id) →
          c.inPayload m.name → ¬m.isEmpty) ↔
      ∀ id, ¬HollowedOut c (State.outset c w tr seeds) id := by
  obtain ⟨n, hsteps, hnil, htree⟩ := Run.exists_of_compile_eq_ok h
  have hb := State.blank_outset c w tr seeds
  rw [htree]
  constructor
  · intro hall id hhollow
    obtain ⟨m, hm, rfl, hscope, hann, hpayload, hempty⟩ := hhollow.exists_empty hb hnil
    exact hall m hm hscope hann hpayload hempty
  · rintro hnone m hm hscope ⟨x, o, hann⟩ hpayload hempty
    exact hnone m.id ((isEmpty_iff_hollowedOut hl hprunes hb hsteps hnil hm hscope hann hpayload).mp
      hempty)

set_option maxRecDepth 100000 in
/-- The outer class is announced, belongs to the standard environment, and stays in the tree without
anything to declare. -/
theorem hollow_kept : ∃ m ∈ (hollowOutset.after hollowSetting 6).tree.walk, m.isScope ∧
    (∃ x o, AnnouncedAs hollowSetting hollowOutset .scope x o m.id) ∧
      hollowSetting.inPayload m.name ∧ m.isEmpty := by
  have hnode : ∃ m ∈ (hollowOutset.after hollowSetting 6).tree.walk,
      m.isScope ∧ m.id = 0 ∧ hollowSetting.inPayload m.name ∧ m.isEmpty := by decide +kernel
  have hannounced : AnnouncedAs hollowSetting hollowOutset .scope "pkg.P" (.entity (.declared 2)) 0 :=
    announcedAs_of_mem (k := 4) (by decide +kernel)
  obtain ⟨m, hm, hscope, hid, hrest⟩ := hnode
  exact ⟨m, hm, hscope, ⟨_, _, hid ▸ hannounced⟩, hrest⟩

set_option maxRecDepth 100000 in
/-- The compilation from both classes succeeds, and leaves the outer class. -/
theorem hollow_compiled : ∃ t, Run.compile hollowSetting (State.start
      (State.startOf hollowUniverse []).world {} ["pkg.P", "pkg.P.Q"]) = (.ok (), t) ∧
    ∃ m ∈ t.tree.walk, m.isScope ∧
      (∃ x o, AnnouncedAs hollowSetting hollowOutset .scope x o m.id) ∧
        hollowSetting.inPayload m.name ∧ m.isEmpty := by
  have hsteps : ∀ k < 6, (hollowOutset.after hollowSetting k).advances hollowSetting := by
    decide +kernel
  have hnil : (hollowOutset.after hollowSetting 6).queue.items = [] :=
    List.isEmpty_iff.mp (by decide +kernel)
  have hkept := hollow_kept
  rw [hollowOutset, State.outset] at hsteps hnil hkept
  obtain ⟨t, hcompile, htree⟩ := Run.exists_compile_of_advances hsteps hnil
  rw [← htree] at hkept
  exact ⟨t, hcompile, hkept⟩

/-- The outer class was hollowed out: the inner class was all that it had to declare. -/
theorem exists_hollowedOut : (hollowSetting.listeners.entries.Sublist Listener.defaults ∧
      hollowSetting.Prunes ∧ ∃ t, Run.compile hollowSetting (State.start
        (State.startOf hollowUniverse []).world {} ["pkg.P", "pkg.P.Q"]) = (.ok (), t)) ∧
    ∃ id, HollowedOut hollowSetting hollowOutset id := by
  have hl : hollowSetting.listeners.entries.Sublist Listener.defaults := .refl _
  have hprunes : hollowSetting.Prunes := List.mem_of_getElem? (i := 11) rfl
  obtain ⟨t, hcompile, m, hm, hscope, hann, hpayload, hempty⟩ := hollow_compiled
  refine ⟨⟨hl, hprunes, t, hcompile⟩, ?_⟩
  rw [hollowOutset] at hann ⊢
  by_contra hnone
  have hall := (payload_scopes_nonempty_iff hollowSetting (State.startOf hollowUniverse []).world {}
    ["pkg.P", "pkg.P.Q"] hl hprunes hcompile).mpr (not_exists.mp hnone)
  exact hall m hm hscope hann hpayload hempty

/-- An empty scope with a name of the standard environment is left in the tree by a compilation that
has all listeners and has succeeded. -/
theorem hollow_scope_left : hollowSetting.listeners = ⟨Listener.defaults⟩ ∧
    ∃ t, Run.compile hollowSetting (State.start (State.startOf hollowUniverse []).world {}
        ["pkg.P", "pkg.P.Q"]) = (.ok (), t) ∧
      ∃ m ∈ t.tree.walk, m.isScope ∧
        (∃ x o, AnnouncedAs hollowSetting hollowOutset .scope x o m.id) ∧
          hollowSetting.inPayload m.name ∧ m.isEmpty :=
  ⟨rfl, hollow_compiled⟩

end DeclClosure.Closure

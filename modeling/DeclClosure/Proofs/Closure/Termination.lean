import DeclClosure.Proofs.Closure.Steps
import DeclClosure.Proofs.Closure.Superclass
import Mathlib.Data.Finset.Card
import Mathlib.Data.Multiset.DershowitzManna
import Mathlib.Data.Prod.Lex

/-!
# Compilations end

Every event is replaced by finitely many events of lower rank (`Event.rank`): the announcement of a
scope leads to anything but other scopes, that of a callable to symbols, a symbol to an object, and
an object to the announcement of a constant — unless it becomes a scope. Then its name is one that
some class or module declares for itself, and it had not been dealt with before. Of such names there
are finitely many for all times (`State.Confined`), so the pair of those that are left and of the
ranks of the pending events gets smaller with every event, the ranks being compared as multisets
(`State.below_of_dispatch`).

Hence the loop that works off all events stops from every state (`Run.workOff_isSome`), whatever the
listeners are.
-/

namespace DeclClosure.Closure

/-- How high the announcement of a node stands. -/
def nodeRank : NodeKind → Nat
  | .const => 0
  | .method => 3
  | .scope | .foreignScope => 4

theorem two_lt_nodeRank {k : NodeKind} (h : k ≠ .const) : 2 < nodeRank k := by
  cases k with
  | const => exact absurd rfl h
  | method => decide
  | scope => decide
  | foreignScope => decide

theorem nodeRank_of_isScope {k : NodeKind} (h : k.isScope) : nodeRank k = 4 := by
  cases k with
  | scope => rfl
  | foreignScope => rfl
  | const => cases h
  | method => cases h

/-- How high an event stands. -/
def Event.rank : Event → Nat
  | .bare => 0
  | .constant _ _ | .foreignConstant _ _ => 1
  | .symbol _ => 2
  | .node _ _ _ kind _ => nodeRank kind

/-- An object outside of the unit is only passed on under one of some names. -/
def Event.Confined (names : List String) : Event → Prop
  | .foreignConstant name _ => Name.stripRoot name ∈ names
  | _ => True

/-- No scope will ever be made of an object unless it is under one of some names. -/
structure State.Confined (names : List String) (s : State) : Prop where
  /-- Pending objects outside of the unit have such names. -/
  queue : ∀ e ∈ s.queue.items, e.Confined names
  /-- Modules and classes never declare others. -/
  declared : ∀ w o name, s.world.Evolves w → w.canonicalName? o = some name →
    name ∈ names ∧ Name.stripRoot name ∈ names

/-- For every state there are finitely many names to which it is confined. -/
theorem State.exists_confined (s : State) : ∃ names, s.Confined names := by
  let foreign : Event → Option String
    | .foreignConstant name _ => some (Name.stripRoot name)
    | _ => none
  refine ⟨s.queue.items.filterMap foreign ++ (s.world.names ++ s.world.names.map Name.stripRoot),
    fun e he ↦ ?_, fun w o name hw hname ↦ ?_⟩
  · -- what is pending already may have been passed on under any name
    cases e with
    | foreignConstant name o =>
      exact List.mem_append_left _ (List.mem_filterMap.mpr ⟨_, he, rfl⟩)
    | _ => trivial
  · have hmem := World.mem_names_of_canonicalName? hw hname
    exact ⟨List.mem_append_right _ (List.mem_append_left _ hmem),
      List.mem_append_right _ (List.mem_append_right _ (List.mem_map_of_mem hmem))⟩

/-! ### The measure -/

/-- The names that are left to become scopes. -/
def State.left (names : List String) (s : State) : Nat :=
  (names.toFinset \ s.seen.toFinset).card

/-- The ranks of the pending events. -/
def State.weight (s : State) : Multiset Nat :=
  (s.queue.items.map Event.rank : Multiset Nat)

/-- Fewer names are left, or events have been replaced by events of lower rank. -/
def State.Below (names : List String) (t s : State) : Prop :=
  Prod.Lex (· < ·) Multiset.IsDershowitzMannaLT (t.left names, t.weight) (s.left names, s.weight)

theorem State.wellFounded_below (names : List String) : WellFounded (State.Below names) :=
  InvImage.wf (fun s : State ↦ (s.left names, s.weight))
    (WellFounded.prod_lex wellFounded_lt Multiset.wellFounded_isDershowitzMannaLT)

theorem State.left_le (names : List String) {s t : State} (h : s.seen ⊆ t.seen) :
    t.left names ≤ s.left names := by
  refine Finset.card_le_card (Finset.sdiff_subset_sdiff (Finset.Subset.refl _) fun n hn ↦ ?_)
  exact List.mem_toFinset.mpr (h (List.mem_toFinset.mp hn))

theorem State.left_lt {names : List String} {s t : State} {name : String} (h : s.seen ⊆ t.seen)
    (hname : name ∈ names) (hs : name ∉ s.seen) (ht : name ∈ t.seen) :
    t.left names < s.left names := by
  refine Finset.card_lt_card (Finset.ssubset_iff_subset_ne.mpr ⟨?_, fun heq ↦ ?_⟩)
  · refine Finset.sdiff_subset_sdiff (Finset.Subset.refl _) fun n hn ↦ ?_
    exact List.mem_toFinset.mpr (h (List.mem_toFinset.mp hn))
  · have hmem : name ∈ names.toFinset \ s.seen.toFinset := by
      rw [Finset.mem_sdiff, List.mem_toFinset, List.mem_toFinset]
      exact ⟨hname, hs⟩
    rw [← heq, Finset.mem_sdiff, List.mem_toFinset, List.mem_toFinset] at hmem
    exact hmem.2 ht

theorem State.below_of_lt {names : List String} {s t : State} (h : t.left names < s.left names) :
    t.Below names s :=
  .left _ _ h

theorem State.below_of_replaced {names : List String} {s t : State} {e : Event}
    {rest es : List Event} (hseen : s.seen ⊆ t.seen) (hs : s.queue.items = e :: rest)
    (ht : t.queue.items = rest ++ es) (hes : ∀ d ∈ es, d.rank < e.rank) : t.Below names s := by
  have hweight : Multiset.IsDershowitzMannaLT t.weight s.weight := by
    refine ⟨(rest.map Event.rank : Multiset Nat), (es.map Event.rank : Multiset Nat), {e.rank}, ?_,
      ?_, ?_, fun r hr ↦ ?_⟩
    · exact Multiset.singleton_ne_zero _
    · show ((t.queue.items.map Event.rank : List Nat) : Multiset Nat) = _
      rw [ht, List.map_append, Multiset.coe_add]
    · show ((s.queue.items.map Event.rank : List Nat) : Multiset Nat) = _
      rw [hs, List.map_cons, ← Multiset.cons_coe, add_comm, Multiset.singleton_add]
    · obtain ⟨d, hd, rfl⟩ := List.mem_map.mp (Multiset.mem_coe.mp hr)
      exact ⟨e.rank, Multiset.mem_singleton_self _, hes d hd⟩
  rcases Nat.lt_or_eq_of_le (State.left_le names hseen) with hlt | heq
  · exact .left _ _ hlt
  · simp only [Below]
    rw [heq]
    exact .right _ hweight

/-! ### What an event leads to -/

/-- From `s` to `t` the world has evolved and some events have joined the queue. They are below a
rank, unless a name that was left has become a scope. -/
structure State.Grows (names : List String) (rank : Nat) (s t : State) : Prop where
  /-- The world has evolved. -/
  world : s.world.Evolves t.world
  /-- What has been dealt with stays so. -/
  seen : s.seen ⊆ t.seen
  /-- New events are below the rank, or fewer names are left. -/
  queue : ∃ es, t.queue.items = s.queue.items ++ es ∧ (∀ e ∈ es, e.Confined names) ∧
    ((∀ e ∈ es, e.rank < rank) ∨ t.left names < s.left names)

namespace State.Grows

variable {names : List String} {rank : Nat} {s t u : State}

theorem of_eq (hw : s.world.Evolves t.world) (hs : s.seen ⊆ t.seen) (hq : t.queue = s.queue) :
    s.Grows names rank t :=
  ⟨hw, hs, [], by rw [hq, List.append_nil], nofun, .inl nofun⟩

theorem refl (s : State) : s.Grows names rank s :=
  of_eq (refl_of World.Evolves s.world) (List.Subset.refl _) rfl

theorem learn {w : World} (hw : s.world.Evolves w) : s.Grows names rank (s.learn w) :=
  of_eq hw (List.Subset.refl _) rfl

theorem list (owner : NodeId) (child : NodeId → Node) : s.Grows names rank (s.list owner child) :=
  of_eq (refl_of World.Evolves s.world) (List.Subset.refl _) rfl

theorem markSeen {w : World} (name : String) (hw : s.world.Evolves w) :
    s.Grows names rank ((s.markSeen name).learn w) :=
  of_eq hw (List.subset_append_left _ _) rfl

theorem push (h : s.Grows names rank t) {e : Event} (hrank : e.rank < rank)
    (he : e.Confined names) : s.Grows names rank (t.push e) := by
  obtain ⟨es, hes, hconf, hlow⟩ := h.queue
  refine ⟨h.world, h.seen, es ++ [e], ?_, fun d hd ↦ ?_, hlow.imp_left fun hall d hd ↦ ?_⟩
  · show t.queue.items ++ [e] = _
    rw [hes, List.append_assoc]
  · rcases List.mem_append.mp hd with hd | hd
    · exact hconf d hd
    · obtain rfl := List.mem_singleton.mp hd
      exact he
  · rcases List.mem_append.mp hd with hd | hd
    · exact hall d hd
    · obtain rfl := List.mem_singleton.mp hd
      exact hrank

theorem attach (h : s.Grows names rank t) {kind : NodeKind} (hrank : nodeRank kind < rank)
    (name : String) (o : Object) (node : NodeId → Node) :
    s.Grows names rank (t.attach kind name o node) := by
  have hpush : s.Grows names rank (t.push (.node name o (some t.nextNode) kind none)) :=
    h.push hrank trivial
  exact ⟨hpush.world, hpush.seen, hpush.queue⟩

theorem attachConst (h : s.Grows names 1 t) (name : String) (o : Object)
    (value ascription : Option String) :
    s.Grows names 1 (t.attachConst name o value ascription) :=
  h.attach (by decide : nodeRank .const < 1) name o _

theorem closeNamespace (h : s.Grows names rank t) (name : String) :
    s.Grows names rank (t.closeNamespace name) := by
  simp only [State.closeNamespace]
  split
  · exact h
  · exact ⟨h.world, h.seen, h.queue⟩

theorem trans (h₁ : s.Grows names rank t) (h₂ : t.Grows names rank u) : s.Grows names rank u := by
  obtain ⟨es, hes, hconf, hlow⟩ := h₁.queue
  obtain ⟨ds, hds, hconf', hlow'⟩ := h₂.queue
  refine ⟨h₁.world.trans h₂.world, List.Subset.trans h₁.seen h₂.seen, es ++ ds, ?_,
    fun e he ↦ ?_, ?_⟩
  · rw [hds, hes, List.append_assoc]
  · rcases List.mem_append.mp he with he | he
    · exact hconf e he
    · exact hconf' e he
  · have hle₁ := left_le names h₁.seen
    have hle₂ := left_le names h₂.seen
    rcases hlow with hall | hlt
    · rcases hlow' with hall' | hlt
      · refine .inl fun e he ↦ ?_
        rcases List.mem_append.mp he with he | he
        · exact hall e he
        · exact hall' e he
      · exact .inr (by omega)
    · exact .inr (by omega)

theorem confined (hg : s.Grows names rank t) (h : s.Confined names) : t.Confined names := by
  obtain ⟨es, hes, hconf, -⟩ := hg.queue
  refine ⟨fun e he ↦ ?_, fun w o name hw ↦ h.declared w o name (hg.world.trans hw)⟩
  rw [hes] at he
  rcases List.mem_append.mp he with he | he
  · exact h.queue e he
  · exact hconf e he

end State.Grows

section Growth

variable {c : Setting} {a : Announcement} {names : List String} {s t : State}

/-- An act only leads to events that stand lower than the announcement. -/
theorem Act.grows (hs : s.Confined names) (h : Act c a s t) :
    s.Grows names (nodeRank a.kind) t := by
  cases h with
  | learn hw => exact .learn hw
  | keep call => exact .of_eq (refl_of World.Evolves _) (List.Subset.refl _) rfl
  | dress _ _ => exact .of_eq (refl_of World.Evolves _) (List.Subset.refl _) rfl
  | @record w name o id f hcomp hid hrun hw hf =>
    have hpush : s.Grows names (nodeRank a.kind) ((s.learn w).push (.symbol name)) :=
      (State.Grows.learn hw).push (two_lt_nodeRank (NodeKind.ne_const hcomp.1)) trivial
    exact ⟨hpush.world, hpush.seen, hpush.queue⟩
  | list name hkind hshows hd =>
    exact .of_eq (refl_of World.Evolves _) (List.Subset.refl _) rfl
  | prune hprunes hkind hshows hempty hpayload =>
    exact .of_eq (refl_of World.Evolves _) (List.Subset.refl _) rfl
  | want name hk => exact (State.Grows.refl s).push (two_lt_nodeRank hk) trivial
  | listMethod name signature hkind hshows hf =>
    refine (State.Grows.list _ _).push ?_ trivial
    rw [nodeRank_of_isScope hkind]
    exact Nat.lt_succ_self 3
  | found hopens hrun hw hv =>
    refine (State.Grows.learn (hw.trans hv)).push ?_ trivial
    rw [hopens.kind]
    exact (by decide : 1 < 4)
  | target hleads hrun hw =>
    have hname := Query.canonicalName?_of_nameOf hrun
    refine (State.Grows.learn hw).push ?_ (hs.declared _ _ _ (refl_of World.Evolves _) hname).2
    rw [hleads.1]
    exact (by decide : 1 < 4)

/-- So does a sequence of acts. -/
theorem Acts.grows (hs : s.Confined names) (h : Acts c a s t) :
    s.Grows names (nodeRank a.kind) t := by
  induction h with
  | refl => exact .refl s
  | tail _ hact ih => exact ih.trans (hact.grows (ih.confined hs))

/-- When a name has been used up, it does not matter how high the new events stand. -/
theorem State.Grows.of_left_lt {rank rank' : Nat} (h : s.Grows names rank t)
    (hlt : t.left names < s.left names) : s.Grows names rank' t := by
  obtain ⟨es, hes, hconf, -⟩ := h.queue
  exact ⟨h.world, h.seen, es, hes, hconf, .inr hlt⟩

/-- A scope takes one of the names that are left. -/
theorem State.Grows.attachScope (h : s.Grows names 1 t) {kind : NodeKind} {name : String}
    (hname : name ∈ names) (hs : name ∉ s.seen) (ht : name ∈ t.seen) (o : Object) (k : ScopeKind) :
    s.Grows names 1 (t.attachScope kind name o k) := by
  have hlt : t.left names < s.left names := State.left_lt h.seen hname hs ht
  have hgrows : s.Grows names 5 t := h.of_left_lt hlt
  have hkind : nodeRank kind < 5 := by cases kind <;> decide
  simp only [State.attachScope]
  cases k.superclass? with
  | none => exact (hgrows.attach hkind name o _).of_left_lt hlt
  | some superclass =>
    have hpush : s.Grows names 5 (t.push (.symbol superclass)) :=
      hgrows.push (by decide : 2 < 5) trivial
    exact (hpush.attach hkind name o _).of_left_lt hlt

/-- An object only leads to the announcement of a constant, unless its name becomes a scope. -/
theorem Outcome.grows {kind : NodeKind} {judge : Run Verdict} {name : String} {o : Object}
    {r : Except Failure Unit × State}
    (hscope : ∀ k t, judge (s.markSeen name) = (.ok (.scope k), t) → name ∈ names)
    (h : Outcome kind judge name o s r) : s.Grows names 1 r.2 := by
  cases h with
  | skipped reason hskip => exact .learn (.of_eq rfl rfl)
  | failed f w hskip hw hrun => exact .markSeen name hw
  | enacted v w hskip hw hrun =>
    have hmarked : s.Grows names 1 ((s.markSeen name).learn w) := .markSeen name hw
    match v, hrun with
    | .drop reason, _ => exact hmarked
    | .const announced value ascription, _ =>
      exact hmarked.attachConst name announced value ascription
    | .alias target shown, _ =>
      rw [State.enact]
      dsimp only
      split
      · exact (hmarked.closeNamespace name).attachConst name o (some target) none
      · exact hmarked.closeNamespace name
    | .scope k, hrun =>
      refine hmarked.attachScope (hscope k _ hrun) (State.not_mem_seen hskip) ?_ o k
      exact List.mem_append_right _ List.mem_cons_self

/-- An event leads to events of lower rank, unless a name that was left becomes a scope. -/
theorem Step.grows {e : Event} {r : Except Failure Unit × State} (hs : s.Confined names)
    (he : e.Confined names) (h : Step c s e r) : s.Grows names e.rank r.2 := by
  cases h with
  | missed w hw _ hr =>
    rw [hr]
    exact .learn hw
  | resolved w o hw _ hr =>
    rw [hr]
    exact (State.Grows.learn hw).push (by decide : 1 < 2) trivial
  | constant hout =>
    -- an object of the unit becomes a scope only under the name that it declares
    refine hout.grows fun k t hrun ↦ ?_
    have hname := Run.judgeConstant_scope hrun
    exact (hs.declared _ _ _ (refl_of World.Evolves _) hname).1
  | foreign hout => exact hout.grows fun _ _ _ ↦ he
  | node hacts => exact hacts.grows hs
  | bare => exact .refl s

end Growth

/-! ### Runs end -/

variable {c : Setting} {names : List String} {s : State}

theorem State.Confined.popped (h : s.Confined names) : s.popped.Confined names :=
  ⟨fun e he ↦ h.queue e (List.mem_of_mem_tail he), h.declared⟩

/-- Working off an event makes the measure smaller. -/
theorem State.below_of_dispatch {e : Event} {rest : List Event} (h : s.Confined names)
    (hs : s.queue.items = e :: rest) :
    (Run.dispatch c e s.popped).2.Below names s ∧ (Run.dispatch c e s.popped).2.Confined names := by
  have he : e.Confined names := h.queue e (by rw [hs]; exact List.mem_cons_self)
  have hg := (Run.dispatch_step c e s.popped).grows h.popped he
  refine ⟨?_, hg.confined h.popped⟩
  -- either the events that joined the queue replace the oldest one, or a name has been used up
  obtain ⟨es, hes, -, hlow⟩ := hg.queue
  rcases hlow with hall | hlt
  · have hitems : (Run.dispatch c e s.popped).2.queue.items = rest ++ es := by
      rw [hes]
      show s.queue.items.tail ++ es = _
      rw [hs, List.tail_cons]
    exact State.below_of_replaced hg.seen hs hitems hall
  · exact State.below_of_lt hlt

/-- In a step the world evolves, what has been dealt with stays so, and all events but the oldest one
stay pending. -/
theorem State.next_grows (c : Setting) (s : State) :
    s.world.Evolves (s.next c).world ∧ s.seen ⊆ (s.next c).seen ∧
      ∃ es, (s.next c).queue.items = s.queue.items.tail ++ es := by
  rcases s.next_cases c with ⟨hnil, hnext⟩ | ⟨e, es, r, hcons, -, hstep, hnext⟩
  · rw [hnext]
    exact ⟨refl_of _ _, List.Subset.refl _, [], by rw [hnil]; rfl⟩
  · obtain ⟨names, hconf⟩ := s.exists_confined
    have he : e.Confined names := hconf.queue e (by rw [hcons]; exact List.mem_cons_self)
    have hg := hstep.grows hconf.popped he
    obtain ⟨more, hmore, -⟩ := hg.queue
    rw [hnext]
    exact ⟨hg.world, hg.seen, more, hmore⟩

/-- A pending event stays pending unless it is the oldest one. -/
theorem State.mem_next_or_cons {e : Event} (h : e ∈ s.queue.items) (c : Setting) :
    e ∈ (s.next c).queue.items ∨ ∃ es, s.queue.items = e :: es := by
  obtain ⟨-, -, more, hmore⟩ := s.next_grows c
  rw [hmore]
  cases hs : s.queue.items with
  | nil =>
    rw [hs] at h
    cases h
  | cons d ds =>
    rw [hs] at h
    rcases List.mem_cons.mp h with rfl | h
    · exact .inr ⟨ds, rfl⟩
    · exact .inl (List.mem_append_left _ h)

/-- The world evolves along a run. -/
theorem State.after_evolves (c : Setting) (s : State) (n : Nat) :
    s.world.Evolves (s.after c n).world :=
  State.after_induction (P := fun t ↦ s.world.Evolves t.world) (refl_of _ _)
    (fun t ht ↦ ht.trans (t.next_grows c).1) n

/-- The loop stops from every state whose names are confined; the induction is on the measure. -/
theorem Run.workOff_isSome_of_confined (h : s.Confined names) (done : Nat) :
    (workOff c done s).isSome := by
  induction s using (State.wellFounded_below names).induction generalizing done with
  | _ s ih =>
    cases hs : s.queue.items with
    | nil =>
      rw [workOff_of_nil hs]
      rfl
    | cons e rest =>
      obtain ⟨hbelow, hconf⟩ := State.below_of_dispatch (c := c) h hs
      rw [workOff_of_cons hs]
      rcases hrun : dispatch c e s.popped with ⟨f | _, t⟩
      · rfl
      · rw [hrun] at hbelow hconf
        exact ih t hbelow hconf (done + 1)

/-- The loop stops from every state. -/
theorem Run.workOff_isSome (c : Setting) (done : Nat) (s : State) : (workOff c done s).isSome := by
  obtain ⟨names, h⟩ := s.exists_confined
  exact workOff_isSome_of_confined h done

/-- The state in which a compilation begins to work off events. -/
def State.begun (c : Setting) (s : State) : State :=
  s.note (.compiling c.unit.name s.queue.size)

/-- What a compilation comes to once its loop has stopped. -/
theorem Run.compile_of_workOff {c : Setting} {s t : State} {x : Except Failure Nat}
    (h : workOff c 0 (s.begun c) = some (x, t)) :
    compile c s = match x with
      | .ok n => (.ok (), t.note (.compiled c.unit.name n t.seen.length))
      | .error f => (.error f, t) := by
  have hdrain : drain c (s.begun c) = (x, t) := by
    simp only [drain]
    rw [h]
    rfl
  simp only [compile]
  rw [run_get_bind]
  show (drain c >>= _) (s.begun c) = _
  rw [run_bind, hdrain]
  cases x <;> rfl

/-- A compilation that works off `n` events without failing and has none left then. -/
theorem Run.exists_compile_of_advances {c : Setting} {s : State} {n : Nat}
    (hsteps : ∀ k < n, ((s.begun c).after c k).advances c)
    (hempty : ((s.begun c).after c n).queue.items = []) :
    ∃ t, compile c s = (.ok (), t) ∧ t.tree = ((s.begun c).after c n).tree :=
  ⟨_, compile_of_workOff (workOff_of_advances 0 hsteps hempty), rfl⟩

/-- The loop of a compilation stops, with nothing pending or in a failure. -/
theorem Run.exists_compile (c : Setting) (s : State) :
    ∃ n x, workOff c 0 (s.begun c) = some (x, (s.begun c).after c n) ∧
      ((x = .ok n ∧ ((s.begun c).after c n).queue.items = [] ∧ compile c s =
          (.ok (), ((s.begun c).after c n).note
            (.compiled c.unit.name n ((s.begun c).after c n).seen.length))) ∨
        ∃ f, x = .error f ∧ compile c s = (.error f, (s.begun c).after c n)) := by
  obtain ⟨⟨x, t⟩, hloop⟩ := Option.isSome_iff_exists.mp (workOff_isSome c 0 (s.begun c))
  obtain ⟨n, hn, hok⟩ := workOff_eq_some hloop
  obtain rfl : t = (s.begun c).after c n := hn
  have hcompile := compile_of_workOff hloop
  refine ⟨n, x, hloop, ?_⟩
  cases x with
  | ok m =>
    obtain ⟨hm, hempty, -⟩ := hok m rfl
    obtain rfl : m = n := by omega
    exact .inl ⟨rfl, hempty, hcompile⟩
  | error f => exact .inr ⟨f, rfl, hcompile⟩

/-- A compilation that succeeds has worked off all events, and none of them failed. -/
theorem Run.exists_of_compile_eq_ok {c : Setting} {s t : State} (h : compile c s = (.ok (), t)) :
    ∃ n, (∀ k < n, ((s.begun c).after c k).advances c) ∧
      ((s.begun c).after c n).queue.items = [] ∧ t.tree = ((s.begun c).after c n).tree := by
  obtain ⟨n, x, hloop, ⟨rfl, hempty, hcompile⟩ | ⟨f, -, hcompile⟩⟩ := exists_compile c s
  · obtain ⟨m, hm, hok⟩ := workOff_eq_some hloop
    obtain ⟨hn, -, hsteps⟩ := hok n rfl
    obtain rfl : n = m := by omega
    rw [h] at hcompile
    cases hcompile
    exact ⟨n, hsteps, hempty, rfl⟩
  · rw [h] at hcompile
    cases hcompile

/-- **Every compilation ends.** From any state, so for any world, seeds and registrations, and for
any setting, the loop stops after finitely many events, with nothing pending or in the failure of
the last one; and no walk along superclasses is cut off before its end, for it would end in the same
way if it could look at more classes. -/
theorem Run.compile_ends (c : Setting) (s : State) :
    (∃ n x, workOff c 0 (s.begun c) = some (x, (s.begun c).after c n) ∧
      ((x = .ok n ∧ ((s.begun c).after c n).queue.items = [] ∧ compile c s =
          (.ok (), ((s.begun c).after c n).note
            (.compiled c.unit.name n ((s.begun c).after c n).seen.length))) ∨
        ∃ f, x = .error f ∧ compile c s = (.error f, (s.begun c).after c n))) ∧
      ∀ (t : State) (o : Object) (fuel : Nat), t.world.isClass o → chainLimit t.world ≤ fuel →
        verifiedSuperclass fuel o t = verifiedSuperclass (chainLimit t.world) o t := by
  refine ⟨exists_compile c s, fun t o fuel ho hfuel ↦ ?_⟩
  exact verifiedSuperclass_of_chainLimit_le ho hfuel

set_option maxRecDepth 10000 in
/-- In the world without declarations, the walk from `bool` may look one class further. -/
theorem Run.compile_ends_bool :
    ((State.start {} {} []).world.isClass (.standard "bool") ∧
      chainLimit {} ≤ chainLimit {} + 1) ∧
      verifiedSuperclass (chainLimit {} + 1) (.standard "bool") (State.start {} {} []) =
        verifiedSuperclass (chainLimit {}) (.standard "bool") (State.start {} {} []) := by
  have hclass : (State.start {} {} []).world.isClass (.standard "bool") := by decide +kernel
  have hle : chainLimit {} ≤ chainLimit {} + 1 := by omega
  exact ⟨⟨hclass, hle⟩, (compile_ends (.plain ⟨"pkg", []⟩) (State.start {} {} [])).2
    (State.start {} {} []) (.standard "bool") (chainLimit {} + 1) hclass hle⟩

end DeclClosure.Closure

import DeclClosure.Proofs.Closure.History

/-!
# Every declaration is announced once

When a node is declared, one event announces it, and no other event ever bears its identity
(`announcement_unique`). The event is pending until it is worked off; from then on it is pending never
again (`not_mem_announcements_after`), and it is worked off before the queue runs dry
(`exists_cons_of_mem`). So each announced node is shown to the listeners in one step.
-/

namespace DeclClosure.Closure

/-- The node that an event announces as a declaration. -/
def Event.announces? : Event → Option NodeId
  | .node _ _ n kind _ => if kind = .method then none else n
  | _ => none

/-- The nodes that pending events announce, in the order of the queue. -/
def State.announcements (s : State) : List NodeId :=
  s.queue.items.filterMap Event.announces?

/-- At some time the declaration of an object under a name is announced, as a node of this kind. -/
def AnnouncedAs (c : Setting) (s : State) (kind : NodeKind) (name : String) (o : Object)
    (id : NodeId) : Prop :=
  ∃ k signature, .node name o (some id) kind signature ∈ (s.after c k).queue.items

variable {c : Setting} {a : Announcement} {s t : State} {k n : Nat} {id : NodeId}

theorem Event.announces?_of_ne {name : String} {o : Object} {kind : NodeKind}
    {signature : Option Signature} (hkind : kind ≠ .method) :
    (Event.node name o (some id) kind signature).announces? = some id :=
  if_neg hkind

theorem Event.exists_of_announces? {e : Event} (h : e.announces? = some id) :
    ∃ name o kind signature, kind ≠ .method ∧ e = .node name o (some id) kind signature := by
  cases e with
  | node name o node kind signature =>
    obtain ⟨hkind, hnode⟩ := Option.ite_none_left_eq_some.mp h
    exact ⟨name, o, kind, signature, hkind, by rw [hnode]⟩
  | _ => cases h

/-- The node that the oldest event announces. -/
theorem State.mem_announcements {name : String} {o : Object} {kind : NodeKind}
    {signature : Option Signature} {es : List Event}
    (hcons : s.queue.items = .node name o (some id) kind signature :: es) (hkind : kind ≠ .method) :
    id ∈ s.announcements :=
  List.mem_filterMap.mpr ⟨_, hcons ▸ List.mem_cons_self, Event.announces?_of_ne hkind⟩

/-- Where pending events join the queue that announce no declaration, the announcements stay the
same. -/
theorem State.announcements_push (s : State) {e : Event} (he : e.announces? = none) :
    (s.push e).announcements = s.announcements := by
  show (s.queue.items ++ [e]).filterMap _ = _
  rw [List.filterMap_append, List.filterMap_cons_none he, List.filterMap_nil, List.append_nil]
  rfl

/-- Listeners announce no declarations. -/
theorem Act.announcements_eq (h : Act c a s t) : t.announcements = s.announcements := by
  cases h with
  | learn _ | keep _ | dress _ _ | list _ _ _ _ | prune _ _ _ _ _ => rfl
  | want name _ => exact s.announcements_push rfl
  | @record w name _ _ _ _ _ _ _ _ => exact (s.learn w).announcements_push rfl
  | listMethod => exact State.announcements_push _ rfl
  | @found w v _ _ _ _ _ _ => exact (s.learn v).announcements_push rfl
  | @target w _ _ _ _ _ => exact (s.learn w).announcements_push rfl

theorem Acts.announcements_eq (h : Acts c a s t) : t.announcements = s.announcements := by
  induction h with
  | refl => rfl
  | tail _ hact ih => exact hact.announcements_eq.trans ih

/-- A verdict announces one node at most, the one that it attaches. -/
theorem State.announcements_enact (s : State) {kind : NodeKind} (hkind : kind ≠ .method)
    (name : String) (o : Object) (v : Verdict) :
    ∃ new, (s.enact kind name o v).announcements = s.announcements ++ new ∧
      (new = [] ∨ new = [s.nextNode] ∧ (s.enact kind name o v).nextNode = s.nextNode + 1) := by
  have hattach : ∀ (t : State) (k : NodeKind) (p : Object) (node : NodeId → Node), k ≠ .method →
      (t.attach k name p node).announcements = t.announcements ++ [t.nextNode] := by
    intro t k p node hk
    show (t.queue.items ++ [_]).filterMap _ = _
    rw [List.filterMap_append]
    refine congrArg _ ?_
    rw [List.filterMap_cons_some (Event.announces?_of_ne hk), List.filterMap_nil]
  match v with
  | .drop reason => exact ⟨[], (List.append_nil _).symm, .inl rfl⟩
  | .const p value ascription => exact ⟨_, hattach s .const p _ nofun, .inr ⟨rfl, rfl⟩⟩
  | .alias target shown =>
    obtain ⟨aliases, halias⟩ := s.closeNamespace_eq name
    cases shown with
    | false =>
      refine ⟨[], ?_, .inl rfl⟩
      show (s.closeNamespace name).announcements = _
      rw [halias, List.append_nil]
      rfl
    | true =>
      refine ⟨[s.nextNode], ?_, .inr ⟨rfl, ?_⟩⟩
      · show ((s.closeNamespace name).attachConst name o (some target) none).announcements = _
        rw [halias]
        exact hattach { s with aliases } .const o _ nofun
      · show ((s.closeNamespace name).attachConst name o (some target) none).nextNode = _
        rw [halias]
        rfl
  | .scope k =>
    refine ⟨[s.nextNode], ?_, .inr ⟨rfl, ?_⟩⟩
    · show (s.attachScope kind name o k).announcements = _
      simp only [attachScope]
      cases k.superclass? with
      | none => exact hattach s kind o _ hkind
      | some superclass =>
        refine (hattach (s.push (.symbol superclass)) kind o _ hkind).trans ?_
        rw [s.announcements_push rfl]
        rfl
    · show (s.attachScope kind name o k).nextNode = _
      simp only [attachScope]
      cases k.superclass? <;> rfl

/-- In a step the oldest event leaves the queue, and one node is announced at most, which gets the
identity that is next. -/
theorem State.announcements_next (c : Setting) (s : State) :
    ∃ new, (s.next c).announcements = s.popped.announcements ++ new ∧
      (new = [] ∨ new = [s.nextNode] ∧ (s.next c).nextNode = s.nextNode + 1) := by
  have hnone : (s.next c).announcements = s.popped.announcements →
      ∃ new, (s.next c).announcements = s.popped.announcements ++ new ∧
        (new = [] ∨ new = [s.nextNode] ∧ (s.next c).nextNode = s.nextNode + 1) :=
    fun h ↦ ⟨[], h.trans (List.append_nil _).symm, .inl rfl⟩
  cases State.turn c s with
  | idle w _ _ hnext | undecided w _ _ _ hnext => exact hnone (by rw [hnext]; rfl)
  | resolved w _ _ _ _ _ hnext => exact hnone (by rw [hnext, announcements_push _ rfl]; rfl)
  | told _ _ hacts => exact hnone hacts.announcements_eq
  | @enacted kind name o v w htakes _ _ _ hnext =>
    rw [hnext]
    exact ((s.popped.markSeen name).learn w).announcements_enact
      (State.ne_method_of_takesUp? htakes) name o v

theorem State.announcements_popped_subset (s : State) :
    s.popped.announcements ⊆ s.announcements :=
  fun _ h ↦ by
    obtain ⟨e, he, hid⟩ := List.mem_filterMap.mp h
    exact List.mem_filterMap.mpr ⟨e, List.mem_of_mem_tail he, hid⟩

/-- All pending announcements are of different nodes, whose identities have been given out. -/
structure State.Heralds (s : State) : Prop where
  /-- No node is announced twice. -/
  nodup : s.announcements.Nodup
  /-- Announced nodes have got their identity. -/
  lt : ∀ id ∈ s.announcements, id < s.nextNode

theorem State.Heralds.next (h : s.Heralds) (hs : s.Sound) : (s.next c).Heralds := by
  obtain ⟨new, hnew, hcases⟩ := s.announcements_next c
  have hle : s.nextNode ≤ (s.next c).nextNode := (State.change hs).next_le
  have hpopped : s.popped.announcements.Nodup :=
    h.nodup.sublist ((List.tail_sublist s.queue.items).filterMap Event.announces?)
  have hlt : ∀ id ∈ s.popped.announcements, id < s.nextNode :=
    fun id hid ↦ h.lt id (s.announcements_popped_subset hid)
  rcases hcases with rfl | ⟨rfl, hnext⟩
  · rw [List.append_nil] at hnew
    refine ⟨by rwa [hnew], fun id hid ↦ ?_⟩
    rw [hnew] at hid
    exact Nat.lt_of_lt_of_le (hlt id hid) hle
  · refine ⟨?_, fun id hid ↦ ?_⟩
    · rw [hnew]
      refine List.nodup_append.mpr ⟨hpopped, List.nodup_singleton _, fun id hid j hj ↦ ?_⟩
      obtain rfl := List.mem_singleton.mp hj
      exact Nat.ne_of_lt (hlt id hid)
    · rw [hnew] at hid
      rw [hnext]
      rcases List.mem_append.mp hid with hid | hid
      · exact Nat.lt_succ_of_lt (hlt id hid)
      · obtain rfl := List.mem_singleton.mp hid
        exact Nat.lt_succ_self _

theorem State.heralds_after (hb : s.Blank) (n : Nat) : (s.after c n).Heralds := by
  induction n with
  | zero =>
    have hnone : s.announcements = [] := by
      refine List.filterMap_eq_nil_iff.mpr fun e he ↦ ?_
      cases hid : e.announces? with
      | none => rfl
      | some id =>
        obtain ⟨name, o, kind, signature, hkind, rfl⟩ := Event.exists_of_announces? hid
        exact absurd hkind (hb.queue _ he)
    refine ⟨?_, fun id hid ↦ ?_⟩
    · show s.announcements.Nodup
      rw [hnone]
      exact List.nodup_nil
    · have hid : id ∈ s.announcements := hid
      rw [hnone] at hid
      cases hid
  | succ n ih => exact ih.next (State.after_sound hb.sound n)

/-- An announcement that has been worked off is pending never again. -/
theorem not_mem_announcements_after (hb : s.Blank) {e : Event} {es : List Event}
    (hcons : (s.after c k).queue.items = e :: es) (he : e.announces? = some id) (hlt : k < n) :
    id ∉ (s.after c n).announcements := by
  have hheralds := State.heralds_after (c := c) hb k
  have hall : (s.after c k).announcements = id :: (s.after c k).popped.announcements := by
    simp only [State.announcements, State.popped]
    rw [hcons, List.filterMap_cons_some he]
    rfl
  have hid : id < (s.after c k).nextNode := hheralds.lt id (hall ▸ List.mem_cons_self)
  have hout : id ∉ (s.after c k).popped.announcements :=
    (List.nodup_cons.mp (hall ▸ hheralds.nodup)).1
  -- new announcements are of nodes with later identities
  have hstep : ∀ {u : State}, id < u.nextNode → id ∉ u.popped.announcements →
      id ∉ (u.next c).announcements := by
    intro u hlt hnot hmem
    obtain ⟨new, hnew, hcases⟩ := u.announcements_next c
    rw [hnew] at hmem
    rcases List.mem_append.mp hmem with hmem | hmem
    · exact hnot hmem
    · rcases hcases with rfl | ⟨rfl, -⟩
      · cases hmem
      · obtain rfl := List.mem_singleton.mp hmem
        exact Nat.lt_irrefl _ hlt
  induction n, Nat.succ_le_of_lt hlt using Nat.le_induction with
  | base => exact hstep hid hout
  | succ m hle ih =>
    have hlt : id < (s.after c m).nextNode :=
      Nat.lt_of_lt_of_le hid (nextNode_mono hb.sound (by omega))
    exact hstep hlt fun hmem ↦ ih (by omega) ((s.after c m).announcements_popped_subset hmem)

/-- A node whose announcement is pending was announced under some name. -/
theorem exists_announced_of_mem (h : id ∈ (s.after c k).announcements) (hle : k ≤ n) :
    ∃ x, Announced c s n id x := by
  obtain ⟨e, he, hid⟩ := List.mem_filterMap.mp h
  obtain ⟨x, o, kind, signature, hkind, rfl⟩ := Event.exists_of_announces? hid
  exact ⟨x, k, hle, o, kind, signature, hkind, he⟩

/-- A node whose announcement is pending stands in the tree. -/
theorem stands_of_mem_announcements (hb : s.Blank) (h : id ∈ (s.after c n).announcements) :
    (s.after c n).Stands id := by
  obtain ⟨x, hx⟩ := exists_announced_of_mem h (Nat.le_refl n)
  refine (hx.stands_or_pruned hb).resolve_right ?_
  rintro ⟨k, hk, o, id', signature, es, hcons, -⟩
  -- the announcement that was worked off then would have been this one
  have hx' : Announced c s n id' x :=
    ⟨k, Nat.le_of_lt hk, o, .scope, signature, nofun, hcons ▸ List.mem_cons_self⟩
  obtain rfl := (ledger hb n).id_unique _ _ _ hx hx'
  exact not_mem_announcements_after hb hcons (Event.announces?_of_ne nofun) hk h

/-- No two events announce one node, at whatever time they are pending. -/
theorem announcement_unique (hb : s.Blank) {x y : String} {o p : Object} {kind kind' : NodeKind}
    {signature signature' : Option Signature} (hkind : kind ≠ .method) (hkind' : kind' ≠ .method)
    (h : .node x o (some id) kind signature ∈ (s.after c k).queue.items)
    (h' : .node y p (some id) kind' signature' ∈ (s.after c n).queue.items) :
    x = y ∧ o = p ∧ kind = kind' := by
  obtain ⟨i, -, found, q, v, htakes, hv, hann, -, hid, hlt⟩ := exists_declaring hb hkind h
  obtain ⟨j, -, found', q', v', htakes', hv', hann', -, hid', hlt'⟩ :=
    exists_declaring hb hkind' h'
  -- an identity is given out once, so both were declared in one step
  obtain rfl :=
    step_unique hb.sound (Nat.le_of_eq hid.symm) hlt (Nat.le_of_eq hid'.symm) hlt'
  rw [htakes] at htakes'
  cases htakes'
  rw [hv] at hv'
  cases hv'
  rw [hann] at hann'
  cases hann'
  exact ⟨rfl, rfl, rfl⟩

/-- Every pending event is worked off before the queue is empty. -/
theorem exists_cons_of_mem {e : Event} (h : e ∈ (s.after c k).queue.items) (hle : k ≤ n)
    (hempty : (s.after c n).queue.items = []) :
    ∃ j, k ≤ j ∧ j < n ∧ ∃ es, (s.after c j).queue.items = e :: es := by
  by_contra hnever
  -- an event that is never the oldest one stays pending
  have hpending : ∀ j, k ≤ j → j ≤ n → e ∈ (s.after c j).queue.items := by
    intro j hkj
    induction j, hkj using Nat.le_induction with
    | base => exact fun _ ↦ h
    | succ j hkj ih =>
      intro hjn
      rcases State.mem_next_or_cons (ih (by omega)) c with hmem | ⟨es, hcons⟩
      · exact hmem
      · exact absurd ⟨j, hkj, by omega, es, hcons⟩ hnever
  have hmem := hpending n hle (Nat.le_refl n)
  rw [hempty] at hmem
  cases hmem

/-- Every pending event becomes the oldest one at some time. The induction is on how many are before
it. -/
theorem exists_cons_of_pending {e : Event} (h : e ∈ (s.after c k).queue.items) :
    ∃ j, k ≤ j ∧ ∃ es, (s.after c j).queue.items = e :: es := by
  obtain ⟨ds, es, heq⟩ := List.append_of_mem h
  clear h
  induction ds generalizing k es with
  | nil => exact ⟨k, Nat.le_refl k, es, heq⟩
  | cons d ds ih =>
    obtain ⟨-, -, more, hmore⟩ := (s.after c k).next_grows c
    have hnext : (s.after c (k + 1)).queue.items = ds ++ e :: (es ++ more) := by
      show ((s.after c k).next c).queue.items = _
      rw [hmore, heq, List.cons_append, List.tail_cons, List.append_assoc, List.cons_append]
    obtain ⟨j, hj, hrest⟩ := ih _ hnext
    exact ⟨j, Nat.le_of_succ_le hj, hrest⟩

/-- When the queue has run dry, every announcement has been worked off. -/
theorem AnnouncedAs.exists_cons {kind : NodeKind} {x : String} {o : Object}
    (h : AnnouncedAs c s kind x o id) (hempty : (s.after c n).queue.items = []) :
    ∃ j < n, ∃ signature es, (s.after c j).queue.items = .node x o (some id) kind signature :: es := by
  obtain ⟨k, signature, hmem⟩ := h
  have hle : k ≤ n := by
    by_contra hgt
    rw [State.after_of_nil hempty (Nat.le_of_not_le hgt), hempty] at hmem
    cases hmem
  obtain ⟨j, -, hj, es, hcons⟩ := exists_cons_of_mem hmem hle hempty
  exact ⟨j, hj, signature, es, hcons⟩

/-- What the event announces, if it announces an entity: the kind, the name, the entity and the
node. -/
def Event.announced? : Event → Option (NodeKind × String × EntityId × NodeId)
  | .node x (.entity e) (some i) kind _ => some (kind, x, e, i)
  | _ => none

theorem announcedAs_of_mem {kind : NodeKind} {x : String} {e : EntityId}
    (h : (kind, x, e, id) ∈ (s.after c k).queue.items.filterMap Event.announced?) :
    AnnouncedAs c s kind x (.entity e) id := by
  obtain ⟨event, hmem, hannounced⟩ := List.mem_filterMap.mp h
  simp only [Event.announced?] at hannounced
  split at hannounced
  · cases hannounced
    exact ⟨k, _, hmem⟩
  · cases hannounced

end DeclClosure.Closure

import DeclClosure.Proofs.Closure.Announcements
import DeclClosure.Proofs.Closure.Origins

/-!
# What joins the queue

Events leave the queue in the order in which they joined it, so an event that is worked off is either
one of those at the start or it joined in an earlier step (`exists_gains`). What may join in a step
is said once (`State.Brings`): a symbol that is looked up leads to the object that it stands for, an
object that is declared to its announcement, and the announcement of a scope to what listeners pass
on, lead to or list.

An event that carries a node carries one that has got its identity in that very step. So no node is
carried by two events, and when the event that carries it has been worked off, none carries it again
(`dispatched_unique`).
-/

namespace DeclClosure.Closure

/-- The node that an event carries. -/
def Event.carries? : Event → Option NodeId
  | .node _ _ n _ _ => n
  | _ => none

namespace State

/-- The nodes that pending events carry, in the order of the queue. -/
def carried (s : State) : List NodeId :=
  s.queue.items.filterMap Event.carries?

/-- Nothing has been declared, no identity has been given out, and only symbols are pending. -/
structure Seeded (s : State) : Prop where
  /-- The tree is empty. -/
  tree : s.tree = {}
  /-- Only symbols are pending. -/
  symbols : ∀ e ∈ s.queue.items, ∃ name, e = .symbol name
  /-- The first identity is the next. -/
  next : s.nextNode = 0

theorem seeded_outset (c : Setting) (w : World) (t : Trackers) (seeds : List String) :
    (outset c w t seeds).Seeded := by
  refine ⟨rfl, fun e he ↦ ?_, rfl⟩
  obtain ⟨name, -, rfl⟩ := List.mem_map.mp he
  exact ⟨name, rfl⟩

theorem Seeded.blank {s : State} (h : s.Seeded) : s.Blank := by
  refine ⟨h.tree, fun e he ↦ ?_⟩
  obtain ⟨name, rfl⟩ := h.symbols e he
  exact id

theorem Seeded.carried_eq_nil {s : State} (h : s.Seeded) : s.carried = [] := by
  refine List.filterMap_eq_nil_iff.mpr fun e he ↦ ?_
  obtain ⟨name, rfl⟩ := h.symbols e he
  rfl

/-- What may join the queue in the step from `s`. -/
inductive Brings (c : Setting) (s : State) : Event → Prop
  /-- Any name may be asked for. -/
  | symbol (name : String) : Brings c s (.symbol name)
  /-- A symbol that is not left out leads to the object that it stands for. -/
  | constant {name : String} {es : List Event} {o : Object} {w : World} :
      s.queue.items = .symbol name :: es → ¬c.skipsSymbol (Name.stripRoot name) →
      Query.resolve (Name.stripRoot name) s.world = (.ok (some o), w) →
      Brings c s (.constant (Name.stripRoot name) o)
  /-- A scope of the unit leads to what a name below it stands for, if a listener passes on
  constants. -/
  | subconstant {x name : String} {v o : Object} {node : Option NodeId} {kind : NodeKind}
      {signature : Option Signature} {es : List Event} {w u : World} :
      s.queue.items = .node x v node kind signature :: es → s.world.Evolves w →
      Announcement.Opens c ⟨x, v, node, kind, signature⟩ w name →
      Query.resolve (Name.within x name) w = (.ok (some o), u) → u.Evolves (s.next c).world →
      Brings c s (.constant (Name.within x name) o)
  /-- A scope of the unit leads to a class that the unit mixed it into. -/
  | target {x : String} {v : Object} {node : Option NodeId} {signature : Option Signature}
      {es : List Event} (name : String) {r : Registration} :
      s.queue.items = .node x v node .scope signature :: es →
      r ∈ s.trackers.mixins.registrationsOf v → Run.isOurs c r.location →
      Brings c s (.foreignConstant name r.target)
  /-- An object that is taken up leads to the announcement of its declaration. -/
  | declaration {found kind : NodeKind} {x : String} {o p : Object} {v : Verdict} :
      s.takesUp? = some (found, x, o) → s.verdict? c = some v →
      v.announces found o = some (kind, p) → Brings c s (.node x p (some s.nextNode) kind none)
  /-- A scope leads to the announcement of a callable that is listed below it. -/
  | callable {x : String} {v : Object} {node : Option NodeId} {kind : NodeKind}
      {signature : Option Signature} {es : List Event} {id : NodeId} (observed : Option Signature) :
      s.queue.items = .node x v node kind signature :: es → kind.isScope → s.nextNode ≤ id →
      id < (s.next c).nextNode →
      (s.next c).tree.Everywhere (fun m ↦ m.id = id → m.callable?.isSome) →
      Brings c s (.node x v (some id) .method observed)

/-- The event joins the queue in the step from `s`. -/
def Gains (c : Setting) (s : State) (e : Event) : Prop :=
  ∃ new, (s.next c).queue.items = s.popped.queue.items ++ new ∧ e ∈ new

end State

/-- What may join the queue when listeners act on an announcement and lead from `s` to `t`. -/
inductive Announcement.Brings (c : Setting) (a : Announcement) (s t : State) : Event → Prop
  | symbol (name : String) : Brings c a s t (.symbol name)
  | subconstant {name : String} {o : Object} {w u : World} : a.Opens c w name → s.world.Evolves w →
      Query.resolve (Name.within a.name name) w = (.ok (some o), u) → u.Evolves t.world →
      Brings c a s t (.constant (Name.within a.name name) o)
  | target (name : String) {o : Object} : a.LeadsTo c s.trackers o →
      Brings c a s t (.foreignConstant name o)
  | callable {id : NodeId} (observed : Option Signature) : a.kind.isScope → s.nextNode ≤ id →
      id < t.nextNode → t.tree.Everywhere (fun m ↦ m.id = id → m.callable?.isSome) →
      Brings c a s t (.node a.name a.value (some id) .method observed)

variable {c : Setting} {a : Announcement} {s t u : State} {k n : Nat} {id : NodeId} {e : Event}

/-- Acts leave callables what they are. -/
theorem Acts.everywhere_callable (h : Acts c a s t) (hid : id < s.nextNode)
    (hs : s.tree.Everywhere fun m ↦ m.id = id → m.callable?.isSome) :
    t.tree.Everywhere fun m ↦ m.id = id → m.callable?.isSome :=
  h.holdsAt (fun _ _ _ _ h ↦ h) (fun _ _ m hf hm ↦ by rwa [hf.callable m]) hid hs

/-- What acts bring is brought still when there are more acts before and after them. -/
theorem Announcement.Brings.mono {s' t' : State} (hs : Acts c a s s') (ht : Acts c a t t')
    (h : a.Brings c s' t e) : a.Brings c s t' e := by
  cases h with
  | symbol name => exact .symbol name
  | subconstant hopens hw hresolve hu =>
    exact .subconstant hopens (hs.evolves.trans hw) hresolve (hu.trans ht.evolves)
  | target name hleads => exact .target name (hs.trackers_eq ▸ hleads)
  | callable observed hkind hle hlt hcallable =>
    exact .callable observed hkind (Nat.le_trans hs.nextNode_le hle)
      (Nat.lt_of_lt_of_le hlt ht.nextNode_le) (ht.everywhere_callable hlt hcallable)

/-- What acts bring carries nodes that got their identities meanwhile. -/
theorem Announcement.Brings.bounds (h : a.Brings c s t e) (hid : e.carries? = some id) :
    s.nextNode ≤ id ∧ id < t.nextNode := by
  cases h with
  | callable observed hkind hle hlt _ =>
    cases hid
    exact ⟨hle, hlt⟩
  | _ => cases hid

/-- The callable that is listed has the new identity, and no other node has it. -/
theorem State.Sound.everywhere_callable_list (hs : s.Sound) (owner : NodeId) (name : String)
    (f : MethodFacts) :
    (s.list owner fun id ↦ .leaf ⟨id, name, []⟩ (.method f)).tree.Everywhere
      fun m ↦ m.id = s.nextNode → m.callable?.isSome := by
  refine Tree.Everywhere.addUnder ?_ (fun _ _ _ _ h ↦ h) owner rfl fun _ ↦ rfl
  exact (Tree.Sound.everywhere_lt hs).mono fun m hlt heq ↦ absurd hlt (heq ▸ Nat.lt_irrefl _)

/-- An act brings one event at most. -/
theorem Act.queue_cases (hs : s.Sound) (h : Act c a s t) :
    t.queue = s.queue ∨ ∃ e, t.queue.items = s.queue.items ++ [e] ∧ a.Brings c s t e := by
  cases h with
  | learn _ | keep _ | dress _ _ | list _ _ _ _ | prune _ _ _ _ _ => exact .inl rfl
  | want name _ => exact .inr ⟨_, rfl, .symbol name⟩
  | record => exact .inr ⟨_, rfl, .symbol _⟩
  | found hopens hresolve _ hv =>
    exact .inr ⟨_, rfl, .subconstant hopens (refl_of World.Evolves s.world) hresolve hv⟩
  | target hleads => exact .inr ⟨_, rfl, .target _ hleads⟩
  | @listMethod scope name f signature hkind hshows hf =>
    exact .inr ⟨_, rfl, .callable signature hkind (Nat.le_refl _) (Nat.lt_succ_self _)
      (hs.everywhere_callable_list scope.id name f)⟩

/-- A sequence of acts brings some events, which carry nodes with later and later identities. -/
theorem Acts.exists_new (hs : s.Sound) (h : Acts c a s t) :
    ∃ new, t.queue.items = s.queue.items ++ new ∧ (∀ e ∈ new, a.Brings c s t e) ∧
      (new.filterMap Event.carries?).Pairwise (· < ·) := by
  induction h with
  | refl => exact ⟨[], (List.append_nil _).symm, nofun, .nil⟩
  | @tail u t hacts hact ih =>
    obtain ⟨new, hqueue, hbrings, hincreasing⟩ := ih
    have hlater : ∀ e ∈ new, a.Brings c s t e :=
      fun e he ↦ (hbrings e he).mono .refl (.single hact)
    rcases hact.queue_cases (Acts.tends hs hacts).sound with hsame | ⟨e, he, hbring⟩
    · exact ⟨new, by rw [hsame, hqueue], hlater, hincreasing⟩
    · refine ⟨new ++ [e], by rw [he, hqueue, List.append_assoc], ?_, ?_⟩
      · exact List.forall_mem_append.mpr
          ⟨hlater, List.forall_mem_singleton.mpr (hbring.mono hacts .refl)⟩
      · rw [List.filterMap_append, List.pairwise_append]
        refine ⟨hincreasing, ?_, fun i hi j hj ↦ ?_⟩
        · cases hcarries : e.carries? with
          | none => rw [List.filterMap_cons_none hcarries]; exact .nil
          | some j => rw [List.filterMap_cons_some hcarries]; exact List.pairwise_singleton _ _
        · obtain ⟨d, hd, hdi⟩ := List.mem_filterMap.mp hi
          obtain ⟨d', hd', hdj⟩ := List.mem_filterMap.mp hj
          obtain rfl := List.mem_singleton.mp hd'
          exact Nat.lt_of_lt_of_le ((hbrings d hd).bounds hdi).2 (hbring.bounds hdj).1

/-! ### Verdicts -/

/-- The events that a verdict leads to, where `id` is the identity of the node that it makes. -/
def Verdict.leadsTo (kind : NodeKind) (name : String) (o : Object) (id : NodeId) :
    Verdict → List Event
  | .drop _ | .alias _ false => []
  | .alias _ true => [.node name o (some id) .const none]
  | .const p _ _ => [.node name p (some id) .const none]
  | .scope k => k.superclass?.toList.map .symbol ++ [.node name o (some id) kind none]

theorem State.items_enact (s : State) (kind : NodeKind) (name : String) (o : Object) (v : Verdict) :
    (s.enact kind name o v).queue.items
      = s.queue.items ++ v.leadsTo kind name o s.nextNode := by
  match v with
  | .drop reason => exact (List.append_nil _).symm
  | .const p value ascription => rfl
  | .alias target shown =>
    obtain ⟨aliases, halias⟩ := s.closeNamespace_eq name
    cases shown with
    | false =>
      show (s.closeNamespace name).queue.items = s.queue.items ++ []
      rw [halias, List.append_nil]
    | true =>
      show ((s.closeNamespace name).attachConst name o (some target) none).queue.items = _
      rw [halias]
      rfl
  | .scope k =>
    show (s.attachScope kind name o k).queue.items = _
    simp only [attachScope, Verdict.leadsTo]
    cases k.superclass? with
    | none => rfl
    | some superclass => exact List.append_assoc _ _ _

/-- A verdict leads to its announcement, and to a symbol at most. -/
theorem Verdict.mem_leadsTo {v : Verdict} {kind : NodeKind} {name : String} {o : Object}
    (h : e ∈ v.leadsTo kind name o id) : (∃ x, e = .symbol x) ∨
      ∃ k p, v.announces kind o = some (k, p) ∧ e = .node name p (some id) k none := by
  match v with
  | .drop reason | .alias target false => cases h
  | .alias target true | .const p value ascription =>
    obtain rfl := List.mem_singleton.mp h
    exact .inr ⟨_, _, rfl, rfl⟩
  | .scope k =>
    rcases List.mem_append.mp h with h | h
    · obtain ⟨x, -, rfl⟩ := List.mem_map.mp h
      exact .inl ⟨x, rfl⟩
    · obtain rfl := List.mem_singleton.mp h
      exact .inr ⟨_, _, rfl, rfl⟩

/-- Only the announcement carries a node. -/
theorem Verdict.carries_leadsTo (v : Verdict) (kind : NodeKind) (name : String) (o : Object)
    (id : NodeId) :
    ((v.leadsTo kind name o id).filterMap Event.carries?).Pairwise (· < ·) := by
  have hone : ∀ p k, ([Event.node name p (some id) k none].filterMap Event.carries?).Pairwise
      (· < ·) := fun _ _ ↦ List.pairwise_singleton _ _
  match v with
  | .drop reason | .alias target false => exact .nil
  | .alias target true | .const p value ascription => exact hone _ _
  | .scope k =>
    simp only [leadsTo]
    cases k.superclass? <;> exact hone o kind

/-! ### Steps -/

/-- In a step the oldest event leaves the queue, and some others join it at the end. They carry nodes
with later and later identities. -/
theorem State.exists_new (hs : s.Sound) (c : Setting) :
    ∃ new, (s.next c).queue.items = s.popped.queue.items ++ new ∧ (∀ e ∈ new, s.Brings c e) ∧
      (new.filterMap Event.carries?).Pairwise (· < ·) := by
  have hnone : (s.next c).queue.items = s.popped.queue.items →
      ∃ new, (s.next c).queue.items = s.popped.queue.items ++ new ∧ (∀ e ∈ new, s.Brings c e) ∧
        (new.filterMap Event.carries?).Pairwise (· < ·) :=
    fun h ↦ ⟨[], by rw [h, List.append_nil], nofun, .nil⟩
  cases State.turn c s with
  | idle w _ _ hnext | undecided w _ _ _ hnext => exact hnone (by rw [hnext]; rfl)
  | @resolved name o _ w _ hcons hskips _ hresolve hnext =>
    refine ⟨[.constant (Name.stripRoot name) o], by rw [hnext]; rfl, ?_, .nil⟩
    exact List.forall_mem_singleton.mpr (.constant hcons hskips hresolve)
  | @told x v node kind signature _ _ hcons hacts =>
    obtain ⟨new, hqueue, hbrings, hincreasing⟩ := Acts.exists_new (s := s.popped) hs hacts
    refine ⟨new, hqueue, fun d hd ↦ ?_, hincreasing⟩
    cases hbrings d hd with
    | symbol name => exact .symbol name
    | subconstant hopens hw hresolve hu => exact .subconstant hcons hw hopens hresolve hu
    | target name hleads =>
      obtain ⟨hkind, q, hq, rfl, hours⟩ := hleads
      obtain rfl : kind = .scope := hkind
      exact .target name hcons hq hours
    | callable observed hkind hle hlt hcallable =>
      exact .callable observed hcons hkind hle hlt hcallable
  | @enacted kind x o v w htakes hv _ _ hnext =>
    refine ⟨v.leadsTo kind x o s.nextNode, ?_, fun e he ↦ ?_, v.carries_leadsTo kind x o _⟩
    · rw [hnext, State.items_enact]
      rfl
    · rcases Verdict.mem_leadsTo he with ⟨y, rfl⟩ | ⟨k, p, hann, rfl⟩
      · exact .symbol y
      · exact .declaration htakes hv hann

/-- A verdict for which something is announced gives out an identity. -/
theorem State.nextNode_lt_of_announces (hs : s.Sound) {found : NodeKind} {x : String} {o : Object}
    {v : Verdict} (htakes : s.takesUp? = some (found, x, o)) (hv : s.verdict? c = some v)
    (hann : v.announces found o ≠ none) : s.nextNode < (s.next c).nextNode := by
  have hchange : s.Change c (s.next c) := State.change hs
  obtain ⟨⟨kind, p⟩, hann⟩ := Option.ne_none_iff_exists'.mp hann
  rw [(hchange.attaches htakes hv hann).next]
  exact Nat.lt_succ_self _

/-- What joins the queue in a step carries nodes that get their identity in it. -/
theorem State.Brings.bounds (hs : s.Sound) (h : s.Brings c e) (hid : e.carries? = some id) :
    s.nextNode ≤ id ∧ id < (s.next c).nextNode := by
  cases h with
  | declaration htakes hv hann =>
    cases hid
    exact ⟨Nat.le_refl _, State.nextNode_lt_of_announces hs htakes hv (hann ▸ Option.some_ne_none _)⟩
  | callable observed hcons hkind hle hlt _ =>
    cases hid
    exact ⟨hle, hlt⟩
  | _ => cases hid

/-! ### Runs -/

theorem State.Gains.brings (hs : s.Sound) (h : s.Gains c e) : s.Brings c e := by
  obtain ⟨new, hqueue, hbrings, -⟩ := State.exists_new hs c
  obtain ⟨new', hqueue', he⟩ := h
  rw [hqueue', List.append_cancel_left_eq] at hqueue
  exact hbrings e (hqueue ▸ he)

/-- What is pending joined in one of the steps, unless it is a symbol that was there at the start. -/
theorem exists_gains (hs : s.Seeded) (h : e ∈ (s.after c n).queue.items)
    (hne : ∀ name, e ≠ .symbol name) : ∃ k < n, (s.after c k).Gains c e := by
  induction n with
  | zero =>
    obtain ⟨name, rfl⟩ := hs.symbols e h
    exact absurd rfl (hne name)
  | succ n ih =>
    obtain ⟨new, hqueue, -⟩ := State.exists_new (State.after_sound (c := c) hs.blank.sound n) c
    have h : e ∈ ((s.after c n).next c).queue.items := h
    rw [hqueue] at h
    rcases List.mem_append.mp h with h | h
    · obtain ⟨k, hk, hgains⟩ := ih (List.mem_of_mem_tail h)
      exact ⟨k, Nat.lt_succ_of_lt hk, hgains⟩
    · exact ⟨n, Nat.lt_succ_self n, new, hqueue, h⟩

theorem exists_brings (hs : s.Seeded) (h : e ∈ (s.after c n).queue.items)
    (hne : ∀ name, e ≠ .symbol name) : ∃ k < n, (s.after c k).Brings c e := by
  obtain ⟨k, hk, hgains⟩ := exists_gains hs h hne
  exact ⟨k, hk, hgains.brings (State.after_sound hs.blank.sound k)⟩

theorem State.carried_popped_subset (s : State) : s.popped.carried ⊆ s.carried :=
  fun _ h ↦ by
    obtain ⟨e, he, hid⟩ := List.mem_filterMap.mp h
    exact List.mem_filterMap.mpr ⟨e, List.mem_of_mem_tail he, hid⟩

/-- In a step the nodes that pending events carry become more by nodes that get their identities in
it, in this order. -/
theorem State.carried_next (hs : s.Sound) :
    ∃ new, (s.next c).carried = s.popped.carried ++ new ∧ new.Pairwise (· < ·) ∧
      ∀ id ∈ new, s.nextNode ≤ id ∧ id < (s.next c).nextNode := by
  obtain ⟨new, hqueue, hbrings, hincreasing⟩ := State.exists_new hs c
  refine ⟨new.filterMap Event.carries?, ?_, hincreasing, fun id hid ↦ ?_⟩
  · simp only [carried]
    rw [hqueue, List.filterMap_append]
  · obtain ⟨e, he, hcarries⟩ := List.mem_filterMap.mp hid
    exact (hbrings e he).bounds hs hcarries

/-- No two pending events carry one node, and the nodes that they carry have got their identities. -/
theorem State.carried_after (hs : s.Seeded) (n : Nat) :
    (s.after c n).carried.Nodup ∧ ∀ id ∈ (s.after c n).carried, id < (s.after c n).nextNode := by
  induction n with
  | zero =>
    show s.carried.Nodup ∧ ∀ id ∈ s.carried, id < s.nextNode
    rw [hs.carried_eq_nil]
    exact ⟨List.nodup_nil, nofun⟩
  | succ n ih =>
    obtain ⟨hnodup, hlt⟩ := ih
    have hsound := State.after_sound (c := c) hs.blank.sound n
    obtain ⟨new, hnew, hincreasing, hbounds⟩ := State.carried_next (c := c) hsound
    have hpopped : (s.after c n).popped.carried.Nodup :=
      hnodup.sublist ((List.tail_sublist (s.after c n).queue.items).filterMap Event.carries?)
    have hle : (s.after c n).nextNode ≤ ((s.after c n).next c).nextNode :=
      (State.change hsound).next_le
    show ((s.after c n).next c).carried.Nodup ∧
      ∀ id ∈ ((s.after c n).next c).carried, id < ((s.after c n).next c).nextNode
    rw [hnew]
    refine ⟨List.nodup_append.mpr ⟨hpopped, hincreasing.imp Nat.ne_of_lt, fun i hi j hj ↦ ?_⟩,
      fun id hid ↦ ?_⟩
    · have hi := hlt i ((s.after c n).carried_popped_subset hi)
      exact Nat.ne_of_lt (Nat.lt_of_lt_of_le hi (hbounds j hj).1)
    · rcases List.mem_append.mp hid with hid | hid
      · exact Nat.lt_of_lt_of_le (hlt id ((s.after c n).carried_popped_subset hid)) hle
      · exact (hbounds id hid).2

/-- A node that was carried by an event that has been worked off is carried never again. -/
theorem not_mem_carried_after (hs : s.Seeded) {es : List Event}
    (hcons : (s.after c k).queue.items = e :: es) (hid : e.carries? = some id) (hlt : k < n) :
    id ∉ (s.after c n).carried := by
  obtain ⟨hnodup, hall⟩ := State.carried_after (c := c) hs k
  have hhead : (s.after c k).carried = id :: (s.after c k).popped.carried := by
    simp only [State.carried, State.popped]
    rw [hcons, List.filterMap_cons_some hid]
    rfl
  have hfresh : id < (s.after c k).nextNode := hall id (hhead ▸ List.mem_cons_self)
  have hout : id ∉ (s.after c k).popped.carried := (List.nodup_cons.mp (hhead ▸ hnodup)).1
  -- whatever is carried for the first time has a later identity
  have hstep : ∀ m, k ≤ m → id ∉ (s.after c m).popped.carried → id ∉ (s.after c (m + 1)).carried := by
    intro m hkm hnot hmem
    obtain ⟨new, hnew, -, hbounds⟩ :=
      State.carried_next (c := c) (State.after_sound (c := c) hs.blank.sound m)
    have hmem : id ∈ ((s.after c m).next c).carried := hmem
    rw [hnew] at hmem
    rcases List.mem_append.mp hmem with hmem | hmem
    · exact hnot hmem
    · have hle := Nat.le_trans (nextNode_mono (c := c) hs.blank.sound hkm) (hbounds id hmem).1
      exact Nat.lt_irrefl _ (Nat.lt_of_lt_of_le hfresh hle)
  induction n, Nat.succ_le_of_lt hlt using Nat.le_induction with
  | base => exact hstep k (Nat.le_refl k) hout
  | succ m hle ih =>
    exact hstep m (by omega) fun hmem ↦ ih (by omega) ((s.after c m).carried_popped_subset hmem)

/-- A node is carried by one event at most among those that are ever worked off. -/
theorem dispatched_unique (hs : s.Seeded) {d : Event} {es ds : List Event}
    (he : (s.after c k).queue.items = e :: es) (hd : (s.after c n).queue.items = d :: ds)
    (hid : e.carries? = some id) (hid' : d.carries? = some id) : k = n := by
  have hnot : ∀ {i j : Nat} {e d : Event} {es ds : List Event},
      (s.after c i).queue.items = e :: es → (s.after c j).queue.items = d :: ds →
        e.carries? = some id → d.carries? = some id → ¬i < j := by
    intro i j e d es ds he hd hid hid' hlt
    refine not_mem_carried_after hs he hid hlt ?_
    exact List.mem_filterMap.mpr ⟨d, hd ▸ List.mem_cons_self, hid'⟩
  exact Nat.le_antisymm (Nat.le_of_not_lt (hnot hd he hid' hid))
    (Nat.le_of_not_lt (hnot he hd hid hid'))

/-- A node is carried by one event at most among those that are ever pending. -/
theorem carried_unique (hs : s.Seeded) {d : Event} (he : e ∈ (s.after c k).queue.items)
    (hd : d ∈ (s.after c n).queue.items) (hid : e.carries? = some id)
    (hid' : d.carries? = some id) : e = d := by
  obtain ⟨i, -, es, hi⟩ := exists_cons_of_pending he
  obtain ⟨j, -, ds, hj⟩ := exists_cons_of_pending hd
  obtain rfl := dispatched_unique hs hi hj hid hid'
  rw [hi] at hj
  exact (List.cons.inj hj).1

end DeclClosure.Closure

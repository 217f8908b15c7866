import DeclClosure.Proofs.Closure.Lineage

/-!
# The closure is complete

The names of other classes that a node records, its relatives, are asked for when they are recorded.
In a still world such a name stands for the class that bears it, so from then on it is settled
(`State.Settles`) or pending, first as a symbol and then with its class (`State.Awaits`): a step
that works off the one leaves the other, and a name that is settled stays so as the names that were
dealt with and the closed namespaces grow (`State.Faithful.minds_next`).

Hence all relatives are settled once nothing is pending (`relatives_settled`).
-/

namespace DeclClosure.Closure

variable {c : Setting} {w : World} {s t : State} {m : Node} {x : String} {o : Object}

/-- No declaration is made under a name like this. -/
def NameRejected (x : String) : Prop :=
  Text.isBlankText x ∨ (x.toList.any fun c ↦ c = '<' ∨ c = '>') ∨ Text.isLowerCase (Name.leaf x)

/-- Nothing more will be done about the name: it was dealt with, it belongs to the standard
environment and was not asked for, it is rejected as it is, or its namespace is closed. -/
def State.Settles (c : Setting) (s : State) (x : String) : Prop :=
  x ∈ s.seen ∨ (c.payload.contains x ∧ ¬c.bootstrap.contains x) ∨ NameRejected x ∨ s.isAliased x

/-- The name is to be dealt with: it is pending, as a symbol or with a module or class. -/
def State.Awaits (w : World) (s : State) (x : String) : Prop :=
  .symbol x ∈ s.queue.items ∨ ∃ o, w.isNamespace o ∧ .constant x o ∈ s.queue.items

/-- The node records names that some object bears, and they are settled or pending. -/
def State.Minds (c : Setting) (w : World) (s : State) (m : Node) : Prop :=
  ∀ x ∈ m.relatives, (∃ o, w.trueName? o = some x) ∧ (s.Settles c x ∨ s.Awaits w x)

/-! ### One name -/

/-- A module or class that is left out has a name that is settled. -/
theorem State.settles_of_skipReason? {reason : SkipReason}
    (h : s.skipReason? x o = some reason) (ho : ¬s.world.isEnumMember o) : s.Settles c x := by
  by_contra hno
  have hnone : s.skipReason? x o = none := by
    refine State.skipReason?_eq_none_iff.mpr ⟨fun hblank ↦ ?_, fun hmade ↦ ?_, fun hlower ↦ ?_,
      fun halias ↦ ?_, fun hseen ↦ ?_, ho⟩
    · exact hno (.inr (.inr (.inl (.inl hblank))))
    · exact hno (.inr (.inr (.inl (.inr (.inl hmade)))))
    · exact hno (.inr (.inr (.inl (.inr (.inr (Bool.and_eq_true_iff.mp hlower).1)))))
    · exact hno (.inr (.inr (.inr halias)))
    · exact hno (.inl hseen)
  rw [hnone] at h
  cases h

/-- What is settled stays so. -/
theorem State.Settles.next (h : s.Settles c x) : (s.next c).Settles c x := by
  rcases h with hseen | hpayload | hrejected | halias
  · exact .inl ((s.next_grows c).2.1 hseen)
  · exact .inr (.inl hpayload)
  · exact .inr (.inr (.inl hrejected))
  · obtain ⟨ns, hns, hx⟩ := State.isAliased_iff.mp halias
    exact .inr (.inr (.inr (State.isAliased_iff.mpr
      ⟨ns, State.mem_aliases_next_iff.mpr (.inl hns), hx⟩)))

/-- A symbol that some object bears is not looked up, or its object is passed on. -/
theorem State.Faithful.of_symbol (hs : s.Faithful w) (hw : w.Still) (hplain : w.Unqualified)
    (ho : w.trueName? o = some x) {es : List Event} (hcons : s.queue.items = .symbol x :: es) :
    (s.next c).Settles c x ∨ (s.next c).Awaits w x := by
  obtain ⟨hcanonical, hmeaning⟩ := World.trueName?_eq_some_iff.mp ho
  have hstrip := hplain.stripRoot hcanonical
  have hresolve : Query.resolve x s.popped.world = (.ok (some o), s.popped.world) := by
    show Query.resolve x s.world = (.ok (some o), s.world)
    rw [Query.resolve_of_still (hs.still hw), hs.meaning?_eq, hmeaning]
  have hstep := Run.dispatch_step c (.symbol x) s.popped
  rw [State.next_of_cons hcons]
  generalize Run.dispatch c (.symbol x) s.popped = r at hstep
  cases hstep with
  | missed v hv hmissed hr =>
    rw [hstrip] at hmissed
    rcases hmissed with hskips | hnone
    · obtain ⟨hpayload, hbootstrap⟩ := Bool.and_eq_true_iff.mp hskips
      rw [Setting.inPayload, hstrip] at hpayload
      rw [Bool.not_eq_true', Bool.eq_false_iff] at hbootstrap
      exact .inl (.inr (.inl ⟨hpayload, hbootstrap⟩))
    · exact absurd hresolve (hnone o _)
  | resolved v p hv hfound hr =>
    rw [hstrip] at hfound hr
    rw [hresolve] at hfound
    cases hfound
    rw [hr]
    refine .inr (.inr ⟨o, World.isNamespace_of_canonicalName? hcanonical, ?_⟩)
    exact List.mem_append_right _ List.mem_cons_self

/-- A module or class that was found is left out for good, or its name is dealt with. -/
theorem State.Faithful.of_constant (hs : s.Faithful w) (ho : w.isNamespace o)
    (hstrip : Name.stripRoot x = x) {es : List Event}
    (hcons : s.queue.items = .constant x o :: es) : (s.next c).Settles c x := by
  have hmember : ¬s.popped.world.isEnumMember o := by
    obtain ⟨notes, heq⟩ := hs.world
    refine World.not_isEnumMember_of_isNamespace ?_
    show s.world.isNamespace o
    rw [heq]
    exact ho
  have hseen : x ∈ (s.popped.markSeen x).seen := List.mem_append_right _ List.mem_cons_self
  have hstep := Run.dispatch_step c (.constant x o) s.popped
  rw [State.next_of_cons hcons]
  generalize Run.dispatch c (.constant x o) s.popped = r at hstep
  cases hstep with
  | constant hout =>
    rw [hstrip] at hout
    cases hout with
    | skipped reason hskip => exact State.settles_of_skipReason? (s := s.popped) hskip hmember
    | failed f v hskip hv hrun => exact .inl hseen
    | enacted v u hskip hu hrun =>
      refine .inl ?_
      rw [State.enact_keeps.2.1]
      exact hseen

/-- A name that is settled or pending is so after every step. -/
theorem State.Faithful.minds_next (hs : s.Faithful w) (hw : w.Still) (hplain : w.Unqualified)
    (ho : w.trueName? o = some x) (h : s.Settles c x ∨ s.Awaits w x) :
    (s.next c).Settles c x ∨ (s.next c).Awaits w x := by
  rcases h with hsettles | hsymbol | ⟨p, hp, hconstant⟩
  · exact .inl hsettles.next
  · rcases State.mem_next_or_cons hsymbol c with hmem | ⟨es, hcons⟩
    · exact .inr (.inl hmem)
    · exact hs.of_symbol hw hplain ho hcons
  · rcases State.mem_next_or_cons hconstant c with hmem | ⟨es, hcons⟩
    · exact .inr (.inr ⟨p, hp, hmem⟩)
    · have hcanonical := (World.trueName?_eq_some_iff.mp ho).1
      exact .inl (hs.of_constant hp (hplain.stripRoot hcanonical) hcons)

/-! ### All nodes -/

theorem isShallow_minds : Node.IsShallow (s.Minds c w) :=
  fun _ _ _ _ h ↦ h

/-- A step keeps what is known of the nodes that were there. -/
theorem State.Faithful.minds_of_minds (hs : s.Faithful w) (hw : w.Still) (hplain : w.Unqualified)
    (h : s.Minds c w m) : (s.next c).Minds c w m := by
  intro x hx
  obtain ⟨⟨o, ho⟩, hminds⟩ := h x hx
  exact ⟨⟨o, ho⟩, hs.minds_next hw hplain ho hminds⟩

/-- Listeners ask for what they record. -/
theorem Acts.everywhere_minds {a : Announcement} (h : Acts c a s t) (hw : w.Still)
    (hs : s.Faithful w) (hminds : s.tree.Everywhere (t.Minds c w)) :
    t.tree.Everywhere (t.Minds c w) := by
  induction h using Relation.ReflTransGen.head_induction_on with
  | refl => exact hminds
  | @head s u hact hrest ih =>
    refine ih (hact.faithful hw hs) (hact.everywhere isShallow_minds ?_ ?_ hminds)
    · intro names f m _ _ hf hasked hm x hx
      rcases hf.relatives m x hx with hx | hx
      · exact hm x hx
      · obtain ⟨hsymbol, o, v, hname, -⟩ := hasked x hx
        rw [Query.nameOf_of_still (hs.still hw), hs.trueName?_eq] at hname
        exact ⟨⟨o, Except.ok.inj (Prod.mk.inj hname).1⟩,
          .inr (.inl (Acts.queue_subset hrest hsymbol))⟩
    · -- what is listed records nothing
      exact fun _ name d _ ↦ nofun

/-- A scope asks for the superclass that it names. -/
theorem State.symbol_mem_enact {kind : NodeKind} {name : String} {k : ScopeKind}
    (hk : k.superclass? = some x) :
    .symbol x ∈ (s.enact kind name o (.scope k)).queue.items := by
  show .symbol x ∈ (s.attachScope kind name o k).queue.items
  simp only [attachScope]
  rw [hk]
  exact List.mem_append_left _ (List.mem_append_right _ List.mem_cons_self)

/-- All along a compilation in a still world, the relatives of all nodes are settled or pending. -/
theorem everywhere_minds_after (hw : w.Still) (hplain : w.Unqualified) (t : Trackers)
    (seeds : List String) (n : Nat) :
    ((State.outset c w t seeds).after c n).tree.Everywhere
      (((State.outset c w t seeds).after c n).Minds c w) := by
  refine (State.after_induction (P := fun s ↦ s.Faithful w ∧ s.tree.Everywhere (s.Minds c w))
    ⟨faithful_after (c := c) hw t seeds 0, .empty⟩ (fun s hs ↦ ?_) n).2
  obtain ⟨hfaith, hs⟩ := hs
  refine ⟨hfaith.next hw c, ?_⟩
  have hkept : s.tree.Everywhere ((s.next c).Minds c w) :=
    hs.mono fun m hm ↦ hfaith.minds_of_minds hw hplain hm
  refine State.everywhere_next isShallow_minds ?_ ?_ hkept
  · intro name o node kind signature es hcons hacts
    exact Acts.everywhere_minds hacts hw hfaith.popped hkept
  · -- a new node records nothing but the superclass that it names
    intro kind name o verdict htakes hv m _ _ hstem hfresh x hx
    rw [hfresh.relatives] at hx
    obtain ⟨k, hk, hsuper⟩ := Node.exists_stem_of_superclass? (Option.mem_toList.mp hx)
    obtain rfl := Verdict.eq_scope_of_stem? (hk ▸ hstem)
    obtain ⟨-, p, hp, -⟩ := hfaith.above_of_scope hw htakes hv hsuper
    refine ⟨⟨p, hp⟩, .inr (.inl ?_)⟩
    obtain ⟨v, -, hnext⟩ := State.exists_judge_of_verdict? htakes hv
    rw [hnext]
    exact State.symbol_mem_enact hsuper

end DeclClosure.Closure

import DeclClosure.Proofs.Closure.Callables
import DeclClosure.Proofs.Closure.Compositions
import DeclClosure.Proofs.Closure.Dispatches
import DeclClosure.Proofs.Closure.Foreign
import DeclClosure.Proofs.Tree.Broods

/-!
# Only content of the unit is declared

Three ways lead into the tree, and each of them is guarded. A scope of the unit is made of an object
that the unit defines (`AnnouncedAs.defined`). A callable is listed if its code lies in the unit
(`everywhere_fromUnit`). A scope outside of the unit is reached from a scope of the unit that was
mixed into it from within the unit (`AnnouncedAs.exists_mixin`); what listeners may add there are the
mixins that come from the unit and callables, and nothing else (`everywhere_mixesOnly`,
`callable_of_mem_brood`).
-/

namespace DeclClosure

namespace Node

theorem MixesOnly.addMixin {kind x : String} {n : Node} (h : n.MixesOnly) :
    (n.addMixin kind x).MixesOnly := by
  cases n with
  | leaf h' d => exact h
  | scope h' f cs =>
    simp only [Node.addMixin, mapFacts, MixesOnly]
    split <;> exact h

end Node

namespace Closure

variable {c : Setting} {a : Announcement} {s t : State} {k n : Nat} {id d : NodeId} {m : Node}
  {x y : String} {o : Object} {ds : List NodeId}

/-! ### Scopes of the unit -/

namespace Run

theorem judgeNamespace_defined {sk : ScopeKind} (h : judgeNamespace c x o s = (.ok (.scope sk), t)) :
    ¬s.world.isTypeVariable o ∧ (definedInUnit c o c.strictMembership s).1 = .ok true := by
  simp only [judgeNamespace] at h
  rw [run_get_bind] at h
  split at h
  · cases h
  · next hvariable =>
    refine ⟨hvariable, ?_⟩
    obtain ⟨defined, u, hdefined, hrest⟩ := run_bind_eq_ok_iff.mp h
    rw [hdefined]
    cases defined with
    | true => rfl
    | false =>
      obtain ⟨_, _, -, hdrop⟩ := run_bind_eq_ok_iff.mp hrest
      cases hdrop

/-- A scope of the unit is only made of what the unit defines, and of no type variable. -/
theorem judgeConstant_defined {sk : ScopeKind} (h : judgeConstant c x o s = (.ok (.scope sk), t)) :
    ∃ w, s.world.Evolves w ∧ w.Evolves t.world ∧ ¬w.isTypeVariable o ∧
      (definedInUnit c o c.strictMembership (s.learn w)).1 = .ok true := by
  obtain ⟨kind, u, hkind, hrest⟩ := run_bind_eq_ok_iff.mp h
  cases kind with
  | «alias» => exact absurd rfl (judgeAlias_noScope c x o u _ t hrest sk)
  | value => exact (judgeValue_plain c x o u _ t hrest).elim
  | scope =>
    obtain ⟨w, hw, heq⟩ := classify_learns x o s
    rw [hkind] at heq
    obtain rfl : u = s.learn w := heq
    have hrest : judgeNamespace c x o (s.learn w) = (.ok (.scope sk), t) := hrest
    obtain ⟨v, hv, heq⟩ := judgeNamespace_learns c x o (s.learn w)
    rw [hrest] at heq
    obtain rfl : t = (s.learn w).learn v := heq
    exact ⟨w, hw, hv, judgeNamespace_defined hrest⟩

end Run

/-- What is announced as a scope of the unit was found to be defined there, and is no type
variable. -/
theorem AnnouncedAs.defined (hb : s.Blank) (h : AnnouncedAs c s .scope x o id) :
    ∃ k, (s.after c k).takesUp? = some (.scope, x, o) ∧ ∃ w, (s.after c k).world.Evolves w ∧
      w.Evolves (s.after c (k + 1)).world ∧ ¬w.isTypeVariable o ∧
        (Run.definedInUnit c o c.strictMembership
          (((s.after c k).popped.markSeen x).learn w)).1 = .ok true := by
  obtain ⟨n, signature, hmem⟩ := h
  have hkind : NodeKind.scope ≠ .method := nofun
  obtain ⟨k, -, found, p, v, htakes, hv, hann, -⟩ := exists_declaring hb hkind hmem
  obtain ⟨⟨sk, rfl⟩, rfl, rfl⟩ := Verdict.eq_scope_of_announces hann nofun
  obtain ⟨u, hrun, hnext⟩ := State.exists_judge_of_verdict? htakes hv
  obtain ⟨w, hw, hlast, hvariable, hdefined⟩ := Run.judgeConstant_defined hrun
  refine ⟨k, htakes, w, hw, ?_, hvariable, hdefined⟩
  show w.Evolves ((s.after c k).next c).world
  rw [hnext, State.enact_keeps.1]
  exact hlast

/-! ### Scopes outside of the unit -/

/-- What is announced as a scope outside of the unit was registered, in the unit, as the target of a
mixin that is announced as a scope of the unit. -/
theorem AnnouncedAs.exists_mixin (hs : s.Seeded) (h : AnnouncedAs c s .foreignScope y o id) :
    ∃ x v i, AnnouncedAs c s .scope x v i ∧ ∃ r ∈ s.trackers.mixins.registrationsOf v,
      r.target = o ∧ Run.isOurs c r.location := by
  obtain ⟨n, signature, hmem⟩ := h
  have hkind : NodeKind.foreignScope ≠ .method := nofun
  obtain ⟨j, -, found, p, v, htakes, -, hann, -⟩ := exists_declaring hs.blank hkind hmem
  obtain ⟨-, rfl, rfl⟩ := Verdict.eq_scope_of_announces hann nofun
  obtain ⟨name, es, hcons, -⟩ := State.takesUp?_foreignScope_iff.mp htakes
  have hfound : .foreignConstant name p ∈ (s.after c j).queue.items := hcons ▸ List.mem_cons_self
  -- only the announcement of a scope of the unit brings a class from outside
  obtain ⟨k, -, hbrings⟩ := exists_brings hs hfound nofun
  cases hbrings with
  | @target x v node signature' es' _ r hcons' hr hours =>
    have hmem' : .node x v node .scope signature' ∈ (s.after c k).queue.items :=
      hcons' ▸ List.mem_cons_self
    obtain ⟨i, -, rfl⟩ := exists_carried hs hmem'
    rw [State.trackers_after] at hr
    exact ⟨x, v, i, ⟨k, signature', hmem'⟩, r, hr, rfl, hours⟩

/-- Whatever announces a scope outside of the unit announces it as one. -/
theorem AnnouncedAs.kind_eq (hs : s.Seeded) (h : AnnouncedAs c s .foreignScope y o id) {p : Object}
    {kind : NodeKind} {signature : Option Signature}
    (hmem : .node x p (some id) kind signature ∈ (s.after c k).queue.items) : kind = .foreignScope := by
  obtain ⟨n, signature', hmem'⟩ := h
  cases carried_unique hs hmem hmem' rfl rfl
  rfl

/-- On a scope outside of the unit nothing is recorded but mixins. -/
theorem everywhere_mixesOnly (hs : s.Seeded) (h : AnnouncedAs c s .foreignScope y o id) (n : Nat) :
    (s.after c n).tree.Everywhere fun m ↦ m.id = id → m.MixesOnly := by
  refine everywhere_after (Q := fun _ m ↦ m.id = id → m.MixesOnly) hs.tree (fun _ _ _ _ _ h ↦ h)
    (fun _ _ h ↦ h) ?_ ?_ n
  · intro n name p node kind signature es hcons hacts hearlier
    refine hacts.everywhere (fun _ _ _ _ h ↦ h) ?_ (fun _ _ _ _ _ _ _ ↦ rfl) hearlier
    intro u names f m _ _ hnode hours hf hasked hm hid
    have hsame : (f m).id = m.id := congrArg Badge.id (hf.dresses m).1
    obtain rfl : m.id = id := hsame.symm.trans hid
    obtain rfl : node = some m.id := hnode
    obtain rfl := h.kind_eq hs (hcons ▸ List.mem_cons_self)
    -- a scope outside of the unit is changed only to record a name
    obtain ⟨z, hz⟩ := List.exists_mem_of_ne_nil names fun hnil ↦ hours hnil rfl
    obtain ⟨q, v, -, -, hcomposes⟩ := hasked z hz
    rcases hcomposes with ⟨hown, -⟩ | ⟨way, rfl, -⟩
    · exact absurd rfl hown
    · exact (hm rfl).addMixin
  · exact fun _ _ _ _ _ _ _ m _ _ _ hfresh _ ↦ hfresh.mixesOnly

/-! ### What stands below a scope outside of the unit -/

/-- Below a node that is not announced as a scope of the unit, an act lists callables at most. -/
theorem Act.of_mem_broods (hs : s.Sound) (h : Act c a s t) (hkind : a.node = some id → a.kind ≠ .scope)
    (hds : (id, ds) ∈ t.tree.broods) (hd : d ∈ ds) :
    (∃ es, (id, es) ∈ s.tree.broods ∧ d ∈ es) ∨
      t.tree.Everywhere fun m ↦ m.id = d → m.callable?.isSome := by
  have howner : ∀ {scope : Node}, a.Shows s scope →
      ∀ k, s.tree.node? scope.id = some k → k.isScope := by
    intro scope hshows k hk
    rw [hshows.known] at hk
    cases hk
    exact hshows.isScope
  cases h with
  | learn _ | keep _ | want _ _ | found _ _ _ _ | target _ _ _ => exact .inl ⟨ds, hds, hd⟩
  | @dress i f hid hf =>
    simp only [State.dress] at hds
    rw [Tree.broods_modify hf.dresses] at hds
    exact .inl ⟨ds, hds, hd⟩
  | @record w name p i f hcomp hid hname hw hf =>
    simp only [State.dress] at hds
    rw [Tree.broods_modify hf.dresses] at hds
    exact .inl ⟨ds, hds, hd⟩
  | list name hscope hshows hmember =>
    refine (hs.apart.of_mem_broods_addUnder (howner hshows) rfl hds hd).imp_right ?_
    rintro ⟨rfl, -⟩
    exact absurd hscope (hkind hshows.id)
  | @listMethod scope name f signature hscope hshows hf =>
    refine (hs.apart.of_mem_broods_addUnder (howner hshows) rfl hds hd).imp_right ?_
    rintro ⟨-, rfl⟩
    exact hs.everywhere_callable_list scope.id name f
  | @prune scope hprunes hscope hshows hempty hpayload =>
    obtain ⟨-, hm | hm⟩ := Tree.mem_walk_of_node? hshows.known
    · exact .inl ((hs.apart.removed hm).2.of_mem_broods hs.apart hds hd)
    · have hsame : (s.tree.remove scope.id).2 = s.tree := by
        rw [Tree.remove_of_not_mem (hs.apart.not_mem_badges hm)]
      simp only [State.prune] at hds
      rw [hsame] at hds
      exact .inl ⟨ds, hds, hd⟩

theorem Acts.of_mem_broods (hs : s.Sound) (h : Acts c a s t)
    (hkind : a.node = some id → a.kind ≠ .scope) (hds : (id, ds) ∈ t.tree.broods) (hd : d ∈ ds) :
    (∃ es, (id, es) ∈ s.tree.broods ∧ d ∈ es) ∨
      t.tree.Everywhere fun m ↦ m.id = d → m.callable?.isSome := by
  induction h generalizing ds with
  | refl => exact .inl ⟨ds, hds, hd⟩
  | @tail u t hacts hact ih =>
    have husound : u.Sound := (Acts.tends hs hacts).sound
    rcases hact.of_mem_broods husound hkind hds hd with ⟨es, hes, hd⟩ | hcallable
    · refine (ih hes hd).imp_right fun hcallable ↦ ?_
      obtain ⟨m, hm, rfl⟩ := Tree.exists_of_mem_broods hes hd
      exact Acts.everywhere_callable (.single hact)
        (husound.lt_of_stands (State.stands_of_mem_walk hm)) hcallable
    · exact .inr hcallable

/-- In a step, what comes to stand below a scope outside of the unit is a callable, or it is announced
as a declaration. -/
theorem of_mem_broods_succ (hs : s.Seeded) (h : AnnouncedAs c s .foreignScope y o id)
    (hds : (id, ds) ∈ (s.after c (n + 1)).tree.broods) (hd : d ∈ ds) :
    (∃ es, (id, es) ∈ (s.after c n).tree.broods ∧ d ∈ es) ∨ (∃ z, Announced c s (n + 1) d z) ∨
      (s.after c (n + 1)).tree.Everywhere fun m ↦ m.id = d → m.callable?.isSome := by
  have hsound : (s.after c n).Sound := State.after_sound hs.blank.sound n
  obtain ⟨m, hm, rfl⟩ := Tree.exists_of_mem_broods hds hd
  have hds : (id, ds) ∈ ((s.after c n).next c).tree.broods := hds
  cases State.turn c (s.after c n) with
  | idle w _ _ hnext | resolved w _ _ _ _ _ hnext | undecided w _ _ _ hnext =>
    rw [hnext] at hds
    exact .inl ⟨ds, hds, hd⟩
  | told _ hcons hacts =>
    refine (Acts.of_mem_broods (s := (s.after c n).popped) hsound hacts ?_ hds hd).imp_right .inr
    rintro rfl
    obtain rfl := h.kind_eq hs (hcons ▸ List.mem_cons_self)
    exact nofun
  | @enacted found name p v w htakes _ _ _ hnext =>
    rw [hnext] at hds
    rcases (((s.after c n).popped.markSeen name).learn w).tree_enact found name p v with
      htree | ⟨q, hqid, -, -, -, hchildren, htree⟩
    · rw [htree] at hds
      exact .inl ⟨ds, hds, hd⟩
    · rw [htree] at hds
      refine (hsound.apart.of_mem_broods_add (fun _ _ ↦ Tree.Sound.isScope_of_enclosing? hsound)
        hchildren hds hd).imp_right fun ⟨_, heq⟩ ↦ .inl ⟨name, ?_⟩
      -- what joined the tree is announced under its name
      have hfresh : ¬(s.after c n).Stands m.id := fun hstands ↦
        Nat.lt_irrefl _ (heq.trans hqid ▸ hsound.lt_of_stands hstands)
      obtain ⟨p', hmem⟩ := exists_announcement hs htakes hm hfresh
      refine ⟨n + 1, Nat.le_refl _, p', _, none, ?_, hmem⟩
      split
      · exact State.ne_method_of_takesUp? htakes
      · exact nofun

/-- Below a scope outside of the unit only stand callables and announced declarations. -/
theorem callable_of_mem_brood (hs : s.Seeded) (h : AnnouncedAs c s .foreignScope y o id)
    (hds : (id, ds) ∈ (s.after c n).tree.broods) (hd : d ∈ ds) :
    (∃ z, Announced c s n d z) ∨
      (s.after c n).tree.Everywhere fun m ↦ m.id = d → m.callable?.isSome := by
  induction n generalizing ds with
  | zero =>
    have hds : (id, ds) ∈ s.tree.broods := hds
    rw [hs.tree] at hds
    cases hds
  | succ n ih =>
    rcases of_mem_broods_succ hs h hds hd with ⟨es, hes, hd⟩ | hnew
    · refine (ih hes hd).imp (fun ⟨z, hz⟩ ↦ ⟨z, hz.succ⟩) fun hcallable ↦ ?_
      obtain ⟨m, hm, rfl⟩ := Tree.exists_of_mem_broods hes hd
      have hlt := (State.after_sound (c := c) hs.blank.sound n).lt_of_stands
        (State.stands_of_mem_walk hm)
      exact everywhere_callable_of_le hs.blank.sound hlt (Nat.le_succ n) hcallable
    · exact hnew

/-- **Only content of the unit is declared.** For every world, all registrations and seeds, every
setting, and after any number of events:

* what is announced as a scope of the unit was taken up under its name, and in the step that did so
  the unit was found to define it, as strictly as the setting says, and it was found to be no type
  variable;
* every callable of the tree was found among those of an announced object, and its code was found in
  the unit;
* what is announced as a scope outside of the unit was registered, in the unit, as the target of a
  mixin that is announced as a scope of the unit. Wherever it stands, it records only mixins that the
  unit was last seen to compose into it; it has no type parameters, no markers, no metaclass and no
  remarks; and below it stand only declarations that were announced, and callables. -/
theorem only_unit_content (c : Setting) (w : World) (t : Trackers) (seeds : List String) (n : Nat) :
    (∀ x o id, AnnouncedAs c (State.outset c w t seeds) .scope x o id →
      ∃ k, ((State.outset c w t seeds).after c k).takesUp? = some (.scope, x, o) ∧
        ∃ u, ((State.outset c w t seeds).after c k).world.Evolves u ∧
          u.Evolves ((State.outset c w t seeds).after c (k + 1)).world ∧ ¬u.isTypeVariable o ∧
            (Run.definedInUnit c o c.strictMembership
              ((((State.outset c w t seeds).after c k).popped.markSeen x).learn u)).1 = .ok true) ∧
      (∀ m ∈ ((State.outset c w t seeds).after c n).tree.walk,
        FromUnit c (State.outset c w t seeds) n m) ∧
      ∀ y o id, AnnouncedAs c (State.outset c w t seeds) .foreignScope y o id →
        (∃ x v i, AnnouncedAs c (State.outset c w t seeds) .scope x v i ∧
          ∃ r ∈ t.mixins.registrationsOf v, r.target = o ∧ Run.isOurs c r.location) ∧
        ∀ m ∈ ((State.outset c w t seeds).after c n).tree.walk, m.id = id →
          (∀ r ∈ m.mixins, Recorded c (State.outset c w t seeds) n o r) ∧ m.MixesOnly ∧
            ∀ d ∈ m.children,
              (∃ z, Announced c (State.outset c w t seeds) n d.id z) ∨ d.callable?.isSome := by
  have hs := State.seeded_outset c w t seeds
  refine ⟨fun x o id h ↦ h.defined hs.blank, (everywhere_fromUnit hs.blank n).walk, ?_⟩
  intro y o id h
  refine ⟨h.exists_mixin hs, ?_⟩
  rintro m hm rfl
  refine ⟨(everywhere_recorded hs.blank h n).walk m hm rfl, (everywhere_mixesOnly hs h n).walk m hm rfl,
    fun d hd ↦ ?_⟩
  have hwalk := Tree.child_mem_walk hd hm
  exact (callable_of_mem_brood hs h (Tree.mem_broods hm) (List.mem_map_of_mem hd)).imp_right
    fun hcallable ↦ hcallable.walk d hwalk rfl

set_option maxRecDepth 100000 in
/-- A class from outside is declared since the unit mixed one of its own into it, and it records that
mixin. -/
theorem foreign_content_of_mixed :
    AnnouncedAs mixedSetting (mixedOutset lastInside) .foreignScope "ext.T" (.entity (.declared 3)) 2 ∧
      (∃ x v i, AnnouncedAs mixedSetting (mixedOutset lastInside) .scope x v i ∧
        ∃ r ∈ (MixinTracker.registered lastInside).registrationsOf v,
          r.target = .entity (.declared 3) ∧ Run.isOurs mixedSetting r.location) ∧
      ∃ m ∈ ((mixedOutset lastInside).after mixedSetting 9).tree.walk, m.id = 2 ∧
        ∃ r ∈ m.mixins, r.name = "app.M" ∧
          Recorded mixedSetting (mixedOutset lastInside) 9 (.entity (.declared 3)) r := by
  have htarget : AnnouncedAs mixedSetting (mixedOutset lastInside) .foreignScope "ext.T"
      (.entity (.declared 3)) 2 := announcedAs_of_mem (k := 6) (by decide +kernel)
  have hrecords : ∃ m ∈ ((mixedOutset lastInside).after mixedSetting 9).tree.walk, m.id = 2 ∧
      ∃ r ∈ m.mixins, r.name = "app.M" := by decide +kernel
  rw [mixedOutset] at htarget hrecords ⊢
  obtain ⟨m, hm, hid, r, hr, hname⟩ := hrecords
  obtain ⟨-, -, hforeign⟩ :=
    only_unit_content mixedSetting mixedWorld ⟨.registered lastInside, {}⟩ ["app"] 9
  obtain ⟨hmixin, hcontent⟩ := hforeign "ext.T" (.entity (.declared 3)) 2 htarget
  exact ⟨htarget, hmixin, m, hm, hid, r, hr, hname, (hcontent m hm hid).1 r hr⟩

end Closure

end DeclClosure

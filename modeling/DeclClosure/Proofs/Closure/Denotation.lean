import DeclClosure.Proofs.Closure.Origins
import DeclClosure.Proofs.Closure.StillVerdicts
import DeclClosure.Proofs.World.Standard

/-!
# What names in the tree stand for

In a still world the names of a run keep their meaning, and every pending object is the one that its
name stands for (`State.Faithful`). So a scope is named by what stands for the object that it was
made of, and what an alias names is the object that was found under it (`scopes_and_aliases_denote`).

The name of an alias has lost its root qualifier once when the alias is declared, and loses it again
when the name is looked up. So an alias whose own name still starts with the root qualifier may
stand for something else than its target (`not_denotes_of_shadowed`).
-/

namespace DeclClosure.Closure

variable {c : Setting} {w : World} {s t : State} {n : Nat} {m : Node} {kind : NodeKind}
  {name target : String} {o : Object}

/-! ### Pending objects -/

/-- The object that the event brings is what its name stands for in the world. -/
def Event.Faithful (w : World) : Event → Prop
  | .constant name o => w.meaning? name = some o
  | .foreignConstant name o => w.trueName? o = some name
  | _ => True

/-- The state looks at the world, up to notes, and pending objects are what their names stand for. -/
structure State.Faithful (w : World) (s : State) : Prop where
  /-- Nothing but notes has been added to the world. -/
  world : ∃ notes, s.world = w.withNotes notes
  /-- Pending objects are what their names stand for. -/
  queue : ∀ e ∈ s.queue.items, e.Faithful w

theorem Event.faithful_of_found?_eq_none {e : Event} (h : e.found? = none) : e.Faithful w := by
  match e, h with
  | .symbol _, _ | .node _ _ _ _ _, _ | .bare, _ => trivial

theorem State.mem_push {d e : Event} (h : e ∈ (s.push d).queue.items) :
    e ∈ s.queue.items ∨ e = d :=
  (List.mem_append.mp h).imp_right List.mem_singleton.mp

theorem State.mem_attach {announced : Object} {node : NodeId → Node} {e : Event}
    (h : e ∈ (s.attach kind name announced node).queue.items) :
    e ∈ s.queue.items ∨ e.found? = none := by
  refine (List.mem_append.mp h).imp_right fun he ↦ ?_
  rw [List.mem_singleton.mp he]
  rfl

theorem State.mem_attachConst (value ascription : Option String) {announced : Object} {e : Event}
    (h : e ∈ (s.attachConst name announced value ascription).queue.items) :
    e ∈ s.queue.items ∨ e.found? = none :=
  State.mem_attach h

/-- Enacting a verdict brings no new object. -/
theorem State.mem_enact {v : Verdict} {e : Event}
    (h : e ∈ (s.enact kind name o v).queue.items) : e ∈ s.queue.items ∨ e.found? = none := by
  match v, h with
  | .drop reason, h => exact .inl h
  | .const announced value ascription, h => exact State.mem_attachConst value ascription h
  | .alias target shown, h =>
    obtain ⟨aliases, halias⟩ := s.closeNamespace_eq name
    cases shown with
    | false =>
      have h : e ∈ (s.closeNamespace name).queue.items := h
      rw [halias] at h
      exact .inl h
    | true =>
      have h : e ∈ ((s.closeNamespace name).attachConst name o (some target) none).queue.items := h
      rw [halias] at h
      exact State.mem_attachConst (some target) none h
  | .scope k, h =>
    have h : e ∈ (s.attachScope kind name o k).queue.items := h
    simp only [attachScope] at h
    rcases State.mem_attach h with h | h
    · cases hk : k.superclass? with
      | none =>
        rw [hk] at h
        exact .inl h
      | some x =>
        rw [hk] at h
        refine (State.mem_push h).imp_right fun he ↦ ?_
        rw [he]
        rfl
    · exact .inr h

/-- Enacting a verdict leaves the world, the names that were dealt with and the registrations alone. -/
theorem State.enact_keeps {v : Verdict} :
    (s.enact kind name o v).world = s.world ∧ (s.enact kind name o v).seen = s.seen ∧
      (s.enact kind name o v).trackers = s.trackers := by
  match v with
  | .drop reason => exact ⟨rfl, rfl, rfl⟩
  | .const announced value ascription => exact ⟨rfl, rfl, rfl⟩
  | .alias target shown =>
    obtain ⟨aliases, halias⟩ := s.closeNamespace_eq name
    have hclose : (s.closeNamespace name).world = s.world ∧ (s.closeNamespace name).seen = s.seen ∧
        (s.closeNamespace name).trackers = s.trackers := by
      rw [halias]
      exact ⟨rfl, rfl, rfl⟩
    cases shown <;> exact hclose
  | .scope k =>
    show (s.attachScope kind name o k).world = s.world ∧
      (s.attachScope kind name o k).seen = s.seen ∧
        (s.attachScope kind name o k).trackers = s.trackers
    simp only [attachScope]
    cases k.superclass? <;> exact ⟨rfl, rfl, rfl⟩

namespace State.Faithful

theorem still (h : s.Faithful w) (hw : w.Still) : s.world.Still := by
  obtain ⟨notes, heq⟩ := h.world
  rw [heq]
  exact hw.withNotes notes

theorem meaning?_eq (h : s.Faithful w) (name : String) :
    s.world.meaning? name = w.meaning? name := by
  obtain ⟨notes, heq⟩ := h.world
  rw [heq, World.meaning?_withNotes]

theorem trueName?_eq (h : s.Faithful w) (o : Object) : s.world.trueName? o = w.trueName? o := by
  obtain ⟨notes, heq⟩ := h.world
  rw [heq, World.trueName?_withNotes]

/-- Whatever is asked, the world gains notes at most. -/
theorem exists_withNotes (h : s.Faithful w) (hw : w.Still) {v : World} (hv : s.world.Evolves v) :
    ∃ notes, v = w.withNotes notes := by
  obtain ⟨notes, heq⟩ := h.world
  obtain ⟨more, hmore⟩ := hv.rest (h.still hw)
  exact ⟨more, by rw [hmore, heq]; rfl⟩

/-- What stays true when the world evolves and events that bring no objects, or the right ones, join
the queue. -/
theorem grow (h : s.Faithful w) (hw : w.Still) (hworld : s.world.Evolves t.world)
    (hqueue : ∀ e ∈ t.queue.items, e ∈ s.queue.items ∨ e.Faithful w) : t.Faithful w :=
  ⟨h.exists_withNotes hw hworld, fun e he ↦ (hqueue e he).elim (h.queue e) id⟩

/-- A symbol or an announcement is put into the queue. -/
theorem push (h : s.Faithful w) (hw : w.Still) {v : World} (hv : s.world.Evolves v) {e : Event}
    (he : e.Faithful w) : ((s.learn v).push e).Faithful w := by
  refine h.grow hw hv fun d hd ↦ (State.mem_push hd).imp_right fun heq ↦ ?_
  rwa [heq]

end State.Faithful

/-- Acts of listeners only pass on what names stand for. -/
theorem Act.faithful {a : Announcement} (h : Act c a s t) (hw : w.Still) (hs : s.Faithful w) :
    t.Faithful w := by
  have hrefl : s.world.Evolves s.world := refl_of World.Evolves s.world
  have same {u : State} (hu : u.world = s.world) (hqueue : u.queue = s.queue) : u.Faithful w :=
    hs.grow hw (by rwa [hu]) fun e he ↦ .inl (by rwa [hqueue] at he)
  cases h with
  | learn hv => exact hs.grow hw hv fun e he ↦ .inl he
  | keep call => exact same rfl rfl
  | want name hk => exact hs.push hw hrefl trivial
  | dress hid hf => exact same rfl rfl
  | @record v name o id f hcomp hid hname hv hf =>
    have hpush := hs.push hw hv (e := .symbol name) trivial
    exact ⟨hpush.world, hpush.queue⟩
  | list name hkind hshows hd => exact same rfl rfl
  | @listMethod scope name f signature hkind hshows hf =>
    have hpush := hs.push hw hrefl (e := .node a.name a.value (some s.nextNode) .method signature)
      trivial
    exact ⟨hpush.world, hpush.queue⟩
  | @found u v name o hopens hrun hu hv =>
    refine hs.push hw (hu.trans hv) ?_
    rw [Query.resolve_of_still (hs.still hw)] at hrun
    show w.meaning? (Name.within a.name name) = some o
    rw [← hs.meaning?_eq]
    exact Except.ok.inj (Prod.mk.inj hrun).1
  | @target v name o hleads hname hv =>
    refine hs.push hw hv ?_
    rw [Query.nameOf_of_still (hs.still hw)] at hname
    show w.trueName? o = some name
    rw [← hs.trueName?_eq]
    exact Except.ok.inj (Prod.mk.inj hname).1
  | prune hprunes hkind hshows hempty hpayload => exact same rfl rfl

theorem Acts.faithful {a : Announcement} (h : Acts c a s t) (hw : w.Still) (hs : s.Faithful w) :
    t.Faithful w := by
  induction h with
  | refl => exact hs
  | tail _ hact ih => exact hact.faithful hw ih

/-- What is still pending when an event has left the queue is no less faithful. -/
theorem State.Faithful.popped (hs : s.Faithful w) : s.popped.Faithful w :=
  ⟨hs.world, fun e he ↦ hs.queue e (List.mem_of_mem_tail he)⟩

/-- A step keeps a state faithful. -/
theorem State.Faithful.next (hs : s.Faithful w) (hw : w.Still) (c : Setting) :
    (s.next c).Faithful w := by
  have hpopped : s.popped.Faithful w := hs.popped
  cases State.turn c s with
  | idle v _ hv hnext =>
    rw [hnext]
    exact hpopped.grow hw hv fun e he ↦ .inl he
  | @resolved name o _ v _ _ _ hv hresolve hnext =>
    rw [hnext]
    refine hpopped.push hw hv ?_
    rw [Query.resolve_of_still (hs.still hw)] at hresolve
    show w.meaning? (Name.stripRoot name) = some o
    rw [← hs.meaning?_eq]
    exact Except.ok.inj (Prod.mk.inj hresolve).1
  | told _ _ hacts => exact hacts.faithful hw hpopped
  | undecided v _ _ hv hnext =>
    rw [hnext]
    exact hpopped.grow hw hv fun e he ↦ .inl he
  | enacted v _ _ hv _ hnext =>
    -- what joins the queue brings no object
    rw [hnext]
    refine hpopped.grow hw ?_ fun e he ↦
      (State.mem_enact he).imp_right Event.faithful_of_found?_eq_none
    rw [State.enact_keeps.1]
    exact hv

/-- All along a compilation in a still world, pending objects are what their names stand for. -/
theorem faithful_after (hw : w.Still) (t : Trackers) (seeds : List String) (n : Nat) :
    ((State.outset c w t seeds).after c n).Faithful w := by
  refine State.after_induction (P := State.Faithful w) ⟨⟨_, rfl⟩, fun e he ↦ ?_⟩
    (fun u hu ↦ hu.next hw c) n
  obtain ⟨seed, -, rfl⟩ := List.mem_map.mp he
  trivial

/-! ### Verdicts on pending objects -/

/-- An object that is taken up bears its name, or some name stands for it that has now lost a root
qualifier. -/
theorem State.Faithful.of_takesUp? (hs : s.Faithful w) (hplain : w.Unqualified)
    (htakes : s.takesUp? = some (kind, name, o)) :
    (kind = .scope ∧ ∃ found, Name.stripRoot found = name ∧ w.meaning? found = some o) ∨
      (kind = .foreignScope ∧ w.trueName? o = some name) := by
  obtain ⟨e, es, hcons, hfound, -⟩ := State.exists_cons_of_takesUp? htakes
  have hfaith : e.Faithful w := hs.queue e (by rw [hcons]; exact List.mem_cons_self)
  match e, hfound, hfaith with
  | .constant found p, rfl, hfaith => exact .inl ⟨rfl, found, rfl, hfaith⟩
  | .foreignConstant found p, rfl, hfaith =>
    have hname : w.trueName? p = some found := hfaith
    have hstrip := hplain.stripRoot (World.trueName?_eq_some_iff.mp hname).1
    exact .inr ⟨rfl, by rwa [hstrip]⟩

/-- The run of a verdict, in a state that is faithful too. -/
theorem State.Faithful.exists_judge (hs : s.Faithful w) {v : Verdict}
    (htakes : s.takesUp? = some (kind, name, o)) (hv : s.verdict? c = some v) :
    ∃ u t, u.Faithful w ∧ Run.judge c kind name o u = (.ok v, t) := by
  obtain ⟨v, hrun, -⟩ := State.exists_judge_of_verdict? htakes hv
  exact ⟨s.popped.markSeen name, _,
    ⟨hs.popped.world, hs.popped.queue⟩, hrun⟩

/-- A scope of the unit is made of an object under the name that it bears. -/
theorem State.Faithful.trueName?_of_own_scope (hs : s.Faithful w) (hw : w.Still) {k : ScopeKind}
    (htakes : s.takesUp? = some (.scope, name, o)) (hv : s.verdict? c = some (.scope k)) :
    w.trueName? o = some name := by
  obtain ⟨u, t, hu, hrun⟩ := hs.exists_judge htakes hv
  rw [← hu.trueName?_eq]
  exact (Run.judgeConstant_scope_of_still (hu.still hw) hrun).1

/-- A scope is made of an object under the name that it bears. -/
theorem State.Faithful.trueName?_of_scope (hs : s.Faithful w) (hw : w.Still)
    (hplain : w.Unqualified) {k : ScopeKind} (htakes : s.takesUp? = some (kind, name, o))
    (hv : s.verdict? c = some (.scope k)) : w.trueName? o = some name := by
  rcases hs.of_takesUp? hplain htakes with ⟨rfl, -⟩ | ⟨rfl, hname⟩
  · exact hs.trueName?_of_own_scope hw htakes hv
  · exact hname

/-- An alias is made of an object under another name than it bears. It points to the name that the
object bears, or is a text that stands for an object without one. -/
theorem State.Faithful.of_alias (hs : s.Faithful w) (hw : w.Still) (hplain : w.Unqualified)
    {shown : Bool} (htakes : s.takesUp? = some (kind, name, o))
    (hv : s.verdict? c = some (.alias target shown)) :
    (∃ found, Name.stripRoot found = name ∧ w.meaning? found = some o) ∧
      w.trueName? o ≠ some name ∧ (w.trueName? o = some target ∨
        (w.trueName? o = none ∧ IsAnonymousText target)) := by
  obtain ⟨u, t, hu, hrun⟩ := hs.exists_judge htakes hv
  rcases hs.of_takesUp? hplain htakes with ⟨rfl, hfound⟩ | ⟨rfl, -⟩
  · obtain ⟨-, hne, htarget⟩ := Run.judgeConstant_alias_of_still (hu.still hw) hrun
    rw [hu.trueName?_eq] at hne htarget
    exact ⟨hfound, hne, htarget⟩
  · exact absurd rfl (Run.judgeForeign_noAlias c o u _ t hrun target shown)

/-- A name without a root qualifier means what it meant before it lost one. -/
theorem World.meaning?_of_stripRoot {found : String} (h : Name.stripRoot found = name)
    (hname : ¬Name.startsWith Name.rootQualifier name) : w.meaning? name = w.meaning? found := by
  simp only [World.meaning?]
  rw [h, Name.stripRoot_of_not_startsWith hname]

theorem Verdict.eq_scope_of_stem? {v : Verdict} {k : ScopeKind} (h : v.stem? = some (.scope k)) :
    v = .scope k := by
  match v, h with
  | .scope _, rfl => rfl
  | .alias _ false, h => cases h

/-- **Names denote what was inspected.** Let nothing be loaded or computed in a world, and let no
object declare a name that starts with the root qualifier. After any number of events of a
compilation, whatever its setting and its seeds, each node of the tree was made of an object or
listed by a listener.

A scope was made of the object that its name stands for, and that object declares the name. An alias
has another name than its target, which stands for the object that the alias was made of, unless the
target is a text for an object without a name; and if the name of the alias does not itself start
with the root qualifier, it stands for that object as well. -/
theorem scopes_and_aliases_denote (c : Setting) (w : World) (t : Trackers) (seeds : List String)
    (hw : w.Still) (hplain : w.Unqualified) (n : Nat) {m : Node}
    (hm : m ∈ ((State.outset c w t seeds).after c n).tree.walk) :
    Originates c (State.outset c w t seeds) n m ∧
      (m.isScope → ∃ o k, MadeOf c (State.outset c w t seeds) n m o (.scope k) ∧
        Query.resolve m.name w = (.ok (some o), w) ∧ w.canonicalName? o = some m.name) ∧
      ∀ o target, MadeOf c (State.outset c w t seeds) n m o (.alias target true) →
        m.stem = .const (some target) none ∧
          ((Query.nameOf o w = (.ok none, w) ∧ IsAnonymousText target) ∨
            (target ≠ m.name ∧ Query.resolve target w = (.ok (some o), w) ∧
              (¬Name.startsWith Name.rootQualifier m.name →
                Query.resolve m.name w = (.ok (some o), w)))) := by
  have horigin := (everywhere_originates (c := c) (State.blank_outset c w t seeds) n).walk m hm
  refine ⟨horigin, fun hscope ↦ ?_, fun o target hmade ↦ ?_⟩
  · obtain ⟨o, v, hmade⟩ := horigin.resolve_right fun h ↦ h.2 hscope
    obtain ⟨k, hk⟩ := Node.exists_stem_of_isScope hscope
    have hv : v = .scope k := by
      obtain ⟨j, -, kind, -, -, hstem, -⟩ := hmade
      exact Verdict.eq_scope_of_stem? (hk ▸ hstem)
    subst hv
    obtain ⟨j, hj, kind, htakes, hv, hnode⟩ := hmade
    have hname := (faithful_after hw t seeds j).trueName?_of_scope hw hplain htakes hv
    obtain ⟨hcanonical, hmeaning⟩ := World.trueName?_eq_some_iff.mp hname
    refine ⟨o, k, ⟨j, hj, kind, htakes, hv, hnode⟩, ?_, hcanonical⟩
    rw [Query.resolve_of_still hw, hmeaning]
  · obtain ⟨j, hj, kind, htakes, hv, hstem, -⟩ := hmade
    refine ⟨(Option.some.inj hstem).symm, ?_⟩
    obtain ⟨⟨found, hstrip, hfound⟩, hne, htarget | ⟨hnone, htext⟩⟩ :=
      (faithful_after hw t seeds j).of_alias hw hplain htakes hv
    · obtain ⟨-, hmeaning⟩ := World.trueName?_eq_some_iff.mp htarget
      refine .inr ⟨fun heq ↦ hne (heq ▸ htarget), ?_, fun hbare ↦ ?_⟩
      · rw [Query.resolve_of_still hw, hmeaning]
      · rw [Query.resolve_of_still hw, World.meaning?_of_stripRoot hstrip hbare, hfound]
    · exact .inl ⟨by rw [Query.nameOf_of_still hw, hnone], htext⟩

/-- The alias that the next step declares: the module or class, the name and the target. -/
def State.declaresAlias? (c : Setting) (s : State) : Option (EntityId × String × String) :=
  match s.takesUp?, s.verdict? c with
  | some (_, name, .entity id), some (.alias target true) => some (id, name, target)
  | _, _ => none

theorem madeOf_of_declaresAlias? {k : Nat} {id : EntityId} (hk : k < n)
    (h : (s.after c k).declaresAlias? c = some (id, m.name, target))
    (hstem : m.stem = .const (some target) none) (hid : m.id = (s.after c k).nextNode) :
    MadeOf c s n m (.entity id) (.alias target true) := by
  simp only [State.declaresAlias?] at h
  split at h
  · next kind name id target htakes hv =>
    cases h
    exact ⟨k, hk, kind, htakes, hv, by rw [hstem]; rfl, hid⟩
  · cases h

/-- A module `pkg` with a class `Base`, a class `Derived` below it, and another name for the first
one. -/
def familyUniverse : UniverseDeclaration where
  modules := [
    { name := "pkg", file := some "/srv/pkg.src"
      members := [("Base", .reference "Base"), ("Derived", .reference "Derived"),
        ("Other", .reference "Base")] }]
  objects := [
    ("Base", .class { name := "Base", qualname := "Base", module := some "pkg" } [] [] .absent
      false),
    ("Derived", .class { name := "Derived", qualname := "Derived", module := some "pkg" }
      [.reference "Base"] [] .absent false)]

/-- The world of these classes. -/
def familyWorld : World :=
  (State.startOf familyUniverse []).world

theorem familyWorld_still : familyWorld.Still := by
  decide +kernel

theorem familyWorld_unqualified : familyWorld.Unqualified := by
  decide +kernel

set_option maxRecDepth 100000 in
/-- The derived class is named by what stands for it, and the other name stands for the same class
as its target. -/
theorem scopes_and_aliases_denote_of_family :
    (familyWorld.Still ∧ familyWorld.Unqualified) ∧
      (∃ m ∈ ((State.outset (.plain ⟨"pkg", [⟨["srv"]⟩]⟩) familyWorld {} ["pkg"]).after
          (.plain ⟨"pkg", [⟨["srv"]⟩]⟩) 11).tree.walk, m.name = "pkg.Derived" ∧
        ∃ o, Query.resolve "pkg.Derived" familyWorld = (.ok (some o), familyWorld) ∧
          familyWorld.canonicalName? o = some "pkg.Derived") ∧
      ∃ m ∈ ((State.outset (.plain ⟨"pkg", [⟨["srv"]⟩]⟩) familyWorld {} ["pkg"]).after
          (.plain ⟨"pkg", [⟨["srv"]⟩]⟩) 11).tree.walk, m.name = "pkg.Other" ∧
        ∃ o, Query.resolve "pkg.Base" familyWorld = (.ok (some o), familyWorld) ∧
          Query.resolve "pkg.Other" familyWorld = (.ok (some o), familyWorld) := by
  refine ⟨⟨familyWorld_still, familyWorld_unqualified⟩, ?_, ?_⟩
  · have hnode : ∃ m ∈ ((State.outset (.plain ⟨"pkg", [⟨["srv"]⟩]⟩) familyWorld {} ["pkg"]).after
        (.plain ⟨"pkg", [⟨["srv"]⟩]⟩) 11).tree.walk, m.name = "pkg.Derived" ∧ m.isScope := by
      decide +kernel
    obtain ⟨m, hm, hname, hscope⟩ := hnode
    obtain ⟨-, hdenotes, -⟩ := scopes_and_aliases_denote (.plain ⟨"pkg", [⟨["srv"]⟩]⟩) familyWorld {}
      ["pkg"] familyWorld_still familyWorld_unqualified 11 hm
    obtain ⟨o, k, -, hresolve, hcanonical⟩ := hdenotes hscope
    rw [hname] at hresolve hcanonical
    exact ⟨m, hm, hname, o, hresolve, hcanonical⟩
  · have hnode : ∃ m ∈ ((State.outset (.plain ⟨"pkg", [⟨["srv"]⟩]⟩) familyWorld {} ["pkg"]).after
        (.plain ⟨"pkg", [⟨["srv"]⟩]⟩) 11).tree.walk, m.name = "pkg.Other" ∧
          m.stem = .const (some "pkg.Base") none ∧ m.id = 3 := by
      decide +kernel
    obtain ⟨m, hm, hname, hstem, hid⟩ := hnode
    have hmade : MadeOf (.plain ⟨"pkg", [⟨["srv"]⟩]⟩)
        (State.outset (.plain ⟨"pkg", [⟨["srv"]⟩]⟩) familyWorld {} ["pkg"]) 11 m
        (.entity (.declared 1)) (.alias "pkg.Base" true) :=
      madeOf_of_declaresAlias? (k := 5) (by decide) (by rw [hname]; decide +kernel) hstem
        (by rw [hid]; decide +kernel)
    obtain ⟨-, -, hdenotes⟩ := scopes_and_aliases_denote (.plain ⟨"pkg", [⟨["srv"]⟩]⟩) familyWorld {}
      ["pkg"] familyWorld_still familyWorld_unqualified 11 hm
    have htrue : familyWorld.trueName? (.entity (.declared 1)) = some "pkg.Base" := by
      decide +kernel
    obtain ⟨-, ⟨hnone, -⟩ | ⟨-, htarget, hself⟩⟩ := hdenotes _ _ hmade
    · rw [Query.nameOf_of_still familyWorld_still, htrue] at hnone
      cases hnone
    · refine ⟨m, hm, hname, _, htarget, ?_⟩
      rw [hname] at hself
      exact hself (by decide +kernel)

/-- A module `pkg` with a class, and a module that bears the name of the root namespace. It has the
class under one name, and under that name with the root qualifier before it. -/
def shadowedUniverse : UniverseDeclaration where
  modules := [
    { name := "pkg", file := some "/srv/pkg.src", members := [("C", .reference "C")] },
    { name := "builtins", file := some "/srv/builtins.src"
      members := [("Y", .reference "C"), ("builtins.Y", .reference "C")] }]
  objects := [
    ("C", .class { name := "C", qualname := "C", module := some "pkg" } [] [] .absent false)]

/-- The world of these modules. -/
def shadowedWorld : World :=
  (State.startOf shadowedUniverse []).world

set_option maxRecDepth 100000 in
/-- The second name is found with two root qualifiers and declared with one of them, as an alias of
the class. The class bears its name, so the target stands for it; but the name of the alias is
looked up without any root qualifier, and then stands for nothing. -/
theorem not_denotes_of_shadowed :
    shadowedWorld.Still ∧ shadowedWorld.Unqualified ∧
      ¬Name.startsWith Name.rootQualifier "builtins" ∧
      ∃ m ∈ ((State.outset (.plain ⟨"pkg", [⟨["srv"]⟩]⟩) shadowedWorld {} ["builtins"]).after
          (.plain ⟨"pkg", [⟨["srv"]⟩]⟩) 5).tree.walk,
        ∃ o, MadeOf (.plain ⟨"pkg", [⟨["srv"]⟩]⟩)
            (State.outset (.plain ⟨"pkg", [⟨["srv"]⟩]⟩) shadowedWorld {} ["builtins"]) 5 m o
            (.alias "pkg.C" true) ∧
          m.stem = .const (some "pkg.C") none ∧
          Query.nameOf o shadowedWorld = (.ok (some "pkg.C"), shadowedWorld) ∧
          Query.resolve "pkg.C" shadowedWorld = (.ok (some o), shadowedWorld) ∧
          Query.resolve m.name shadowedWorld = (.ok none, shadowedWorld) := by
  have hstill : shadowedWorld.Still := by decide +kernel
  have hnode : ∃ m ∈ ((State.outset (.plain ⟨"pkg", [⟨["srv"]⟩]⟩) shadowedWorld {}
      ["builtins"]).after (.plain ⟨"pkg", [⟨["srv"]⟩]⟩) 5).tree.walk, m.name = "builtins.Y" ∧
        m.stem = .const (some "pkg.C") none ∧ m.id = 1 := by
    decide +kernel
  obtain ⟨m, hm, hname, hstem, hid⟩ := hnode
  have htrue : shadowedWorld.trueName? (.entity (.declared 2)) = some "pkg.C" := by decide +kernel
  have hnone : shadowedWorld.meaning? "builtins.Y" = none :=
    Option.isNone_iff_eq_none.mp (by decide +kernel)
  refine ⟨hstill, by decide +kernel, by decide +kernel, m, hm, .entity (.declared 2), ?_, hstem,
    ?_, ?_, ?_⟩
  · exact madeOf_of_declaresAlias? (k := 3) (by decide) (by rw [hname]; decide +kernel) hstem
      (by rw [hid]; decide +kernel)
  · rw [Query.nameOf_of_still hstill, htrue]
  · rw [Query.resolve_of_still hstill, (World.trueName?_eq_some_iff.mp htrue).2]
  · rw [Query.resolve_of_still hstill, hname, hnone]

end DeclClosure.Closure

import DeclClosure.Proofs.Closure.Recordings
import DeclClosure.Proofs.Tracker.Registrations

/-!
# Compositions that are shown

A class of the unit leads to the classes outside of it that it was mixed into from within, and there
the composition is to be seen. The two listeners look at different indexes: the one that passes the
target on has all registrations of the mixin, the one that records mixins on the target knows of each
only the location of its last registration.

So a scope outside of the unit records the mixin exactly if, for some kind of composition, it was
last mixed into the target from inside the unit. All that is recorded on such a scope was looked up
like this (`everywhere_composed`); in the other direction the listener records all that it finds when
it gets the announcement of the scope (`Run.dispatch_mixedIn`), since the scope is never taken out.
-/

namespace DeclClosure

namespace Closure

open DeclClosure.Tree (mem_badges_of_mem_walk)

variable {c : Setting} {a : Announcement} {w : World} {s t : State} {n : Nat} {id : NodeId}
  {x : String} {target mixin : Object}

/-! ### What is registered is recorded -/

/-- Every node with this identity records a mixin of this name. -/
def State.MixedIn (s : State) (id : NodeId) (x : String) : Prop :=
  s.tree.Everywhere fun m ↦ m.id = id → x ∈ m.mixins.map MixinRef.name

theorem mixedIn_of_le (hs : s.Sound) {k : Nat} (hid : id < (s.after c k).nextNode) (hle : k ≤ n)
    (h : (s.after c k).MixedIn id x) : (s.after c n).MixedIn id x :=
  recording_of_le (P := fun rs ↦ x ∈ rs.map MixinRef.name) (fun hsub hx ↦ List.map_subset _ hsub hx)
    hs hid hle h

/-- When all listeners are told of a scope outside of the unit, every composition from inside the unit
is recorded on it, of whatever kind. -/
theorem Run.dispatch_mixedIn (hlistens : .mixins ∈ c.listeners.entries.map Prod.snd) (hw : w.Still)
    (hs : s.Carries w id) (hkind : a.kind = .foreignScope) (hid : a.node = some id)
    {kind : MixinKind} {d : Composition}
    (hd : d ∈ s.trackers.mixins.compositionsOf a.value kind) (hours : isOurs c d.location)
    (hname : w.trueName? d.mixin = some x) (hx : ¬startsWithAny typingNamespaces x)
    (hrun : c.listeners.dispatch (tell c a) s = (.ok (), t)) : t.MixedIn id x := by
  have hacts : Acts c a s t := by
    have h := dispatch_acts (c := c) (a := a) s
    rwa [hrun] at h
  -- a scope outside of the unit is not taken out
  have ht : t.Stands id := ((hacts.tends hs.sound).stands hs.stands).resolve_right fun h ↦ by
    rw [hkind] at h
    exact nomatch h.1
  have hrecords := dispatch_recording hw hid hname hx hlistens (hkind ▸ rfl) hs
    (.registered hd fun _ ↦ hours) hrun ht
  exact hrecords.mono fun m hm hself ↦ List.mem_map_of_mem (hm hself)

/-! ### What is recorded was registered -/

/-- Within `n` events the mixin was recorded under the name that a class bore then. The class was last
composed into the target, in the way that is recorded, from inside the unit. -/
def Recorded (c : Setting) (s : State) (n : Nat) (target : Object) (r : MixinRef) : Prop :=
  ∃ kind, r.kind = kind.word ∧ ∃ d ∈ s.trackers.mixins.compositionsOf target kind,
    Run.isOurs c d.location ∧ ∃ k < n, ∃ u v, (s.after c k).world.Evolves u ∧
      u.Evolves (s.after c (k + 1)).world ∧ Query.nameOf d.mixin u = (.ok (some r.name), v)

/-- A scope outside of the unit records nothing but what the unit was last seen to mix into it. -/
theorem everywhere_recorded (hb : s.Blank) {y : String}
    (hann : AnnouncedAs c s .foreignScope y target id) (n : Nat) :
    (s.after c n).tree.Everywhere fun m ↦ m.id = id → ∀ r ∈ m.mixins, Recorded c s n target r := by
  refine (everywhere_recordedAs hb rfl hann n).mono fun m hm hid r hr ↦ ?_
  obtain ⟨-, way, hway, p, k, hk, u, v, hu, hrest, hname, hblends⟩ := hm hid r hr
  cases hblends with
  | registered hd hours => exact ⟨way, hway, _, hd, hours rfl, k, hk, u, v, hu, hrest, hname⟩
  | base hours => exact absurd rfl hours

/-- The name is that of a mixin that was last composed into the target from inside the unit. -/
def Composed (c : Setting) (w : World) (t : Trackers) (target : Object) (x : String) : Prop :=
  ∃ kind, ∃ d ∈ t.mixins.compositionsOf target kind, w.trueName? d.mixin = some x ∧
    Run.isOurs c d.location

/-- In a world that is still the name is the true name of the mixin at all times. -/
theorem everywhere_composed (hw : w.Still) (hb : s.Blank) (hfaithful : ∀ k, (s.after c k).Faithful w)
    {y : String} (hann : AnnouncedAs c s .foreignScope y target id) (n : Nat) :
    (s.after c n).tree.Everywhere fun m ↦ m.id = id →
      ∀ r ∈ m.mixins, Composed c w s.trackers target r.name := by
  refine (everywhere_blended hw hb hfaithful rfl hann n).mono fun m hm hid r hr ↦ ?_
  obtain ⟨-, way, -, p, hname, hblends⟩ := hm hid r hr
  cases hblends with
  | registered hd hours => exact ⟨way, _, hd, hname, hours rfl⟩
  | base hours => exact absurd rfl hours

/-! ### Both together -/

/-- What bears a name is known by nothing else. -/
theorem World.eq_of_key_eq {o p : Object} (ho : w.trueName? o = some x) (h : p.key = o.key) :
    p = o := by
  obtain ⟨i, e, rfl, -, -⟩ :=
    World.exists_of_canonicalName? (World.trueName?_eq_some_iff.mp ho).1
  exact Object.same_entity_iff.mp (Object.same_iff.mpr h)

/-- Two objects that bear one name are one. -/
theorem World.eq_of_trueName?_eq {o p : Object} (ho : w.trueName? o = some x)
    (hp : w.trueName? p = some x) : o = p := by
  have hmeaning := (World.trueName?_eq_some_iff.mp ho).2
  rw [(World.trueName?_eq_some_iff.mp hp).2] at hmeaning
  exact (Option.some.inj hmeaning).symm

/-- What is announced as a scope is the object that the verdict was on. -/
theorem Verdict.eq_scope_of_announces {v : Verdict} {found kind : NodeKind} {o p : Object}
    (h : v.announces found o = some (kind, p)) (hkind : kind ≠ .const) :
    (∃ k, v = .scope k) ∧ found = kind ∧ o = p := by
  match v, h with
  | .scope k, rfl => exact ⟨⟨k, rfl⟩, rfl, rfl⟩
  | .const announced value ascription, rfl => exact absurd rfl hkind
  | .alias target true, rfl => exact absurd rfl hkind
  | .alias target false, h => cases h

/-- An object that is announced as a scope of the unit bears the name under which it is announced. -/
theorem AnnouncedAs.trueName? (hw : w.Still) (hb : s.Blank)
    (hfaithful : ∀ k, (s.after c k).Faithful w) {o : Object} (h : AnnouncedAs c s .scope x o id) :
    w.trueName? o = some x := by
  obtain ⟨k, signature, hmem⟩ := h
  have hkind : NodeKind.scope ≠ .method := nofun
  obtain ⟨j, -, found, p, v, htakes, hv, hann, -⟩ := exists_declaring hb hkind hmem
  obtain ⟨⟨sk, rfl⟩, rfl, rfl⟩ := Verdict.eq_scope_of_announces hann nofun
  exact (hfaithful j).trueName?_of_own_scope hw htakes hv

/-- A scope outside of the unit is never taken out. -/
theorem AnnouncedAs.stands (hb : s.Blank) {y : String}
    (h : AnnouncedAs c s .foreignScope y target id) (hann : Announced c s n id y) :
    (s.after c n).Stands id := by
  refine (hann.stands_or_pruned hb).resolve_right ?_
  rintro ⟨k, hk, o, id', signature, es, hcons, -⟩
  obtain ⟨k', signature', hmem⟩ := h
  have hscope : NodeKind.scope ≠ .method := nofun
  have hforeign : NodeKind.foreignScope ≠ .method := nofun
  have hpending : .node y o (some id') .scope signature ∈ (s.after c k).queue.items :=
    hcons ▸ List.mem_cons_self
  -- what is taken out under this name would be the same node, announced as a scope of the unit
  obtain rfl := (ledger hb n).id_unique _ _ _ hann
    ⟨k, Nat.le_of_lt hk, o, .scope, signature, hscope, hpending⟩
  obtain ⟨-, -, hkind⟩ := announcement_unique hb hscope hforeign hpending hmem
  cases hkind

/-- **Which compositions are shown.** Let nothing be loaded or computed in a world, and let a
compilation have the listener that records mixins. For every history of registrations, all seeds and
every setting, once the compilation has succeeded: if a class was declared as a scope of the unit,
under a name that is not one of the machinery of type forms, and a class was declared as a scope
outside of the unit, then the second one stands in the tree, and it records the first one as a mixin
exactly if, for some kind of composition, the last time that the first one was registered into it in
this way was from inside the unit. -/
theorem records_mixin_iff (c : Setting) (w : World) (calls : List MixinCall)
    (definitions : DefinitionTracker) (seeds : List String) (hw : w.Still)
    (hlistens : .mixins ∈ c.listeners.entries.map Prod.snd) {t : State}
    (h : Run.compile c (State.start w ⟨.registered calls, definitions⟩ seeds) = (.ok (), t))
    {y : String} {i : NodeId}
    (hmixin : AnnouncedAs c (State.outset c w ⟨.registered calls, definitions⟩ seeds) .scope x mixin i)
    (hx : ¬startsWithAny Run.typingNamespaces x)
    (htarget : AnnouncedAs c (State.outset c w ⟨.registered calls, definitions⟩ seeds)
      .foreignScope y target id) :
    ∃ m ∈ t.tree.walk, m.id = id ∧ m.qualifiedName = y ∧
      (x ∈ m.mixins.map MixinRef.name ↔ ∃ kind l,
        MixinTracker.lastLocation? calls target mixin kind = some l ∧ Run.isOurs c l) := by
  obtain ⟨n, hsteps, hnil, htree⟩ := Run.exists_of_compile_eq_ok h
  have hb := State.blank_outset c w ⟨.registered calls, definitions⟩ seeds
  have hfaithful := faithful_after (c := c) hw ⟨.registered calls, definitions⟩ seeds
  have hname : w.trueName? mixin = some x := hmixin.trueName? hw hb hfaithful
  obtain ⟨j, hj, signature, es, hcons⟩ := htarget.exists_cons hnil
  have hann : Announced c (State.outset c w ⟨.registered calls, definitions⟩ seeds) n id y :=
    ⟨j, Nat.le_of_lt hj, target, .foreignScope, signature, nofun, hcons ▸ List.mem_cons_self⟩
  obtain ⟨m, hm, rfl⟩ := State.exists_of_stands (htarget.stands hb hann)
  rw [htree]
  refine ⟨m, hm, rfl, (ledger hb n).badge _ (mem_badges_of_mem_walk hm) y hann, ?_, ?_⟩
  · intro hmem
    obtain ⟨r, hr, rfl⟩ := List.mem_map.mp hmem
    obtain ⟨kind, d, hd, hdname, hours⟩ :=
      (everywhere_composed hw hb hfaithful htarget n).walk m hm rfl r hr
    refine ⟨kind, d.location, MixinTracker.exists_composition_iff.mp ⟨d, hd, ?_, rfl⟩, hours⟩
    rw [World.eq_of_trueName?_eq hdname hname]
  · rintro ⟨kind, l, hlast, hours⟩
    obtain ⟨d, hd, hkey, rfl⟩ := MixinTracker.exists_composition_iff.mpr hlast
    obtain rfl := World.eq_of_key_eq hname hkey
    -- the step that works off the announcement of the target records the mixin
    have hstands := stands_of_mem_announcements hb (State.mem_announcements hcons nofun)
    have hsound := State.after_sound (c := c) hb.sound j
    have hcarries : State.Carries w m.id
        ((State.outset c w ⟨.registered calls, definitions⟩ seeds).after c j).popped :=
      ⟨(hfaithful j).popped, hsound, hstands⟩
    have htrackers := State.trackers_after c
      (State.outset c w ⟨.registered calls, definitions⟩ seeds) j
    replace hd : d ∈ ((State.outset c w ⟨.registered calls, definitions⟩ seeds).after c
        j).popped.trackers.mixins.compositionsOf target kind := htrackers ▸ hd
    have hmixed := Run.dispatch_mixedIn hlistens hw hcarries rfl rfl hd hours hname hx
      (State.dispatch_of_advances hcons (hsteps j hj))
    have hlt := Nat.lt_of_lt_of_le hcarries.lt (nextNode_mono (c := c) hb.sound (Nat.le_succ j))
    exact (mixedIn_of_le hb.sound hlt hj hmixed).walk m hm rfl

/-- A module `app` with a class `M`, and a module `ext` outside of the unit with a class `T`. -/
def mixedUniverse : UniverseDeclaration where
  modules := [
    { name := "app", file := some "/srv/app.src", members := [("M", .reference "M")] },
    { name := "ext", file := some "/ext/ext.src", members := [("T", .reference "T")] }]
  objects := [
    ("M", .class { name := "M", qualname := "M", module := some "app" } [] [] .absent false),
    ("T", .class { name := "T", qualname := "T", module := some "ext" } [] [] .absent false)]

/-- The world of these modules. -/
def mixedWorld : World :=
  (State.startOf mixedUniverse []).world

theorem mixedWorld_still : mixedWorld.Still := by
  decide +kernel

/-- The unit is the first module. -/
def mixedSetting : Setting :=
  .plain ⟨"app", [⟨["srv"]⟩]⟩

/-- `M` was mixed into `T` from this location. -/
def mixedAt (location : String) : MixinCall :=
  (.entity (.declared 3), .entity (.declared 2), .include, location)

/-- It was mixed in from outside of the unit first, then from inside. -/
def lastInside : List MixinCall :=
  [mixedAt "/ext/ext.src:7", mixedAt "/srv/app.src:3"]

/-- It was mixed in from inside the unit first, then from outside. -/
def lastOutside : List MixinCall :=
  [mixedAt "/srv/app.src:3", mixedAt "/ext/ext.src:7"]

/-- A compilation that starts from the module `app`, with some registrations. -/
def mixedOutset (calls : List MixinCall) : State :=
  .outset mixedSetting mixedWorld ⟨.registered calls, {}⟩ ["app"]

set_option maxRecDepth 100000 in
/-- The mixin was last registered from inside the unit, and the target records it. -/
theorem records_mixin_of_inner :
    (mixedWorld.Still ∧ .mixins ∈ mixedSetting.listeners.entries.map Prod.snd ∧
      ∃ t, Run.compile mixedSetting (State.start mixedWorld ⟨.registered lastInside, {}⟩ ["app"]) =
          (.ok (), t) ∧
        AnnouncedAs mixedSetting (mixedOutset lastInside) .scope "app.M" (.entity (.declared 2)) 1 ∧
        ¬startsWithAny Run.typingNamespaces "app.M" ∧
        AnnouncedAs mixedSetting (mixedOutset lastInside) .foreignScope "ext.T"
          (.entity (.declared 3)) 2 ∧
        ∃ m ∈ t.tree.walk, m.id = 2 ∧ "app.M" ∈ m.mixins.map MixinRef.name) := by
  have hlistens : .mixins ∈ mixedSetting.listeners.entries.map Prod.snd := by decide
  have hx : ¬startsWithAny Run.typingNamespaces "app.M" := by decide +kernel
  have hsteps : ∀ k < 9, ((mixedOutset lastInside).after mixedSetting k).advances mixedSetting := by
    decide +kernel
  have hnil : ((mixedOutset lastInside).after mixedSetting 9).queue.items = [] :=
    List.isEmpty_iff.mp (by decide +kernel)
  have hmixin : AnnouncedAs mixedSetting (mixedOutset lastInside) .scope "app.M"
      (.entity (.declared 2)) 1 := announcedAs_of_mem (k := 4) (by decide +kernel)
  have htarget : AnnouncedAs mixedSetting (mixedOutset lastInside) .foreignScope "ext.T"
      (.entity (.declared 3)) 2 := announcedAs_of_mem (k := 6) (by decide +kernel)
  have hlast : MixinTracker.lastLocation? lastInside (.entity (.declared 3)) (.entity (.declared 2))
      .include = some "/srv/app.src:3" := by decide +kernel
  have hours : Run.isOurs mixedSetting "/srv/app.src:3" := by decide +kernel
  rw [mixedOutset, State.outset] at hsteps hnil hmixin htarget ⊢
  obtain ⟨t, hcompile, -⟩ := Run.exists_compile_of_advances hsteps hnil
  obtain ⟨m, hm, hid, -, hrecords⟩ := records_mixin_iff mixedSetting mixedWorld lastInside {} ["app"]
    mixedWorld_still hlistens hcompile hmixin hx htarget
  exact ⟨mixedWorld_still, hlistens, t, hcompile, hmixin, hx, htarget, m, hm, hid,
    hrecords.mpr ⟨.include, _, hlast, hours⟩⟩

set_option maxRecDepth 100000 in
/-- The mixin was registered from inside the unit, which leads to the target, and was registered
again from outside. The target becomes a scope that does not record the mixin. -/
theorem not_records_mixin_of_outer :
    mixedSetting.listeners = ⟨Listener.defaults⟩ ∧ mixedWorld.Still ∧
      (∃ r ∈ (MixinTracker.registered lastOutside).registrationsOf (.entity (.declared 2)),
        r.target.same (.entity (.declared 3)) ∧ Run.isOurs mixedSetting r.location) ∧
      ∃ t, Run.compile mixedSetting (State.start mixedWorld ⟨.registered lastOutside, {}⟩ ["app"]) =
          (.ok (), t) ∧
        AnnouncedAs mixedSetting (mixedOutset lastOutside) .scope "app.M" (.entity (.declared 2)) 1 ∧
        ¬startsWithAny Run.typingNamespaces "app.M" ∧
        AnnouncedAs mixedSetting (mixedOutset lastOutside) .foreignScope "ext.T"
          (.entity (.declared 3)) 2 ∧
        (∃ m ∈ t.tree.walk, m.id = 2) ∧
          ∀ m ∈ t.tree.walk, m.id = 2 → "app.M" ∉ m.mixins.map MixinRef.name := by
  have hpushed : ∃ r ∈ (MixinTracker.registered lastOutside).registrationsOf (.entity (.declared 2)),
      r.target.same (.entity (.declared 3)) ∧ Run.isOurs mixedSetting r.location := by
    decide +kernel
  have hx : ¬startsWithAny Run.typingNamespaces "app.M" := by decide +kernel
  have hsteps : ∀ k < 7, ((mixedOutset lastOutside).after mixedSetting k).advances mixedSetting := by
    decide +kernel
  have hnil : ((mixedOutset lastOutside).after mixedSetting 7).queue.items = [] :=
    List.isEmpty_iff.mp (by decide +kernel)
  have hmixin : AnnouncedAs mixedSetting (mixedOutset lastOutside) .scope "app.M"
      (.entity (.declared 2)) 1 := announcedAs_of_mem (k := 4) (by decide +kernel)
  have htarget : AnnouncedAs mixedSetting (mixedOutset lastOutside) .foreignScope "ext.T"
      (.entity (.declared 3)) 2 := announcedAs_of_mem (k := 6) (by decide +kernel)
  have hnodes : (∃ m ∈ ((mixedOutset lastOutside).after mixedSetting 7).tree.walk, m.id = 2) ∧
      ∀ m ∈ ((mixedOutset lastOutside).after mixedSetting 7).tree.walk, m.id = 2 →
        "app.M" ∉ m.mixins.map MixinRef.name := by
    decide +kernel
  rw [mixedOutset, State.outset] at hsteps hnil hnodes
  obtain ⟨t, hcompile, htree⟩ := Run.exists_compile_of_advances hsteps hnil
  rw [← htree] at hnodes
  exact ⟨rfl, mixedWorld_still, hpushed, t, hcompile, hmixin, hx, htarget, hnodes⟩

end Closure

end DeclClosure

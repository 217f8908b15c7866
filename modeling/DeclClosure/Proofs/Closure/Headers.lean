import DeclClosure.Proofs.Closure.Arrivals
import DeclClosure.Proofs.Closure.Compositions
import DeclClosure.Tree.Listing

/-!
# The bases in class headers

A class header lists the prepended mixins, the superclass and the included mixins. No mixin is recorded
twice in one way, so a name that stands there twice has come there in two ways
(`ScopeFacts.nodup_baseNames_iff`).

Which ways there are can be told from the bases and the registrations in a still world
(`mem_mixinsOf_iff`): a class that is to be seen as composed is recorded, and nothing else. Nothing keeps
the ways apart. A class may be registered as a prepended mixin and as an included one, and the
superclass of the header need not be the direct one, which is the only base that is not included: if
the direct one bears no name, its place is taken by the next ancestor that does, and this one may be
another base (`header_bases_distinct_iff`).
-/

namespace DeclClosure

theorem MixinKind.word_injective : Function.Injective MixinKind.word := by
  intro way way' h
  cases way <;> cases way' <;> first | rfl | exact absurd h (by decide)

theorem nonempty?_eq_some_iff {y : Option String} {x : String} :
    nonempty? y = some x ↔ y = some x ∧ x ≠ "" := by
  cases y with
  | none => exact ⟨nofun, fun h ↦ nomatch h.1⟩
  | some y =>
    rw [nonempty?]
    split
    · next h => exact ⟨nofun, fun ⟨hy, hx⟩ ↦ absurd ((Option.some.inj hy).symm.trans h) hx⟩
    · next h => exact ⟨fun hy ↦ ⟨hy, Option.some.inj hy ▸ h⟩, fun hy ↦ hy.1⟩

namespace ScopeFacts

variable {s : ScopeFacts} {superclass : Option String} {kind x : String}

/-- The names of classes that the header of a class lists as bases. -/
def baseNames (s : ScopeFacts) : List String :=
  s.mixinsOf "prepend" ++ (nonempty? s.kind.superclass?).toList ++ s.mixinsOf "include"

/-- Everything else that the header lists comes after them. -/
theorem baseNames_prefix_bases (h : s.kind = .class superclass) :
    s.baseNames <+: s.bases superclass := by
  rw [bases, baseNames, h, List.append_assoc _ _ (Option.toList _ |>.map _)]
  exact List.prefix_append _ _

theorem mem_mixinsOf : x ∈ s.mixinsOf kind ↔ ⟨kind, x⟩ ∈ s.mixins := by
  rw [mixinsOf, List.mem_map]
  constructor
  · rintro ⟨r, hr, rfl⟩
    obtain ⟨hmem, hkind⟩ := List.mem_filter.mp hr
    obtain rfl := beq_iff_eq.mp hkind
    exact hmem
  · exact fun h ↦ ⟨_, List.mem_filter.mpr ⟨h, beq_self_eq_true kind⟩, rfl⟩

theorem nodup_mixinsOf (h : s.mixins.Nodup) (kind : String) : (s.mixinsOf kind).Nodup := by
  refine (h.filter _).map_on fun r hr r' hr' hname ↦ ?_
  have hkind := beq_iff_eq.mp (List.mem_filter.mp hr).2
  have hkind' := beq_iff_eq.mp (List.mem_filter.mp hr').2
  cases r
  cases r'
  cases hkind
  cases hkind'
  cases hname
  rfl

/-- Base names are distinct if none of them has come in two ways. -/
theorem nodup_baseNames_iff (h : s.mixins.Nodup) : s.baseNames.Nodup ↔
    (∀ x ∈ s.mixinsOf "prepend", x ∉ s.mixinsOf "include") ∧
      ∀ x, s.kind.superclass? = some x → x ≠ "" →
        x ∉ s.mixinsOf "prepend" ∧ x ∉ s.mixinsOf "include" := by
  have hsuper : (nonempty? s.kind.superclass?).toList.Nodup := by
    cases nonempty? s.kind.superclass? <;> simp
  rw [baseNames, List.nodup_append', List.nodup_append', List.disjoint_append_left]
  simp only [nodup_mixinsOf h, hsuper, true_and, List.Disjoint, Option.mem_toList,
    nonempty?_eq_some_iff]
  constructor
  · rintro ⟨hprepended, hapart, hincluded⟩
    exact ⟨fun x hx hx' ↦ hapart hx hx', fun x hx hne ↦
      ⟨fun hmem ↦ hprepended hmem ⟨hx, hne⟩, fun hmem ↦ hincluded ⟨hx, hne⟩ hmem⟩⟩
  · rintro ⟨hapart, hsuper⟩
    exact ⟨fun x hx ⟨hs, hne⟩ ↦ (hsuper x hs hne).1 hx, fun x hx hx' ↦ hapart x hx hx',
      fun x ⟨hs, hne⟩ hx ↦ (hsuper x hs hne).2 hx⟩

end ScopeFacts

/-- The base names in the header of a node that declares a class. -/
def Node.baseNames? : Node → Option (List String)
  | .leaf _ _ => none
  | .scope _ f _ =>
    match f.kind with
    | .class _ => some f.baseNames
    | _ => none

theorem Node.exists_of_baseNames? {m : Node} {names : List String} (h : m.baseNames? = some names) :
    ∃ head f children superclass, m = .scope head f children ∧ f.kind = .class superclass ∧
      f.baseNames = names := by
  cases m with
  | leaf head d => cases h
  | scope head f children =>
    rw [baseNames?] at h
    split at h
    · next superclass hkind => exact ⟨head, f, children, superclass, rfl, hkind, Option.some.inj h⟩
    · cases h

namespace Closure

variable {c : Setting} {w : World} {tr : Trackers} {s t : State} {n : Nat} {m : Node} {id : NodeId}
  {x y : String} {o p : Object} {kind : NodeKind} {way : MixinKind}

/-- No node records a mixin twice. -/
theorem everywhere_nodup_mixins (hb : s.Blank) (n : Nat) :
    (s.after c n).tree.Everywhere fun m ↦ m.mixins.Nodup := by
  refine everywhere_after (Q := fun _ m ↦ m.mixins.Nodup) hb.tree (fun _ _ _ _ _ h ↦ h)
    (fun _ _ h ↦ h) ?_ ?_ n
  · intro n name o node kind signature es _ hacts hearlier
    exact hacts.everywhere (fun _ _ _ _ h ↦ h) (fun _ _ _ m _ _ _ _ hf _ hm ↦ hf.nodup m hm)
      (fun _ _ _ _ _ _ ↦ List.nodup_nil) hearlier
  · intro _ _ _ _ _ _ _ m _ _ _ hfresh
    rw [hfresh.mixins]
    exact List.nodup_nil

/-- A scope is announced as a scope, under its name. -/
theorem MadeOf.exists_announcedAs (hb : s.Blank) {k : ScopeKind} (h : MadeOf c s n m o (.scope k)) :
    ∃ kind : NodeKind, kind.isScope ∧ AnnouncedAs c s kind m.name o m.id := by
  obtain ⟨j, -, kind, htakes, hv, -, hid⟩ := h
  have hchange : (s.after c j).Change c (s.after c (j + 1)) :=
    State.change (State.after_sound hb.sound j)
  refine ⟨kind, State.isScope_of_takesUp? htakes, j + 1, none, ?_⟩
  exact hid ▸ (hchange.attaches htakes hv rfl).announced

/-- What a scope that stands in the end records are the names of the classes that are to be seen as
composed into it, except for those of the machinery of type forms. -/
theorem mem_mixins_iff (hw : w.Still) (hb : s.Blank) (hfaithful : ∀ k, (s.after c k).Faithful w)
    (hlistens : .mixins ∈ c.listeners.entries.map Prod.snd)
    (hsteps : ∀ k < n, (s.after c k).advances c) (hnil : (s.after c n).queue.items = [])
    (hscope : kind.isScope) (hann : AnnouncedAs c s kind y o m.id)
    (hm : m ∈ (s.after c n).tree.walk) :
    ⟨way.word, x⟩ ∈ m.mixins ↔ ¬startsWithAny Run.typingNamespaces x ∧
      ∃ p, w.trueName? p = some x ∧ Blends c s.trackers w kind o way p := by
  constructor
  · intro hmem
    obtain ⟨hx, way', hway, p, hname, hblends⟩ :=
      (everywhere_blended hw hb hfaithful hscope hann n).walk m hm rfl _ hmem
    obtain rfl := MixinKind.word_injective hway
    exact ⟨hx, p, hname, hblends⟩
  · rintro ⟨hx, p, hname, hblends⟩
    -- the step that works off the announcement records the class
    obtain ⟨j, hj, signature, es, hcons⟩ := hann.exists_cons hnil
    have hstands := stands_of_mem_announcements hb
      (State.mem_announcements hcons (NodeKind.ne_method hscope))
    have hsound := State.after_sound (c := c) hb.sound j
    have hcarries : State.Carries w m.id (s.after c j).popped :=
      ⟨(hfaithful j).popped, hsound, hstands⟩
    have hlt : m.id < (s.after c (j + 1)).nextNode :=
      Nat.lt_of_lt_of_le hcarries.lt (nextNode_mono (c := c) hb.sound (Nat.le_succ j))
    have hlater : (s.after c (j + 1)).Stands m.id :=
      stands_of_le hb.sound hlt hj (State.stands_of_mem_walk hm)
    obtain ⟨notes, hworld⟩ := (hfaithful j).world
    have hpopped : Blends c (s.after c j).popped.trackers (s.after c j).popped.world kind o way p := by
      show Blends c (s.after c j).trackers (s.after c j).world kind o way p
      rw [State.trackers_after, hworld]
      exact blends_withNotes.mpr hblends
    have hrecords := Run.dispatch_recording hw rfl hname hx hlistens hscope hcarries hpopped
      (State.dispatch_of_advances hcons (hsteps j hj)) hlater
    exact (recording_of_le (fun hsub hr ↦ hsub hr) hb.sound hlt hj hrecords).walk m hm rfl

/-- **Which headers repeat a base.** Let a compilation succeed. For every world, all registrations and
seeds, and every setting, the base names in the header of a class of the tree are distinct exactly if no
name is recorded as that of a prepended and of an included mixin, and the superclass that is named is
recorded as neither.

If nothing is loaded or computed in the world, and the compilation has the listener that records mixins,
then the class was declared as a scope, and this means the following for all classes with a name that is
none of the machinery of type forms: none of them is to be seen as composed into the declared class as a
prepended and as an included mixin, and the one that bears the name of the superclass as neither. As an
included mixin is to be seen, next to what is registered as that, every base of a class of the unit
other than the direct superclass. -/
theorem header_bases_distinct_iff (c : Setting) (w : World) (tr : Trackers) (seeds : List String)
    {t : State} (h : Run.compile c (State.start w tr seeds) = (.ok (), t)) {head : Head}
    {f : ScopeFacts} {children : List Node} {superclass : Option String}
    (hm : .scope head f children ∈ t.tree.walk) (hf : f.kind = .class superclass) :
    (f.baseNames.Nodup ↔
      (∀ x ∈ f.mixinsOf "prepend", x ∉ f.mixinsOf "include") ∧
        ∀ x, superclass = some x → x ≠ "" →
          x ∉ f.mixinsOf "prepend" ∧ x ∉ f.mixinsOf "include") ∧
      (w.Still → .mixins ∈ c.listeners.entries.map Prod.snd → ∃ kind o,
        AnnouncedAs c (State.outset c w tr seeds) kind head.name o head.id ∧
          (f.baseNames.Nodup ↔
            ∀ p x, w.trueName? p = some x → ¬startsWithAny Run.typingNamespaces x →
              (Blends c tr w kind o .prepend p → ¬Blends c tr w kind o .include p) ∧
                (superclass = some x →
                  ¬Blends c tr w kind o .prepend p ∧ ¬Blends c tr w kind o .include p))) := by
  obtain ⟨n, hsteps, hnil, htree⟩ := Run.exists_of_compile_eq_ok h
  have hb := State.blank_outset c w tr seeds
  rw [htree] at hm
  have hnodup : f.mixins.Nodup := (everywhere_nodup_mixins hb n).walk _ hm
  have hdistinct := ScopeFacts.nodup_baseNames_iff hnodup
  rw [show f.kind.superclass? = superclass by rw [hf]; rfl] at hdistinct
  refine ⟨hdistinct, fun hw hlistens ↦ ?_⟩
  obtain ⟨o, v, hmade⟩ := ((everywhere_originates hb n).walk _ hm).resolve_right fun h ↦ h.2 rfl
  obtain rfl : v = .scope f.kind :=
    have ⟨_, _, _, _, _, hstem, _⟩ := hmade
    Verdict.eq_scope_of_stem? hstem
  obtain ⟨kind, hscope, hann⟩ := hmade.exists_announcedAs hb
  refine ⟨kind, o, hann, ?_⟩
  have hrecorded : ∀ (way : MixinKind) x, x ∈ f.mixinsOf way.word ↔
      ¬startsWithAny Run.typingNamespaces x ∧
        ∃ p, w.trueName? p = some x ∧ Blends c tr w kind o way p :=
    fun way x ↦ ScopeFacts.mem_mixinsOf.trans (mem_mixins_iff hw hb (faithful_after hw tr seeds)
      hlistens hsteps hnil hscope hann hm)
  rw [hdistinct]
  constructor
  · rintro ⟨hapart, hsuper⟩ p x hname hx
    have hmem : ∀ {way : MixinKind}, Blends c tr w kind o way p → x ∈ f.mixinsOf way.word :=
      fun hblends ↦ (hrecorded _ x).mpr ⟨hx, p, hname, hblends⟩
    have hne : x ≠ "" := World.ne_empty_of_meaning? (World.trueName?_eq_some_iff.mp hname).2
    exact ⟨fun hprepend hinclude ↦ hapart x (hmem hprepend) (hmem hinclude), fun hs ↦
      ⟨fun hprepend ↦ (hsuper x hs hne).1 (hmem hprepend),
        fun hinclude ↦ (hsuper x hs hne).2 (hmem hinclude)⟩⟩
  · intro hall
    refine ⟨fun x hprepend hinclude ↦ ?_, fun x hs _ ↦ ⟨fun hprepend ↦ ?_, fun hinclude ↦ ?_⟩⟩
    · obtain ⟨hx, p, hname, hp⟩ := (hrecorded .prepend x).mp hprepend
      obtain ⟨-, q, hname', hq⟩ := (hrecorded .include x).mp hinclude
      -- what bears the name is one class
      obtain rfl := World.eq_of_trueName?_eq hname hname'
      exact (hall p x hname hx).1 hp hq
    · obtain ⟨hx, p, hname, hp⟩ := (hrecorded .prepend x).mp hprepend
      exact ((hall p x hname hx).2 hs).1 hp
    · obtain ⟨hx, p, hname, hp⟩ := (hrecorded .include x).mp hinclude
      exact ((hall p x hname hx).2 hs).2 hp

/-- A module `app` with a class `N` and a class `C`. Between them stands a class `A` that the module has
as well if it is to bear its name, and `N` is a base of `C` once more. -/
def headedUniverse (named : Bool) : UniverseDeclaration where
  modules := [
    { name := "app", file := some "/srv/app.src"
      members := (if named then [("A", .reference "A")] else []) ++
        [("N", .reference "N"), ("C", .reference "C")] }]
  objects := [
    ("N", .class { name := "N", qualname := "N", module := some "app" } [] [] .absent false),
    ("A", .class { name := "A", qualname := "A", module := some "app" } [.reference "N"] [] .absent
      false),
    ("C", .class { name := "C", qualname := "C", module := some "app" }
      [.reference "A", .reference "N"] [] .absent false)]

/-- The world of these classes. -/
def headedWorld (named : Bool) : World :=
  (State.startOf (headedUniverse named) []).world

/-- The unit is the module. -/
def headedSetting : Setting :=
  .plain ⟨"app", [⟨["srv"]⟩]⟩

/-- A compilation that starts from `C`. -/
def headedOutset (named : Bool) : State :=
  .outset headedSetting (headedWorld named) {} ["app.C"]

set_option maxRecDepth 100000 in
/-- If `A` bears its name, it is the superclass and no included mixin, and the header has both bases
once. -/
theorem header_bases_distinct_of_named : (headedWorld true).Still ∧ ∃ t,
    Run.compile headedSetting (State.start (headedWorld true) {} ["app.C"]) = (.ok (), t) ∧
      ∃ m ∈ t.tree.walk, m.name = "app.C" ∧ m.baseNames? = some ["app.A", "app.N"] ∧
        ∃ kind o, AnnouncedAs headedSetting (headedOutset true) kind m.name o m.id ∧
          ∀ p, (headedWorld true).trueName? p = some "app.A" →
            ¬Blends headedSetting {} (headedWorld true) kind o .include p := by
  have hstill : (headedWorld true).Still := by decide +kernel
  have hsteps : ∀ k < 11, ((headedOutset true).after headedSetting k).advances headedSetting := by
    decide +kernel
  have hnil : ((headedOutset true).after headedSetting 11).queue.items = [] :=
    List.isEmpty_iff.mp (by decide +kernel)
  have hnode : ∃ m ∈ ((headedOutset true).after headedSetting 11).tree.walk, m.name = "app.C" ∧
      m.superclass? = some "app.A" ∧ m.baseNames? = some ["app.A", "app.N"] := by
    decide +kernel
  rw [headedOutset, State.outset] at hsteps hnil hnode
  obtain ⟨t, hcompile, htree⟩ := Run.exists_compile_of_advances hsteps hnil
  rw [← htree] at hnode
  obtain ⟨m, hm, hname, hsuper, hbases⟩ := hnode
  obtain ⟨head, f, children, superclass, rfl, hf, hnames⟩ := Node.exists_of_baseNames? hbases
  obtain ⟨-, hdistinct⟩ :=
    header_bases_distinct_iff headedSetting (headedWorld true) {} ["app.C"] hcompile hm hf
  obtain ⟨kind, o, hann, hiff⟩ := hdistinct hstill (by decide)
  have hsuper : f.kind.superclass? = some "app.A" := hsuper
  rw [hf] at hsuper
  have hnodup : f.baseNames.Nodup := by
    rw [hnames]
    decide
  refine ⟨hstill, t, hcompile, _, hm, hname, hbases, kind, o, hann, fun p hp ↦ ?_⟩
  exact ((hiff.mp hnodup p "app.A" hp (by decide +kernel)).2 hsuper).2

set_option maxRecDepth 100000 in
/-- If `A` bears no name, the superclass that is named is `N`, which is a base other than the direct
superclass and included as well. -/
theorem header_repeats_base : headedSetting.listeners = ⟨Listener.defaults⟩ ∧ ∃ t,
    Run.compile headedSetting (State.start (headedWorld false) {} ["app.C"]) = (.ok (), t) ∧
      ∃ m ∈ t.tree.walk, m.name = "app.C" ∧ m.baseNames? = some ["app.N", "app.N"] := by
  have hsteps : ∀ k < 8, ((headedOutset false).after headedSetting k).advances headedSetting := by
    decide +kernel
  have hnil : ((headedOutset false).after headedSetting 8).queue.items = [] :=
    List.isEmpty_iff.mp (by decide +kernel)
  have hnode : ∃ m ∈ ((headedOutset false).after headedSetting 8).tree.walk, m.name = "app.C" ∧
      m.baseNames? = some ["app.N", "app.N"] := by
    decide +kernel
  rw [headedOutset, State.outset] at hsteps hnil hnode
  obtain ⟨t, hcompile, htree⟩ := Run.exists_compile_of_advances hsteps hnil
  rw [← htree] at hnode
  exact ⟨rfl, t, hcompile, hnode⟩

end Closure

end DeclClosure

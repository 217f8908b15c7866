import DeclClosure.Proofs.Closure.Announcements
import DeclClosure.Proofs.Closure.Denotation

/-!
# What is recorded on a scope

In the step that works off its announcement, a scope records the classes that are to be seen as
composed into it (`Blends`), each under the name that it bears, except for names of the machinery of
type forms. What is recorded is never taken back.

So in the end a scope records nothing else (`everywhere_recordedAs`), and all of it
(`Run.dispatch_recording`), if the listener that records mixins is told of the scope and the scope still
stands when all listeners have been told. For the first direction the world may be any, for the second
one names must stay what they are, so it must be still.
-/

namespace DeclClosure

namespace Node

theorem mem_mixins_addMixin_self (kind x : String) {n : Node} (hn : n.isScope) :
    ⟨kind, x⟩ ∈ (addMixin kind x n).mixins := by
  cases n with
  | leaf h d => cases hn
  | scope h s cs =>
    simp only [addMixin, mapFacts, mixins]
    split
    · next hcontains => exact List.contains_iff_mem.mp hcontains
    · exact List.mem_append_right _ List.mem_cons_self

theorem mem_mixins_addMixin {kind x : String} {n : Node} {r : MixinRef}
    (h : r ∈ (addMixin kind x n).mixins) : r ∈ n.mixins ∨ r = ⟨kind, x⟩ := by
  cases n with
  | leaf h' d => exact .inl h
  | scope h' s cs =>
    simp only [addMixin, mapFacts, mixins] at h ⊢
    split at h
    · exact .inl h
    · exact (List.mem_append.mp h).imp_right List.mem_singleton.mp

theorem isView_mixins : IsView fun n ↦ (n.id, n.mixins) :=
  fun _ _ _ _ _ ↦ rfl

end Node

namespace Closure

variable {c : Setting} {a : Announcement} {w : World} {s t : State} {n : Nat} {id : NodeId}
  {x y : String} {o p target mixin : Object} {way : MixinKind}

/-! ### What is recorded stays -/

/-- Of what is recorded on every node with this identity, something holds. -/
def State.Recording (s : State) (id : NodeId) (P : List MixinRef → Prop) : Prop :=
  s.tree.Everywhere fun m ↦ m.id = id → P m.mixins

section Keeping

variable {P : List MixinRef → Prop} (hP : ∀ {rs rs'}, rs ⊆ rs' → P rs → P rs')

include hP

theorem Acts.recording (h : Acts c a s t) (hid : id < s.nextNode) (hs : s.Recording id P) :
    t.Recording id P :=
  h.holdsAt (P := fun m ↦ P m.mixins) (fun _ _ _ _ h ↦ h) (fun _ _ m hf hm ↦ hP (hf.kept m) hm)
    hid hs

theorem recording_of_le (hs : s.Sound) {k : Nat} (hid : id < (s.after c k).nextNode) (hle : k ≤ n)
    (h : (s.after c k).Recording id P) : (s.after c n).Recording id P :=
  holdsAt_of_le (P := fun m ↦ P m.mixins) (fun _ _ _ _ h ↦ h)
    (fun _ _ m hf hm ↦ hP (hf.kept m) hm) hs hid hle h

end Keeping

/-- A scope that a mixin is recorded on records it. -/
theorem State.Sound.recording_dress (hs : s.Sound) {scope : Node} (hm : scope ∈ s.tree.walk)
    (hscope : scope.isScope) (word x : String) :
    (s.dress scope.id (Node.addMixin word x)).Recording scope.id (⟨word, x⟩ ∈ ·) := by
  have hrecords := Node.records_addMixin word x
  have hsound : (s.dress scope.id (Node.addMixin word x)).Sound :=
    Tree.Sound.modify hs hrecords.dresses _
  obtain ⟨rest, -, hchanged⟩ := Node.views_modifyAll_of_nodup Node.isView_mixins
    (fun k ↦ congrArg Badge.id (hrecords.dresses k).1) s.tree.roots hs.apart.nodup_walk
    (Tree.mem_walk_iff.mp hm)
  rw [Node.views_singleton] at hchanged
  -- after the change there is a node that is viewed as the changed one
  obtain ⟨p, hp, hview⟩ := (Node.mem_views_iff _).mp
    (hchanged.mem_iff.mpr (List.mem_append_left _ List.mem_cons_self))
  have hid : p.id = scope.id :=
    (congrArg Prod.fst hview).trans (congrArg Badge.id (hrecords.dresses scope).1)
  have hmixins : p.mixins = (Node.addMixin word x scope).mixins := congrArg Prod.snd hview
  have hmem : ⟨word, x⟩ ∈ p.mixins := by
    rw [hmixins]
    exact Node.mem_mixins_addMixin_self word x hscope
  have hall := hsound.apart.everywhere (P := fun m ↦ ⟨word, x⟩ ∈ m.mixins)
    (Tree.mem_walk_iff.mpr hp) hmem
  rwa [hid] at hall

/-! ### What the listener records -/

/-- The state looks at the world, up to notes, and the node stands in its tree. -/
structure State.Carries (w : World) (id : NodeId) (s : State) : Prop where
  /-- Nothing but notes has been added to the world. -/
  faithful : s.Faithful w
  /-- The tree is sound. -/
  sound : s.Sound
  /-- The node stands in the tree. -/
  stands : s.Stands id

theorem State.Carries.lt (h : s.Carries w id) : id < s.nextNode :=
  h.sound.lt_of_stands h.stands

theorem Acts.carries (h : Acts c a s t) (hw : w.Still) (hs : s.Carries w id) (ht : t.Stands id) :
    t.Carries w id :=
  ⟨h.faithful hw hs.faithful, (h.tends hs.sound).sound, ht⟩

/-- A node that stands after some acts stood before them, unless it is new. -/
theorem Acts.stands_of_stands (h : Acts c a s t) (hs : s.Sound) (hid : id < s.nextNode)
    (ht : t.Stands id) : s.Stands id := by
  obtain ⟨b, hb, rfl⟩ := List.mem_map.mp ht
  have hold := ((h.tends hs).new b hb).resolve_right (Nat.not_le.mpr hid)
  exact List.mem_map_of_mem hold

/-- Whether a class is composed does not hang on notes. -/
theorem blends_withNotes {tr : Trackers} {notes : List Note} {kind : NodeKind} :
    Blends c tr (w.withNotes notes) kind o way p ↔ Blends c tr w kind o way p := by
  have hextra : Run.extraBases (w.withNotes notes) o = Run.extraBases w o := by
    simp only [Run.extraBases, World.superclass?, World.basesOf_withNotes]
  constructor
  · rintro (⟨hd, hours⟩ | ⟨hours, hclass, hp⟩)
    · exact .registered hd hours
    · exact .base hours hclass (hextra ▸ hp)
  · rintro (⟨hd, hours⟩ | ⟨hours, hclass, hp⟩)
    · exact .registered hd hours
    · exact .base hours hclass (hextra.symm ▸ hp)

namespace Run

variable (hw : w.Still)

include hw

/-- What one of several programs sees to holds after all of them, if each of them only acts and the node
stands in the end. -/
theorem recording_of_forM {α : Type} {ds : List α} {f : α → Run Unit} {d : α} {r : MixinRef}
    (hs : s.Carries w id) (hmoves : ∀ d ∈ ds, Moves (ActsFrom c a s) (f d)) (hd : d ∈ ds)
    (hrecords : ∀ {u v}, Acts c a s u → u.Carries w id → f d u = (.ok (), v) → v.Stands id →
      v.Recording id (r ∈ ·))
    (hrun : ds.forM f s = (.ok (), t)) (ht : t.Stands id) : t.Recording id (r ∈ ·) := by
  -- up to the program there are only acts, and after it as well
  obtain ⟨u, v, hbefore, hone, hafter⟩ := Moves.exists_of_forM hmoves hd hrun
  have hsu : Acts c a s u := hbefore .refl
  have huv : Acts c a u v := by
    have h := hmoves d hd u hsu
    rwa [hone] at h
  have hvt : Acts c a v t := hafter (hsu.trans huv)
  have hu : u.Sound := (hsu.tends hs.sound).sound
  have hlt : id < u.nextNode := Nat.lt_of_lt_of_le hs.lt hsu.nextNode_le
  have hlt' : id < v.nextNode := Nat.lt_of_lt_of_le hlt huv.nextNode_le
  have hv : v.Stands id := hvt.stands_of_stands (huv.tends hu).sound hlt' ht
  have hcarries : u.Carries w id := hsu.carries hw hs (huv.stands_of_stands hu hlt hv)
  exact hvt.recording (fun hsub hr ↦ hsub hr) hlt' (hrecords hsu hcarries hone hv)

variable (hid : a.node = some id) (hname : w.trueName? mixin = some x)
  (hx : ¬startsWithAny typingNamespaces x)

include hid hname hx

/-- A mixin that bears a name is recorded under it, unless it belongs to the machinery of type
forms. -/
theorem recordMixin_recording (hs : s.Carries w id)
    (hrun : recordMixin a way mixin s = (.ok (), t)) : t.Recording id (⟨way.word, x⟩ ∈ ·) := by
  obtain ⟨found, u, hfound, hrest⟩ := run_bind_eq_ok_iff.mp hrun
  -- the name that the world tells is the one that the mixin bears
  rw [nameOf_of_still (hs.faithful.still hw), hs.faithful.trueName?_eq, hname] at hfound
  cases hfound
  have hne : x ≠ "" := World.ne_empty_of_meaning? (World.trueName?_eq_some_iff.mp hname).2
  have hnonempty : nonempty (some x) = some x :=
    Option.filter_eq_some_iff.mpr ⟨rfl, bne_iff_ne.mpr hne⟩
  rw [hnonempty] at hrest
  dsimp only at hrest
  rw [if_neg hx] at hrest
  have hpush : push (.symbol x) s = (.ok (), s.push (.symbol x)) := rfl
  rw [run_bind_ok hpush] at hrest
  obtain ⟨scope, v, hscope, hmodify⟩ := run_bind_eq_ok_iff.mp hrest
  obtain ⟨rfl, hshows⟩ := scopeOf_eq_ok hscope
  obtain rfl : id = scope.id := Option.some.inj (hid.symm.trans hshows.id)
  cases hmodify
  have hsound : (s.push (.symbol x)).Sound := hs.sound
  exact hsound.recording_dress (hsound.mem_walk hshows.known hs.stands) hshows.isScope way.word x

/-- So is each of several. -/
theorem recordMixin_recording_of_mem {α : Type} {ds : List α} {f : α → Object} {d : α}
    (hscope : a.kind.isScope) (hs : s.Carries w id)
    (hblends : ∀ d ∈ ds, Blends c s.trackers s.world a.kind a.value way (f d)) (hd : d ∈ ds)
    (hmixin : f d = mixin) (hrun : (ds.forM fun d ↦ recordMixin a way (f d)) s = (.ok (), t))
    (ht : t.Stands id) : t.Recording id (⟨way.word, x⟩ ∈ ·) := by
  refine recording_of_forM hw hs (fun d hd ↦ recordMixin_acts hscope (hblends d hd)) hd ?_ hrun ht
  intro u v _ hu hone _
  rw [hmixin] at hone
  exact recordMixin_recording hw hid hname hx hu hone

/-- All registered mixins of one kind are recorded. -/
theorem recordTracked_recording (hscope : a.kind.isScope) (hs : s.Carries w id) {d : Composition}
    (hd : d ∈ s.trackers.mixins.compositionsOf a.value way)
    (hours : a.kind.isForeign → isOurs c d.location) (hmixin : d.mixin = mixin)
    (hrun : recordTracked c a way s = (.ok (), t)) (ht : t.Stands id) :
    t.Recording id (⟨way.word, x⟩ ∈ ·) := by
  refine recordMixin_recording_of_mem hw hid hname hx hscope hs (fun _ ↦ blends_of_mem)
    (List.mem_filter.mpr ⟨hd, ?_⟩) hmixin hrun ht
  cases hforeign : a.kind.isForeign with
  | false => rfl
  | true => exact hours hforeign

/-- All bases of a class of the unit beyond its superclass are recorded. -/
theorem recordBases_recording (c : Setting) (hscope : a.kind.isScope) (hs : s.Carries w id)
    (hours : ¬a.kind.isForeign) (hclass : s.world.isClass a.value)
    (hmixin : mixin ∈ extraBases s.world a.value) (hrun : recordBases a s = (.ok (), t))
    (ht : t.Stands id) : t.Recording id (⟨MixinKind.include.word, x⟩ ∈ ·) := by
  have hbases : (!a.kind.isForeign && s.world.isClass a.value) = true :=
    Bool.and_eq_true_iff.mpr ⟨by rwa [Bool.not_eq_true', ← Bool.not_eq_true], hclass⟩
  rw [recordBases, run_get_bind, if_pos hbases] at hrun
  exact recordMixin_recording_of_mem (c := c) (f := fun p ↦ p) hw hid hname hx hscope hs
    (fun _ ↦ blends_of_mem_extraBases hbases) hmixin rfl hrun ht

/-- When a scope is announced, every class that is to be seen as composed into it is recorded on it. -/
theorem recordMixins_recording (hscope : a.kind.isScope) (hs : s.Carries w id)
    (h : Blends c s.trackers s.world a.kind a.value way mixin)
    (hrun : recordMixins c a s = (.ok (), t)) (ht : t.Stands id) :
    t.Recording id (⟨way.word, x⟩ ∈ ·) := by
  rw [recordMixins_eq] at hrun
  have hmoves : ∀ m ∈ mixinRounds c a, Moves (ActsFrom c a s) m :=
    fun _ hm u _ ↦ acts_of_mem_mixinRounds hscope hm u
  -- one of the rounds is that of the class
  cases h with
  | @registered way d hd hours =>
    refine recording_of_forM (d := recordTracked c a way) hw hs hmoves
      (by cases way <;> simp [mixinRounds]) (fun hsu hu hone hv ↦ ?_) hrun ht
    rw [← hsu.trackers_eq] at hd
    exact recordTracked_recording hw hid hname hx hscope hu hd hours rfl hone hv
  | base hours hclass hp =>
    refine recording_of_forM (d := recordBases a) hw hs hmoves (by simp [mixinRounds])
      (fun hsu hu hone hv ↦ ?_) hrun ht
    rw [← extraBases_of_evolves hsu.evolves hclass] at hp
    rw [← hsu.evolves.isClass_eq] at hclass
    exact recordBases_recording hw hid hname hx c hscope hu hours hclass hp hone hv

/-- So it is when all listeners are told of the scope, the one that records mixins among them. -/
theorem dispatch_recording (hlistens : .mixins ∈ c.listeners.entries.map Prod.snd)
    (hscope : a.kind.isScope) (hs : s.Carries w id)
    (h : Blends c s.trackers s.world a.kind a.value way mixin)
    (hrun : c.listeners.dispatch (tell c a) s = (.ok (), t)) (ht : t.Stands id) :
    t.Recording id (⟨way.word, x⟩ ∈ ·) := by
  obtain ⟨l, hl, hmixins⟩ := List.mem_map.mp hlistens
  have hmoves : ∀ l ∈ c.listeners.entries, Moves (ActsFrom c a s) (tell c a l.1 l.2) :=
    fun l hl u _ ↦ tell_acts l.1 (List.mem_map_of_mem hl) u
  refine recording_of_forM hw hs hmoves hl (fun hsu hu hone hv ↦ ?_) hrun ht
  have hrecords : tell c a l.1 l.2 = recordMixins c a := by
    cases hkind : a.kind with
    | const | method =>
      rw [hkind] at hscope
      cases hscope
    | scope | foreignScope =>
      simp only [tell, hkind, hmixins]
      rfl
  rw [hrecords] at hone
  refine recordMixins_recording hw hid hname hx hscope hu ?_ hone hv
  rw [hsu.trackers_eq]
  exact h.of_evolves hsu.evolves

end Run

/-! ### What is recorded was composed -/

/-- A compilation registers nothing. -/
theorem State.trackers_next (c : Setting) (s : State) : (s.next c).trackers = s.trackers := by
  cases State.turn c s with
  | idle w _ _ hnext | resolved w _ _ _ _ _ hnext | undecided w _ _ _ hnext =>
    rw [hnext]
    rfl
  | told _ _ hacts => exact hacts.trackers_eq
  | enacted w _ _ _ _ hnext =>
    rw [hnext, State.enact_keeps.2.2]
    rfl

theorem State.trackers_after (c : Setting) (s : State) (n : Nat) :
    (s.after c n).trackers = s.trackers :=
  State.after_induction (P := fun t ↦ t.trackers = s.trackers) rfl
    (fun t ht ↦ (t.trackers_next c).trans ht) n

/-- Within `n` events the mixin was recorded under the name that a class bore then, which is none of the
machinery of type forms. The class was to be seen as composed into the target, in the way that is
recorded. -/
def RecordedAs (c : Setting) (s : State) (n : Nat) (kind : NodeKind) (target : Object)
    (r : MixinRef) : Prop :=
  ¬startsWithAny Run.typingNamespaces r.name ∧ ∃ way : MixinKind, r.kind = way.word ∧ ∃ p, ∃ k < n,
    ∃ u v, (s.after c k).world.Evolves u ∧ u.Evolves (s.after c (k + 1)).world ∧
      Query.nameOf p u = (.ok (some r.name), v) ∧ Blends c s.trackers u kind target way p

theorem RecordedAs.succ {kind : NodeKind} {r : MixinRef} (h : RecordedAs c s n kind target r) :
    RecordedAs c s (n + 1) kind target r := by
  obtain ⟨hx, way, hway, p, k, hk, hrest⟩ := h
  exact ⟨hx, way, hway, p, k, Nat.lt_succ_of_lt hk, hrest⟩

/-- A scope records nothing but what is to be seen as composed into it. -/
theorem everywhere_recordedAs (hb : s.Blank) {kind : NodeKind} (hscope : kind.isScope)
    (hann : AnnouncedAs c s kind y target id) (n : Nat) : (s.after c n).tree.Everywhere fun m ↦
      m.id = id → ∀ r ∈ m.mixins, RecordedAs c s n kind target r := by
  refine everywhere_after
    (Q := fun n m ↦ m.id = id → ∀ r ∈ m.mixins, RecordedAs c s n kind target r) hb.tree
    (fun _ _ _ _ _ h ↦ h) (fun _ _ hm hid r hr ↦ (hm hid r hr).succ) ?_ ?_ n
  · intro n name o node found signature es hcons hacts hearlier
    refine hacts.everywhere (fun _ _ _ _ h ↦ h) ?_ ?_ hearlier
    · intro u names f m hu hrest hnode _ hf hasked hm hid r hr
      have hsame : (f m).id = m.id := congrArg Badge.id (hf.dresses m).1
      have hold : r ∈ m.mixins → RecordedAs c s (n + 1) kind target r := hm (hsame ▸ hid) r
      refine (hf.mixins m r hr).elim hold fun hnew ↦ ?_
      obtain ⟨q, v, hname, htold, hcomposes⟩ := hasked r.name hnew
      -- what is told of is the scope
      obtain ⟨k, signature', hpending⟩ := hann
      obtain rfl : node = some id := hnode.trans (congrArg some (hsame ▸ hid))
      have hfound : found ≠ .method := by
        rintro rfl
        cases htold
      obtain ⟨rfl, rfl, rfl⟩ := announcement_unique hb hfound
        (NodeKind.ne_method hscope) (hcons ▸ List.mem_cons_self) hpending
      rcases hcomposes with ⟨-, hsame⟩ | ⟨way, rfl, hx, hblends⟩
      · exact hold (hsame m ▸ hr)
      refine (Node.mem_mixins_addMixin hr).elim hold fun heq ↦ ?_
      refine ⟨hx, way, congrArg MixinRef.kind heq, q, n, Nat.lt_succ_self n, u.world, v, hu.evolves,
        hrest.evolves, hname, ?_⟩
      rwa [← State.trackers_after c s n, ← show u.trackers = (s.after c n).trackers from
        hu.trackers_eq]
    · intro _ _ name d _ _ _ r hr
      cases hr
  · intro n found name o v _ _ m _ _ _ hfresh _ r hr
    rw [hfresh.mixins] at hr
    cases hr

/-- In a world that is still the name is the true name of the class at all times. -/
theorem everywhere_blended (hw : w.Still) (hb : s.Blank) (hfaithful : ∀ k, (s.after c k).Faithful w)
    {kind : NodeKind} (hscope : kind.isScope) (hann : AnnouncedAs c s kind y target id) (n : Nat) :
    (s.after c n).tree.Everywhere fun m ↦ m.id = id → ∀ r ∈ m.mixins,
      ¬startsWithAny Run.typingNamespaces r.name ∧ ∃ way : MixinKind, r.kind = way.word ∧
        ∃ p, w.trueName? p = some r.name ∧ Blends c s.trackers w kind target way p := by
  refine (everywhere_recordedAs hb hscope hann n).mono fun m hm hid r hr ↦ ?_
  obtain ⟨hx, way, hway, p, k, -, u, v, hu, -, hname, hblends⟩ := hm hid r hr
  have hufaithful : ((s.after c k).learn u).Faithful w :=
    (hfaithful k).grow hw hu fun e he ↦ .inl he
  have hstill : u.Still := hufaithful.still hw
  have htrue : u.trueName? p = w.trueName? p := hufaithful.trueName?_eq p
  rw [Query.nameOf_of_still hstill, htrue] at hname
  obtain ⟨notes, rfl⟩ : ∃ notes, u = w.withNotes notes := hufaithful.world
  exact ⟨hx, way, hway, p, Except.ok.inj (Prod.mk.inj hname).1, blends_withNotes.mp hblends⟩

end Closure

end DeclClosure

import DeclClosure.Proofs.Closure.Denotation
import DeclClosure.Proofs.Closure.Seeds

/-!
# Asking again changes nothing

In a still world a symbol leads to the same object whenever it is looked up, or to none. An object that
was found is left out or taken up, and is left out from then on: its name counts as dealt with, or what
spoke against it goes on to do so, for names that were dealt with and closed namespaces only become more
(`State.Faithful.isSome_skipReason?_mono`). So once everything is worked off, a symbol that was looked
up before is exhausted (`State.Exhausts`), and if such symbols are put into the queue again all that
comes of them is left out.
-/

namespace DeclClosure.Closure

variable {c : Setting} {w : World} {s t u : State} {n : Nat} {x : String} {o : Object}

/-- The symbol that the oldest event asks for. -/
def State.symbol? (s : State) : Option String :=
  match s.queue.items with
  | .symbol x :: _ => some x
  | _ => none

/-- At some time of the run the symbol is the one to look up. -/
def LookedUp (c : Setting) (s : State) (x : String) : Prop :=
  ∃ k, (s.after c k).symbol? = some x

/-- Looking the symbol up leads to nothing, or to an object that is left out. -/
def State.Exhausts (c : Setting) (w : World) (s : State) (x : String) : Prop :=
  c.skipsSymbol (Name.stripRoot x) ∨ ∀ o, w.meaning? (Name.stripRoot x) = some o →
    (s.skipReason? (Name.stripRoot (Name.stripRoot x)) o).isSome

/-- The object that the symbol led to is pending. -/
def State.Expects (w : World) (s : State) (x : String) : Prop :=
  ∃ o, w.meaning? (Name.stripRoot x) = some o ∧ .constant (Name.stripRoot x) o ∈ s.queue.items

theorem State.exists_cons_of_symbol? (h : s.symbol? = some x) :
    ∃ es, s.queue.items = .symbol x :: es := by
  simp only [symbol?] at h
  split at h
  · next es hcons =>
    cases h
    exact ⟨es, hcons⟩
  · cases h

/-! ### What is left out stays out -/

theorem isModuleDefinition_withNotes (notes : List Note) (x : String) (o : Object) :
    isModuleDefinition (w.withNotes notes) x o = isModuleDefinition w x o := by
  simp only [isModuleDefinition, World.canonicalName?_withNotes]
  rfl

theorem State.isSome_skipReason?_of_mem_seen (h : x ∈ s.seen) (o : Object) :
    (s.skipReason? x o).isSome := by
  rw [Option.isSome_iff_ne_none]
  exact fun hnone ↦ State.not_mem_seen hnone h

/-- An object that is left out is left out later on. -/
theorem State.Faithful.isSome_skipReason?_mono (hs : s.Faithful w) (ht : t.Faithful w)
    (hseen : s.seen ⊆ t.seen) (haliases : s.aliases ⊆ t.aliases)
    (h : (s.skipReason? x o).isSome) : (t.skipReason? x o).isSome := by
  rw [Option.isSome_iff_ne_none] at h ⊢
  refine fun hnone ↦ h (State.skipReason?_eq_none_iff.mpr ?_)
  obtain ⟨hblank, hmade, hlower, haliased, hnew, hmember⟩ :=
    State.skipReason?_eq_none_iff.mp hnone
  -- what the world says of the object does not depend on notes
  obtain ⟨notes, hsworld⟩ := hs.world
  obtain ⟨more, htworld⟩ := ht.world
  rw [htworld, isModuleDefinition_withNotes] at hlower
  rw [hsworld, isModuleDefinition_withNotes]
  refine ⟨hblank, hmade, hlower, fun halias ↦ haliased ?_, fun hmem ↦ hnew (hseen hmem), ?_⟩
  · obtain ⟨ns, hns, hx⟩ := State.isAliased_iff.mp halias
    exact State.isAliased_iff.mpr ⟨ns, haliases hns, hx⟩
  · rwa [htworld] at hmember

/-- A symbol that is exhausted is so later on. -/
theorem State.Exhausts.mono (h : s.Exhausts c w x) (hs : s.Faithful w) (ht : t.Faithful w)
    (hseen : s.seen ⊆ t.seen) (haliases : s.aliases ⊆ t.aliases) : t.Exhausts c w x :=
  h.imp_right fun hleft o ho ↦ hs.isSome_skipReason?_mono ht hseen haliases (hleft o ho)

/-! ### Looking up -/

/-- Looking a symbol up in a still world. -/
theorem Run.onSymbol_of_still (hw : s.world.Still) (x : String) :
    onSymbol c x s = (.ok (),
      if c.skipsSymbol (Name.stripRoot x) then s.note (.payloadSymbol (Name.stripRoot x))
      else match s.world.meaning? (Name.stripRoot x) with
        | none => s.note (.unresolved (Name.stripRoot x))
        | some o => s.push (.constant (Name.stripRoot x) o)) := by
  have hask : ask (Query.resolve (Name.stripRoot x)) s
      = (.ok (s.world.meaning? (Name.stripRoot x)), s) := by
    simp only [ask]
    rw [Query.resolve_of_still hw]
  simp only [onSymbol]
  split
  · rfl
  · rw [run_bind_ok hask]
    cases s.world.meaning? (Name.stripRoot x) <;> rfl

/-- An object that is left out leads to a note. -/
theorem Run.onConstant_of_isSome (kind : NodeKind) (judge : String → Object → Run Verdict)
    (h : (s.skipReason? (Name.stripRoot x) o).isSome) :
    ∃ note, onConstant kind judge x o s = (.ok (), s.note note) := by
  obtain ⟨reason, hreason⟩ := Option.isSome_iff_exists.mp h
  refine ⟨.skippedConstant (Name.stripRoot x) reason.text, ?_⟩
  simp only [onConstant]
  rw [run_get_bind, hreason]
  rfl

/-- After a symbol was looked up, it is exhausted or its object is pending. -/
theorem State.Faithful.of_lookup (hs : s.Faithful w) (hw : w.Still) {es : List Event}
    (hcons : s.queue.items = .symbol x :: es) :
    (s.next c).Exhausts c w x ∨ (s.next c).Expects w x := by
  have hnext : s.next c = (Run.onSymbol c x s.popped).2 := State.next_of_cons hcons
  rw [hnext, Run.onSymbol_of_still (hs.popped.still hw), hs.popped.meaning?_eq]
  by_cases hskips : c.skipsSymbol (Name.stripRoot x)
  · exact .inl (.inl hskips)
  · rw [if_neg hskips]
    cases hmeaning : w.meaning? (Name.stripRoot x) with
    | none =>
      refine .inl (.inr fun o ho ↦ ?_)
      rw [hmeaning] at ho
      cases ho
    | some o => exact .inr ⟨o, hmeaning, List.mem_append_right _ List.mem_cons_self⟩

/-- An object that was found is left out once it has been worked off. -/
theorem State.Faithful.of_found (hs : s.Faithful w) (hw : w.Still) {es : List Event}
    (hcons : s.queue.items = .constant x o :: es) :
    ((s.next c).skipReason? (Name.stripRoot x) o).isSome := by
  have hnext := hs.next hw c
  have hseen : Name.stripRoot x ∈ (s.popped.markSeen (Name.stripRoot x)).seen :=
    List.mem_append_right _ List.mem_cons_self
  have hstep := Run.dispatch_step c (.constant x o) s.popped
  rw [State.next_of_cons hcons] at hnext ⊢
  generalize Run.dispatch c (.constant x o) s.popped = r at hstep hnext
  cases hstep with
  | constant hout =>
    cases hout with
    | skipped reason hskip =>
      have hleft : (s.popped.skipReason? (Name.stripRoot x) o).isSome := by
        rw [hskip]
        rfl
      exact hs.popped.isSome_skipReason?_mono (t := s.popped.note _) hnext (fun _ h ↦ h)
        (fun _ h ↦ h) hleft
    | failed f v hskip hv hrun =>
      exact State.isSome_skipReason?_of_mem_seen
        (s := (s.popped.markSeen (Name.stripRoot x)).learn v) hseen o
    | enacted v v' hskip hv hrun =>
      refine State.isSome_skipReason?_of_mem_seen ?_ o
      rw [State.enact_keeps.2.1]
      exact hseen

/-- A symbol that is exhausted, or whose object is pending, is so after every step. -/
theorem State.Faithful.exhausts_next (hs : s.Faithful w) (hw : w.Still)
    (h : s.Exhausts c w x ∨ s.Expects w x) :
    (s.next c).Exhausts c w x ∨ (s.next c).Expects w x := by
  rcases h with hexhausts | ⟨o, ho, hmem⟩
  · exact .inl (hexhausts.mono hs (hs.next hw c) (s.next_grows c).2.1
      (aliases_subset (Nat.zero_le 1)))
  · rcases State.mem_next_or_cons hmem c with hmem | ⟨es, hcons⟩
    · exact .inr ⟨o, ho, hmem⟩
    · refine .inl (.inr fun p hp ↦ ?_)
      rw [ho] at hp
      cases hp
      exact hs.of_found hw hcons

/-- Once nothing is pending, every symbol that was looked up is exhausted. -/
theorem exhausts_of_lookedUp (hw : w.Still) (hfaithful : ∀ k, (s.after c k).Faithful w)
    (hnil : (s.after c n).queue.items = []) (h : LookedUp c s x) :
    (s.after c n).Exhausts c w x := by
  obtain ⟨k, hk⟩ := h
  obtain ⟨es, hcons⟩ := State.exists_cons_of_symbol? hk
  have hlt : k < n := by
    refine Nat.lt_of_not_le fun hle ↦ ?_
    rw [State.after_of_nil hnil hle, hnil] at hcons
    cases hcons
  have hall : ∀ m, k + 1 ≤ m → (s.after c m).Exhausts c w x ∨ (s.after c m).Expects w x := by
    intro m hm
    induction m, hm using Nat.le_induction with
    | base => exact (hfaithful k).of_lookup hw hcons
    | succ m _ ih => exact (hfaithful m).exhausts_next hw ih
  refine (hall n hlt).resolve_right ?_
  rintro ⟨o, -, hmem⟩
  rw [hnil] at hmem
  cases hmem

/-! ### Asking again -/

/-- The event leads to nothing in the state. -/
def Event.Futile (c : Setting) (w : World) (u : State) : Event → Prop
  | .symbol x => u.Exhausts c w x
  | .constant x o => (u.skipReason? (Name.stripRoot x) o).isSome
  | _ => False

/-- The state is another one with notes and futile events. -/
structure State.Idles (c : Setting) (w : World) (u s : State) : Prop where
  /-- Nothing but notes has been added to the world. -/
  faithful : s.Faithful w
  /-- The tree is the same. -/
  tree : s.tree = u.tree
  /-- The same names have been dealt with. -/
  seen : s.seen = u.seen
  /-- The same namespaces are closed. -/
  aliases : s.aliases = u.aliases
  /-- Pending events lead to nothing. -/
  queue : ∀ e ∈ s.queue.items, e.Futile c w u

theorem State.Faithful.note (hs : s.Faithful w) (n : Note) : (s.note n).Faithful w := by
  obtain ⟨notes, hworld⟩ := hs.world
  refine ⟨⟨notes ++ [n], ?_⟩, hs.queue⟩
  show s.world.note n = _
  rw [hworld]
  rfl

namespace State.Idles

theorem popped (h : u.Idles c w s) : u.Idles c w s.popped :=
  ⟨h.faithful.popped, h.tree, h.seen, h.aliases, fun e he ↦ h.queue e (List.mem_of_mem_tail he)⟩

theorem note (h : u.Idles c w s) (n : Note) : u.Idles c w (s.note n) :=
  ⟨h.faithful.note n, h.tree, h.seen, h.aliases, h.queue⟩

theorem push (h : u.Idles c w s) {e : Event} (hfaithful : e.Faithful w) (he : e.Futile c w u) :
    u.Idles c w (s.push e) := by
  refine ⟨⟨h.faithful.world, fun d hd ↦ ?_⟩, h.tree, h.seen, h.aliases, fun d hd ↦ ?_⟩
  · rcases State.mem_push hd with hd | rfl
    · exact h.faithful.queue d hd
    · exact hfaithful
  · rcases State.mem_push hd with hd | rfl
    · exact h.queue d hd
    · exact he

/-- Working off a futile event changes nothing. -/
theorem dispatch (h : u.Idles c w s) (hw : w.Still) (hu : u.Faithful w) {e : Event}
    {es : List Event} (hcons : s.queue.items = e :: es) :
    ∃ t, Run.dispatch c e s.popped = (.ok (), t) ∧ u.Idles c w t := by
  have hfutile := h.queue e (hcons ▸ List.mem_cons_self)
  cases e with
  | symbol x =>
    refine ⟨_, Run.onSymbol_of_still (h.popped.faithful.still hw) x, ?_⟩
    rw [h.popped.faithful.meaning?_eq]
    split
    · exact h.popped.note _
    · next hskips =>
      cases hmeaning : w.meaning? (Name.stripRoot x) with
      | none => exact h.popped.note _
      | some o => exact h.popped.push hmeaning (hfutile.resolve_left hskips o hmeaning)
  | constant x o =>
    have hleft : (s.popped.skipReason? (Name.stripRoot x) o).isSome :=
      hu.isSome_skipReason?_mono h.popped.faithful (fun _ hmem ↦ h.popped.seen ▸ hmem)
        (fun _ hmem ↦ h.popped.aliases ▸ hmem) hfutile
    obtain ⟨n, hrun⟩ := Run.onConstant_of_isSome .scope (Run.judgeConstant c) hleft
    exact ⟨_, hrun, h.popped.note n⟩
  | foreignConstant | node | bare => exact hfutile.elim

/-- Working off futile events ends, and changes nothing. -/
theorem workOff (h : u.Idles c w s) (hw : w.Still) (hu : u.Faithful w) {done : Nat}
    {r : Except Failure Nat × State} (hrun : Run.workOff c done s = some r) :
    ∃ m, r.1 = .ok m ∧ u.Idles c w r.2 := by
  refine Run.workOff_induction (motive := fun _ s r ↦ u.Idles c w s →
    ∃ m, r.1 = .ok m ∧ u.Idles c w r.2) ?_ ?_ ?_ hrun h
  · exact fun done s _ hs ↦ ⟨done, rfl, hs⟩
  · intro done s e es f t hcons hfailed hs
    obtain ⟨t', hok, -⟩ := hs.dispatch hw hu hcons
    rw [hok] at hfailed
    cases hfailed
  · intro done s e es t r hcons hworked ih hs
    obtain ⟨t', hok, ht⟩ := hs.dispatch hw hu hcons
    rw [hok] at hworked
    cases hworked
    exact ih ht

/-- A compilation of futile events succeeds, and changes nothing. -/
theorem compile (h : u.Idles c w s) (hw : w.Still) (hu : u.Faithful w) :
    ∃ v, Run.compile c s = (.ok (), v) ∧ u.Idles c w v := by
  obtain ⟨⟨r, t⟩, hrun⟩ := Option.isSome_iff_exists.mp (Run.workOff_isSome c 0 (s.begun c))
  obtain ⟨m, rfl, ht⟩ := workOff (h.note _) hw hu hrun
  exact ⟨_, Run.compile_of_workOff hrun, ht.note _⟩

/-- Symbols that are exhausted are put into the queue when nothing is pending. -/
theorem of_seeded (hu : u.Faithful w) (hnil : u.queue.items = []) {again : List String}
    (hagain : ∀ x ∈ again, u.Exhausts c w x) : u.Idles c w (u.seeded again) := by
  have hqueue : (u.seeded again).queue.items = again.map .symbol := by
    show u.queue.items ++ again.map .symbol = _
    rw [hnil, List.nil_append]
  refine ⟨⟨hu.world, fun e he ↦ ?_⟩, rfl, rfl, rfl, fun e he ↦ ?_⟩
  · rw [hqueue] at he
    obtain ⟨x, -, rfl⟩ := List.mem_map.mp he
    trivial
  · rw [hqueue] at he
    obtain ⟨x, hx, rfl⟩ := List.mem_map.mp he
    exact hagain x hx

end State.Idles

/-- **Asking again changes nothing.** Let nothing be loaded or computed in a world, and let a
compilation of some seeds, in any setting, have worked off all events. If symbols that it has looked up
are put into the queue once more, in any order and as often as one likes, then another compilation
succeeds as well, and leaves the tree, the names that were dealt with and the closed namespaces as they
were. -/
theorem reseeding_changes_nothing (c : Setting) (w : World) (t : Trackers) (seeds : List String)
    (hw : w.Still) {u : State} (h : Run.compile c (State.start w t seeds) = (.ok (), u))
    {again : List String}
    (hagain : ∀ x ∈ again, LookedUp c (State.outset c w t seeds) x) :
    ∃ v, (do Run.seed again; Run.compile c : Run Unit) u = (.ok (), v) ∧
      v.tree = u.tree ∧ v.seen = u.seen ∧ v.aliases = u.aliases := by
  have hfaithful := faithful_after (c := c) hw t seeds
  obtain ⟨n, r, -, ⟨-, hnil, hcompile⟩ | ⟨f, -, hcompile⟩⟩ :=
    Run.exists_compile c (State.start w t seeds)
  · rw [h] at hcompile
    obtain rfl := (Prod.mk.inj hcompile).2
    have hu := (hfaithful n).note (.compiled c.unit.name n
      ((State.outset c w t seeds).after c n).seen.length)
    have hexhausts : ∀ x ∈ again, State.Exhausts c w _ x := fun x hx ↦
      (exhausts_of_lookedUp hw hfaithful hnil (hagain x hx)).mono (hfaithful n) hu (fun _ h ↦ h)
        fun _ h ↦ h
    obtain ⟨v, hv, hidles⟩ := (State.Idles.of_seeded hu hnil hexhausts).compile hw hu
    refine ⟨v, ?_, hidles.tree, hidles.seen, hidles.aliases⟩
    rw [run_bind_ok (Run.seed_eq again _), hv]
  · rw [h] at hcompile
    cases hcompile

set_option maxRecDepth 100000 in
/-- The module was asked for, and the superclass of the derived class was: both are asked for
again. -/
theorem reseeding_of_family :
    familyWorld.Still ∧ ∃ u v,
      Run.compile (.plain ⟨"pkg", [⟨["srv"]⟩]⟩) (State.start familyWorld {} ["pkg"])
          = (.ok (), u) ∧
        (do Run.seed ["pkg.Base", "pkg", "pkg.Base"]
            Run.compile (.plain ⟨"pkg", [⟨["srv"]⟩]⟩) : Run Unit) u = (.ok (), v) ∧
          v.tree = u.tree ∧ v.tree.size = 4 := by
  have hrun : (∀ k < 11, ((State.outset (.plain ⟨"pkg", [⟨["srv"]⟩]⟩) familyWorld {} ["pkg"]).after
        (.plain ⟨"pkg", [⟨["srv"]⟩]⟩) k).advances (.plain ⟨"pkg", [⟨["srv"]⟩]⟩)) ∧
      ((State.outset (.plain ⟨"pkg", [⟨["srv"]⟩]⟩) familyWorld {} ["pkg"]).after
        (.plain ⟨"pkg", [⟨["srv"]⟩]⟩) 11).queue.items.isEmpty ∧
      ((State.outset (.plain ⟨"pkg", [⟨["srv"]⟩]⟩) familyWorld {} ["pkg"]).after
        (.plain ⟨"pkg", [⟨["srv"]⟩]⟩) 11).tree.size = 4 ∧
      ∀ x ∈ ["pkg.Base", "pkg", "pkg.Base"], ∃ k ∈ [0, 7],
        ((State.outset (.plain ⟨"pkg", [⟨["srv"]⟩]⟩) familyWorld {} ["pkg"]).after
          (.plain ⟨"pkg", [⟨["srv"]⟩]⟩) k).symbol? = some x := by
    decide +kernel
  obtain ⟨hsteps, hnil, hsize, hlooked⟩ := hrun
  rw [State.outset] at hsteps hnil hsize
  obtain ⟨u, hu, htree⟩ := Run.exists_compile_of_advances hsteps (List.isEmpty_iff.mp hnil)
  obtain ⟨v, hv, hsame, -⟩ := reseeding_changes_nothing (.plain ⟨"pkg", [⟨["srv"]⟩]⟩) familyWorld {}
    ["pkg"] familyWorld_still hu fun x hx ↦ (hlooked x hx).imp fun _ hk ↦ hk.2
  exact ⟨familyWorld_still, u, v, hu, hv, hsame, by rw [hsame, htree, hsize]⟩

end DeclClosure.Closure

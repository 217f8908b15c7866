import DeclClosure.Proofs.Closure.Denotation
import DeclClosure.Proofs.Closure.Dispatches
import DeclClosure.Proofs.Closure.Overlooking

/-!
# Documentation is decoration

The listener that documents runs between the others, resolves names and changes nodes. In a still world
it cannot fail on a node that stands in the tree, and all that it leaves behind are comments
(`Run.tell_documentation`). Since nothing else looks at comments, a compilation with this listener and
one without it go side by side, event by event: the second one always is where the first one is, but
for the comments (`Run.compile_without_documentation`).
-/

namespace DeclClosure.Closure

variable {c : Setting} {a : Announcement} {s t u : State} {id : NodeId}

/-! ### The listener that documents -/

namespace Run

/-- A node that stands in the tree is found. -/
theorem exists_nodeOf (ha : a.node = some id) (hs : s.Stands id) (wanted : String) :
    ∃ n, n.id = id ∧ nodeOf a wanted s = (.ok n, s) := by
  obtain ⟨b, hb, rfl⟩ := List.mem_map.mp hs
  obtain ⟨n, hn⟩ := Tree.exists_node? (List.mem_append_left _ hb)
  refine ⟨n, (Tree.mem_walk_of_node? hn).1, ?_⟩
  simp only [nodeOf]
  rw [run_get_bind, ha, Option.bind_some, hn]
  rfl

/-- Documenting a node that stands in the tree adds comments at most. -/
theorem document_of_stands (ha : a.node = some id) (hs : s.Stands id) (o : Object) :
    ∃ t, document a o s = (.ok (), t) ∧ t.uncommented = s.uncommented := by
  simp only [document]
  rw [run_get_bind]
  cases nonempty (s.world.documentation? o) with
  | none => exact ⟨s, rfl, rfl⟩
  | some text =>
    obtain ⟨n, -, hn⟩ := exists_nodeOf ha hs "comments"
    dsimp only
    rw [run_bind_ok hn]
    split
    · refine ⟨s.dress n.id (Node.addComment text), rfl, ?_⟩
      simp only [State.uncommented, State.dress]
      rw [s.tree.uncommented_modify_self (Node.uncommented_addComment text)]
    · exact ⟨s, rfl, rfl⟩

theorem documentMethod_of_stands (hw : s.world.Still) (ha : a.node = some id) (hs : s.Stands id) :
    ∃ t, documentMethod a s = (.ok (), t) ∧ t.uncommented = s.uncommented := by
  obtain ⟨n, -, hn⟩ := exists_nodeOf ha hs "qualified_name"
  have hask : ask (Query.resolve n.qualifiedName) s
      = (.ok (s.world.meaning? n.qualifiedName), s) := by
    simp only [ask]
    rw [Query.resolve_of_still hw]
  simp only [documentMethod]
  rw [run_bind_ok hn, run_bind_ok hask]
  cases s.world.meaning? n.qualifiedName with
  | some o => exact document_of_stands ha hs o
  | none => exact ⟨s, rfl, rfl⟩

/-- In a still world the listener succeeds with a node that stands in the tree, and leaves nothing but
comments behind. -/
theorem tell_documentation (hw : s.world.Still) (ha : a.node = some id) (hs : s.Stands id)
    (name : String) :
    ∃ t, tell c a name .documentation s = (.ok (), t) ∧ t.uncommented = s.uncommented := by
  simp only [tell]
  split
  · exact ⟨s, rfl, rfl⟩
  · cases a.kind.callback with
    | scope => exact document_of_stands ha hs a.value
    | method => exact documentMethod_of_stands hw ha hs
    | const => exact ⟨s, rfl, rfl⟩

/-! ### Side by side -/

/-- From the state without comments, the second program comes to the same answer as the first one
comes to from the state itself, and to the same state without comments. -/
def Follows {α : Type} (m m' : Run α) (s : State) : Prop :=
  m' s.uncommented = ((m s).1, (m s).2.uncommented)

section Follows

variable {α β : Type} {m m' : Run α}

theorem Overlooks.follows (h : Overlooks m) (s : State) : Follows m m s := by
  obtain ⟨hanswer, hstate⟩ := h s s.uncommented rfl
  exact Prod.ext hanswer.symm hstate

theorem Follows.bind {f f' : α → Run β} (h : Follows m m' s)
    (hf : ∀ a t, m s = (.ok a, t) → Follows (f a) (f' a) t) :
    Follows (m >>= f) (m' >>= f') s := by
  simp only [Follows] at h ⊢
  rw [run_bind, run_bind, h]
  rcases hrun : m s with ⟨e | a, t⟩
  · rfl
  · exact hf a t hrun

end Follows

/-- The listener that documents does nothing that is left when comments are cleared. -/
theorem tell_documentation_follows (hw : s.world.Still) (ha : a.node = some id)
    (hs : s.Stands id) (name : String) :
    Follows (tell c a name .documentation) (pure ()) s := by
  obtain ⟨t, ht, hcleared⟩ := tell_documentation (c := c) hw ha hs name
  rw [Follows, ht, hcleared]
  rfl

/-- Listeners that prune nothing are told of a node with and without the one that documents. The node
stays in the tree and the world stays still while they are told. -/
theorem forM_tell_follows {w : World} (hw : w.Still) (hfaithful : s.Faithful w) (hs : s.Sound)
    (ha : a.node = some id) (hstands : s.Stands id) {es : List (String × Listener)}
    (hes : es ⊆ c.withoutPruning.listeners.entries) (h : Acts c.withoutPruning a s t) :
    Follows (es.forM fun e ↦ tell c a e.1 e.2)
      ((es.filter fun e ↦ e.2 ≠ .documentation).forM fun e ↦ tell c a e.1 e.2) t := by
  induction es generalizing t with
  | nil => rfl
  | cons e es ih =>
    obtain ⟨he, hes⟩ := List.cons_subset.mp hes
    have hnext : ∀ {x u}, tell c a e.1 e.2 t = (x, u) → Acts c.withoutPruning a s u := by
      intro x u hrun
      have hacts : Acts c.withoutPruning a t (tell c a e.1 e.2 t).2 :=
        tell_acts (c := c.withoutPruning) e.1 (List.mem_map_of_mem he) t
      rw [hrun] at hacts
      exact h.trans hacts
    have hrest := fun u hrun ↦ ih hes (t := u) (hnext (x := .ok ()) hrun)
    by_cases hdoc : e.2 = .documentation
    · have hfilter : (e :: es).filter (fun e ↦ e.2 ≠ .documentation)
          = es.filter fun e ↦ e.2 ≠ .documentation :=
        List.filter_cons_of_neg (by simp [hdoc])
      rw [hfilter, ← pure_bind () fun _ ↦ (es.filter _).forM _]
      refine Follows.bind ?_ fun _ u hrun ↦ hrest u hrun
      show Follows (tell c a e.1 e.2) _ t
      rw [hdoc]
      exact tell_documentation_follows ((h.faithful hw hfaithful).still hw) ha
        ((h.stands c.not_prunes_withoutPruning hs).1 id hstands) e.1
    · have hfilter : (e :: es).filter (fun e ↦ e.2 ≠ .documentation)
          = e :: es.filter fun e ↦ e.2 ≠ .documentation :=
        List.filter_cons_of_pos (by simp [hdoc])
      rw [hfilter]
      exact ((tell_overlooks e.1 hdoc).follows t).bind fun _ u hrun ↦ hrest u hrun

/-- All listeners are told of a node with and without the one that documents. -/
theorem dispatch_node_follows {w : World} (hl : c.listeners.entries.Sublist Listener.defaults)
    (hw : w.Still) (hfaithful : s.Faithful w) (hs : s.Sound) (ha : a.node = some id)
    (hstands : s.Stands id) :
    Follows (c.listeners.dispatch (tell c a))
      ((c.without .documentation).listeners.dispatch (tell (c.without .documentation) a)) s := by
  obtain ⟨last, heq, hlast⟩ := Setting.listeners_eq hl
  -- the listener that prunes comes last, and does not document
  have hkept : last.filter (fun e ↦ e.2 ≠ .documentation) = last := by
    rcases hlast with ⟨rfl, -⟩ | ⟨rfl, -⟩ <;> rfl
  show Follows (c.listeners.entries.forM fun e ↦ tell c a e.1 e.2)
    ((c.listeners.entries.filter fun e ↦ e.2 ≠ .documentation).forM fun e ↦ tell c a e.1 e.2) s
  have hsplit : ∀ es : List (String × Listener), (es ++ last).forM (fun e ↦ tell c a e.1 e.2)
      = (do es.forM fun e ↦ tell c a e.1 e.2; last.forM fun e ↦ tell c a e.1 e.2) :=
    fun _ ↦ List.forM_append
  rw [heq, List.filter_append, hkept, hsplit, hsplit]
  refine (forM_tell_follows hw hfaithful hs ha hstands (List.Subset.refl _) .refl).bind
    fun _ u _ ↦ ?_
  refine Overlooks.follows (Alike.forM fun e he ↦ tell_overlooks e.1 ?_) u
  rcases hlast with ⟨rfl, -⟩ | ⟨rfl, -⟩
  · cases he
  · rw [List.mem_singleton.mp he]
    exact nofun

/-- What listeners there are does not matter to a verdict. -/
theorem judgeForeign_without (c : Setting) (l : Listener) :
    judgeForeign (c.without l) = judgeForeign c := by
  funext o
  simp only [judgeForeign, judgeScope, superclassName]
  rfl

theorem judgeConstant_without (c : Setting) (l : Listener) :
    judgeConstant (c.without l) = judgeConstant c := by
  funext name o
  simp only [judgeConstant, judgeAlias, judgeNamespace, judgeScope, superclassName, judgeValue,
    definedInUnit]
  rfl

/-- An event is worked off with and without the listener that documents. -/
theorem dispatch_follows {w : World} {e : Event}
    (hl : c.listeners.entries.Sublist Listener.defaults) (hw : w.Still)
    (hfaithful : s.Faithful w) (hs : s.Sound)
    (hnode : ∀ x o node kind signature, e = .node x o node kind signature →
      ∃ id, node = some id ∧ s.Stands id) :
    Follows (dispatch c e) (dispatch (c.without .documentation) e) s := by
  cases e with
  | symbol name => exact (onSymbol_overlooks name).follows s
  | constant name o =>
    simp only [dispatch, judgeConstant_without]
    exact (onConstant_overlooks judgeConstant_overlooks _ name o).follows s
  | foreignConstant name o =>
    simp only [dispatch, judgeForeign_without]
    exact (onConstant_overlooks (fun _ ↦ judgeForeign_overlooks) _ name o).follows s
  | node x o node kind signature =>
    obtain ⟨id, rfl, hstands⟩ := hnode x o node kind signature rfl
    exact dispatch_node_follows hl hw hfaithful hs rfl hstands
  | bare => rfl

end Run

/-! ### Compilations -/

/-- If the events of a run are worked off alike in another setting, up to a change of the states, the
two loops come to the same, up to that change. -/
theorem Run.workOff_alike {d : Setting} {f : State → State} {I : State → Prop}
    (hf : ∀ s, (f s).queue = s.queue ∧ (f s).popped = f s.popped)
    (hstep : ∀ s e es, I s → s.queue.items = e :: es → I (s.next c) ∧
      dispatch d e (f s.popped) = ((dispatch c e s.popped).1, f (dispatch c e s.popped).2))
    {done : Nat} {r : Except Failure Nat × State} (hs : I s) (h : workOff c done s = some r) :
    workOff d done (f s) = some (r.1, f r.2) := by
  refine workOff_induction (motive := fun done s r ↦ I s →
    workOff d done (f s) = some (r.1, f r.2)) ?_ ?_ ?_ h hs
  · intro done s hnil _
    exact workOff_of_nil ((congrArg Queue.items (hf s).1).trans hnil)
  · intro done s e es x t hcons hrun hs
    have hdispatch := (hstep s e es hs hcons).2
    rw [hrun] at hdispatch
    rw [workOff_of_cons ((congrArg Queue.items (hf s).1).trans hcons), (hf s).2, hdispatch]
  · intro done s e es t r hcons hrun ih hs
    obtain ⟨hnext, hdispatch⟩ := hstep s e es hs hcons
    rw [State.next_of_cons hcons, hrun] at hnext
    rw [hrun] at hdispatch
    rw [workOff_of_cons ((congrArg Queue.items (hf s).1).trans hcons), (hf s).2, hdispatch]
    exact ih hnext

/-- A compilation without the listener that documents comes to the same as one with it, without
comments. -/
theorem Run.compile_without_documentation {w : World} (hw : w.Still)
    (hl : c.listeners.entries.Sublist Listener.defaults) (t : Trackers) (seeds : List String) :
    Follows (compile c) (compile (c.without .documentation)) (State.start w t seeds) := by
  have hs := State.seeded_outset c w t seeds
  obtain ⟨⟨x, u⟩, hloop⟩ := Option.isSome_iff_exists.mp
    (workOff_isSome c 0 (State.outset c w t seeds))
  -- in every state of the run, the announced node stands in the tree
  have hstep : ∀ s e es, (∃ n, s = (State.outset c w t seeds).after c n) →
      s.queue.items = e :: es → (∃ n, s.next c = (State.outset c w t seeds).after c n) ∧
        Follows (dispatch c e) (dispatch (c.without .documentation) e) s.popped := by
    rintro _ e es ⟨n, rfl⟩ hcons
    refine ⟨⟨n + 1, rfl⟩, dispatch_follows hl hw (faithful_after hw t seeds n).popped
      (State.after_sound hs.blank.sound n) ?_⟩
    rintro y o node kind signature rfl
    obtain ⟨m, hm, rfl, -⟩ := exists_fits_of_cons hl hs hcons
    exact ⟨m.id, rfl, State.stands_of_mem_walk hm⟩
  have hother := workOff_alike (d := c.without .documentation) (f := State.uncommented)
    (fun _ ↦ ⟨rfl, rfl⟩) hstep ⟨0, rfl⟩ hloop
  have hstart : (State.start w t seeds).uncommented = State.start w t seeds := rfl
  rw [Follows, hstart, compile_of_workOff hloop, compile_of_workOff hother]
  cases x <;> rfl

/-- Without documentation, the library's listeners are the same but for the one that documents. -/
theorem Listener.chosen_without_documentation (config : Config) :
    (Listener.chosen { config with includeDoc := false }).entries =
      (Listener.chosen { config with includeDoc := true }).entries.filter
        fun l ↦ l.2 ≠ .documentation := by
  simp only [chosen]
  rw [List.filter_filter]
  refine List.filter_congr fun l _ ↦ ?_
  have henabled : Config.isEnabled { config with includeDoc := false } l.1
      = Config.isEnabled { config with includeDoc := true } l.1 := rfl
  rw [henabled]
  by_cases hdoc : l.2 = .documentation
  · simp [hdoc]
  · simp [hdoc]

theorem Setting.ofConfig_without_documentation (unit : SourceUnit) (payload bootstrap : SymbolSet)
    (config : Config) :
    ofConfig unit payload bootstrap { config with includeDoc := false } none =
      (ofConfig unit payload bootstrap { config with includeDoc := true } none).map
        fun c ↦ c.without .documentation := by
  have hlisteners : Listener.chosen { config with includeDoc := false } =
      ⟨(Listener.chosen { config with includeDoc := true }).entries.filter
        fun l ↦ l.2 ≠ .documentation⟩ :=
    congrArg Registry.mk (Listener.chosen_without_documentation config)
  simp only [ofConfig, Option.getD_none]
  rw [hlisteners]
  cases Config.symbols config.ignoredSymbols with
  | error e => rfl
  | ok ignored => cases Config.symbols config.terminalSuperclasses <;> rfl

theorem Setting.ofConfig_listeners {unit : SourceUnit} {payload bootstrap : SymbolSet}
    {config : Config} (h : ofConfig unit payload bootstrap config none = .ok c) :
    c.listeners.entries.Sublist Listener.defaults := by
  simp only [ofConfig] at h
  cases hignored : Config.symbols config.ignoredSymbols with
  | error e =>
    rw [hignored] at h
    cases h
  | ok ignored =>
    cases hterminal : Config.symbols config.terminalSuperclasses with
    | error e =>
      rw [hignored, hterminal] at h
      cases h
    | ok terminal =>
      rw [hignored, hterminal] at h
      cases h
      exact Listener.chosen_sublist config

/-- A class with a method, both of which say what they are for. -/
def documentedUniverse : UniverseDeclaration where
  modules := [{ name := "pkg", file := some "/srv/pkg.src", members := [("C", .reference "C")] }]
  objects := [("C", .class
    { name := "C", qualname := "C", module := some "pkg", doc := some "Starts things." } []
    [("run", .function
      { name := "run", qualname := "C.run", module := some "pkg", doc := some "Starts one thing."
        file := some "/srv/pkg.src" } [] [] .absent .absent)] .absent false)]

/-- The world of this class. -/
def documentedWorld : World :=
  (State.startOf documentedUniverse []).world

/-- The unit is the module, and documentation is asked for. -/
def documentedSetting : Setting :=
  { Setting.plain ⟨"pkg", [⟨["srv"]⟩]⟩ with ignored := alwaysIgnored }

end DeclClosure.Closure

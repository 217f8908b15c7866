import DeclClosure.Proofs.Closure.Origins

/-!
# Callables come from the unit

A listener lists what it finds among the callables of an announced scope, of the unit or outside of
it, when the code of the callable lies in the unit. It looks at the namespace once, and asks for the
code of each callable when its turn comes; meanwhile the world may have evolved, since signatures are
asked for.

No other listener lists callables (`Acts.accounts`), and nothing else makes one. So every callable of
the tree was found like this, in the step that worked off the announcement of its owner
(`everywhere_fromUnit`).
-/

namespace DeclClosure.Closure

/-- The property of nodes is one of callables: it depends on nothing but the name, the owner and the
kind, and other nodes have it anyway. -/
structure Node.OfCallables (P : Node → Prop) : Prop where
  /-- Other nodes have it. -/
  other : ∀ m, m.callable? = none → P m
  /-- It depends on nothing else. -/
  same : ∀ m m' : Node, m'.callable? = m.callable? → m'.name = m.name → P m → P m'

/-- The node is a callable of the announced object. It was found there in a world after `w`, and its
code was found in the unit in a later world before `v`. -/
def Announcement.Finds (c : Setting) (a : Announcement) (w v : World) (m : Node) : Prop :=
  ∃ kind callable u u' file, m.callable? = some (a.name, kind) ∧ w.Evolves u ∧
    (m.name, callable, kind) ∈ u.methodsOf a.value ∧ u.Evolves u' ∧
      u'.sourceFile? callable = some file ∧ c.unit.contains file ∧ u'.Evolves v

/-- The world has evolved from `v`, and every node has the property or is a callable that has been
found since `w`. -/
structure State.Accounts (c : Setting) (a : Announcement) (P : Node → Prop) (w v : World) (s : State) :
    Prop where
  /-- The world has evolved. -/
  world : v.Evolves s.world
  /-- Every node is accounted for. -/
  tree : s.tree.Everywhere fun m ↦ P m ∨ a.Finds c w s.world m

variable {c c' : Setting} {a : Announcement} {s t : State} {n : Nat} {m m' : Node} {w v u : World}
  {P : Node → Prop}

theorem Node.OfCallables.shallow (hP : Node.OfCallables P) : Node.IsShallow P :=
  fun h f cs ds hself ↦ hP.same (.scope h f cs) (.scope h f ds) rfl rfl hself

theorem Announcement.Finds.same (hcallable : m'.callable? = m.callable?) (hname : m'.name = m.name)
    (h : a.Finds c w v m) : a.Finds c w v m' := by
  simp only [Finds]
  rwa [hcallable, hname]

theorem Announcement.Finds.mono (hv : v.Evolves u) (h : a.Finds c w v m) : a.Finds c w u m := by
  obtain ⟨kind, callable, x, x', file, hkind, hx, hmem, hx', hfile, hunit, hlast⟩ := h
  exact ⟨kind, callable, x, x', file, hkind, hx, hmem, hx', hfile, hunit, hlast.trans hv⟩

theorem Announcement.isShallow_finds (hP : Node.OfCallables P) :
    Node.IsShallow fun m ↦ P m ∨ a.Finds c w v m :=
  fun h f cs ds hself ↦ hself.imp (hP.shallow h f cs ds) (Announcement.Finds.same rfl rfl)

namespace State.Accounts

/-- The world evolves further. -/
theorem learn (h : s.Accounts c a P w v) (hu : s.world.Evolves u) :
    (s.learn u).Accounts c a P w v :=
  ⟨h.world.trans hu, h.tree.mono fun _ hm ↦ hm.imp_right (Announcement.Finds.mono hu)⟩

end State.Accounts

/-- Listeners that list no callables leave those alone that there are. -/
theorem Acts.accounts (hP : Node.OfCallables P) (hlists : ¬c'.ListsMethods) (h : Acts c' a s t)
    (hs : s.Accounts c a P w v) : t.Accounts c a P w v := by
  refine ⟨hs.world.trans h.evolves, h.everywhere (Announcement.isShallow_finds hP) ?_ ?_
    (hs.tree.mono fun _ hm ↦ hm.imp_right (Announcement.Finds.mono h.evolves))⟩
  · intro _ names f m _ _ _ _ hf _ hm
    have hname : (f m).name = m.name := congrArg Badge.name (hf.dresses m).1
    exact hm.imp (hP.same m _ (hf.callable m) hname) (Announcement.Finds.same (hf.callable m) hname)
  · intro _ _ name d _ hd
    cases hd with
    | member _ hmember _ => exact .inl (hP.other _ (Node.callable?_of_isMember hmember _))
    | callable _ _ hmethods => exact absurd hmethods hlists

namespace Run

/-- A callable is listed whose code lies in the unit. -/
theorem addMethod_accounts (hP : Node.OfCallables P) {name : String} {callable : Object}
    {kind : MethodKind} (hv : w.Evolves v) (hmem : (name, callable, kind) ∈ v.methodsOf a.value)
    (hs : s.Accounts c a P w v) (hmethod : c.hasMethod s.world callable) :
    (addMethod a name callable kind s).2.Accounts c a P w v := by
  obtain ⟨file, hfile, hunit⟩ := (Option.any_eq_true _ _).mp hmethod
  obtain ⟨u, hu, hask⟩ := ask_learns (Query.signature?_moves callable) s
  have hlearnt : (s.learn u).Accounts c a P w v := hs.learn hu
  simp only [addMethod]
  rw [run_bind]
  rcases hrun : ask (Query.signature? callable) s with ⟨e | signature, t⟩
  · rw [hrun] at hask
    obtain rfl : t = s.learn u := hask
    exact hlearnt
  · rw [hrun] at hask
    obtain rfl : t = s.learn u := hask
    dsimp only
    rw [run_get_bind, run_bind]
    rcases addChild_cases a (fun id ↦ .leaf ⟨id, name, []⟩ (.method {
      owner := a.name
      params := listedParams signature
      signature := (signature.map (s.learn u).world.signatureText).getD "(*args, **kwargs)"
      kind })) (s.learn u) with ⟨f, hadd⟩ | ⟨scope, hshows, hadd⟩
    · rw [hadd]
      exact hlearnt
    · rw [hadd]
      refine ⟨hlearnt.world, ?_⟩
      exact hlearnt.tree.addUnder (Announcement.isShallow_finds hP) _ rfl
        (.inr ⟨kind, callable, v, s.world, file, rfl, hv, hmem, hs.world, hfile, hunit, hu⟩)

/-- The listener that lists callables only lists those whose code lies in the unit. -/
theorem addMethods_accounts (hP : Node.OfCallables P) :
    Moves (Keeps (State.Accounts c a P w w)) (addMethods c a) := by
  intro s hs
  simp only [addMethods]
  rw [run_get_bind]
  -- from here on the world is one after that in which the namespace was looked at
  have hback {t : State} (ht : State.Accounts c a P w s.world t) : State.Accounts c a P w w t :=
    ⟨hs.world.trans ht.world, ht.tree⟩
  refine hback (Moves.forM (R := Keeps (State.Accounts c a P w s.world)) ?_ s
    ⟨refl_of World.Evolves s.world, hs.tree⟩)
  rintro ⟨name, callable, kind⟩ hmem t ht
  dsimp only
  rw [run_get_bind]
  split
  · next hmethod => exact addMethod_accounts hP hs.world hmem ht hmethod
  · exact ht

theorem tell_accounts (hP : Node.OfCallables P) {l : String × Listener} (hl : l ∈ c.listeners.entries) :
    Moves (Keeps (State.Accounts c a P w w)) (tell c a l.1 l.2) := by
  by_cases hmethods : l.2 = .methods
  · rw [hmethods]
    simp only [tell]
    split
    · exact Moves.pure _
    · split
      · next heq => cases heq
      · exact addMethods_accounts hP
      · exact Moves.pure _
      · exact Moves.pure _
  · exact fun s hs ↦ Acts.accounts hP (c.not_mem_without .methods) (tell_acts_of_ne hl hmethods s) hs

end Run

/-- If the node is a callable, it was found among those of an object, and its code was found in the
unit, when the announcement of that object was worked off, under the name of its owner and within `n`
events. -/
def FromUnit (c : Setting) (s : State) (n : Nat) (m : Node) : Prop :=
  ∀ owner kind, m.callable? = some (owner, kind) → ∃ k < n, ∃ o node found signature es,
    (s.after c k).queue.items = .node owner o node found signature :: es ∧
      ∃ callable u v file, (s.after c k).world.Evolves u ∧
        (m.name, callable, kind) ∈ u.methodsOf o ∧ u.Evolves v ∧
          v.sourceFile? callable = some file ∧ c.unit.contains file ∧
            v.Evolves (s.after c (k + 1)).world

theorem ofCallables_fromUnit : Node.OfCallables (FromUnit c s n) := by
  refine ⟨fun m hnone owner kind hsome ↦ ?_, fun m m' hcallable hname hm owner kind hsome ↦ ?_⟩
  · rw [hnone] at hsome
    cases hsome
  · rw [hcallable] at hsome
    rw [hname]
    exact hm owner kind hsome

theorem FromUnit.succ (h : FromUnit c s n m) : FromUnit c s (n + 1) m := by
  intro owner kind hsome
  obtain ⟨k, hk, hrest⟩ := h owner kind hsome
  exact ⟨k, Nat.lt_succ_of_lt hk, hrest⟩

/-- Every callable of a run comes from the unit. -/
theorem everywhere_fromUnit (hb : s.Blank) (n : Nat) :
    (s.after c n).tree.Everywhere (FromUnit c s n) := by
  refine everywhere_after (Q := FromUnit c s) hb.tree (fun _ ↦ ofCallables_fromUnit.shallow)
    (fun _ _ ↦ FromUnit.succ) ?_ ?_ n
  · intro n name o node found signature es hcons _ hearlier
    have hstart : (s.after c n).popped.Accounts c ⟨name, o, node, found, signature⟩
        (FromUnit c s (n + 1)) (s.after c n).world (s.after c n).world :=
      ⟨refl_of World.Evolves (s.after c n).world, hearlier.mono fun _ hm ↦ .inl hm⟩
    have hend := (Moves.forM fun l hl ↦ Run.tell_accounts ofCallables_fromUnit hl) _ hstart
    have hnext : (s.after c (n + 1)).Accounts c ⟨name, o, node, found, signature⟩
        (FromUnit c s (n + 1)) (s.after c n).world (s.after c n).world := by
      show ((s.after c n).next c).Accounts c _ _ _ _
      rw [State.next_of_cons hcons]
      exact hend
    refine hnext.tree.mono fun m hm ↦ hm.elim id ?_
    rintro ⟨kind, callable, u, v, file, hkind, hu, hmem, hv, hfile, hunit, hlast⟩ owner kind' hsome
    rw [hkind] at hsome
    cases hsome
    exact ⟨n, Nat.lt_succ_self n, o, node, found, signature, es, hcons, callable, u, v, file, hu,
      hmem, hv, hfile, hunit, hlast⟩
  · -- what a verdict makes is no callable
    intro n kind x o verdict _ _ m _ _ hstem _
    refine ofCallables_fromUnit.other m (Option.not_isSome_iff_eq_none.mp fun hsome ↦ ?_)
    rw [Node.stem_of_callable hsome] at hstem
    exact verdict.stem?_ne_member hstem

end DeclClosure.Closure

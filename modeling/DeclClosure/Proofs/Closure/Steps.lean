import DeclClosure.Proofs.Closure.Acts
import DeclClosure.Universe.Declaration.Universe

/-!
# Steps and runs

What working off one event does, said once for each class of events (`Step`): a symbol is looked up,
a found object has an `Outcome`, and the announcement of a node sets off acts of listeners. A run is
the sequence of states that `State.after` goes through. The loop that works off all events stops in
one of them, with nothing pending unless the last event failed (`Run.workOff_eq_some`).
-/

namespace DeclClosure.Closure

/-- What working off an event may lead to from a state without it, as the answer and the state that
are left. -/
inductive Step (c : Setting) (s : State) : Event → Except Failure Unit × State → Prop
  /-- The symbol is not looked up, or it leads to nothing. -/
  | missed {name : String} {r : Except Failure Unit × State} (w : World) : s.world.Evolves w →
      (c.skipsSymbol (Name.stripRoot name) ∨
        ∀ o v, Query.resolve (Name.stripRoot name) s.world ≠ (.ok (some o), v)) →
      r.2 = s.learn w → Step c s (.symbol name) r
  /-- The symbol leads to an object. -/
  | resolved {name : String} {r : Except Failure Unit × State} (w : World) (o : Object) :
      s.world.Evolves w → Query.resolve (Name.stripRoot name) s.world = (.ok (some o), w) →
      r.2 = (s.learn w).push (.constant (Name.stripRoot name) o) → Step c s (.symbol name) r
  /-- An object of the unit was found. -/
  | constant {name : String} {o : Object} {r : Except Failure Unit × State} :
      Outcome .scope (Run.judgeConstant c (Name.stripRoot name) o) (Name.stripRoot name) o s r →
      Step c s (.constant name o) r
  /-- An object outside of the unit was found. -/
  | foreign {name : String} {o : Object} {r : Except Failure Unit × State} :
      Outcome .foreignScope (Run.judgeForeign c o) (Name.stripRoot name) o s r →
      Step c s (.foreignConstant name o) r
  /-- A node is announced. -/
  | node {name : String} {o : Object} {node : Option NodeId} {kind : NodeKind}
      {signature : Option Signature} {r : Except Failure Unit × State} :
      Acts c ⟨name, o, node, kind, signature⟩ s r.2 → Step c s (.node name o node kind signature) r
  /-- There is no rule for an event that says nothing. -/
  | bare : Step c s .bare (.error (.unsupportedEvent .bare), s)

namespace Run

theorem dispatch_step (c : Setting) (e : Event) (s : State) : Step c s e (dispatch c e s) := by
  cases e with
  | symbol name =>
    obtain ⟨w, hw, ⟨hmissed, hs⟩ | ⟨o, hresolve, hs⟩⟩ := onSymbol_cases c name s
    · exact .missed w hw hmissed hs
    · exact .resolved w o hw hresolve hs
  | constant name o => exact .constant (onConstant_outcome (judgeConstant_learns c) name o s)
  | foreignConstant name o =>
    exact .foreign (onConstant_outcome (fun _ ↦ judgeForeign_learns c) name o s)
  | node name o node kind signature => exact .node (dispatch_acts s)
  | bare => exact .bare

end Run

namespace State

/-- The state without its oldest event. -/
def popped (s : State) : State :=
  { s with queue := ⟨s.queue.items.tail⟩ }

theorem next_of_nil {c : Setting} {s : State} (h : s.queue.items = []) : s.next c = s := by
  simp only [next, Queue.pop?]
  rw [h]

theorem next_of_cons {c : Setting} {s : State} {e : Event} {es : List Event}
    (h : s.queue.items = e :: es) : s.next c = (Run.dispatch c e s.popped).2 := by
  simp only [next, Queue.pop?, popped]
  rw [h]
  rfl

/-- Either nothing is pending, or the oldest event is worked off. -/
theorem next_cases (c : Setting) (s : State) :
    (s.queue.items = [] ∧ s.next c = s) ∨
      ∃ e es r, s.queue.items = e :: es ∧ Run.dispatch c e s.popped = r ∧ Step c s.popped e r
        ∧ s.next c = r.2 := by
  cases h : s.queue.items with
  | nil => exact .inl ⟨rfl, next_of_nil h⟩
  | cons e es =>
    exact .inr ⟨e, es, _, rfl, rfl, Run.dispatch_step c e s.popped, next_of_cons h⟩

theorem after_next (c : Setting) (s : State) (n : Nat) :
    (s.next c).after c n = s.after c (n + 1) := by
  induction n with
  | zero => rfl
  | succ n ih =>
    show ((s.next c).after c n).next c = (s.after c (n + 1)).next c
    rw [ih]

/-- When nothing is pending any more, the state stays as it is. -/
theorem after_of_nil {c : Setting} {s : State} {n m : Nat} (h : (s.after c n).queue.items = [])
    (hle : n ≤ m) : s.after c m = s.after c n := by
  obtain ⟨k, rfl⟩ := Nat.exists_eq_add_of_le hle
  clear hle
  induction k with
  | zero => rfl
  | succ k ih =>
    show (s.after c (n + k)).next c = _
    rw [ih, next_of_nil h]

/-- Some event is pending, and working off the oldest one does not fail. -/
def advances (c : Setting) (s : State) : Bool :=
  s.queue.items.head?.any fun e ↦ (Run.dispatch c e s.popped).1.isOk

/-- An announcement that is worked off without a failure is one of which all listeners were told. -/
theorem dispatch_of_advances {c : Setting} {s : State} {name : String} {o : Object}
    {node : Option NodeId} {kind : NodeKind} {signature : Option Signature} {es : List Event}
    (hcons : s.queue.items = .node name o node kind signature :: es) (h : s.advances c) :
    c.listeners.dispatch (Run.tell c ⟨name, o, node, kind, signature⟩) s.popped
      = (.ok (), s.next c) := by
  simp only [advances] at h
  rw [hcons] at h
  have hok : (c.listeners.dispatch (Run.tell c ⟨name, o, node, kind, signature⟩) s.popped).1.isOk := h
  rw [next_of_cons hcons]
  show _ = (_, (c.listeners.dispatch (Run.tell c ⟨name, o, node, kind, signature⟩) s.popped).2)
  rcases hrun : c.listeners.dispatch (Run.tell c ⟨name, o, node, kind, signature⟩) s.popped with
    ⟨f | ⟨⟩, v⟩
  · rw [hrun] at hok
    cases hok
  · rfl

/-- What holds at the start and is preserved by every step holds all along a run. -/
theorem after_induction {c : Setting} {s : State} {P : State → Prop} (hstart : P s)
    (hnext : ∀ t, P t → P (t.next c)) (n : Nat) : P (s.after c n) := by
  induction n with
  | zero => exact hstart
  | succ n ih => exact hnext _ ih

/-- What a step brings and no step takes away holds in the end if it held at the start or one of the
steps has brought it. -/
theorem after_iff {c : Setting} {s : State} {P Q : State → Prop}
    (hnext : ∀ k, P ((s.after c k).next c) ↔ P (s.after c k) ∨ Q (s.after c k)) (n : Nat) :
    P (s.after c n) ↔ P s ∨ ∃ k < n, Q (s.after c k) := by
  induction n with
  | zero => exact (or_iff_left fun ⟨_, hk, _⟩ ↦ Nat.not_lt_zero _ hk).symm
  | succ n ih =>
    show P ((s.after c n).next c) ↔ _
    rw [hnext, ih, Nat.exists_lt_succ_right, or_assoc]

end State

namespace Run

theorem workOff_of_nil {c : Setting} {done : Nat} {s : State} (h : s.queue.items = []) :
    workOff c done s = some (.ok done, s) := by
  rw [workOff]
  simp only [Queue.pop?]
  rw [h]

theorem workOff_of_cons {c : Setting} {done : Nat} {s : State} {e : Event} {es : List Event}
    (h : s.queue.items = e :: es) :
    workOff c done s = match dispatch c e s.popped with
      | (.ok (), t) => workOff c (done + 1) t
      | (.error f, t) => some (.error f, t) := by
  rw [workOff]
  simp only [Queue.pop?, State.popped]
  rw [h]
  rfl

/-- What the loop comes to, by induction on the events that it works off. -/
theorem workOff_induction {c : Setting} {motive : Nat → State → Except Failure Nat × State → Prop}
    (nothing : ∀ done s, s.queue.items = [] → motive done s (.ok done, s))
    (failed : ∀ done s e es f t, s.queue.items = e :: es →
      dispatch c e s.popped = (.error f, t) → motive done s (.error f, t))
    (worked : ∀ done s e es t r, s.queue.items = e :: es →
      dispatch c e s.popped = (.ok (), t) → motive (done + 1) t r → motive done s r)
    {done : Nat} {s : State} {r : Except Failure Nat × State} (h : workOff c done s = some r) :
    motive done s r := by
  -- the loop is a least fixpoint: what every unfolding of its equation keeps true is true of it
  refine State.workOff.partial_correctness c motive ?_ done s r h
  intro loop ih done s r hr
  cases hs : s.queue.items with
  | nil =>
    have hpop : s.queue.pop? = none := by
      simp only [Queue.pop?]
      rw [hs]
    rw [hpop] at hr
    cases hr
    exact nothing done s hs
  | cons e es =>
    have hpop : s.queue.pop? = some (e, ⟨s.queue.items.tail⟩) := by
      simp only [Queue.pop?]
      rw [hs]
      rfl
    rw [hpop] at hr
    dsimp only at hr
    rcases hrun : dispatch c e { s with queue := ⟨s.queue.items.tail⟩ } with ⟨f | ⟨⟩, t⟩
    · rw [hrun] at hr
      cases hr
      exact failed done s e es f t hs hrun
    · rw [hrun] at hr
      exact worked done s e es t r hs hrun (ih (done + 1) t r hr)

/-- The loop stops in a state of the run. If no event failed nothing is pending there, and each
state before had an event that did not fail. -/
theorem workOff_eq_some {c : Setting} {done : Nat} {s : State} {r : Except Failure Nat × State}
    (h : workOff c done s = some r) :
    ∃ n, r.2 = s.after c n ∧ ∀ m, r.1 = .ok m →
      m = done + n ∧ r.2.queue.items = [] ∧ ∀ k < n, (s.after c k).advances c := by
  refine workOff_induction (motive := fun done s r ↦ ∃ n, r.2 = s.after c n ∧
    ∀ m, r.1 = .ok m → m = done + n ∧ r.2.queue.items = [] ∧
      ∀ k < n, (s.after c k).advances c) ?_ ?_ ?_ h
  · intro done s hs
    refine ⟨0, rfl, fun m hm ↦ ?_⟩
    cases hm
    exact ⟨rfl, hs, fun k hk ↦ absurd hk (Nat.not_lt_zero k)⟩
  · intro done s e es f t hs hrun
    refine ⟨1, ?_, fun m hm ↦ by cases hm⟩
    show t = s.next c
    rw [State.next_of_cons hs, hrun]
  · rintro done s e es t r hs hrun ⟨n, hn, hok⟩
    have hnext : s.next c = t := by rw [State.next_of_cons hs, hrun]
    refine ⟨n + 1, ?_, fun m hm ↦ ?_⟩
    · rw [hn, ← State.after_next, hnext]
    · obtain ⟨rfl, hempty, hsteps⟩ := hok m hm
      refine ⟨by omega, hempty, fun k hk ↦ ?_⟩
      cases k with
      | zero =>
        have hok : (dispatch c e s.popped).1.isOk := congrArg (fun r ↦ r.1.isOk) hrun
        show s.advances c
        simp only [State.advances]
        rw [hs]
        exact hok
      | succ k =>
        rw [← State.after_next, hnext]
        exact hsteps k (Nat.lt_of_succ_lt_succ hk)

end Run

/-! ### Runs that are computed -/

/-- A state that can work off `n` events without failing and has none left then. -/
theorem Run.workOff_of_advances {c : Setting} {s : State} {n : Nat} (done : Nat)
    (hsteps : ∀ k < n, (s.after c k).advances c) (hempty : (s.after c n).queue.items = []) :
    workOff c done s = some (.ok (done + n), s.after c n) := by
  induction n generalizing s done with
  | zero => exact workOff_of_nil hempty
  | succ n ih =>
    have hfirst : s.advances c := hsteps 0 (by omega)
    simp only [State.advances] at hfirst
    cases hs : s.queue.items with
    | nil =>
      rw [hs] at hfirst
      cases hfirst
    | cons e es =>
      rw [hs] at hfirst
      have hok : (dispatch c e s.popped).1.isOk := hfirst
      rw [workOff_of_cons hs]
      rcases hrun : dispatch c e s.popped with ⟨f | _, t⟩
      · rw [hrun] at hok
        cases hok
      · have hnext : s.next c = t := by rw [State.next_of_cons hs, hrun]
        have hrest := ih (s := t) (done + 1)
          (fun k hk ↦ by rw [← hnext, State.after_next]; exact hsteps (k + 1) (by omega))
          (by rw [← hnext, State.after_next]; exact hempty)
        show workOff c (done + 1) t = _
        rw [hrest, ← hnext, State.after_next, Nat.add_right_comm, Nat.add_assoc]

/-! ### Starting points -/

/-- The setting of a unit with all listeners, where nothing belongs to the standard environment. -/
def Setting.plain (unit : SourceUnit) : Setting where
  unit
  payload := .ofNames []
  bootstrap := .ofNames []
  strictMembership := false
  ignored := []
  terminal := []
  listeners := ⟨Listener.defaults⟩

/-- The state from which some seeds are compiled in a universe as it is declared; only what could be
declared is there if something could not. -/
def State.startOf (d : UniverseDeclaration) (seeds : List String) : State :=
  match Query.newUniverse d {} with
  | (.ok (_, trackers), w) => start w trackers seeds
  | (.error _, w) => start w {} seeds

theorem State.exists_startOf_eq (d : UniverseDeclaration) (seeds : List String) :
    ∃ w trackers, startOf d seeds = start w trackers seeds := by
  simp only [startOf]
  split
  · exact ⟨_, _, rfl⟩
  · exact ⟨_, _, rfl⟩

end DeclClosure.Closure

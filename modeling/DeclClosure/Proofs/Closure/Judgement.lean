import DeclClosure.Closure.Drain
import DeclClosure.Proofs.World.Evolution

/-!
# Verdicts

What looking up a symbol and dealing with an object do to a state. A verdict is reached by questions
alone, so until it is enacted nothing but the world changes (`Run.judgeConstant_learns`), and what
becomes of a found object is one of three things (`Outcome`): it is left out, its verdict fails, or
its verdict is enacted. In the last two cases its name counts as dealt with.

A scope is made of an object only under the name that the object declares
(`Run.judgeConstant_scope`).
-/

namespace DeclClosure.Closure

/-- The state with another world. -/
def State.learn (s : State) (w : World) : State :=
  { s with world := w }

/-- From `s` to `t` nothing has changed but the world, which has evolved. -/
def State.Learns (s t : State) : Prop :=
  ∃ w, s.world.Evolves w ∧ t = s.learn w

instance : IsPreorder State State.Learns where
  refl s := ⟨s.world, refl_of World.Evolves s.world, rfl⟩
  trans := by
    rintro s _ _ ⟨w, hw, rfl⟩ ⟨v, hv, rfl⟩
    exact ⟨v, hw.trans hv, rfl⟩

namespace Run

/-- The step changes nothing but the world. -/
abbrev Learning {α : Type} (m : Run α) : Prop := Moves State.Learns m

theorem ask_learns {α : Type} {q : Query α} (hq : Query.Evolving q) : Learning (ask q) := by
  intro s
  have hs := hq s.world
  simp only [ask]
  split
  · next h => exact ⟨_, by rwa [h] at hs, rfl⟩
  · next h => exact ⟨_, by rwa [h] at hs, rfl⟩

/-- An answer is one that the world gives. -/
theorem ask_eq_ok {α : Type} {q : Query α} {s t : State} {a : α} (h : ask q s = (.ok a, t)) :
    ∃ w, q s.world = (.ok a, w) ∧ t = s.learn w := by
  simp only [ask] at h
  split at h
  · next b w hw =>
    cases h
    exact ⟨w, hw, rfl⟩
  · cases h

theorem note_learns (n : Note) : Learning (note n) :=
  Moves.modify fun s ↦ ⟨s.world.note n, .of_eq rfl rfl, rfl⟩

theorem nameOf_learns (o : Object) : Learning (nameOf o) :=
  ask_learns (Query.nameOf_moves o)

theorem definedInUnit_learns (c : Setting) (o : Object) (strict : Bool) :
    Learning (definedInUnit c o strict) := by
  refine (ask_learns (Query.definitionFiles_moves o)).bind fun files ↦ ?_
  refine Moves.get.bind fun s ↦ ?_
  dsimp only
  split <;> exact Moves.pure _

theorem classify_learns (name : String) (o : Object) : Learning (classify name o) := by
  refine Moves.get.bind fun s ↦ ?_
  split
  · exact Moves.pure _
  · refine (nameOf_learns o).bind fun n ↦ ?_
    split <;> exact Moves.pure _

theorem anonymousText_learns (name : String) (o : Object) : Learning (anonymousText name o) := by
  refine Moves.get.bind fun s ↦ ?_
  dsimp only
  split
  · exact Moves.pure _
  · exact (nameOf_learns _).bind fun _ ↦ Moves.pure _

theorem judgeAlias_learns (c : Setting) (name : String) (o : Object) :
    Learning (judgeAlias c name o) := by
  simp only [judgeAlias]
  split
  · exact Moves.pure _
  · refine (nameOf_learns o).bind fun n ↦ ?_
    split
    · exact (Moves.pure _).bind fun _ ↦ Moves.pure _
    · exact (anonymousText_learns name o).bind fun _ ↦ Moves.pure _

theorem genericName_learns (cls : Object) : Learning (genericName cls) := by
  refine (nameOf_learns cls).bind fun n ↦ ?_
  split
  · exact Moves.pure _
  · refine (ask_learns (Query.typeParameters_moves cls)).bind fun params ↦ ?_
    split <;> exact Moves.pure _

theorem classText_learns (cls : Object) : Learning (classText cls) := by
  simp only [classText]
  split
  · exact Moves.pure _
  · exact genericName_learns cls

theorem judgeValue_learns (c : Setting) (name : String) (o : Object) :
    Learning (judgeValue c name o) := by
  rw [judgeValue]
  split
  · exact Moves.pure _
  · refine Moves.get.bind fun s ↦ ?_
    dsimp only
    split
    · exact Moves.pure _
    · split
      · exact (ask_learns (Query.typeText_moves o)).bind fun _ ↦ Moves.pure _
      · refine (classText_learns _).bind fun text ↦ ?_
        split <;> exact Moves.pure _

theorem verifiedSuperclass_learns (fuel : Nat) (o : Object) :
    Learning (verifiedSuperclass fuel o) := by
  induction fuel generalizing o with
  | zero => exact Moves.pure _
  | succ fuel ih =>
    refine Moves.get.bind fun s ↦ ?_
    split
    · exact Moves.pure _
    · refine (nameOf_learns o).bind fun name ↦ ?_
      refine (nameOf_learns _).bind fun superclassName ↦ ?_
      split
      · exact ih _
      · refine (ask_learns (Query.resolve_moves _)).bind fun found ↦ ?_
        split
        · exact ih _
        · refine Moves.get.bind fun s ↦ ?_
          split
          · exact ih _
          · refine (nameOf_learns _).bind fun foundName ↦ ?_
            split
            · exact ih _
            · exact Moves.pure _

theorem superclassName_learns (c : Setting) (o : Object) : Learning (superclassName c o) := by
  refine Moves.get.bind fun s ↦ ?_
  refine (verifiedSuperclass_learns _ o).bind fun superclass ↦ ?_
  split
  · exact Moves.pure _
  · split
    · exact Moves.pure _
    · refine (nameOf_learns _).bind fun name ↦ ?_
      split
      · exact Moves.pure _
      · exact (nameOf_learns _).bind fun _ ↦ Moves.pure _

theorem judgeScope_learns (c : Setting) (o : Object) : Learning (judgeScope c o) := by
  refine Moves.get.bind fun s ↦ ?_
  split
  · exact (superclassName_learns c o).bind fun _ ↦ Moves.pure _
  · exact Moves.pure _

theorem judgeNamespace_learns (c : Setting) (name : String) (o : Object) :
    Learning (judgeNamespace c name o) := by
  refine Moves.get.bind fun s ↦ ?_
  split
  · exact Moves.pure _
  · refine (definedInUnit_learns c o _).bind fun defined ↦ ?_
    split
    · exact judgeScope_learns c o
    · exact (note_learns _).bind fun _ ↦ Moves.pure _

theorem judgeConstant_learns (c : Setting) (name : String) (o : Object) :
    Learning (judgeConstant c name o) := by
  refine (classify_learns name o).bind fun kind ↦ ?_
  split
  · exact judgeAlias_learns c name o
  · exact judgeNamespace_learns c name o
  · exact judgeValue_learns c name o

theorem judgeForeign_learns (c : Setting) (o : Object) : Learning (judgeForeign c o) := by
  refine Moves.get.bind fun s ↦ ?_
  split
  · exact Moves.pure _
  · exact judgeScope_learns c o

/-! ### Scopes bear declared names -/

/-- A name that still stands for an object is the one that the object declares. -/
theorem nameOf_eq_some {o : Object} {name : String} {s t : State}
    (h : nameOf o s = (.ok (some name), t)) : s.world.canonicalName? o = some name := by
  obtain ⟨w, hw, -⟩ := ask_eq_ok h
  exact Query.canonicalName?_of_nameOf hw

theorem classify_scope {name : String} {o : Object} {s t : State}
    (h : classify name o s = (.ok .scope, t)) : ∃ u, nameOf o s = (.ok (some name), u) := by
  simp only [classify] at h
  rw [run_get_bind] at h
  split at h
  · cases h
  · obtain ⟨n, u, hn, hrest⟩ := run_bind_eq_ok_iff.mp h
    split at hrest
    · next heq =>
      exact ⟨u, beq_iff_eq.mp heq ▸ hn⟩
    · cases hrest

end Run

/-- The verdict makes no scope. -/
def Verdict.MakesNoScope (v : Verdict) : Prop :=
  ∀ k, v ≠ .scope k

/-- The verdict makes neither a scope nor an alias. -/
def Verdict.IsPlain : Verdict → Prop
  | .drop _ | .const _ _ _ => True
  | .alias _ _ | .scope _ => False

namespace Run

theorem judgeAlias_noScope (c : Setting) (name : String) (o : Object) :
    Yields Verdict.MakesNoScope (judgeAlias c name o) := by
  simp only [judgeAlias]
  split
  · exact Yields.pure nofun
  · refine Yields.bind fun n ↦ ?_
    split
    · exact Yields.bind fun _ ↦ Yields.pure nofun
    · exact Yields.bind fun _ ↦ Yields.pure nofun

theorem judgeValue_plain (c : Setting) (name : String) (o : Object) :
    Yields Verdict.IsPlain (judgeValue c name o) := by
  rw [judgeValue]
  split
  · exact Yields.pure trivial
  · refine Yields.bind fun s ↦ ?_
    dsimp only
    split
    · exact Yields.pure trivial
    · split
      · exact Yields.bind fun _ ↦ Yields.pure trivial
      · refine Yields.bind fun text ↦ ?_
        split <;> exact Yields.pure trivial

/-- A scope is made of an object of the unit only under the name that still stands for the object. -/
theorem nameOf_of_judgeConstant {c : Setting} {name : String} {o : Object} {s t : State}
    {k : ScopeKind} (h : judgeConstant c name o s = (.ok (.scope k), t)) :
    ∃ u, nameOf o s = (.ok (some name), u) := by
  obtain ⟨kind, u, hkind, hrest⟩ := run_bind_eq_ok_iff.mp h
  -- no scope is made of an alias or of a value
  cases kind
  · exact classify_scope hkind
  · exact absurd rfl (judgeAlias_noScope c name o u _ t hrest k)
  · exact (judgeValue_plain c name o u _ t hrest).elim

/-- This is the name that the object declares. -/
theorem judgeConstant_scope {c : Setting} {name : String} {o : Object} {s t : State}
    {k : ScopeKind} (h : judgeConstant c name o s = (.ok (.scope k), t)) :
    s.world.canonicalName? o = some name := by
  obtain ⟨u, hname⟩ := nameOf_of_judgeConstant h
  exact nameOf_eq_some hname

/-! ### Symbols and found objects -/

/-- What looking up a symbol comes to: the object that the name stands for is passed on, unless the
symbol is not looked up or stands for nothing. -/
theorem onSymbol_cases (c : Setting) (name : String) (s : State) :
    ∃ w, s.world.Evolves w ∧
      (((c.skipsSymbol (Name.stripRoot name) ∨
          ∀ o v, Query.resolve (Name.stripRoot name) s.world ≠ (.ok (some o), v)) ∧
        (onSymbol c name s).2 = s.learn w) ∨
      ∃ o, Query.resolve (Name.stripRoot name) s.world = (.ok (some o), w) ∧
        (onSymbol c name s).2 = (s.learn w).push (.constant (Name.stripRoot name) o)) := by
  simp only [onSymbol]
  split
  · next hskips =>
    obtain ⟨w, hw, ht⟩ := note_learns (.payloadSymbol (Name.stripRoot name)) s
    exact ⟨w, hw, .inl ⟨.inl hskips, ht⟩⟩
  · have hmoves := Query.resolve_moves (Name.stripRoot name) s.world
    rw [run_bind]
    simp only [ask]
    rcases hrun : Query.resolve (Name.stripRoot name) s.world with ⟨r | _ | o, w⟩
    · rw [hrun] at hmoves
      exact ⟨w, hmoves, .inl ⟨.inr nofun, rfl⟩⟩
    · rw [hrun] at hmoves
      obtain ⟨v, hv, hnote⟩ := note_learns (.unresolved (Name.stripRoot name)) (s.learn w)
      exact ⟨v, hmoves.trans hv, .inl ⟨.inr nofun, hnote⟩⟩
    · rw [hrun] at hmoves
      exact ⟨w, hmoves, .inr ⟨o, rfl, rfl⟩⟩

end Run

/-- An object is taken up iff its name is proper, is not closed, was not dealt with, and it is no
member of an enumeration. -/
theorem State.skipReason?_eq_none_iff {s : State} {name : String} {o : Object} :
    s.skipReason? name o = none ↔
      ¬Text.isBlankText name ∧ ¬(name.toList.any fun c ↦ c = '<' ∨ c = '>') ∧
        ¬(Text.isLowerCase (Name.leaf name) && !isModuleDefinition s.world name o) ∧
          ¬s.isAliased name ∧ name ∉ s.seen ∧ ¬s.world.isEnumMember o := by
  rw [← List.contains_iff_mem (a := name)]
  simp only [State.skipReason?]
  repeat' split
  all_goals simp_all

/-- No name is dealt with twice. -/
theorem State.not_mem_seen {s : State} {name : String} {o : Object}
    (h : s.skipReason? name o = none) : name ∉ s.seen :=
  (skipReason?_eq_none_iff.mp h).2.2.2.2.1

theorem State.mem_seen_of_skipReason? {s : State} {name : String} {o : Object}
    (h : s.skipReason? name o = some .seen) : name ∈ s.seen := by
  simp only [State.skipReason?] at h
  repeat' split at h
  · cases h
  · cases h
  · cases h
  · cases h
  · next hmem => exact List.contains_iff_mem.mp hmem
  · cases h
  · cases h

/-- What becomes of an object that was found under a name, as the answer and the state that are
left. -/
inductive Outcome (kind : NodeKind) (judge : Run Verdict) (name : String) (o : Object) (s : State) :
    Except Failure Unit × State → Prop
  /-- It is left out. -/
  | skipped (reason : SkipReason) : s.skipReason? name o = some reason →
      Outcome kind judge name o s (.ok (), s.note (.skippedConstant name reason.text))
  /-- It is taken up, but there is no verdict on it. -/
  | failed (f : Failure) (w : World) : s.skipReason? name o = none → s.world.Evolves w →
      judge (s.markSeen name) = (.error f, (s.markSeen name).learn w) →
      Outcome kind judge name o s (.error f, (s.markSeen name).learn w)
  /-- It is taken up, and the verdict on it is enacted. -/
  | enacted (v : Verdict) (w : World) : s.skipReason? name o = none → s.world.Evolves w →
      judge (s.markSeen name) = (.ok v, (s.markSeen name).learn w) →
      Outcome kind judge name o s (.ok (), ((s.markSeen name).learn w).enact kind name o v)

namespace Run

theorem onConstant_outcome {kind : NodeKind} {judge : String → Object → Run Verdict}
    (hjudge : ∀ name o, Learning (judge name o)) (name : String) (o : Object) (s : State) :
    Outcome kind (judge (Name.stripRoot name) o) (Name.stripRoot name) o s
      (onConstant kind judge name o s) := by
  simp only [onConstant]
  rw [run_get_bind]
  cases hskip : s.skipReason? (Name.stripRoot name) o with
  | some reason => exact .skipped reason hskip
  | none =>
    obtain ⟨w, hw, ht⟩ := hjudge (Name.stripRoot name) o (s.markSeen (Name.stripRoot name))
    have hbind : ∀ f : Unit → Run Unit, ((modify fun s ↦ s.markSeen (Name.stripRoot name)) >>= f) s
        = f () (s.markSeen (Name.stripRoot name)) := fun _ ↦ rfl
    dsimp only
    rw [hbind, run_bind]
    -- the name counts as dealt with from here on, even if the verdict fails
    rcases hrun : judge (Name.stripRoot name) o (s.markSeen (Name.stripRoot name)) with ⟨f | v, t⟩
    · rw [hrun] at ht
      obtain rfl : t = _ := ht
      exact .failed f w hskip hw hrun
    · rw [hrun] at ht
      obtain rfl : t = _ := ht
      exact .enacted v w hskip hw hrun

end Run

end DeclClosure.Closure

import DeclClosure.Proofs.Closure.History

/-!
# Closed namespaces

The namespace below an alias is closed when the alias is taken up, whether the alias itself is
declared or ignored; nothing else closes a namespace (`mem_aliases_after_iff`). A namespace is never
opened again, so from then on no name below it is taken up: not by an event that was pending when it
was closed, and not by one that came later (`not_takenUp_of_closed`). Hence no such name is counted
as dealt with and no node is announced under one, if it was not before
(`namespace_stays_closed`).

Names are compared with the point at the end, so a name that only begins like that of an alias goes
on as it would have (`State.skipReason?_closeNamespace`).
-/

namespace DeclClosure

namespace Name

/-- A name that begins like a scope is below it iff a point comes next. -/
theorem startsWith_namespacePrefix_append {scope rest : String} :
    startsWith (namespacePrefix scope) (scope ++ rest) ↔ rest.toList.head? = some '.' := by
  rw [startsWith_iff, namespacePrefix, String.toList_append, String.toList_append,
    List.prefix_append_right_inj]
  cases rest.toList with
  | nil => exact ⟨fun h ↦ absurd (List.prefix_nil.mp h) (List.cons_ne_nil '.' []), nofun⟩
  | cons c cs =>
    rw [show ".".toList = ['.'] from rfl, List.cons_prefix_cons, List.head?_cons]
    exact ⟨fun h ↦ congrArg some h.1.symm, fun h ↦ ⟨(Option.some.inj h).symm, List.nil_prefix⟩⟩

theorem namespacePrefix_injective : Function.Injective namespacePrefix := by
  intro a b h
  have hlist := congrArg String.toList h
  rw [namespacePrefix, namespacePrefix, String.toList_append, String.toList_append] at hlist
  exact String.toList_injective (List.append_cancel_right hlist)

end Name

namespace Closure

open DeclClosure.Tree (mem_badges_of_mem_walk)

variable {c : Setting} {s t : State} {n : Nat} {ns x : String}

/-! ### Closing one namespace -/

theorem State.mem_aliases_closeNamespace {name : String} :
    ns ∈ (s.closeNamespace name).aliases ↔ ns ∈ s.aliases ∨ ns = Name.namespacePrefix name := by
  simp only [State.closeNamespace]
  split
  · next hmem =>
    refine ⟨.inl, ?_⟩
    rintro (h | rfl)
    · exact h
    · exact List.contains_iff_mem.mp hmem
  · show ns ∈ s.aliases ++ [Name.namespacePrefix name] ↔ _
    rw [List.mem_append, List.mem_singleton]

theorem State.isAliased_iff : s.isAliased x ↔ ∃ ns ∈ s.aliases, Name.startsWith ns x := by
  simp only [State.isAliased]
  exact List.any_eq_true

theorem State.isAliased_closeNamespace {name : String} :
    (s.closeNamespace name).isAliased x ↔
      s.isAliased x ∨ Name.startsWith (Name.namespacePrefix name) x := by
  rw [State.isAliased_iff, State.isAliased_iff]
  constructor
  · rintro ⟨ns, hns, hx⟩
    rcases State.mem_aliases_closeNamespace.mp hns with hns | rfl
    · exact .inl ⟨ns, hns, hx⟩
    · exact .inr hx
  · rintro (⟨ns, hns, hx⟩ | hx)
    · exact ⟨ns, State.mem_aliases_closeNamespace.mpr (.inl hns), hx⟩
    · exact ⟨_, State.mem_aliases_closeNamespace.mpr (.inr rfl), hx⟩

/-- What is not below a name is left out or not as if its namespace had not been closed. -/
theorem State.skipReason?_closeNamespace {name : String} (o : Object)
    (hx : ¬Name.startsWith (Name.namespacePrefix name) x) :
    (s.closeNamespace name).skipReason? x o = s.skipReason? x o := by
  have halias : (s.closeNamespace name).isAliased x = s.isAliased x :=
    Bool.eq_iff_iff.mpr (State.isAliased_closeNamespace.trans (or_iff_left hx))
  obtain ⟨aliases, heq⟩ := s.closeNamespace_eq name
  have hworld : (s.closeNamespace name).world = s.world := by rw [heq]
  have hseen : (s.closeNamespace name).seen = s.seen := by rw [heq]
  simp only [State.skipReason?]
  rw [halias, hworld, hseen]

/-! ### What closes a namespace -/

/-- The verdict makes no alias. -/
def Verdict.MakesNoAlias (v : Verdict) : Prop :=
  ∀ target shown, v ≠ .alias target shown

theorem Verdict.IsPlain.noAlias {v : Verdict} (h : v.IsPlain) : v.MakesNoAlias := by
  rintro target shown rfl
  exact h

/-- An alias of this name is shown unless it is ignored. -/
def Verdict.RespectsIgnored (c : Setting) (name : String) (v : Verdict) : Prop :=
  ∀ target shown, v = .alias target shown → shown = !c.ignored.contains name

namespace Run

theorem judgeAlias_respectsIgnored (c : Setting) (name : String) (o : Object) :
    Yields (Verdict.RespectsIgnored c name) (judgeAlias c name o) := by
  have hshown : ∀ target, Verdict.RespectsIgnored c name
      (.alias target (!c.ignored.contains name)) := fun _ _ _ h ↦ by
    cases h
    rfl
  simp only [judgeAlias]
  split
  · exact Yields.pure fun _ _ h ↦ by cases h
  · refine Yields.bind fun n ↦ ?_
    split
    · exact Yields.bind fun _ ↦ Yields.pure (hshown _)
    · exact Yields.bind fun _ ↦ Yields.pure (hshown _)

theorem judgeScope_noAlias (c : Setting) (o : Object) :
    Yields Verdict.MakesNoAlias (judgeScope c o) := by
  refine Yields.bind fun s ↦ ?_
  split
  · exact Yields.bind fun _ ↦ Yields.pure nofun
  · exact Yields.pure nofun

theorem judgeForeign_noAlias (c : Setting) (o : Object) :
    Yields Verdict.MakesNoAlias (judgeForeign c o) := by
  refine Yields.bind fun s ↦ ?_
  split
  · exact Yields.pure nofun
  · exact judgeScope_noAlias c o

theorem judgeNamespace_noAlias (c : Setting) (name : String) (o : Object) :
    Yields Verdict.MakesNoAlias (judgeNamespace c name o) := by
  refine Yields.bind fun s ↦ ?_
  split
  · exact Yields.pure nofun
  · refine Yields.bind fun defined ↦ ?_
    split
    · exact judgeScope_noAlias c o
    · exact Yields.bind fun _ ↦ Yields.pure nofun

theorem judgeConstant_respectsIgnored (c : Setting) (name : String) (o : Object) :
    Yields (Verdict.RespectsIgnored c name) (judgeConstant c name o) := by
  have of_noAlias : ∀ v : Verdict, v.MakesNoAlias → v.RespectsIgnored c name :=
    fun v hv target shown heq ↦ absurd heq (hv target shown)
  refine Yields.bind fun kind ↦ ?_
  match kind with
  | .scope => exact (judgeNamespace_noAlias c name o).mono of_noAlias
  | .alias => exact judgeAlias_respectsIgnored c name o
  | .value => exact (judgeValue_plain c name o).mono fun v hv ↦ of_noAlias v hv.noAlias

theorem judge_respectsIgnored (c : Setting) (kind : NodeKind) (name : String) (o : Object) :
    Yields (Verdict.RespectsIgnored c name) (judge c kind name o) := by
  simp only [judge]
  split
  · exact (judgeForeign_noAlias c o).mono fun v hv target shown heq ↦ absurd heq (hv target shown)
  · exact judgeConstant_respectsIgnored c name o

end Run

/-- The next step takes up an alias under the name. -/
def State.TakesAlias (c : Setting) (s : State) (name : String) : Prop :=
  ∃ kind o target, s.takesUp? = some (kind, name, o) ∧
    s.verdict? c = some (.alias target (!c.ignored.contains name))

theorem Act.aliases_eq {a : Announcement} (h : Act c a s t) : t.aliases = s.aliases := by
  cases h <;> rfl

theorem Acts.aliases_eq {a : Announcement} (h : Acts c a s t) : t.aliases = s.aliases := by
  induction h with
  | refl => rfl
  | tail _ hact ih => exact hact.aliases_eq.trans ih

theorem State.aliases_attach (kind : NodeKind) (name : String) (o : Object)
    (node : NodeId → Node) : (s.attach kind name o node).aliases = s.aliases := rfl

theorem State.aliases_enact_of_noAlias {kind : NodeKind} {name : String} {o : Object} {v : Verdict}
    (hv : v.MakesNoAlias) : (s.enact kind name o v).aliases = s.aliases := by
  match v with
  | .drop reason => rfl
  | .const announced value ascription => rfl
  | .alias target shown => exact absurd rfl (hv target shown)
  | .scope k =>
    show (s.attachScope kind name o k).aliases = s.aliases
    simp only [attachScope, aliases_attach]
    cases k.superclass? <;> rfl

/-- Enacting a verdict closes the namespace of an alias, and no other. -/
theorem State.mem_aliases_enact {kind : NodeKind} {name : String} {o : Object} {v : Verdict} :
    ns ∈ (s.enact kind name o v).aliases ↔
      ns ∈ s.aliases ∨ ∃ target shown, v = .alias target shown ∧ ns = Name.namespacePrefix name := by
  by_cases hv : v.MakesNoAlias
  · rw [aliases_enact_of_noAlias hv]
    refine ⟨.inl, ?_⟩
    rintro (h | ⟨target, shown, heq, -⟩)
    · exact h
    · exact absurd heq (hv target shown)
  · simp only [Verdict.MakesNoAlias, not_forall, not_not] at hv
    obtain ⟨target, shown, rfl⟩ := hv
    have heq : (s.enact kind name o (.alias target shown)).aliases
        = (s.closeNamespace name).aliases := by
      cases shown <;> rfl
    rw [heq, mem_aliases_closeNamespace]
    refine or_congr_right ⟨fun h ↦ ⟨target, shown, rfl, h⟩, ?_⟩
    rintro ⟨_, _, _, h⟩
    exact h

/-- A step closes the namespace of an alias that it takes up, and no other. -/
theorem State.mem_aliases_next_iff : ns ∈ (s.next c).aliases ↔
    ns ∈ s.aliases ∨ ∃ name, s.TakesAlias c name ∧ ns = Name.namespacePrefix name := by
  -- if there is no verdict, no alias is taken up
  have hnone : s.verdict? c = none → (s.next c).aliases = s.aliases →
      (ns ∈ (s.next c).aliases ↔
        ns ∈ s.aliases ∨ ∃ name, s.TakesAlias c name ∧ ns = Name.namespacePrefix name) := by
    intro hv haliases
    rw [haliases]
    refine ⟨.inl, ?_⟩
    rintro (h | ⟨name, ⟨kind, o, target, -, h⟩, -⟩)
    · exact h
    · rw [hv] at h
      cases h
  have hidle : s.takesUp? = none → s.verdict? c = none := fun htakes ↦ by
    simp only [verdict?]
    rw [htakes]
    rfl
  cases State.turn c s with
  | idle w htakes _ hnext | resolved w htakes _ _ _ _ hnext =>
    exact hnone (hidle htakes) (by rw [hnext]; rfl)
  | told htakes _ hacts => exact hnone (hidle htakes) hacts.aliases_eq
  | undecided w _ hv _ hnext => exact hnone hv (by rw [hnext]; rfl)
  | @enacted kind name o v w htakes hv _ hrun hnext =>
    rw [hnext, mem_aliases_enact]
    refine or_congr_right ⟨?_, ?_⟩
    · rintro ⟨target, shown, rfl, hns⟩
      obtain rfl := Run.judge_respectsIgnored c kind name o _ _ _ hrun target shown rfl
      exact ⟨name, ⟨kind, o, target, htakes, hv⟩, hns⟩
    · rintro ⟨name', ⟨kind', o', target, htakes', hv'⟩, hns⟩
      rw [htakes] at htakes'
      cases htakes'
      rw [hv] at hv'
      exact ⟨target, _, Option.some.inj hv', hns⟩

/-! ### Runs -/

/-- Namespaces stay closed. -/
theorem aliases_subset {m : Nat} (hle : n ≤ m) :
    (s.after c n).aliases ⊆ (s.after c m).aliases := by
  induction m, hle using Nat.le_induction with
  | base => exact List.Subset.refl _
  | succ m _ ih => exact fun ns hns ↦ State.mem_aliases_next_iff.mpr (.inl (ih hns))

/-- The closed namespaces are those of the start and those of the aliases that were taken up. -/
theorem mem_aliases_after_iff : ns ∈ (s.after c n).aliases ↔
    ns ∈ s.aliases ∨
      ∃ k < n, ∃ name, (s.after c k).TakesAlias c name ∧ ns = Name.namespacePrefix name :=
  State.after_iff (P := fun t ↦ ns ∈ t.aliases)
    (Q := fun t ↦ ∃ name, t.TakesAlias c name ∧ ns = Name.namespacePrefix name)
    (fun _ ↦ State.mem_aliases_next_iff) n

/-- No name below a closed namespace is taken up. -/
theorem not_takesUp?_of_closed {m : Nat} (hns : ns ∈ (s.after c n).aliases)
    (hx : Name.startsWith ns x) (hle : n ≤ m) (kind : NodeKind) (o : Object) :
    (s.after c m).takesUp? ≠ some (kind, x, o) := by
  intro htakes
  obtain ⟨e, es, -, -, hskip⟩ := State.exists_cons_of_takesUp? htakes
  have hclosed : (s.after c m).popped.isAliased x :=
    State.isAliased_iff.mpr ⟨ns, aliases_subset hle hns, hx⟩
  exact (State.skipReason?_eq_none_iff.mp hskip).2.2.2.1 hclosed

/-- A name below a closed namespace that was taken up had been taken up before. -/
theorem TakenUp.of_closed {m : Nat} (hns : ns ∈ (s.after c n).aliases)
    (hx : Name.startsWith ns x) (h : TakenUp c s m x) : TakenUp c s n x := by
  obtain ⟨k, -, kind, o, htakes⟩ := h
  by_cases hk : k < n
  · exact ⟨k, hk, kind, o, htakes⟩
  · exact absurd htakes (not_takesUp?_of_closed hns hx (Nat.le_of_not_lt hk) kind o)

/-- A node that was announced under such a name had been announced before. -/
theorem Announced.of_closed (hb : s.Blank) {m : Nat} {id : NodeId}
    (hns : ns ∈ (s.after c n).aliases) (hx : Name.startsWith ns x) (h : Announced c s m id x) :
    Announced c s n id x := by
  obtain ⟨k, -, kind, o, v, htakes, hv, hann, rfl, -⟩ := h.exists_verdict hb
  have hk : k < n := Nat.lt_of_not_le fun hle ↦ not_takesUp?_of_closed hns hx hle kind o htakes
  -- the step that took the name up announced the node
  have hchange : (s.after c k).Change c (s.after c (k + 1)) :=
    State.change (State.after_sound hb.sound k)
  obtain ⟨⟨kind', p⟩, hann⟩ := Option.ne_none_iff_exists'.mp hann
  have ht := hchange.attaches htakes hv hann
  exact ⟨k + 1, hk, _, _, _, ht.kind_ne, ht.announced⟩

/-- An alias that is taken up is shown unless it is ignored, and closes its namespace in any case. -/
theorem takesAlias_of_verdict? {kind : NodeKind} {name target : String} {o : Object} {shown : Bool}
    (htakes : s.takesUp? = some (kind, name, o)) (hv : s.verdict? c = some (.alias target shown)) :
    (shown = !c.ignored.contains name) ∧ s.TakesAlias c name := by
  obtain ⟨w, hrun, -⟩ := State.exists_judge_of_verdict? htakes hv
  obtain rfl := Run.judge_respectsIgnored c kind name o _ _ _ hrun target shown rfl
  exact ⟨rfl, kind, o, target, htakes, hv⟩

/-- **A closed namespace stays closed.** Let the namespace of an alias be closed after `n` events of
a compilation, whatever it started from. Then an alias was taken up under that name. At every later
moment all namespaces closed by then are closed, the names below this one that count as dealt with
are those that did, and each node below it was announced by then or is a member that a listener has
listed.

Every alias closes its namespace when it is taken up, also one that is ignored and therefore not
shown, and nothing else closes a namespace. A name that begins like the alias but does not go on
with a point is dealt with as if the namespace were open. -/
theorem namespace_stays_closed (c : Setting) (w : World) (t : Trackers) (seeds : List String)
    {name : String} {n m : Nat}
    (hclosed : Name.namespacePrefix name ∈ ((State.outset c w t seeds).after c n).aliases)
    (hle : n ≤ m) :
    (∃ k < n, ((State.outset c w t seeds).after c k).TakesAlias c name) ∧
      ((State.outset c w t seeds).after c n).aliases
        ⊆ ((State.outset c w t seeds).after c m).aliases ∧
      (∀ x, Name.startsWith (Name.namespacePrefix name) x →
        (x ∈ ((State.outset c w t seeds).after c m).seen ↔
          x ∈ ((State.outset c w t seeds).after c n).seen)) ∧
      (∀ node ∈ ((State.outset c w t seeds).after c m).tree.walk,
        Name.startsWith (Name.namespacePrefix name) node.qualifiedName →
          Announced c (State.outset c w t seeds) n node.id node.qualifiedName ∨
            Listed c (State.outset c w t seeds) m node.id) ∧
      (∀ k kind a o target shown,
        ((State.outset c w t seeds).after c k).takesUp? = some (kind, a, o) →
        ((State.outset c w t seeds).after c k).verdict? c = some (.alias target shown) →
          (shown = !c.ignored.contains a) ∧ Name.namespacePrefix a
            ∈ ((State.outset c w t seeds).after c (k + 1)).aliases) ∧
      (∀ x, ((State.outset c w t seeds).after c m).isAliased x ↔
        ∃ k < m, ∃ a, ((State.outset c w t seeds).after c k).TakesAlias c a ∧
          Name.startsWith (Name.namespacePrefix a) x) ∧
      ∀ (s : State) (rest : String) (o : Object), rest.toList.head? ≠ some '.' →
        (s.closeNamespace name).skipReason? (name ++ rest) o = s.skipReason? (name ++ rest) o := by
  have hblank := State.blank_outset c w t seeds
  have haliases : ∀ {ns i}, ns ∈ ((State.outset c w t seeds).after c i).aliases ↔
      ∃ k < i, ∃ a, ((State.outset c w t seeds).after c k).TakesAlias c a ∧
        ns = Name.namespacePrefix a := fun {ns i} ↦
    mem_aliases_after_iff.trans (or_iff_right (List.not_mem_nil (a := ns)))
  refine ⟨?_, aliases_subset hle, fun x hx ↦ ?_, fun node hnode hx ↦ ?_,
    fun k kind a o target shown htakes hv ↦ ?_, fun x ↦ ?_, fun s rest o hrest ↦ ?_⟩
  · obtain ⟨k, hk, a, htakes, hname⟩ := haliases.mp hclosed
    obtain rfl := Name.namespacePrefix_injective hname
    exact ⟨k, hk, htakes⟩
  · rw [mem_seen_after_iff hblank.sound, mem_seen_after_iff hblank.sound]
    exact or_congr_right ⟨TakenUp.of_closed hclosed hx, TakenUp.mono hle⟩
  · rcases (ledger hblank m).origin _ (mem_badges_of_mem_walk hnode) with ⟨y, hann⟩ | hlisted
    · obtain rfl := (ledger hblank m).badge _ (mem_badges_of_mem_walk hnode) y hann
      exact .inl (hann.of_closed hblank hclosed hx)
    · exact .inr hlisted
  · obtain ⟨hshown, htakes⟩ := takesAlias_of_verdict? htakes hv
    exact ⟨hshown, State.mem_aliases_next_iff.mpr (.inr ⟨a, htakes, rfl⟩)⟩
  · rw [State.isAliased_iff]
    constructor
    · rintro ⟨ns, hns, hx⟩
      obtain ⟨k, hk, a, htakes, rfl⟩ := haliases.mp hns
      exact ⟨k, hk, a, htakes, hx⟩
    · rintro ⟨k, hk, a, htakes, hx⟩
      exact ⟨_, haliases.mpr ⟨k, hk, a, htakes, rfl⟩, hx⟩
  · exact State.skipReason?_closeNamespace o fun h ↦
      hrest (Name.startsWith_namespacePrefix_append.mp h)

/-- A module `pkg` that binds a class to `A`, with a constant `Ab`. -/
def renamedUniverse : UniverseDeclaration where
  modules := [
    { name := "pkg", file := some "/srv/pkg.src"
      members := [("A", .reference "C"), ("Ab", .atom (.int 3))] }]
  objects := [("C", .class { name := "C", qualname := "C", module := some "pkg" } []
    [("LIMIT", .atom (.int 3))] .absent false)]

/-- The start of a compilation that asks for the alias, for a constant of the class by its way, and
for the name that begins like it. -/
def renamedOutset : State :=
  .outset (.plain ⟨"pkg", [⟨["srv"]⟩]⟩) (State.startOf renamedUniverse []).world {}
    ["pkg.A", "pkg.A.LIMIT", "pkg.Ab"]

set_option maxRecDepth 100000 in
/-- After four events the namespace of the alias is closed and the constant of the class is pending.
It is not taken up, while the other name is. -/
theorem namespace_stays_closed_of_renamed :
    (Name.namespacePrefix "pkg.A" ∈
        (renamedOutset.after (.plain ⟨"pkg", [⟨["srv"]⟩]⟩) 4).aliases ∧ 4 ≤ 9) ∧
      "pkg.A.LIMIT" ∉ (renamedOutset.after (.plain ⟨"pkg", [⟨["srv"]⟩]⟩) 9).seen ∧
      "pkg.Ab" ∈ (renamedOutset.after (.plain ⟨"pkg", [⟨["srv"]⟩]⟩) 9).seen := by
  have hclosed : Name.namespacePrefix "pkg.A" ∈
      (renamedOutset.after (.plain ⟨"pkg", [⟨["srv"]⟩]⟩) 4).aliases := by decide +kernel
  have hle : 4 ≤ 9 := by decide
  obtain ⟨-, -, hseen, -⟩ :=
    namespace_stays_closed (.plain ⟨"pkg", [⟨["srv"]⟩]⟩) (State.startOf renamedUniverse []).world {}
      ["pkg.A", "pkg.A.LIMIT", "pkg.Ab"] hclosed hle
  refine ⟨⟨hclosed, hle⟩, fun hmem ↦ ?_, by decide +kernel⟩
  have hearlier : "pkg.A.LIMIT" ∈ (renamedOutset.after (.plain ⟨"pkg", [⟨["srv"]⟩]⟩) 4).seen :=
    (hseen "pkg.A.LIMIT" (by decide)).mp hmem
  exact absurd hearlier (by decide +kernel)

end Closure

end DeclClosure

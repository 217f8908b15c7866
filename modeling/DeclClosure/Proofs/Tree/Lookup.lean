import DeclClosure.Tree.Basic
import Mathlib.Data.List.Basic

/-!
# Looking a declaration up

A name should lead to the first node of the walk that bears it as its qualified name, and to nothing
if there is no such node (`Tree.LeadsTo`). A callable is written down with its bare name and belongs to
an owner, so its qualified name is another one; every other node is written down with the name that it
bears (`Node.qualifiedName_ne_name_iff`).

The tree asks each node for both names. This leads astray exactly where a callable bears a name in
itself and no node before it in the walk bears that name as its qualified name: then the callable is
found, and what the name belongs to, be it a node behind the callable or nothing at all, is not
(`Tree.find_leadsTo_iff`).
-/

namespace DeclClosure

namespace Node

/-- The node is a callable that belongs to an owner. -/
def IsOwned (n : Node) : Prop :=
  ∃ f, n.method? = some f ∧ f.owner ≠ ""

/-- A callable with an owner is the only node that does not bear the name it is written down with. -/
theorem qualifiedName_ne_name_iff {n : Node} : n.qualifiedName ≠ n.name ↔ n.IsOwned := by
  rcases n with ⟨h, _ | _ | _ | f⟩ | ⟨h, f, cs⟩
  case leaf.method =>
    by_cases howner : f.owner = ""
    · simp [qualifiedName, name, head, IsOwned, method?, howner]
    · simp [qualifiedName, name, head, IsOwned, method?, howner, Name.within_ne]
  all_goals simp [qualifiedName, name, head, IsOwned, method?]

/-- The node answers to a name: it is written down with it or bears it as its qualified name. -/
def answersTo (name : String) (n : Node) : Bool :=
  n.name == name || n.qualifiedName == name

theorem answersTo_iff {name : String} {n : Node} :
    n.answersTo name ↔ n.name = name ∨ n.qualifiedName = name := by
  simp [answersTo]

/-- A node that answers to a name without bearing it is a callable with an owner. -/
theorem isOwned_of_answersTo {name : String} {n : Node} (h : n.answersTo name)
    (hne : n.qualifiedName ≠ name) : n.IsOwned ∧ n.name = name := by
  obtain rfl := (answersTo_iff.mp h).resolve_right hne
  exact ⟨qualifiedName_ne_name_iff.mp hne, rfl⟩

end Node

namespace Tree

/-- The answer to who bears a name: the first node of the walk with this qualified name, or nothing if
no node has it. -/
def LeadsTo (t : Tree) (name : String) : Option Node → Prop
  | some n => n.qualifiedName = name ∧
      ∃ before after, t.walk = before ++ n :: after ∧ ∀ m ∈ before, m.qualifiedName ≠ name
  | none => ∀ n ∈ t.walk, n.qualifiedName ≠ name

/-- What is found is the first node of the walk that answers to the name. -/
theorem find?_eq_some_iff {t : Tree} {name : String} {n : Node} : t.find? name = some n ↔
    n.answersTo name ∧
      ∃ before after, t.walk = before ++ n :: after ∧ ∀ m ∈ before, ¬m.answersTo name := by
  simp only [Bool.not_eq_true, ← Bool.not_eq_true']
  exact List.find?_eq_some_iff_append

/-- What is found without leading astray is the first that bears the name, for what does not answer to
a name does not bear it either. -/
theorem leadsTo_find? {t : Tree} {name : String}
    (h : ∀ n, t.find? name = some n → n.qualifiedName = name) : t.LeadsTo name (t.find? name) := by
  have hsilent {m : Node} (hm : ¬m.answersTo name) : m.qualifiedName ≠ name :=
    fun heq ↦ hm (Node.answersTo_iff.mpr (.inr heq))
  cases hfound : t.find? name with
  | none => exact fun m hm ↦ hsilent (List.find?_eq_none.mp hfound m hm)
  | some n =>
    obtain ⟨-, before, after, hwalk, hbefore⟩ := find?_eq_some_iff.mp hfound
    exact ⟨h n hfound, before, after, hwalk, fun m hm ↦ hsilent (hbefore m hm)⟩

/-- **Looking a declaration up.** A name leads to the first node of the walk with this qualified name,
or to nothing if there is none, exactly if every callable that belongs to an owner and is written down
with the name stands behind a node that bears it. Where a name does not lead there, it leads to such a
callable. -/
theorem find_leadsTo_iff (t : Tree) (name : String) :
    (t.LeadsTo name (t.find? name) ↔ ∀ before n after, t.walk = before ++ n :: after → n.IsOwned →
      n.name = name → ∃ m ∈ before, m.qualifiedName = name) ∧
    (t.LeadsTo name (t.find? name) ∨
      ∃ n, t.find? name = some n ∧ n.IsOwned ∧ n.name = name) := by
  refine ⟨⟨?_, fun hbehind ↦ leadsTo_find? fun n hn ↦ ?_⟩, ?_⟩
  · rintro hleads before n after hwalk howned rfl
    have hself : n.answersTo n.name := Node.answersTo_iff.mpr (.inl rfl)
    -- the search ends at the callable at the latest
    have hfind : t.find? n.name = (before.find? (Node.answersTo n.name)).or (some n) := by
      show t.walk.find? (Node.answersTo n.name) = _
      rw [hwalk, List.find?_append, List.find?_cons_of_pos hself]
    rw [hfind] at hleads
    cases hfound : before.find? (Node.answersTo n.name) with
    | none =>
      rw [hfound] at hleads
      exact absurd hleads.1 (Node.qualifiedName_ne_name_iff.mpr howned)
    | some m =>
      rw [hfound] at hleads
      exact ⟨m, List.mem_of_find?_eq_some hfound, hleads.1⟩
  · by_contra hne
    obtain ⟨hanswers, before, after, hwalk, hbefore⟩ := find?_eq_some_iff.mp hn
    obtain ⟨howned, hname⟩ := Node.isOwned_of_answersTo hanswers hne
    obtain ⟨m, hm, hbears⟩ := hbehind before n after hwalk howned hname
    exact hbefore m hm (Node.answersTo_iff.mpr (.inr hbears))
  · by_cases hfound : ∀ n, t.find? name = some n → n.qualifiedName = name
    · exact .inl (leadsTo_find? hfound)
    · push Not at hfound
      obtain ⟨n, hn, hne⟩ := hfound
      exact .inr ⟨n, hn, Node.isOwned_of_answersTo (find?_eq_some_iff.mp hn).1 hne⟩

/-- A class with a callable, and a module after it that bears the bare name of the callable. -/
def namesakeTree : Tree where
  roots := [
    .scope ⟨0, "Alpha", []⟩ { kind := .class none } [.leaf ⟨1, "app", []⟩ (.method { owner := "Alpha" })],
    .scope ⟨2, "app", []⟩ { kind := .module } []]
  index := [("Alpha", 0), ("app", 2)]

/-- The name of the module leads to the callable of the class. -/
theorem not_leadsTo_of_namesake : ¬namesakeTree.LeadsTo "app" (namesakeTree.find? "app") ∧
    (namesakeTree.find? "app").map Node.qualifiedName = some "Alpha.app" ∧
    namesakeTree.LeadsTo "app" (some (.scope ⟨2, "app", []⟩ { kind := .module } [])) := by
  refine ⟨fun hleads ↦ ?_, by decide, ?_⟩
  · exact absurd hleads.1 (by decide)
  · refine ⟨by decide, [_, _], [], rfl, ?_⟩
    decide

end Tree

end DeclClosure

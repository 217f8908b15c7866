import DeclClosure.Proofs.Tree.Enclosing
import DeclClosure.Table
import Mathlib.Logic.Function.Iterate

/-!
# Going outwards from a name

The search for the scope of a new node goes from the name of the node to its parent, and from there on,
until the index has the name that it has come to. The names on this way (`Name.outwards`) are all that
enclose the given one, from the longest to the shortest, one for each point of it. So the search is
over after as many rounds as there are points, at the latest one more, and what it has found by then is
what the index has under the longest name that encloses the given one
(`Tree.enclosing?_longest`). Points at either end of a name and points next to each other make empty
segments, which are taken off like all others.
-/

namespace DeclClosure

namespace Name

/-- The names that a search comes to, in their order. -/
def outwards (name : String) : List String :=
  match _h : parent? name with
  | none => []
  | some p => p :: outwards p
termination_by name.length
decreasing_by exact length_parent_lt _h

variable {name p q : String}

theorem outwards_of_root (h : parent? name = none) : outwards name = [] := by
  rw [outwards, h]

theorem outwards_of_parent (h : parent? name = some p) : outwards name = p :: outwards p := by
  rw [outwards, h]

/-- The search comes to all names that enclose the given one, and to no others. -/
theorem mem_outwards_iff : q ∈ outwards name ↔ Encloses q name := by
  induction name using outwards.induct with
  | case1 name hroot =>
    rw [outwards_of_root hroot]
    exact ⟨nofun, fun hq ↦ absurd hq (parent?_eq_none_iff.mp hroot q)⟩
  | case2 name p hparent ih =>
    rw [outwards_of_parent hparent, List.mem_cons, ih, parent?_eq_some hparent]

/-- It comes to longer names first. -/
theorem pairwise_outwards (name : String) :
    (outwards name).Pairwise fun p q ↦ q.length < p.length := by
  induction name using outwards.induct with
  | case1 name hroot =>
    rw [outwards_of_root hroot]
    exact .nil
  | case2 name p hparent ih =>
    rw [outwards_of_parent hparent]
    exact ih.cons fun q hq ↦ (mem_outwards_iff.mp hq).length_lt

/-- A name without points has no parent, and a parent has one point less. -/
theorem count_points (name : String) :
    name.toList.count '.' = (parent? name).elim 0 fun p ↦ p.toList.count '.' + 1 := by
  cases hparent : parent? name with
  | none =>
    rw [parent?, Option.map_eq_none_iff, cutLast_eq_none_iff] at hparent
    exact List.count_eq_zero.mpr hparent
  | some p =>
    obtain ⟨before, hbefore, rfl⟩ := Option.map_eq_some_iff.mp hparent
    obtain ⟨after, hcut⟩ : ∃ after, cutLast name.toList = (some before, after) :=
      ⟨_, Prod.ext hbefore rfl⟩
    rw [cutLast_append _ hcut, List.count_append, List.count_cons_self,
      List.count_eq_zero.mpr (not_mem_of_cutLast hcut), Option.elim_some, String.toList_ofList]

/-- There is one name on the way for each point. -/
theorem length_outwards (name : String) : (outwards name).length = name.toList.count '.' := by
  induction name using outwards.induct with
  | case1 name hroot => rw [outwards_of_root hroot, count_points, hroot]; rfl
  | case2 name p hparent ih =>
    rw [outwards_of_parent hparent, List.length_cons, ih, count_points name, hparent]
    rfl

end Name

namespace Tree

/-- Where a search for a scope stands. -/
inductive Search where
  /-- It has come to a name, and goes on from there. -/
  | outside (name : String)
  /-- It is over, and has found a scope or none. -/
  | over (found : Option NodeId)
deriving DecidableEq, Repr

/-- One round of a search: it takes off the last segment, and is over if there is none or if the index
has what is left. -/
def searchRound (t : Tree) : Search → Search
  | .over found => .over found
  | .outside name =>
    match Name.parent? name with
    | none => .over none
    | some p =>
      match t.scope? p with
      | some id => .over (some id)
      | none => .outside p

/-- Where the search for the scope of a name stands after some rounds. -/
def searched (t : Tree) (name : String) (rounds : Nat) : Search :=
  t.searchRound^[rounds] (.outside name)

variable {t : Tree} {name p : String} {id : NodeId}

theorem searched_succ (t : Tree) (name : String) (rounds : Nat) :
    t.searched name (rounds + 1) = t.searchRound^[rounds] (t.searchRound (.outside name)) :=
  Function.iterate_succ_apply ..

theorem iterate_searchRound_over (t : Tree) (found : Option NodeId) (rounds : Nat) :
    t.searchRound^[rounds] (.over found) = .over found :=
  Function.iterate_fixed rfl rounds

/-- The search goes through the names on the way, and is over as soon as the index has one of them, or
when there are no more. -/
theorem searched_eq (t : Tree) (name : String) {rounds : Nat}
    (h : (Name.outwards name).length < rounds) :
    t.searched name rounds = .over ((Name.outwards name).findSome? t.scope?) := by
  induction name using Name.outwards.induct generalizing rounds with
  | case1 name hroot =>
    rw [Name.outwards_of_root hroot] at h ⊢
    obtain ⟨rounds, rfl⟩ := Nat.exists_eq_succ_of_ne_zero (Nat.ne_of_gt h)
    have hround : t.searchRound (.outside name) = .over none := by
      simp only [searchRound]
      rw [hroot]
    rw [searched_succ, hround]
    exact iterate_searchRound_over t none rounds
  | case2 name p hparent ih =>
    rw [Name.outwards_of_parent hparent] at h ⊢
    obtain ⟨rounds, rfl⟩ := Nat.exists_eq_succ_of_ne_zero (Nat.ne_of_gt (Nat.zero_lt_of_lt h))
    rw [searched_succ, List.findSome?_cons]
    cases hscope : t.scope? p with
    | some id =>
      have hround : t.searchRound (.outside name) = .over (some id) := by
        simp only [searchRound]
        rw [hparent]
        dsimp only
        rw [hscope]
      rw [hround]
      exact iterate_searchRound_over t (some id) rounds
    | none =>
      have hround : t.searchRound (.outside name) = .outside p := by
        simp only [searchRound]
        rw [hparent]
        dsimp only
        rw [hscope]
      rw [hround]
      exact ih (Nat.lt_of_succ_lt_succ h)

/-- What the search finds. -/
theorem enclosing?_eq_findSome? (t : Tree) (name : String) :
    t.enclosing? name = (Name.outwards name).findSome? t.scope? := by
  rw [enclosing?_eq]
  induction name using Name.nearest?.induct t.scope? with
  | case1 name hparent => rw [Name.nearest?_of_root hparent, Name.outwards_of_root hparent]; rfl
  | case2 name p hparent id hid =>
    rw [Name.nearest?_of_held hparent hid, Name.outwards_of_parent hparent, List.findSome?_cons, hid]
  | case3 name p hparent hnone ih =>
    rw [Name.nearest?_of_free hparent hnone, Name.outwards_of_parent hparent, List.findSome?_cons,
      hnone, ih]

/-- The names of the index. -/
def keys (t : Tree) : List String :=
  t.index.map Prod.fst

theorem mem_keys_iff : p ∈ t.keys ↔ ∃ id, t.scope? p = some id := by
  constructor
  · intro h
    cases hscope : t.scope? p with
    | none => exact absurd h (Table.not_mem_of_lookup_eq_none hscope)
    | some id => exact ⟨id, rfl⟩
  · rintro ⟨id, hscope⟩
    exact List.mem_map_of_mem (Table.mem_of_lookup hscope)

theorem not_mem_keys_iff : p ∉ t.keys ↔ t.scope? p = none := by
  rw [mem_keys_iff, ← Option.isSome_iff_exists, Option.not_isSome_iff_eq_none]

/-- **The enclosing scope is that of the longest dotted prefix.** For every index and every name,
whatever empty segments it has:

* the search finds a scope exactly if the index has it under a name that goes on to the given one with a
  point, and the index has no longer name that does;
* it finds none exactly if the index has no name that does;
* and it is over, with what it finds, when the name has no more points to cut at: after one round for
  each point, and one more to see that there are no more. -/
theorem enclosing?_longest (t : Tree) (name : String) :
    (∀ id, t.enclosing? name = some id ↔
      ∃ k, Name.Encloses k name ∧ t.scope? k = some id ∧
        ∀ q ∈ t.keys, Name.Encloses q name → q.length ≤ k.length) ∧
      (t.enclosing? name = none ↔ ∀ q ∈ t.keys, ¬Name.Encloses q name) ∧
        t.searched name (name.toList.count '.' + 1) = .over (t.enclosing? name) := by
  refine ⟨fun id ↦ ?_, ?_, ?_⟩
  · rw [enclosing?_eq, Name.nearest?_eq_some_iff]
    constructor
    · rintro ⟨k, hk, hid, hlonger⟩
      refine ⟨k, hk, hid, fun q hkey hq ↦ Nat.le_of_not_lt fun hlt ↦ ?_⟩
      exact not_mem_keys_iff.mpr (hlonger q hq hlt) hkey
    · rintro ⟨k, hk, hid, hlongest⟩
      refine ⟨k, hk, hid, fun q hq hlt ↦ not_mem_keys_iff.mp fun hkey ↦ ?_⟩
      exact Nat.not_lt.mpr (hlongest q hkey hq) hlt
  · rw [enclosing?_eq, Name.nearest?_eq_none_iff]
    constructor
    · intro h q hkey hq
      exact not_mem_keys_iff.mpr (h q hq) hkey
    · intro h q hq
      exact not_mem_keys_iff.mp fun hkey ↦ h q hkey hq
  · rw [enclosing?_eq_findSome?]
    exact searched_eq t name (by rw [Name.length_outwards]; exact Nat.lt_succ_self _)

end Tree

end DeclClosure

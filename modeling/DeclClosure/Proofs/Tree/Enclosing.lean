import DeclClosure.Tree.Basic

/-!
# Names that enclose others

A name encloses another one if that goes on with a point and more. Of the names that enclose a name,
its parent is the longest, and all others enclose the parent (`Name.parent?_eq_some`). So a search
that goes from a name to its parent, and from there on, finds what is held under the longest of them
(`Name.nearest?_eq_some_iff`). The tree looks for the scope of a new node in this way
(`Tree.enclosing?_eq`).
-/

namespace DeclClosure

namespace Name

/-- The second name is the first one, a point, and more. -/
def Encloses (p name : String) : Prop :=
  ∃ rest, name = p ++ "." ++ rest

theorem Encloses.length_lt {p name : String} (h : Encloses p name) : p.length < name.length := by
  obtain ⟨rest, rfl⟩ := h
  have hpoint : (".": String).length = 1 := rfl
  rw [String.length_append, String.length_append, hpoint]
  omega

theorem encloses_iff {p name : String} :
    Encloses p name ↔ ∃ cs, name.toList = p.toList ++ '.' :: cs := by
  constructor
  · rintro ⟨rest, rfl⟩
    exact ⟨rest.toList, toList_within p rest⟩
  · rintro ⟨cs, h⟩
    have hlist := toList_within p (String.ofList cs)
    rw [String.toList_ofList] at hlist
    exact ⟨String.ofList cs, String.toList_inj.mp (h.trans hlist.symm)⟩

/-! ### Parents -/

theorem cutLast_eq_none_iff {cs : List Char} : (cutLast cs).1 = none ↔ '.' ∉ cs := by
  induction cs with
  | nil => simp [cutLast]
  | cons c cs ih =>
    rw [List.mem_cons, not_or]
    simp only [cutLast]
    split
    · next before after hcut =>
      rw [hcut] at ih
      refine ⟨fun h ↦ ?_, fun h ↦ ?_⟩
      · cases h
      · cases ih.mpr h.2
    · next after hcut =>
      rw [hcut] at ih
      have hcs := ih.mp rfl
      split
      · next hc => exact ⟨fun h ↦ (by cases h), fun h ↦ absurd hc.symm h.1⟩
      · next hc => exact ⟨fun _ ↦ ⟨Ne.symm hc, hcs⟩, fun _ ↦ rfl⟩

theorem cutLast_of_not_mem {cs : List Char} (h : '.' ∉ cs) : cutLast cs = (none, cs) := by
  induction cs with
  | nil => rfl
  | cons c cs ih =>
    obtain ⟨hc, hcs⟩ := not_or.mp fun hmem ↦ h (List.mem_cons.mpr hmem)
    simp only [cutLast]
    rw [ih hcs]
    exact if_neg (Ne.symm hc)

/-- What stands after the last point has no point. -/
theorem not_mem_of_cutLast {cs before after : List Char}
    (h : cutLast cs = (some before, after)) : '.' ∉ after := by
  induction cs generalizing before with
  | nil => cases h
  | cons c cs ih =>
    simp only [cutLast] at h
    split at h
    · next b a hcut =>
      cases h
      exact ih hcut
    · next a hcut =>
      have hcs : '.' ∉ cs := cutLast_eq_none_iff.mp (congrArg Prod.fst hcut)
      split at h
      · cases h
        rw [cutLast_of_not_mem hcs] at hcut
        cases hcut
        exact hcs
      · cases h

/-- The parent of a name encloses it, and so do only those names that enclose the parent. -/
theorem parent?_eq_some {name p : String} (h : parent? name = some p) (q : String) :
    Encloses q name ↔ q = p ∨ Encloses q p := by
  obtain ⟨before, hbefore, rfl⟩ := Option.map_eq_some_iff.mp h
  obtain ⟨after, hcut⟩ : ∃ after, cutLast name.toList = (some before, after) :=
    ⟨_, Prod.ext hbefore rfl⟩
  have hname := cutLast_append _ hcut
  have hafter := not_mem_of_cutLast hcut
  rw [encloses_iff, encloses_iff, hname, String.toList_ofList, ← String.toList_inj,
    String.toList_ofList]
  constructor
  · rintro ⟨cs, hcs⟩
    rcases List.append_eq_append_iff.mp hcs with ⟨ds, hq, hds⟩ | ⟨ds, hp, hds⟩
    · -- the name before the point reaches into the last segment, which has no point
      cases ds with
      | nil =>
        rw [List.append_nil] at hq
        exact .inl hq
      | cons d ds =>
        obtain ⟨-, hds⟩ := List.cons.inj hds
        rw [hds] at hafter
        exact absurd (List.mem_append_right _ List.mem_cons_self) hafter
    · cases ds with
      | nil =>
        rw [List.append_nil] at hp
        exact .inl hp.symm
      | cons d ds =>
        obtain ⟨rfl, -⟩ := List.cons.inj hds
        exact .inr ⟨ds, hp⟩
  · rintro (rfl | ⟨cs, rfl⟩)
    · exact ⟨after, rfl⟩
    · exact ⟨cs ++ '.' :: after, by rw [List.append_assoc, List.cons_append]⟩

/-- No name that encloses another one is longer than the parent of that. -/
theorem Encloses.length_le {name p q : String} (hq : Encloses q name) (h : parent? name = some p) :
    q.length ≤ p.length := by
  rcases (parent?_eq_some h q).mp hq with rfl | hq
  · exact Nat.le_refl _
  · exact Nat.le_of_lt hq.length_lt

theorem parent?_eq_none_iff {name : String} : parent? name = none ↔ ∀ q, ¬Encloses q name := by
  rw [parent?, Option.map_eq_none_iff, cutLast_eq_none_iff]
  constructor
  · intro h q hq
    obtain ⟨cs, hcs⟩ := encloses_iff.mp hq
    rw [hcs] at h
    exact h (List.mem_append_right _ List.mem_cons_self)
  · intro h hmem
    obtain ⟨before, after, hname⟩ := List.append_of_mem hmem
    refine h (String.ofList before) (encloses_iff.mpr ⟨after, ?_⟩)
    rw [hname, String.toList_ofList]

/-! ### The nearest of them -/

/-- What is held under the longest of the names that enclose a name and hold anything. -/
def nearest? {α : Type} (held : String → Option α) (name : String) : Option α :=
  match _h : parent? name with
  | none => none
  | some p =>
    match held p with
    | some a => some a
    | none => nearest? held p
termination_by name.length
decreasing_by exact length_parent_lt _h

variable {α : Type} {held : String → Option α} {name : String}

theorem nearest?_of_root (h : parent? name = none) : nearest? held name = none := by
  rw [nearest?, h]

theorem nearest?_of_held {p : String} {a : α} (h : parent? name = some p) (ha : held p = some a) :
    nearest? held name = some a := by
  rw [nearest?, h]
  dsimp only
  rw [ha]

theorem nearest?_of_free {p : String} (h : parent? name = some p) (hp : held p = none) :
    nearest? held name = nearest? held p := by
  rw [nearest?, h]
  dsimp only
  rw [hp]

theorem nearest?_eq_none_iff : nearest? held name = none ↔ ∀ p, Encloses p name → held p = none := by
  induction name using nearest?.induct held with
  | case1 name hparent =>
    rw [nearest?_of_root hparent]
    exact ⟨fun _ p hp ↦ absurd hp (parent?_eq_none_iff.mp hparent p), fun _ ↦ rfl⟩
  | case2 name p hparent a ha =>
    rw [nearest?_of_held hparent ha]
    refine ⟨nofun, fun h ↦ ?_⟩
    rw [h p ((parent?_eq_some hparent p).mpr (.inl rfl))] at ha
    cases ha
  | case3 name p hparent hnone ih =>
    rw [nearest?_of_free hparent hnone]
    refine ih.trans ⟨fun h q hq ↦ ?_, fun h q hq ↦ h q ((parent?_eq_some hparent q).mpr (.inr hq))⟩
    rcases (parent?_eq_some hparent q).mp hq with rfl | hq
    · exact hnone
    · exact h q hq

/-- What is found is held under a name that encloses the given one, and nothing is held under longer
ones. -/
theorem nearest?_eq_some_iff {a : α} : nearest? held name = some a ↔
    ∃ p, Encloses p name ∧ held p = some a ∧
      ∀ q, Encloses q name → p.length < q.length → held q = none := by
  induction name using nearest?.induct held with
  | case1 name hparent =>
    rw [nearest?_of_root hparent]
    refine ⟨nofun, ?_⟩
    rintro ⟨p, hp, -⟩
    exact absurd hp (parent?_eq_none_iff.mp hparent p)
  | case2 name p hparent b hb =>
    have hp := (parent?_eq_some hparent p).mpr (.inl rfl)
    rw [nearest?_of_held hparent hb]
    constructor
    · rintro ⟨rfl⟩
      exact ⟨p, hp, hb, fun q hq hlt ↦ absurd hlt (Nat.not_lt.mpr (hq.length_le hparent))⟩
    · rintro ⟨q, hq, ha, hlonger⟩
      rcases (parent?_eq_some hparent q).mp hq with rfl | hq
      · rw [← hb, ha]
      · rw [hlonger p hp hq.length_lt] at hb
        cases hb
  | case3 name p hparent hnone ih =>
    rw [nearest?_of_free hparent hnone]
    refine ih.trans ⟨?_, ?_⟩
    · rintro ⟨q, hq, ha, hlonger⟩
      refine ⟨q, (parent?_eq_some hparent q).mpr (.inr hq), ha, fun r hr hlt ↦ ?_⟩
      rcases (parent?_eq_some hparent r).mp hr with rfl | hr
      · exact hnone
      · exact hlonger r hr hlt
    · rintro ⟨q, hq, ha, hlonger⟩
      rcases (parent?_eq_some hparent q).mp hq with rfl | hq
      · rw [hnone] at ha
        cases ha
      · exact ⟨q, hq, ha, fun r hr hlt ↦
          hlonger r ((parent?_eq_some hparent r).mpr (.inr hr)) hlt⟩

/-- If nothing is held under two names, neither by the one nor by the other, then two searches find
the same exactly if both hold the same under the longest name that encloses the given one and under
which one of them holds anything. -/
theorem nearest?_eq_nearest?_iff {held' : String → Option α}
    (hname : ∀ p q a, held p = some a → held' q = some a → p = q) :
    nearest? held name = nearest? held' name ↔
      ∀ p, Encloses p name → (∀ q, Encloses q name → p.length < q.length →
        held q = none ∧ held' q = none) → held p = held' p := by
  constructor
  · intro heq p hp hlonger
    -- what one of them holds under the longest name is found, by the other one too
    have hfound : ∀ a, held p = some a → held' p = some a := by
      intro a ha
      have hnear : nearest? held' name = some a :=
        heq ▸ nearest?_eq_some_iff.mpr ⟨p, hp, ha, fun q hq hlt ↦ (hlonger q hq hlt).1⟩
      obtain ⟨q, -, hq, -⟩ := nearest?_eq_some_iff.mp hnear
      rwa [hname p q a ha hq]
    have hfound' : ∀ a, held' p = some a → held p = some a := by
      intro a ha
      have hnear : nearest? held name = some a :=
        heq ▸ nearest?_eq_some_iff.mpr ⟨p, hp, ha, fun q hq hlt ↦ (hlonger q hq hlt).2⟩
      obtain ⟨q, -, hq, -⟩ := nearest?_eq_some_iff.mp hnear
      rwa [← hname q p a hq ha]
    exact Option.ext fun a ↦ ⟨hfound a, hfound' a⟩
  · intro hagree
    induction name using nearest?.induct held with
    | case1 name hparent => rw [nearest?_of_root hparent, nearest?_of_root hparent]
    | case2 name p hparent a ha =>
      have hp := (parent?_eq_some hparent p).mpr (.inl rfl)
      have hsame : held p = held' p :=
        hagree p hp fun q hq hlt ↦ absurd hlt (Nat.not_lt.mpr (hq.length_le hparent))
      rw [nearest?_of_held hparent ha, nearest?_of_held hparent (hsame ▸ ha)]
    | case3 name p hparent hnone ih =>
      have hp := (parent?_eq_some hparent p).mpr (.inl rfl)
      have hnone' : held' p = none := by
        rw [← hagree p hp fun q hq hlt ↦ absurd hlt (Nat.not_lt.mpr (hq.length_le hparent)), hnone]
      rw [nearest?_of_free hparent hnone, nearest?_of_free hparent hnone']
      refine ih fun q hq hlonger ↦ hagree q ((parent?_eq_some hparent q).mpr (.inr hq)) ?_
      intro r hr hlt
      rcases (parent?_eq_some hparent r).mp hr with rfl | hr
      · exact ⟨hnone, hnone'⟩
      · exact hlonger r hr hlt

end Name

/-- A new node is put below the scope that the index has under the longest name that encloses its
own. -/
theorem Tree.enclosing?_eq (t : Tree) (name : String) :
    t.enclosing? name = Name.nearest? t.scope? name := by
  induction name using Name.nearest?.induct t.scope? with
  | case1 name hparent =>
    rw [enclosing?, Name.nearest?_of_root hparent, hparent]
  | case2 name p hparent id hid =>
    rw [enclosing?, Name.nearest?_of_held hparent hid, hparent]
    dsimp only
    rw [hid]
  | case3 name p hparent hnone ih =>
    rw [enclosing?, Name.nearest?_of_free hparent hnone, hparent]
    dsimp only
    rw [hnone]
    exact ih

end DeclClosure

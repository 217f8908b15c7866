/-!
# Tables

A table is a list of entries by key, in which the first entry of a key counts (`List.lookup`).
-/

namespace DeclClosure.Table

variable {α β : Type} [BEq α] [LawfulBEq α]

theorem mem_of_lookup {l : List (α × β)} {a : α} {b : β} (h : l.lookup a = some b) :
    (a, b) ∈ l := by
  obtain ⟨l₁, l₂, rfl, -⟩ := List.lookup_eq_some_iff.mp h
  exact List.mem_append_right _ List.mem_cons_self

/-- Where no key occurs twice, every entry counts. -/
theorem lookup_of_mem {l : List (α × β)} {a : α} {b : β} (hnd : (l.map Prod.fst).Nodup)
    (h : (a, b) ∈ l) : l.lookup a = some b := by
  induction l with
  | nil => cases h
  | cons e l ih =>
    obtain ⟨he, hl⟩ := List.nodup_cons.mp hnd
    rw [List.lookup_cons]
    rcases List.mem_cons.mp h with rfl | h
    · rw [beq_self_eq_true]
    · have hne : (a == e.1) = false := by
        refine beq_eq_false_iff_ne.mpr ?_
        rintro rfl
        exact he (List.mem_map.mpr ⟨_, h, rfl⟩)
      rw [hne]
      exact ih hl h

theorem not_mem_of_lookup_eq_none {l : List (α × β)} {a : α} (h : l.lookup a = none) :
    a ∉ l.map Prod.fst := by
  intro hmem
  obtain ⟨e, he, rfl⟩ := List.mem_map.mp hmem
  exact bne_iff_ne.mp (List.lookup_eq_none_iff.mp h e he) rfl

theorem lookup_eq_none_of_not_mem {l : List (α × β)} {a : α} (h : a ∉ l.map Prod.fst) :
    l.lookup a = none := by
  refine List.lookup_eq_none_iff.mpr fun e he ↦ bne_iff_ne.mpr ?_
  rintro rfl
  exact h (List.mem_map_of_mem he)

/-- A table without the entries of one key keeps those of all others. -/
theorem lookup_filter_ne {a b : α} (h : a ≠ b) (l : List (α × β)) :
    (l.filter fun e ↦ e.1 != b).lookup a = l.lookup a := by
  induction l with
  | nil => rfl
  | cons e l ih =>
    by_cases he : e.1 = b
    · have ha : (a == e.1) = false := beq_eq_false_iff_ne.mpr fun ha ↦ h (ha.trans he)
      rw [List.filter_cons_of_neg (by simp [he]), List.lookup_cons, ha]
      exact ih
    · rw [List.filter_cons_of_pos (by simp [he]), List.lookup_cons, List.lookup_cons, ih]

theorem lookup_filter_self (b : α) (l : List (α × β)) :
    (l.filter fun e ↦ e.1 != b).lookup b = none := by
  refine List.lookup_eq_none_iff.mpr fun e he ↦ ?_
  have hne := (List.mem_filter.mp he).2
  exact bne_iff_ne.mpr fun h ↦ bne_iff_ne.mp hne h.symm

/-- A table in which a key has got a value in all its places. -/
theorem lookup_map_set (l : List (α × β)) (b : α) (value : β) (a : α) [DecidableEq α] :
    (l.map fun e ↦ if e.1 == b then (b, value) else e).lookup a
      = if a = b then (l.lookup a).map fun _ ↦ value else l.lookup a := by
  induction l with
  | nil => split <;> rfl
  | cons e l ih =>
    obtain ⟨k, v⟩ := e
    rw [List.map_cons, List.lookup_cons]
    by_cases hk : k = b
    · subst hk
      rw [if_pos (beq_self_eq_true k), List.lookup_cons, ih]
      by_cases ha : a = k
      · rw [beq_iff_eq.mpr ha, if_pos ha, if_pos ha]
        rfl
      · rw [beq_eq_false_iff_ne.mpr ha, if_neg ha]
    · rw [if_neg (by simpa using hk), List.lookup_cons, ih]
      by_cases ha : a = b
      · subst ha
        have hak : (a == k) = false := beq_eq_false_iff_ne.mpr fun h ↦ hk h.symm
        rw [hak, if_pos rfl]
      · rw [if_neg ha, if_neg ha]

end DeclClosure.Table

import DeclClosure.Config.Manager
import DeclClosure.Table
import DeclClosure.Text.Sorted
import Mathlib.Data.List.Nodup

/-!
# Members of documents

What is found under a key when an object gets a member (`lookup_putMember`), when two objects are
merged (`lookup_mergeMembers`), and when members are put into another order.

Two documents agree if they differ at most in the order in which members stand, at any depth
(`Json.Value.Agrees`). A format that sorts keys when it writes gives back a document that agrees with
the one that was written, and need not give back the same.
-/

namespace DeclClosure

open Json (Value putMember)

variable {members base upper : List (String × Value)} {key k : String} {v w : Value}

/-! ### One member more -/

theorem lookup_putMember (members : List (String × Value)) (key : String) (v : Value) (k : String) :
    (putMember members key v).lookup k = if k = key then some v else members.lookup k := by
  rw [putMember]
  split
  · next hany =>
    rw [Table.lookup_map_set]
    split
    · next hk =>
      obtain ⟨m, hm, hkey⟩ := List.any_eq_true.mp hany
      cases hlookup : members.lookup k with
      | some w => rfl
      | none =>
        refine absurd (List.mem_map_of_mem hm) (Table.not_mem_of_lookup_eq_none ?_)
        rw [beq_iff_eq.mp hkey, ← hk, hlookup]
    · rfl
  · next hany =>
    rw [List.lookup_append]
    split
    · next hk =>
      have hfree : k ∉ members.map Prod.fst := by
        intro hmem
        obtain ⟨m, hm, hmk⟩ := List.mem_map.mp hmem
        exact hany (List.any_eq_true.mpr ⟨m, hm, beq_iff_eq.mpr (hmk.trans hk)⟩)
      rw [Table.lookup_eq_none_of_not_mem hfree, Option.none_or, List.lookup_cons, beq_iff_eq.mpr hk]
    · next hk =>
      rw [List.lookup_cons, beq_eq_false_iff_ne.mpr hk, List.lookup_nil, Option.or_none]

/-! ### Merged objects -/

theorem mergeValue_none (v : Value) : mergeValue none v = v := by
  cases v <;> rw [mergeValue]
  all_goals simp

/-- What both have under a key is merged, everything else stays as it is in the one that has it. -/
theorem lookup_mergeMembers (hupper : (upper.map Prod.fst).Nodup) (base : List (String × Value))
    (k : String) : (mergeMembers base upper).lookup k =
      match upper.lookup k with
      | some v => some (mergeValue (base.lookup k) v)
      | none => base.lookup k := by
  induction upper generalizing base with
  | nil => rw [mergeMembers, List.lookup_nil]
  | cons m rest ih =>
    obtain ⟨key, v⟩ := m
    obtain ⟨hkey, hrest⟩ := List.nodup_cons.mp hupper
    rw [mergeMembers, ih hrest, lookup_putMember, List.lookup_cons]
    by_cases hk : k = key
    · subst hk
      rw [Table.lookup_eq_none_of_not_mem hkey, if_pos rfl, beq_self_eq_true]
    · rw [if_neg hk, beq_eq_false_iff_ne.mpr hk]

/-- The object on top wins member by member over an object below it, and over everything else as a
whole. -/
theorem get?_mergeValue (hmembers : (members.map Prod.fst).Nodup) (old : Option Value) (k : String) :
    (mergeValue old (.object members)).get? k =
      match members.lookup k with
      | some v => some (mergeValue (old.bind fun o ↦ o.get? k) v)
      | none => old.bind fun o ↦ o.get? k := by
  have hwhole : members.lookup k = match members.lookup k with
      | some v => some (mergeValue none v)
      | none => none := by
    cases members.lookup k with
    | none => rfl
    | some v => exact congrArg some (mergeValue_none v).symm
  cases old with
  | none =>
    rw [mergeValue_none]
    exact hwhole
  | some o =>
    cases o
    case object base =>
      rw [mergeValue]
      exact lookup_mergeMembers hmembers base k
    all_goals
      rw [mergeValue]
      · exact hwhole
      · simp

theorem exists_mergeValue_object (old : Option Value) (members : List (String × Value)) :
    ∃ merged, mergeValue old (.object members) = .object merged := by
  cases old with
  | none => exact ⟨members, mergeValue_none _⟩
  | some o =>
    cases o
    case object base => exact ⟨mergeMembers base members, by rw [mergeValue]⟩
    all_goals exact ⟨members, by rw [mergeValue]; simp⟩

/-! ### The order of members -/

namespace Text

variable {β : Type}

/-- Sorting keeps the first entry of a key before the others. -/
theorem lookup_insertByName (m : String × β) (ms : List (String × β)) (k : String) :
    (insertByName Prod.fst m ms).lookup k = (m :: ms).lookup k := by
  induction ms with
  | nil => rfl
  | cons e ms ih =>
    rw [insertByName]
    split
    · rfl
    · next hlt =>
      rw [List.lookup_cons, ih, List.lookup_cons, List.lookup_cons, List.lookup_cons]
      by_cases hk : k = e.1
      · have hm : k ≠ m.1 := by
          rintro rfl
          exact hlt (hk ▸ String.le_refl _)
        rw [beq_iff_eq.mpr hk, beq_eq_false_iff_ne.mpr hm]
      · rw [beq_eq_false_iff_ne.mpr hk]

theorem lookup_sortByName (ms : List (String × β)) (k : String) :
    (sortByName Prod.fst ms).lookup k = ms.lookup k := by
  induction ms with
  | nil => rfl
  | cons m ms ih =>
    change (insertByName Prod.fst m (sortByName Prod.fst ms)).lookup k = _
    rw [lookup_insertByName, List.lookup_cons, List.lookup_cons, ih]

end Text

namespace Json

mutual

/-- The document with all members sorted by their keys. -/
def Value.sortKeys : Value → Value
  | .list items => .list (sortItems items)
  | .object members => .object (Text.sortByName Prod.fst (sortMembers members))
  | v => v

/-- The items of a list with all their members sorted by key. -/
def sortItems : List Value → List Value
  | [] => []
  | v :: vs => v.sortKeys :: sortItems vs

/-- The members of an object, each with all that is below it sorted by key. -/
def sortMembers : List (String × Value) → List (String × Value)
  | [] => []
  | (key, v) :: ms => (key, v.sortKeys) :: sortMembers ms

end

/-- The documents differ at most in the order of members. -/
def Value.Agrees (v w : Value) : Prop :=
  v.sortKeys = w.sortKeys

instance : DecidableRel Value.Agrees :=
  fun v w ↦ inferInstanceAs (Decidable (v.sortKeys = w.sortKeys))

theorem sortItems_eq_map (vs : List Value) : sortItems vs = vs.map Value.sortKeys := by
  induction vs with
  | nil => rfl
  | cons v vs ih => rw [sortItems, ih, List.map_cons]

theorem map_fst_sortMembers (ms : List (String × Value)) :
    (sortMembers ms).map Prod.fst = ms.map Prod.fst := by
  induction ms with
  | nil => rfl
  | cons m ms ih => rw [sortMembers, List.map_cons, List.map_cons, ih]

theorem lookup_sortMembers (ms : List (String × Value)) (k : String) :
    (sortMembers ms).lookup k = (ms.lookup k).map Value.sortKeys := by
  induction ms with
  | nil => rfl
  | cons m ms ih =>
    rw [sortMembers, List.lookup_cons, List.lookup_cons, ih]
    split <;> rfl

/-- What documents that agree have under a key agrees. -/
theorem Value.get?_sortKeys (v : Value) (k : String) :
    v.sortKeys.get? k = (v.get? k).map Value.sortKeys := by
  cases v with
  | object ms =>
    rw [Value.sortKeys, Value.get?, Text.lookup_sortByName, lookup_sortMembers, Value.get?]
  | _ => rfl

theorem Value.text?_sortKeys (v : Value) : v.sortKeys.text? = v.text? := by
  cases v <;> rfl

theorem Value.asList_sortKeys (v : Value) : v.sortKeys.asList = v.asList.map Value.sortKeys := by
  cases v with
  | list vs => exact sortItems_eq_map vs
  | _ => rfl

theorem Value.sortKeys_eq_self {v : Value} (h : v.text?.isSome) : v.sortKeys = v := by
  cases v
  case str s => rfl
  all_goals cases h

namespace Value.Agrees

variable {v w : Value} {ms : List (String × Value)} {vs : List Value}

theorem get? (h : v.Agrees w) (k : String) :
    (v.get? k).map Value.sortKeys = (w.get? k).map Value.sortKeys := by
  rw [← Value.get?_sortKeys, ← Value.get?_sortKeys, h]

theorem exists_get? {k : String} {v' : Value} (h : v.Agrees w) (hk : w.get? k = some v') :
    ∃ v'', v.get? k = some v'' ∧ v''.Agrees v' := by
  have hkeys := h.get? k
  rw [hk] at hkeys
  exact Option.map_eq_some_iff.mp hkeys

/-- A document that agrees with an object is one, with the same keys. -/
theorem exists_object (h : v.Agrees (.object ms)) :
    ∃ ms', v = .object ms' ∧ (ms'.map Prod.fst).Perm (ms.map Prod.fst) := by
  cases v
  case object ms' =>
    refine ⟨ms', rfl, ?_⟩
    rw [Value.Agrees, Value.sortKeys, Value.sortKeys, Value.object.injEq] at h
    rw [← map_fst_sortMembers ms', ← map_fst_sortMembers ms]
    have hperm := (Text.sortByName_perm (sortMembers ms')).symm.trans
      (h ▸ Text.sortByName_perm (sortMembers ms))
    exact hperm.map Prod.fst
  all_goals cases h

theorem exists_list (h : v.Agrees (.list vs)) :
    ∃ vs', v = .list vs' ∧ vs'.map Value.sortKeys = vs.map Value.sortKeys := by
  cases v
  case list vs' =>
    refine ⟨vs', rfl, ?_⟩
    rw [Value.Agrees, Value.sortKeys, Value.sortKeys, Value.list.injEq] at h
    rw [← sortItems_eq_map, ← sortItems_eq_map, h]
  all_goals cases h

theorem forall_text_iff (h : v.Agrees w) :
    (∀ x ∈ v.asList, x.text?.isSome) ↔ ∀ x ∈ w.asList, x.text?.isSome := by
  have hsorted : ∀ v : Value, (∀ x ∈ v.sortKeys.asList, x.text?.isSome) ↔
      ∀ x ∈ v.asList, x.text?.isSome := by
    intro v
    rw [asList_sortKeys, List.forall_mem_map]
    simp only [text?_sortKeys]
  rw [← hsorted v, h, hsorted w]

theorem isSymbolList_eq (h : v.Agrees w) : isSymbolList v = isSymbolList w := by
  have hsorted : ∀ v : Value, isSymbolList v.sortKeys = isSymbolList v := by
    intro v
    cases v with
    | list vs =>
      rw [Value.sortKeys, sortItems_eq_map, isSymbolList, List.all_map, isSymbolList]
      exact congrArg vs.all (funext fun x ↦ congrArg (Option.any (· != "")) (text?_sortKeys x))
    | _ => rfl
  rw [← hsorted v, h, hsorted w]

/-- In a list of texts there are no members to put in order. -/
theorem eq_list (h : v.Agrees (.list vs)) (htexts : ∀ x ∈ vs, x.text?.isSome) : v = .list vs := by
  have hsame : ∀ {xs : List Value}, (∀ x ∈ xs, x.text?.isSome) → xs.map Value.sortKeys = xs :=
    fun h ↦ (List.map_congr_left fun x hx ↦ sortKeys_eq_self (h x hx)).trans (List.map_id _)
  obtain ⟨vs', rfl, heq⟩ := h.exists_list
  rw [← hsame htexts, ← heq]
  exact congrArg Value.list (hsame (h.forall_text_iff.mpr htexts)).symm

theorem eq_bool {b : Bool} (h : v.Agrees (.bool b)) : v = .bool b := by
  cases v <;> cases h
  rfl

end Value.Agrees

end Json

end DeclClosure

import DeclClosure.Tracker.Mixins
import Mathlib.Data.List.Induction
import Mathlib.Data.List.Nodup

/-!
# What a history of registrations comes to

The tracker has two indexes, which answer different questions about one history. By the mixin, it has
every registration in order (`registrationsOf_registered`). By the target and the kind of
composition, it has each mixin once, with the location of its last registration
(`exists_composition_iff`): of a mixin that was registered again, an earlier location is not known to
this index any more.
-/

namespace DeclClosure

/-! ### Entering what is there already -/

theorem lookup_upsert {κ α : Type} [BEq κ] [LawfulBEq κ] [DecidableEq κ] (key key' : κ)
    (f : List α → List α) (table : List (κ × List α)) : ((upsert key f table).lookup key').getD [] =
      if key' = key then f ((table.lookup key').getD []) else (table.lookup key').getD [] := by
  have hcons : ∀ (k : κ) (as : List α) (rest : List (κ × List α)),
      ((k, as) :: rest).lookup key' = if key' = k then some as else rest.lookup key' := by
    intro k as rest
    by_cases h : key' = k
    · rw [List.lookup_cons, beq_iff_eq.mpr h, if_pos h]
    · rw [List.lookup_cons, beq_eq_false_iff_ne.mpr h, if_neg h]
  induction table with
  | nil =>
    simp only [upsert, hcons]
    split <;> rfl
  | cons entry rest ih =>
    obtain ⟨k, as⟩ := entry
    by_cases hk : k = key
    · subst hk
      simp only [upsert, beq_self_eq_true, if_true, hcons]
      split <;> rfl
    · simp only [upsert, beq_eq_false_iff_ne.mpr hk, Bool.false_eq_true, if_false, hcons]
      by_cases h : key' = k
      · have hne : key' ≠ key := h ▸ hk
        simp only [if_pos h, if_neg hne]
      · simp only [if_neg h]
        exact ih

/-- The mixins stay apart, for a mixin that is there keeps its place. -/
theorem map_key_putComposition (c : Composition) (ds : List Composition) :
    (putComposition c ds).map (fun d ↦ d.mixin.key) =
      if c.mixin.key ∈ ds.map fun d ↦ d.mixin.key then ds.map fun d ↦ d.mixin.key
      else (ds.map fun d ↦ d.mixin.key) ++ [c.mixin.key] := by
  induction ds with
  | nil => rfl
  | cons d ds ih =>
    by_cases hd : d.mixin.same c.mixin
    · have hkey := Object.same_iff.mp hd
      simp [putComposition, hd, hkey]
    · have hkey : c.mixin.key ≠ d.mixin.key := fun h ↦ hd (Object.same_iff.mpr h.symm)
      simp only [putComposition, hd, List.map_cons, List.mem_cons, hkey, false_or, Bool.false_eq_true,
        if_false, ih]
      split <;> rfl

/-- A mixin that is entered has the new location; the others keep theirs. -/
theorem exists_mem_putComposition {c : Composition} {ds : List Composition} {key : ObjectKey}
    {location : String} (hnd : (ds.map fun d ↦ d.mixin.key).Nodup) :
    (∃ d ∈ putComposition c ds, d.mixin.key = key ∧ d.location = location) ↔
      if c.mixin.key = key then c.location = location
      else ∃ d ∈ ds, d.mixin.key = key ∧ d.location = location := by
  induction ds with
  | nil => simp [putComposition]
  | cons d ds ih =>
    obtain ⟨hd, hds⟩ := List.nodup_cons.mp hnd
    by_cases hsame : d.mixin.same c.mixin
    · have hkey := Object.same_iff.mp hsame
      simp only [putComposition, hsame, if_true, List.exists_mem_cons_iff]
      by_cases h : c.mixin.key = key
      · -- the mixin is nowhere else
        have hnone : ¬∃ d ∈ ds, d.mixin.key = key ∧ d.location = location := by
          rintro ⟨e, he, hekey, -⟩
          exact hd (List.mem_map.mpr ⟨e, he, hekey.trans (h.symm.trans hkey.symm)⟩)
        simp [h, hnone]
      · simp [h, hkey]
    · have hkey : d.mixin.key ≠ c.mixin.key := fun h ↦ hsame (Object.same_iff.mpr h)
      simp only [putComposition, hsame, Bool.false_eq_true, if_false, List.exists_mem_cons_iff, ih hds]
      by_cases h : c.mixin.key = key
      · have hne : d.mixin.key ≠ key := h ▸ hkey
        simp [h, hne]
      · simp [h]

/-! ### Histories -/

/-- What a registration says: the target, the mixin, how it was composed into the target, and where
that was done. -/
abbrev MixinCall := Object × Object × MixinKind × String

namespace MixinTracker

/-- Registers some compositions, one after the other. -/
def registerAll (t : MixinTracker) (calls : List MixinCall) : MixinTracker :=
  calls.foldl (fun t m ↦ t.register m.1 m.2.1 m.2.2.1 m.2.2.2) t

/-- The tracker after a history of registrations. -/
def registered (calls : List MixinCall) : MixinTracker :=
  registerAll { installed := true } calls

/-- Where a mixin was last composed into a target in one way. -/
def lastLocation? (calls : List MixinCall) (target mixin : Object) (kind : MixinKind) :
    Option String :=
  (calls.reverse.find? fun m ↦ m.1.same target && m.2.1.same mixin && m.2.2.1 = kind).map
    fun m ↦ m.2.2.2

variable {calls : List MixinCall} {target mixin : Object} {kind : MixinKind} {location : String}

theorem registered_append (calls : List MixinCall) (m : MixinCall) :
    registered (calls ++ [m]) = (registered calls).register m.1 m.2.1 m.2.2.1 m.2.2.2 := by
  simp only [registered, registerAll, List.foldl_append, List.foldl_cons, List.foldl_nil]

theorem installed_registered (calls : List MixinCall) : (registered calls).installed := by
  induction calls using List.reverseRecOn with
  | nil => rfl
  | append_singleton calls m ih =>
    rw [registered_append, register, if_pos ih]
    exact ih

theorem lastLocation?_append (calls : List MixinCall) (m : MixinCall) :
    lastLocation? (calls ++ [m]) target mixin kind =
      if m.1.key = target.key ∧ m.2.1.key = mixin.key ∧ m.2.2.1 = kind then some m.2.2.2
      else lastLocation? calls target mixin kind := by
  simp only [lastLocation?, List.reverse_append, List.reverse_cons, List.reverse_nil, List.nil_append,
    List.singleton_append, List.find?_cons]
  by_cases h : m.1.key = target.key ∧ m.2.1.key = mixin.key ∧ m.2.2.1 = kind
  · obtain ⟨htarget, hmixin, hkind⟩ := h
    simp [Object.same, htarget, hmixin, hkind]
  · rw [if_neg h]
    have hno : (m.1.same target && m.2.1.same mixin && decide (m.2.2.1 = kind)) = false := by
      rw [Bool.eq_false_iff]
      intro hyes
      obtain ⟨hboth, hkind⟩ := Bool.and_eq_true_iff.mp hyes
      obtain ⟨htarget, hmixin⟩ := Bool.and_eq_true_iff.mp hboth
      exact h ⟨Object.same_iff.mp htarget, Object.same_iff.mp hmixin, of_decide_eq_true hkind⟩
    rw [hno]

theorem compositionsOf_registered_append (calls : List MixinCall) (m : MixinCall) :
    (registered (calls ++ [m])).compositionsOf target kind =
      if target.key = m.1.key ∧ kind = m.2.2.1 then
        putComposition ⟨m.2.1, m.2.2.2⟩ ((registered calls).compositionsOf target kind)
      else (registered calls).compositionsOf target kind := by
  simp only [compositionsOf]
  rw [registered_append, register, if_pos (installed_registered calls)]
  simp only [lookup_upsert, Prod.mk.injEq]

/-- By the mixin, the tracker has all registrations in order. -/
theorem registrationsOf_registered (calls : List MixinCall) (mixin : Object) :
    (registered calls).registrationsOf mixin =
      (calls.filter fun m ↦ m.2.1.same mixin).map fun m ↦ ⟨m.1, m.2.2.1, m.2.2.2⟩ := by
  induction calls using List.reverseRecOn with
  | nil => rfl
  | append_singleton calls m ih =>
    simp only [registrationsOf] at ih ⊢
    rw [registered_append, register, if_pos (installed_registered calls)]
    simp only [lookup_upsert]
    rw [ih, List.filter_append, List.map_append]
    by_cases h : mixin.key = m.2.1.key
    · have hsame : m.2.1.same mixin := Object.same_iff.mpr h.symm
      simp [h, hsame]
    · have hsame : m.2.1.same mixin = false := by
        rw [Bool.eq_false_iff]
        exact fun hyes ↦ h (Object.same_iff.mp hyes).symm
      simp [h, hsame]

/-- By the target, no mixin is there twice. -/
theorem nodup_compositionsOf (calls : List MixinCall) (target : Object) (kind : MixinKind) :
    (((registered calls).compositionsOf target kind).map fun d ↦ d.mixin.key).Nodup := by
  induction calls using List.reverseRecOn with
  | nil => exact List.nodup_nil
  | append_singleton calls m ih =>
    rw [compositionsOf_registered_append]
    split
    · rw [map_key_putComposition]
      split
      · exact ih
      · next hnew =>
        refine List.nodup_append.mpr ⟨ih, List.nodup_singleton _, fun k hk k' hk' ↦ ?_⟩
        rintro rfl
        exact hnew (List.mem_singleton.mp hk' ▸ hk)
    · exact ih

/-- By the target, the tracker has each mixin where it was last composed into it. -/
theorem exists_composition_iff : (∃ d ∈ (registered calls).compositionsOf target kind,
      d.mixin.key = mixin.key ∧ d.location = location) ↔
    lastLocation? calls target mixin kind = some location := by
  induction calls using List.reverseRecOn with
  | nil => simp [registered, registerAll, compositionsOf, lastLocation?]
  | append_singleton calls m ih =>
    rw [compositionsOf_registered_append, lastLocation?_append]
    by_cases hplace : target.key = m.1.key ∧ kind = m.2.2.1
    · rw [if_pos hplace, exists_mem_putComposition (nodup_compositionsOf calls target kind)]
      obtain ⟨htarget, hkind⟩ := hplace
      by_cases hmixin : m.2.1.key = mixin.key
      · rw [if_pos hmixin, if_pos ⟨htarget.symm, hmixin, hkind.symm⟩, Option.some_inj]
      · rw [if_neg hmixin, if_neg fun h ↦ hmixin h.2.1, ih]
    · rw [if_neg hplace, if_neg fun h ↦ hplace ⟨h.1.symm, h.2.2.symm⟩, ih]

end MixinTracker

end DeclClosure

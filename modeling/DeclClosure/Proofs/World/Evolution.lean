import DeclClosure.Proofs.World.Still
import DeclClosure.Reflection.Records
import DeclClosure.Reflection.Signature

/-!
# What questions do to the world

A question to the world may load modules and make modules compute names. Neither makes an entity or
takes one away, and none becomes something else: the only trace that loading leaves in a namespace
is that a name of a package now stands for a module (`Entity.Evolves`). So whatever depends on
shapes alone has the same answer before and after any question.

`World.Evolves` is a preorder, and every question moves the world along it whether it succeeds or
fails (`Query.resolve_moves` and the theorems after it). The primitive moves are those of an answer
that is counted, a module that enters the table, a name that a package gains, and a note; of these,
only notes are left in a still world.
-/

namespace DeclClosure

/-- The entity `f` is `e` after some loading: some names may have come to stand for entities. -/
structure Entity.Evolves (e f : Entity) : Prop where
  /-- The entity is what it was. -/
  shape : f.shape = e.shape
  /-- Every name stands for what it stood for, or for an entity. -/
  attr : ∀ n, f.attr? n = e.attr? n ∨ ∃ id, f.attr? n = some (.entity id)

/-- The world `v` is `w` after some loading. -/
structure World.Loads (w v : World) : Prop where
  /-- Every entity comes from one that was there. -/
  entity : ∀ id f, v.entity? id = some f → ∃ e, w.entity? id = some e ∧ e.Evolves f
  /-- Every entity is still there. -/
  kept : ∀ id e, w.entity? id = some e → (v.entity? id).isSome
  /-- None is declared. -/
  size : v.declared.size = w.declared.size

/-- The world `v` is `w` after some questions. -/
structure World.Evolves (w v : World) : Prop extends w.Loads v where
  /-- A still world gains notes at most. -/
  rest : w.Still → ∃ notes, v = w.withNotes notes

namespace Entity

theorem attr?_setAttr (e : Entity) (name : String) (value : Object) (n : String) :
    (e.setAttr name value).attr? n = if n = name then some value else e.attr? n := by
  simp only [setAttr, attr?]
  split
  · -- the entry of the name is changed where it is
    next h =>
    rw [Table.lookup_map_set]
    split
    · next hn =>
      obtain ⟨a, ha, hname⟩ := List.any_eq_true.mp h
      have hsome : (e.attrs.lookup n).isSome :=
        List.lookup_isSome_iff.mpr ⟨a, ha, beq_iff_eq.mpr (hn.trans (beq_iff_eq.mp hname).symm)⟩
      obtain ⟨v, hv⟩ := Option.isSome_iff_exists.mp hsome
      rw [hv]
      rfl
    · rfl
  · -- a new entry comes last, so it hides no other
    next h =>
    show (e.attrs ++ [(name, value)]).lookup n = _
    rw [List.lookup_append]
    by_cases hn : n = name
    · have hnone : e.attrs.lookup n = none := by
        refine List.lookup_eq_none_iff.mpr fun a ha ↦ ?_
        refine bne_iff_ne.mpr fun hna ↦ h ?_
        exact List.any_eq_true.mpr ⟨a, ha, beq_iff_eq.mpr (hna.symm.trans hn)⟩
      rw [hnone, if_pos hn, hn]
      exact List.lookup_cons_self
    · have hne : (n == name) = false := beq_eq_false_iff_ne.mpr hn
      rw [if_neg hn, List.lookup_cons, hne]
      exact Option.or_none

namespace Evolves

theorem refl (e : Entity) : e.Evolves e :=
  ⟨rfl, fun _ ↦ .inl rfl⟩

theorem trans {e f g : Entity} (h₁ : e.Evolves f) (h₂ : f.Evolves g) : e.Evolves g := by
  refine ⟨h₂.shape.trans h₁.shape, fun n ↦ ?_⟩
  rcases h₂.attr n with h | h
  · rw [h]
    exact h₁.attr n
  · exact .inr h

theorem setAttr (e : Entity) (name : String) (id : EntityId) :
    e.Evolves (e.setAttr name (.entity id)) := by
  refine ⟨e.shape_setAttr name _, fun n ↦ ?_⟩
  rw [attr?_setAttr]
  split
  · exact .inr ⟨id, rfl⟩
  · exact .inl rfl

end Evolves

end Entity

namespace World

theorem entity?_update (w : World) (id : EntityId) (f : Entity → Entity) (hf : Entity.KeepsKin f)
    (j : EntityId) :
    (w.update id f hf).entity? j = if j = id then (w.entity? j).map f else w.entity? j := by
  have standard (hid : ∀ i, id ≠ .declared i) : (w.updateStandard id f hf hid).entity? j
      = if j = id then (w.entity? j).map f else w.entity? j := by
    simp only [updateStandard]
    split
    · next e he =>
      show Population.entity? w.declared (Population.change id (f e) w.changed) j = _
      rw [Population.entity?_change hid]
      split
      · next h => rw [h, he]; rfl
      · rfl
    · next he =>
      split
      · next h => rw [h, he]; rfl
      · rfl
  cases id with
  | standard key => exact standard (EntityId.standard_ne_declared key)
  | standardModule name => exact standard (EntityId.standardModule_ne_declared name)
  | declared i =>
    cases j with
    | standard key => rfl
    | standardModule name => rfl
    | declared k =>
      show (w.declared.modify i f)[k]? = if _ then w.declared[k]?.map f else w.declared[k]?
      rw [Array.getElem?_modify]
      by_cases h : i = k
      · rw [if_pos h, if_pos (by rw [h])]
      · rw [if_neg h, if_neg fun hk ↦ h (EntityId.declared.inj hk).symm]

theorem size_update (w : World) (id : EntityId) (f : Entity → Entity) (hf : Entity.KeepsKin f) :
    (w.update id f hf).declared.size = w.declared.size := by
  have standard (hid : ∀ i, id ≠ .declared i) :
      (w.updateStandard id f hf hid).declared.size = w.declared.size := by
    simp only [updateStandard]
    split <;> rfl
  cases id with
  | standard key => exact standard (EntityId.standard_ne_declared key)
  | standardModule name => exact standard (EntityId.standardModule_ne_declared name)
  | declared i => exact Array.size_modify

namespace Loads

theorem of_eq {w v : World} (hd : v.declared = w.declared) (hc : v.changed = w.changed) :
    w.Loads v := by
  have h : v.entity? = w.entity? := by
    funext id
    simp only [entity?]
    rw [hd, hc]
  refine ⟨fun id f hf ↦ ⟨f, by rw [← h, hf], .refl f⟩, fun id e he ↦ ?_, by rw [hd]⟩
  rw [h, he]
  rfl

theorem trans {u v w : World} (h₁ : u.Loads v) (h₂ : v.Loads w) : u.Loads w := by
  refine ⟨fun id g hg ↦ ?_, fun id e he ↦ ?_, h₂.size.trans h₁.size⟩
  · obtain ⟨f, hf, hfg⟩ := h₂.entity id g hg
    obtain ⟨e, he, hef⟩ := h₁.entity id f hf
    exact ⟨e, he, hef.trans hfg⟩
  · obtain ⟨f, hf⟩ := Option.isSome_iff_exists.mp (h₁.kept id e he)
    exact h₂.kept id f hf

instance : IsPreorder World World.Loads where
  refl _ := of_eq rfl rfl
  trans _ _ _ := trans

theorem setAttr (w : World) (id : EntityId) (name : String) (m : EntityId) :
    w.Loads
      (w.update id (fun e ↦ e.setAttr name (.entity m)) (Entity.keepsKin_setAttr _ _)) := by
  refine ⟨fun j f hf ↦ ?_, fun j e he ↦ ?_, w.size_update ..⟩
  · rw [entity?_update] at hf
    split at hf
    · obtain ⟨e, he, rfl⟩ := Option.map_eq_some_iff.mp hf
      exact ⟨e, he, .setAttr e name m⟩
    · exact ⟨f, hf, .refl f⟩
  · rw [entity?_update, he]
    split <;> rfl

end Loads

namespace Evolves

/-- A world that has gained notes at most. -/
theorem of_eq {w v : World} (hd : v.declared = w.declared) (hc : v.changed = w.changed)
    (hrest : ∃ notes, v = w.withNotes notes := by exact ⟨_, rfl⟩) : w.Evolves v :=
  ⟨.of_eq hd hc, fun _ ↦ hrest⟩

theorem trans {u v w : World} (h₁ : u.Evolves v) (h₂ : v.Evolves w) : u.Evolves w := by
  refine ⟨h₁.toLoads.trans h₂.toLoads, fun hu ↦ ?_⟩
  obtain ⟨notes, rfl⟩ := h₁.rest hu
  obtain ⟨more, rfl⟩ := h₂.rest (hu.withNotes notes)
  exact ⟨more, rfl⟩

instance : IsPreorder World World.Evolves where
  refl _ := of_eq rfl rfl
  trans _ _ _ := trans

/-- A still world stays still. -/
theorem still {w v : World} (h : w.Evolves v) (hw : w.Still) : v.Still := by
  obtain ⟨notes, rfl⟩ := h.rest hw
  exact hw.withNotes notes

end Evolves

end World

namespace Query

open Moves

/-- The question moves every world to one that it may load. -/
abbrev Loading {α : Type} (q : Query α) : Prop := Moves World.Loads q

/-- The question moves every world to one that it evolves into. -/
abbrev Evolving {α : Type} (q : Query α) : Prop := Moves World.Evolves q

section Asking

variable {α : Type} {R : World → World → Prop} [IsPreorder World R]

theorem fail_moves (kind message : String) : Moves R (fail kind message : Query α) :=
  Moves.throw _

theorem catching_moves {q : Query α} (kinds : List String) (h : Moves R q) :
    Moves R (catching kinds q) := by
  refine (h.map some).tryCatch fun r ↦ ?_
  split
  · exact Moves.pure none
  · exact Moves.throw r

/-- An answer is counted before it is given. -/
theorem moves_computed (hcount : ∀ (w : World) asked, R w { w with asked := asked })
    (id : EntityId) (facts : ModuleFacts) (name : String) : Moves R (computed id facts name) := by
  simp only [computed]
  split
  · exact fail_moves _ _
  · refine Moves.get_set_bind (fun w ↦ hcount w _) fun w ↦ ?_
    split
    · exact Moves.pure _
    · exact Moves.throw _
    · exact fail_moves _ _

theorem moves_attr (hcount : ∀ (w : World) asked, R w { w with asked := asked }) (o : Object)
    (name : String) : Moves R (attr o name) := by
  refine Moves.get.bind fun w ↦ ?_
  split
  · exact Moves.pure _
  · split
    · split
      · exact moves_computed hcount _ _ _
      · exact fail_moves _ _
    · exact fail_moves _ _

theorem moves_walk (hattr : ∀ o name, Moves R (attr o name)) (o : Object) (names : List String) :
    Moves R (walk o names) := by
  induction names generalizing o with
  | nil => exact Moves.pure _
  | cons n ns ih =>
    refine (catching_moves _ (hattr o n)).bind fun next ↦ ?_
    split
    · exact ih _
    · exact Moves.pure _

/-- Counting touches no entity. -/
theorem attr_loads (o : Object) (name : String) : Loading (attr o name) :=
  moves_attr (fun _ _ ↦ .of_eq rfl rfl) o name

theorem attr_moves (o : Object) (name : String) : Evolving (attr o name) := by
  refine fun w ↦ ⟨attr_loads o name w, fun hw ↦ ⟨w.notes, ?_⟩⟩
  rw [attr_of_still hw]
  rfl

theorem attr?_moves (o : Object) (name : String) : Evolving (attr? o name) :=
  catching_moves _ (attr_moves o name)

end Asking

section Loading

variable {R : World → World → Prop} [IsPreorder World R]

theorem loaded?_moves (name : String) : Moves R (loaded? name) :=
  Moves.get.bind fun _ ↦ Moves.pure _

theorem moves_requirePath (hattr : ∀ o name, Moves R (attr o name)) (name parent : String)
    (package : EntityId) : Moves R (requirePath name parent package) := by
  refine (catching_moves _ (hattr _ _)).bind fun path ↦ ?_
  split
  · exact Moves.pure _
  · exact fail_moves _ _

/-- Looking for a module brings it and the packages that it lies in to life, and gives the packages names
for their parts. A package comes before its part, so the induction is on the length of the name. -/
theorem moves_findModule {n : Nat} (hattr : ∀ o name, Moves R (attr o name))
    (hawaken : ∀ name, name.length ≤ n → Moves R (awaken name))
    (hset : ∀ (w : World) package name id,
      R w (w.update package (fun e ↦ e.setAttr name (.entity id)) (Entity.keepsKin_setAttr _ _)))
    {name : String} (hname : name.length ≤ n) : Moves R (findModule name) := by
  induction hlength : name.length using Nat.strongRecOn generalizing name with
  | ind k ih =>
    rw [findModule]
    refine (loaded?_moves name).bind fun found ↦ ?_
    split
    · exact Moves.pure _
    · split
      · exact hawaken name hname
      · next parent hparent =>
        have hlt := Name.length_parent_lt hparent
        split
        · exact hawaken name hname
        · refine (ih _ (hlength ▸ hlt) (Nat.le_of_lt (Nat.lt_of_lt_of_le hlt hname)) rfl).bind
            fun package ↦ ?_
          refine (loaded?_moves name).bind fun found ↦ ?_
          split
          · exact Moves.pure _
          · refine (moves_requirePath hattr name parent package).bind fun _ ↦ ?_
            refine (hawaken name hname).bind fun id ↦ ?_
            exact (Moves.modify fun w ↦ hset w package _ id).bind fun _ ↦ Moves.pure _

/-- What is not found is remembered, and a failure may be noted. -/
theorem moves_module? {name : String} (hfind : Moves R (findModule name))
    (hrecord : ∀ (w : World) notModules notes,
      R w { w with notModules := notModules, notes := notes }) : Moves R (module? name) := by
  have hdismiss : Moves R (dismiss name) :=
    (Moves.modify fun w ↦ hrecord w _ w.notes).bind fun _ ↦ Moves.pure _
  refine (loaded?_moves name).bind fun found ↦ ?_
  split
  · exact Moves.pure _
  · refine Moves.get.bind fun w ↦ ?_
    split
    · exact Moves.pure _
    · have himport : Moves R (importModule name) := by
        rw [importModule]
        split
        · exact fail_moves _ _
        · split
          · exact fail_moves _ _
          · exact hfind
      refine (himport.map some).tryCatch fun r ↦ ?_
      split
      · exact hdismiss
      · split
        · exact (Moves.modify fun w ↦ hrecord w w.notModules _).bind fun _ ↦ hdismiss
        · exact Moves.throw r

theorem awaken_loads (name : String) : Loading (awaken name) := by
  refine Moves.get.bind fun w ↦ ?_
  split
  · exact fail_moves _ _
  · split
    · exact Moves.throw _
    · exact (Moves.modify fun _ ↦ .of_eq rfl rfl).bind fun _ ↦ Moves.pure _

theorem findModule_loads (name : String) : Loading (findModule name) :=
  moves_findModule attr_loads (fun name _ ↦ awaken_loads name)
    (fun w package _ id ↦ .setAttr w package _ id) (Nat.le_refl _)

theorem module?_loads (name : String) : Loading (module? name) :=
  moves_module? (findModule_loads name) fun _ _ _ ↦ .of_eq rfl rfl

theorem module?_moves (name : String) : Evolving (module? name) := by
  refine fun w ↦ ⟨module?_loads name w, fun hw ↦ ⟨w.notes, ?_⟩⟩
  rw [module?_of_still hw]
  rfl

end Loading

section Naming

theorem walk_moves (o : Object) (names : List String) : Evolving (walk o names) :=
  moves_walk attr_moves o names

theorem firstOf_moves (ways : List (String × List String)) : Evolving (firstOf ways) := by
  induction ways with
  | nil => exact Moves.pure _
  | cons way others ih =>
    refine (module?_moves way.1).bind fun found ↦ ?_
    split
    · exact ih
    · refine (walk_moves _ _).bind fun o ↦ ?_
      split
      · exact Moves.pure _
      · exact ih

theorem resolve_moves (name : String) : Evolving (resolve name) := by
  rw [resolve]
  dsimp only
  split
  · exact Moves.pure _
  · refine (firstOf_moves _).bind fun o ↦ ?_
    split
    · exact Moves.pure _
    · exact walk_moves _ _

theorem nameOf_moves (o : Object) : Evolving (nameOf o) := by
  refine Moves.get.bind fun w ↦ ?_
  split
  · exact Moves.pure _
  · refine (resolve_moves _).bind fun found ↦ ?_
    split <;> exact Moves.pure _

theorem iterate_moves (o : Object) : Evolving (iterate o) := by
  simp only [iterate]
  split
  · exact Moves.pure _
  · exact Moves.get.bind fun _ ↦ fail_moves _ _

theorem typeParameters_moves (o : Object) : Evolving (typeParameters o) := by
  refine Moves.get.bind fun w ↦ ?_
  split
  · exact Moves.pure _
  · split
    · exact iterate_moves _
    · exact Moves.pure _
  · exact Moves.pure _

end Naming

section Describing

theorem moduleFile_moves (module : Object) : Evolving (moduleFile module) := by
  refine (attr?_moves _ _).bind fun file ↦ ?_
  split
  · split <;> exact Moves.pure _
  · exact Moves.pure _

theorem definitionFiles_moves (o : Object) : Evolving (definitionFiles o) := by
  refine Moves.get.bind fun w ↦ ?_
  split
  · exact moduleFile_moves o
  · split
    · exact Moves.pure _
    · split
      · exact (moduleFile_moves _).bind fun _ ↦ Moves.pure _
      · exact Moves.pure _

theorem typeText_moves (o : Object) : Evolving (typeText nameOf o) := by
  refine Moves.get.bind fun w ↦ ?_
  split
  · exact Moves.pure _
  · split
    · exact Moves.pure _
    · split
      · exact Moves.pure _
      · split
        · refine (nameOf_moves o).bind fun name ↦ ?_
          split <;> exact Moves.pure _
        · exact Moves.pure _

theorem entryOr_moves (o key default : Object) : Evolving (entryOr o key default) := by
  simp only [entryOr]
  split
  · exact Moves.pure _
  · exact Moves.get.bind fun _ ↦ fail_moves _ _

theorem listedFields_moves (o names : Object) : Evolving (listedFields o names) := by
  refine Moves.get.bind fun w ↦ ?_
  refine (iterate_moves names).bind fun listed ↦ ?_
  refine Moves.mapM fun name _ ↦ ?_
  refine (entryOr_moves _ _ _).bind fun _ ↦ ?_
  exact (entryOr_moves _ _ _).bind fun _ ↦ Moves.pure _

theorem fieldsOf_moves (o : Object) : Evolving (fieldsOf o) := by
  refine Moves.get.bind fun w ↦ ?_
  split
  · exact Moves.pure _
  · split
    · split
      · exact listedFields_moves _ _
      · exact Moves.pure _
    · exact Moves.pure _

theorem globalName_moves (globals : Option EntityId) (name : String) :
    Evolving (globalName globals name) := by
  refine Moves.get.bind fun w ↦ ?_
  split
  · exact Moves.pure _
  · dsimp only
    split
    · exact Moves.pure _
    · split
      · exact Moves.pure _
      · exact fail_moves _ _

theorem attrPath_moves (o : Object) (names : List String) : Evolving (attrPath o names) := by
  induction names generalizing o with
  | nil => exact Moves.pure _
  | cons n ns ih => exact (attr_moves o n).bind ih

theorem evaluate_moves (globals : Option EntityId) (text : String) :
    Evolving (evaluate globals text) := by
  unfold evaluate
  dsimp only
  split
  · exact fail_moves _ _
  · split
    · exact fail_moves _ _
    · exact (globalName_moves _ _).bind fun _ ↦ attrPath_moves _ _

theorem evaluateType_moves (globals : Option EntityId) (o : Option Object) :
    Evolving (evaluateType globals o) := by
  simp only [evaluateType]
  split
  · exact (evaluate_moves _ _).map some
  · exact Moves.pure _

theorem evaluatedSignature_moves (f : FunctionFacts) : Evolving (evaluatedSignature f) := by
  refine Moves.bind ?_ fun _ ↦ (evaluateType_moves _ _).bind fun _ ↦ Moves.pure _
  exact Moves.mapM fun p _ ↦ (evaluateType_moves _ _).bind fun _ ↦ Moves.pure _

theorem signature?_moves (o : Object) : Evolving (signature? o) := by
  refine Moves.get.bind fun w ↦ ?_
  split
  · exact Moves.pure _
  · refine ((evaluatedSignature_moves _).map some).tryCatch fun r ↦ ?_
    split
    · exact Moves.pure _
    · split
      · exact Moves.pure _
      · exact Moves.throw r

end Describing

end Query

end DeclClosure

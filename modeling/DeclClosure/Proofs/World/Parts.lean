import DeclClosure.Proofs.Tree.Enclosing
import DeclClosure.Proofs.World.Barred
import DeclClosure.Reflection.Members

/-!
# What stands for the parts of a module

A name in the namespace of a module and the qualified name below the module are two ways to an
object. The second way looks into the table of modules first, with the whole name, and tries to load
a module of it; only if there is none it goes on with shorter names, and comes to the module and to
what its namespace has (`Query.resolve_within_cases`). So both ways lead to one object unless the
table has another module under the qualified name (`World.binding?_eq_some_iff`). A module that is
loaded on the way makes no difference, since a part that is loaded becomes a name of its package
(`Query.exists_package_of_findModule`).

Loading a module puts no longer names into the table than its own, and takes none out
(`World.Gathers`).
-/

namespace DeclClosure

/-! ### Qualified names -/

namespace Name

variable {scope name : String}

theorem cutLast_append_cons (before : List Char) {after : List Char} (h : '.' ∉ after) :
    cutLast (before ++ '.' :: after) = (some before, after) := by
  induction before with
  | nil =>
    rw [List.nil_append, cutLast, cutLast_of_not_mem h]
    exact if_pos rfl
  | cons c before ih => rw [List.cons_append, cutLast, ih]

theorem cutLast_within (h : '.' ∉ name.toList) :
    cutLast (within scope name).toList = (some scope.toList, name.toList) := by
  rw [toList_within, cutLast_append_cons _ h]

theorem within_injective (scope : String) : Function.Injective (within scope) := by
  intro name name' h
  have htoList := congrArg String.toList h
  rw [toList_within, toList_within] at htoList
  exact String.toList_inj.mp (List.cons.inj (List.append_cancel_left htoList)).2

theorem parent?_within (h : '.' ∉ name.toList) : parent? (within scope name) = some scope := by
  rw [parent?, cutLast_within h]
  exact congrArg some String.ofList_toList

theorem leaf_within (h : '.' ∉ name.toList) : leaf (within scope name) = name := by
  rw [leaf, cutLast_within h]
  exact String.ofList_toList

theorem package?_within (h : '.' ∉ name.toList) (hscope : scope ≠ "") :
    package? (within scope name) = some scope := by
  rw [package?, parent?_within h, Option.filter_some, if_pos (decide_eq_true hscope)]

theorem within_ne_empty (scope name : String) : within scope name ≠ "" := by
  intro h
  have htoList := congrArg String.toList h
  rw [toList_within] at htoList
  exact absurd (List.append_eq_nil_iff.mp htoList).2 (List.cons_ne_nil _ _)

theorem segmentsFrom_of_not_mem {cs : List Char} (h : '.' ∉ cs) : segmentsFrom cs = [cs] := by
  induction cs with
  | nil => rfl
  | cons c cs ih =>
    obtain ⟨hc, hcs⟩ := not_or.mp fun hmem ↦ h (List.mem_cons.mpr hmem)
    rw [segmentsFrom, if_neg (Ne.symm hc), ih hcs]

theorem segmentsFrom_append_cons (before after : List Char) :
    segmentsFrom (before ++ '.' :: after) = segmentsFrom before ++ segmentsFrom after := by
  induction before with
  | nil => exact if_pos rfl
  | cons c before ih =>
    rw [List.cons_append, segmentsFrom, segmentsFrom, ih]
    split
    · rfl
    · cases hsegments : segmentsFrom before with
      | nil => exact absurd hsegments (segmentsFrom_ne_nil before)
      | cons s ss => rfl

theorem segments_within (h : '.' ∉ name.toList) :
    segments (within scope name) = segments scope ++ [name] := by
  rw [segments, toList_within, segmentsFrom_append_cons, segmentsFrom_of_not_mem h, List.map_append,
    List.map_singleton, String.ofList_toList, segments]

theorem startsWith_rootQualifier_iff : startsWith rootQualifier name ↔ Encloses rootName name :=
  startsWith_iff_exists

/-- A root qualifier stands before what is below a scope if it stands before the scope, or if the scope
is the root namespace. -/
theorem stripRoot_within (h : '.' ∉ name.toList) (hscope : scope ≠ rootName) :
    stripRoot (within scope name) = within (stripRoot scope) name := by
  by_cases hstarts : startsWith rootQualifier scope
  · obtain ⟨rest, hrest⟩ := startsWith_rootQualifier_iff.mp hstarts
    obtain rfl : scope = rootQualifier ++ rest := hrest
    rw [stripRoot_rootQualifier_append, within, String.append_assoc, String.append_assoc,
      stripRoot_rootQualifier_append, within, String.append_assoc]
  · rw [stripRoot_of_not_startsWith hstarts]
    refine stripRoot_of_not_startsWith fun hwithin ↦ ?_
    have hencloses := startsWith_rootQualifier_iff.mp hwithin
    rcases (parent?_eq_some (parent?_within h) rootName).mp hencloses with heq | hencloses
    · exact hscope heq.symm
    · exact hstarts (startsWith_rootQualifier_iff.mpr hencloses)

end Name

/-! ### Namespaces -/

namespace World

variable {w v : World} {o : Object} {id : EntityId} {name x : String}

/-- What a name is bound to in the own namespace of an object. -/
def binding? (w : World) (o : Object) (name : String) : Option Object :=
  ((w.namespace? o).getD []).lookup name

theorem binding?_eq_of_module? {e : Entity} {m : ModuleFacts} (he : w.entity? id = some e)
    (hm : e.module? = some m) : w.binding? (.entity id) name = e.attr? name := by
  have howner : (namespaceOwner? (.entity id)).bind w.entity? = some e := he
  simp only [Entity.module?] at hm
  split at hm
  · next hshape =>
    simp only [binding?, namespace?]
    rw [howner]
    dsimp only
    rw [hshape]
    rfl
  · cases hm

/-- A module has what its namespace has. -/
theorem attr?_eq_binding? (h : w.isModule (.entity id)) :
    w.attr? (.entity id) name = w.binding? (.entity id) name := by
  obtain ⟨e, m, he, hm⟩ := isModule_entity_iff.mp h
  rw [attr?_of_module? he hm, binding?_eq_of_module? he hm]

/-- No name of a module is lost. -/
theorem Loads.isSome_binding? (h : w.Loads v) (hid : v.isModule (.entity id))
    (hname : (w.binding? (.entity id) name).isSome) : (v.binding? (.entity id) name).isSome := by
  obtain ⟨f, m, hf, hm⟩ := isModule_entity_iff.mp hid
  obtain ⟨e, he, hevolves⟩ := h.entity id f hf
  rw [binding?_eq_of_module? he (hevolves.module?_eq.symm.trans hm)] at hname
  rw [binding?_eq_of_module? hf hm]
  rcases hevolves.attr name with heq | ⟨part, heq⟩
  · rwa [heq]
  · rw [heq]
    rfl

theorem isSome_binding?_of_mem_constantsOf (h : name ∈ w.constantsOf o) :
    (w.binding? o name).isSome := by
  rw [constantsOf, (Text.sortByName_perm _).mem_iff, List.mem_eraseDups] at h
  obtain ⟨entry, hentry, rfl⟩ := List.mem_map.mp h
  exact List.lookup_isSome_iff.mpr ⟨entry, (List.mem_filter.mp hentry).1, beq_self_eq_true _⟩

/-! ### Tables -/

/-- From `w` to `v` modules may have entered the table, none of them under a name that is longer than
this. -/
structure Gathers (n : Nat) (w v : World) : Prop where
  /-- What was loaded is loaded still. -/
  kept : ∀ {x id}, w.modules.lookup x = some id → v.modules.lookup x = some id
  /-- Nothing is loaded under longer names that was not. -/
  longer : ∀ {x}, n < x.length → v.modules.lookup x = w.modules.lookup x

variable {n : Nat}

theorem Gathers.of_eq (h : v.modules = w.modules) : Gathers n w v :=
  ⟨fun hx ↦ by rwa [h], fun _ ↦ by rw [h]⟩

instance : IsPreorder World (Gathers n) where
  refl _ := .of_eq rfl
  trans _ _ _ h₁ h₂ :=
    ⟨fun hx ↦ h₂.kept (h₁.kept hx), fun hx ↦ (h₂.longer hx).trans (h₁.longer hx)⟩

theorem gathers_withModule (w : World) (id : EntityId) (hx : x.length ≤ n) :
    Gathers n w (w.withModule x id) := by
  refine ⟨fun {y _} hy ↦ ?_, fun {y} hy ↦ ?_⟩
  · show (w.modules ++ [(x, id)]).lookup y = _
    rw [List.lookup_append, hy]
    rfl
  · have hne : (y == x) = false := beq_eq_false_iff_ne.mpr fun h ↦
      Nat.lt_irrefl _ (Nat.lt_of_lt_of_le (h ▸ hy) hx)
    show (w.modules ++ [(x, id)]).lookup y = _
    rw [List.lookup_append, List.lookup_cons, hne]
    exact Option.or_none

theorem gathers_withAttr (w : World) (id : EntityId) (x : String) (o : Object) :
    Gathers n w (w.withAttr id x o) :=
  .of_eq (modules_update ..)

end World

namespace Query

open World Moves

variable {w u v : World} {o p : Object} {id part : EntityId} {name parent x : String} {n : Nat}

theorem attr_gathers (o : Object) (x : String) : Moves (Gathers n) (attr o x) :=
  moves_attr (fun _ _ ↦ .of_eq rfl) o x

theorem awaken_gathers (hx : x.length ≤ n) : Moves (Gathers n) (awaken x) := by
  intro w
  rw [awaken_run]
  cases w.wakes x with
  | ok id => exact gathers_withModule w id hx
  | error r => exact refl_of (Gathers n) w

/-- Packages have shorter names than their parts. -/
theorem findModule_gathers (x : String) : Moves (Gathers x.length) (findModule x) :=
  moves_findModule attr_gathers (fun _ hle ↦ awaken_gathers hle)
    (fun w package _ id ↦ gathers_withAttr w package _ (.entity id)) (Nat.le_refl _)

theorem module?_gathers (x : String) : Moves (Gathers x.length) (module? x) :=
  moves_module? (findModule_gathers x) fun _ _ _ ↦ .of_eq rfl

/-! ### Modules that were not loaded -/

theorem awaken_eq_ok (h : awaken x w = (.ok id, v)) : v = w.withModule x id := by
  rw [awaken_run] at h
  cases hwakes : w.wakes x with
  | ok id' =>
    rw [hwakes] at h
    cases h
    rfl
  | error r =>
    rw [hwakes] at h
    cases h

theorem lookup_withModule (h : w.modules.lookup x = none) :
    (w.withModule x id).modules.lookup x = some id := by
  show (w.modules ++ [(x, id)]).lookup x = _
  rw [List.lookup_append, h, List.lookup_cons, beq_self_eq_true]
  rfl

/-- A part of a package is loaded after the package, and then it becomes one of the names of the
package. -/
theorem findModule_part (hnew : w.modules.lookup x = none)
    (hpackage : Name.package? x = some parent) (h : findModule x w = (.ok part, v)) :
    ∃ (package : EntityId) (t u : World), findModule parent w = (.ok package, t) ∧
      u.modules.lookup x = none ∧ t.Gathers parent.length u ∧
      v = (u.withModule x part).withAttr package (Name.leaf x) (.entity part) := by
  have hlt := Name.length_package_lt hpackage
  rw [findModule_of_package? hnew hpackage] at h
  obtain ⟨package, t, hparent, h⟩ := run_bind_eq_ok_iff.mp h
  obtain ⟨found, t, hfound, h⟩ := run_bind_eq_ok_iff.mp h
  cases hfound
  have ht : w.Gathers parent.length t := by
    have hgathers := findModule_gathers parent w
    rwa [hparent] at hgathers
  rw [ht.longer hlt, hnew] at h
  obtain ⟨⟨⟩, u, hpath, h⟩ := run_bind_eq_ok_iff.mp h
  have hu : t.Gathers parent.length u := by
    have hgathers := moves_requirePath (attr_gathers (n := parent.length)) x parent package t
    rwa [hpath] at hgathers
  obtain ⟨id, u', hawaken, h⟩ := run_bind_eq_ok_iff.mp h
  obtain rfl := awaken_eq_ok hawaken
  cases h
  exact ⟨package, t, u, hparent, ((hu.longer hlt).trans (ht.longer hlt)).trans hnew, hu, rfl⟩

/-- A module that is found is loaded. -/
theorem lookup_of_findModule (h : findModule x w = (.ok id, v)) :
    v.modules.lookup x = some id := by
  cases hlookup : w.modules.lookup x with
  | some known =>
    rw [findModule, run_bind, loaded?_run, hlookup] at h
    cases h
    exact hlookup
  | none =>
    cases hpackage : Name.package? x with
    | none =>
      rw [findModule_of_package?_eq_none hlookup hpackage] at h
      obtain rfl := awaken_eq_ok h
      exact lookup_withModule hlookup
    | some parent =>
      obtain ⟨package, t, u, -, hnone, -, rfl⟩ := findModule_part hlookup hpackage h
      exact (congrArg (List.lookup x) (modules_update ..)).trans (lookup_withModule hnone)

/-- When a part of a package is loaded, so is the package, and it has the part under its last name. -/
theorem exists_package_of_findModule (hnew : w.modules.lookup x = none)
    (hpackage : Name.package? x = some parent) (h : findModule x w = (.ok part, v)) :
    ∃ package, v.modules.lookup parent = some package ∧ (v.isModule (.entity package) →
      v.binding? (.entity package) (Name.leaf x) = some (.entity part)) := by
  obtain ⟨package, t, u, hfind, -, hu, rfl⟩ := findModule_part hnew hpackage h
  have hloaded : (u.withModule x part).modules.lookup parent = some package :=
    (gathers_withModule u part (Nat.le_refl _)).kept (hu.kept (lookup_of_findModule hfind))
  refine ⟨package, (congrArg (List.lookup parent) (modules_update ..)).trans hloaded, fun hid ↦ ?_⟩
  obtain ⟨e, m, he, hm⟩ := isModule_entity_iff.mp hid
  rw [binding?_eq_of_module? he hm]
  -- the entity is the package as it was, with one more name
  rw [withAttr, entity?_update, if_pos rfl] at he
  obtain ⟨f, -, rfl⟩ := Option.map_eq_some_iff.mp he
  rw [Entity.attr?_setAttr, if_pos rfl]

/-- A name of a module is one of the table, or is found and not loaded before. -/
theorem module?_eq_some (h : module? x w = (.ok (some id), v)) :
    (w.modules.lookup x = some id ∧ v = w) ∨
      (w.modules.lookup x = none ∧ findModule x w = (.ok id, v)) := by
  simp only [module?] at h
  rw [run_bind, loaded?_run] at h
  cases hlookup : w.modules.lookup x with
  | some known =>
    rw [hlookup] at h
    cases h
    exact .inl ⟨rfl, rfl⟩
  | none =>
    rw [hlookup] at h
    dsimp only at h
    rw [run_get_bind] at h
    split at h
    · cases h
    · rw [run_tryCatch, run_map] at h
      rcases himport : importModule x w with ⟨r | found, u⟩
      · -- whatever the failure, no module comes of it
        rw [himport] at h
        dsimp only at h
        split at h
        · cases h
        · split at h <;> cases h
      · rw [himport] at h
        cases h
        refine .inr ⟨rfl, ?_⟩
        rw [importModule] at himport
        split at himport
        · cases himport
        · split at himport
          · cases himport
          · exact himport

/-! ### Names below a module -/

/-- The ways to take the first segments as the name of a module, when there is one more segment. -/
theorem splits_append_singleton (parts : List String) (name : String) :
    splits (parts ++ [name]) = (Name.ofSegments (parts ++ [name]), []) ::
      (splits parts).map fun way ↦ (way.1, way.2 ++ [name]) := by
  have hlength : (parts ++ [name]).length = parts.length + 1 := List.length_append
  rw [splits, hlength, List.range'_1_concat, List.reverse_append, List.reverse_singleton,
    List.singleton_append, List.map_cons, Nat.add_comm 1, ← hlength, List.take_length,
    List.drop_length, splits, List.map_map]
  refine congrArg _ (List.map_congr_left fun n hn ↦ ?_)
  -- all other ways leave the last segment out of the name of the module
  have hle : n ≤ parts.length := by
    have hrange := List.mem_range'_1.mp (List.mem_reverse.mp hn)
    omega
  rw [Function.comp_apply, List.take_append_of_le_length hle, List.drop_append_of_le_length hle]

/-- With a further name a walk goes on to what that stands for, if it has led to an object that has the
name. -/
theorem walk_append {names : List String} {found : Option Object}
    (h : walk o names w = (.ok found, v)) (hattr : ∀ q ∈ found, attr q name v = (.ok p, v)) :
    walk o (names ++ [name]) w = (.ok (found.map fun _ ↦ p), v) := by
  induction names generalizing o w with
  | nil =>
    cases h
    have hcatch : catching ["AttributeError", "ImportError"] (attr o name) v = (.ok (some p), v) := by
      rw [run_catching, hattr o rfl]
    rw [List.nil_append, walk, run_bind_ok hcatch]
    rfl
  | cons n ns ih =>
    obtain ⟨next, u, hnext, h⟩ := run_bind_eq_ok_iff.mp h
    rw [List.cons_append, walk, run_bind_ok hnext]
    cases next with
    | none =>
      cases h
      rfl
    | some next => exact ih h

/-- So do ways that are tried in turn: they lead to the same module as without the name, or nowhere. -/
theorem firstOf_append {ways : List (String × List String)} {found : Option Object}
    (h : firstOf ways w = (.ok found, v)) (hattr : ∀ q ∈ found, attr q name v = (.ok p, v)) :
    firstOf (ways.map fun way ↦ (way.1, way.2 ++ [name])) w = (.ok (found.map fun _ ↦ p), v) := by
  induction ways generalizing w with
  | nil =>
    cases h
    rfl
  | cons way others ih =>
    obtain ⟨id, u, hmodule, h⟩ := run_bind_eq_ok_iff.mp h
    rw [List.map_cons, firstOf, run_bind_ok hmodule]
    cases id with
    | none => exact ih h
    | some id =>
      obtain ⟨next, t, hwalk, h⟩ := run_bind_eq_ok_iff.mp h
      cases next with
      | none =>
        dsimp only
        rw [run_bind_ok (walk_append (p := p) hwalk fun q hq ↦ by cases hq)]
        exact ih h
      | some next =>
        cases h
        dsimp only
        rw [run_bind_ok (walk_append hwalk hattr)]
        rfl

/-- A name below another one stands for the module of the whole name. If there is none, and the other
name still stands for an object, it stands for what the object has under the last name. -/
theorem resolve_within_cases (hname : '.' ∉ name.toList) (hx : x ≠ Name.rootName)
    (h : resolve (Name.within x name) w = (.ok (some o), u)) :
    (∃ id, module? (Name.stripRoot (Name.within x name)) w = (.ok (some id), u) ∧ o = .entity id) ∨
      ∃ v, module? (Name.stripRoot (Name.within x name)) w = (.ok none, v) ∧
        ∀ q p t, resolve x v = (.ok (some q), t) → attr q name t = (.ok p, t) → o = p ∧ u = t := by
  have hwhole : Name.ofSegments (Name.segments (Name.stripRoot x) ++ [name])
      = Name.within (Name.stripRoot x) name := by
    rw [← Name.segments_within hname, Name.ofSegments_segments]
  rw [resolve, Name.stripRoot_within hname hx, Name.segments_within hname] at h
  rw [Name.stripRoot_within hname hx]
  split at h
  · next hempty => exact absurd hempty (Name.within_ne_empty _ _)
  · dsimp only at h
    rw [splits_append_singleton, hwhole] at h
    obtain ⟨found, v, hfound, h⟩ := run_bind_eq_ok_iff.mp h
    obtain ⟨id, t, hmodule, hfound⟩ := run_bind_eq_ok_iff.mp hfound
    cases id with
    | some id =>
      cases hfound
      cases h
      exact .inl ⟨id, hmodule, rfl⟩
    | none =>
      dsimp only at hfound
      refine .inr ⟨t, hmodule, fun q p v' hq hp ↦ ?_⟩
      rw [resolve] at hq
      split at hq
      · cases hq
      · obtain ⟨way, t', hway, hq⟩ := run_bind_eq_ok_iff.mp hq
        cases way with
        | some way =>
          cases hq
          rw [firstOf_append (p := p) hway fun _ hsame ↦ Option.some.inj hsame ▸ hp] at hfound
          cases hfound
          cases h
          exact ⟨rfl, rfl⟩
        | none =>
          -- both names are looked for in the root namespace
          rw [firstOf_append (p := p) hway fun q hq ↦ by cases hq] at hfound
          cases hfound
          have h : walk rootModule (Name.segments (Name.stripRoot x) ++ [name]) v
              = (.ok (some o), u) := h
          rw [walk_append (p := p) hq fun _ hsame ↦ Option.some.inj hsame ▸ hp] at h
          cases h
          exact ⟨rfl, rfl⟩

/-! ### The two ways to what a module has -/

theorem module?_of_loaded (h : w.modules.lookup x = some id) : module? x w = (.ok (some id), w) := by
  simp only [module?]
  rw [run_bind, loaded?_run, h]
  rfl

theorem stripRoot_ne_empty_of_resolve (h : resolve x w = (.ok (some o), v)) :
    Name.stripRoot x ≠ "" := by
  intro hempty
  rw [resolve, if_pos hempty] at h
  cases h

theorem resolve_of_loaded (h : w.modules.lookup (Name.stripRoot x) = some id)
    (hne : Name.stripRoot x ≠ "") : resolve x w = (.ok (some (.entity id)), w) := by
  have hsegments : Name.segments (Name.stripRoot x) ≠ [] := fun hnil ↦
    Name.segmentsFrom_ne_nil _ (List.map_eq_nil_iff.mp hnil)
  obtain ⟨parts, last, hparts⟩ := (List.eq_nil_or_concat _).resolve_left hsegments
  rw [List.concat_eq_append] at hparts
  have hwhole : Name.ofSegments (parts ++ [last]) = Name.stripRoot x := by
    rw [← hparts, Name.ofSegments_segments]
  have hfirst : firstOf (splits (Name.segments (Name.stripRoot x))) w
      = (.ok (some (.entity id)), w) := by
    rw [hparts, splits_append_singleton, hwhole, firstOf, run_bind_ok (module?_of_loaded h)]
    rfl
  rw [resolve, if_neg hne, run_bind_ok hfirst]
  rfl

end Query

namespace World

open Query

variable {w u : World} {o : Object} {id part : EntityId} {x tried name : String}

/-- When it has been tried whether `tried` is the name of a module, the name `x` still stands for the
object. -/
def StillFinds (w : World) (x : String) (o : Object) (tried : String) : Prop :=
  ∃ v, resolve x (module? tried w).2 = (.ok (some o), v)

/-- A module in the table stays there. -/
theorem stillFinds_of_loaded (h : w.modules.lookup (Name.stripRoot x) = some id)
    (hne : Name.stripRoot x ≠ "") (tried : String) : w.StillFinds x (.entity id) tried :=
  ⟨_, resolve_of_loaded ((module?_gathers tried w).kept h) hne⟩

/-- In a still world the name stands for what it always stands for. -/
theorem stillFinds_of_still (hw : w.Still) (h : w.meaning? x = some o) (tried : String) :
    w.StillFinds x o tried := by
  refine ⟨w, ?_⟩
  rw [module?_of_still hw, resolve_of_still hw, h]

/-- **Two ways to what a module has.** A module has a name, and the qualified name below it is resolved.
If the name of the module still stands for it then, the qualified name stands for what the name is bound
to exactly if the table had no other module under the qualified name. -/
theorem binding?_eq_some_iff (hname : '.' ∉ name.toList) (hx : x ≠ Name.rootName)
    (hid : w.isModule (.entity id)) (hbound : (w.binding? (.entity id) name).isSome)
    (hfinds : w.StillFinds x (.entity id) (Name.stripRoot (Name.within x name)))
    (h : resolve (Name.within x name) w = (.ok (some o), u)) :
    u.binding? (.entity id) name = some o ↔
      ∀ part, w.modules.lookup (Name.stripRoot (Name.within x name)) = some part →
        u.binding? (.entity id) name = some (.entity part) := by
  obtain ⟨v, hfinds⟩ := hfinds
  rcases resolve_within_cases hname hx h with ⟨part, hmodule, rfl⟩ | ⟨t, hmodule, hrest⟩
  · rcases module?_eq_some hmodule with ⟨hloaded, rfl⟩ | ⟨hnew, hfind⟩
    · -- the table has the module, which is what the qualified name stands for
      rw [hloaded]
      exact ⟨fun hsame _ hpart ↦ Option.some.inj hpart ▸ hsame, fun hall ↦ hall part rfl⟩
    · -- the module has just been loaded, and is bound to the name since then
      have hu : w.Loads u := by
        have hmoves := resolve_moves (Name.within x name) w
        rw [h] at hmoves
        exact hmoves.toLoads
      rw [hmodule] at hfinds
      have hne := stripRoot_ne_empty_of_resolve hfinds
      rw [Name.stripRoot_within hname hx] at hnew hfind ⊢
      obtain ⟨package, hpackage, hpart⟩ :=
        exists_package_of_findModule hnew (Name.package?_within hname hne) hfind
      rw [resolve_of_loaded hpackage hne] at hfinds
      cases hfinds
      rw [Name.leaf_within hname] at hpart
      rw [hnew]
      exact ⟨fun _ ↦ nofun, fun _ ↦ hpart (hu.isModule hid)⟩
  · -- the module is found, and what it has under the name
    rw [hmodule] at hfinds
    have ht : w.Loads t := by
      have hloads := module?_loads (Name.stripRoot (Name.within x name)) w
      rwa [hmodule] at hloads
    have hv : t.Loads v := by
      have hmoves := resolve_moves x t
      rw [hfinds] at hmoves
      exact hmoves.toLoads
    have htv := ht.trans hv
    obtain ⟨p, hp⟩ := Option.isSome_iff_exists.mp (htv.isSome_binding? (htv.isModule hid) hbound)
    have hattr : attr (.entity id) name v = (.ok p, v) := by
      have hhas : v.attr? (.entity id) name = v.binding? (.entity id) name :=
        attr?_eq_binding? (htv.isModule hid)
      simp only [attr]
      rw [run_get_bind, hhas, hp]
      rfl
    obtain ⟨rfl, rfl⟩ := hrest _ _ _ hfinds hattr
    refine ⟨fun _ part hpart ↦ ?_, fun _ ↦ hp⟩
    rw [module?_of_loaded hpart] at hmodule
    cases hmodule

end World

end DeclClosure

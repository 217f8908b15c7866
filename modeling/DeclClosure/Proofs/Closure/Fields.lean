import DeclClosure.Closure.Drain
import DeclClosure.Proofs.Closure.Listings
import DeclClosure.Proofs.Closure.Termination
import DeclClosure.Proofs.World.Parts

/-!
# Whose fields a class shows

Fields are asked for by two routes. A record class knows the fields of its ancestors as well, and only
those that it gives a type itself are listed. A tuple class is asked for its list of names, and this is
looked up like any other name: a class that does not have a list itself finds the one of an ancestor. So a
class below a tuple class that adds nothing is shown with fields that it has only inherited
(`World.MerelyInherits`), and no other class is (`Run.fields_declared_iff`).
-/

namespace DeclClosure

/-- The body of the class gives the name a type. -/
def Entity.annotates (e : Entity) (x : String) : Bool :=
  (e.attr? "__annotations__").any fun types ↦ World.hasEntry types x

namespace World

/-- The field names that an object lists. -/
def fieldNamesIn (w : World) (o : Object) : List String :=
  (o.iterate?.getD []).map w.fieldName

/-- The body of the class introduces the field or gives it a type: it stands in the types or in the list
of field names that the class itself has. -/
def declaresField (w : World) (id : EntityId) (x : String) : Bool :=
  (w.entity? id).any fun e ↦
    e.annotates x || (e.attr? "_fields").any fun names ↦ (w.fieldNamesIn (ofClass names)).contains x

/-- The class is no record but one of tuples, and finds a field in the list of an ancestor that its own
body does not mention. -/
structure MerelyInherits (w : World) (id : EntityId) (x : String) : Prop where
  /-- It is no record. -/
  noRecord : w.recordFields? id = none
  /-- It is a class of tuples. -/
  tuple : w.isBelow id (.standard "tuple")
  /-- The field stands in the list that is found. -/
  found : ∃ names, w.attr? (.entity id) "_fields" = some names ∧ x ∈ w.fieldNamesIn names
  /-- The body of the class does not mention it. -/
  undeclared : ¬w.declaresField id x

/-- The names of the fields that are listed for a class. -/
def listedFieldNames (w : World) (id : EntityId) : List String :=
  match w.recordFields? id with
  | some fields =>
    let own := (w.attr? (.entity id) "__annotations__").getD (.dict 0 [])
    (fields.filter fun f ↦ hasEntry own f.name).map Field.name
  | none =>
    if w.isBelow id (.standard "tuple") then ((w.attr? (.entity id) "_fields").map w.fieldNamesIn).getD []
    else []

variable {w : World} {id : EntityId} {e : Entity} {c : ClassFacts} {x : String}

theorem entityAttr?_of_class (he : w.entity? id = some e) (hc : e.shape = .class c) (name : String) :
    w.attr? (.entity id) name = w.classAttr? id e c name := by
  show w.entityAttr? id name = _
  simp only [entityAttr?, he, Option.bind_eq_bind, Option.bind_some, hc]

/-- The types that a class shows are those of its own body. -/
theorem hasEntry_ownAnnotations (h : w.isClass (.entity id))
    (hx : hasEntry ((w.attr? (.entity id) "__annotations__").getD (.dict 0 [])) x) :
    w.declaresField id x := by
  obtain ⟨_, c, ⟨⟩, hclass⟩ := exists_of_isClass h
  obtain ⟨e, he, hc⟩ := shape_of_class? hclass
  rw [entityAttr?_of_class he hc] at hx
  have hnone : ¬hasEntry (.dict 0 []) x := Bool.noConfusion
  have hown : e.annotates x := by
    rw [Entity.annotates]
    cases hattr : e.attr? "__annotations__" with
    | some types =>
      simp only [classAttr?, hattr] at hx
      exact hx
    | none =>
      cases id <;> simp [classAttr?, hattr] at hx <;> exact absurd hx hnone
  simp [declaresField, he, hown]

/-- Every name that is listed for a class is one that its body mentions, or one that it merely
inherits. -/
theorem declares_or_merelyInherits (h : w.isClass (.entity id)) (hx : x ∈ w.listedFieldNames id) :
    w.declaresField id x ∨ w.MerelyInherits id x := by
  by_cases hdeclares : w.declaresField id x
  · exact .inl hdeclares
  rw [listedFieldNames] at hx
  split at hx
  · obtain ⟨f, hf, rfl⟩ := List.mem_map.mp hx
    exact .inl (hasEntry_ownAnnotations h (List.mem_filter.mp hf).2)
  · next hrecord =>
    split at hx
    · next htuple =>
      cases hfound : w.attr? (.entity id) "_fields" with
      | none =>
        rw [hfound] at hx
        cases hx
      | some names =>
        rw [hfound] at hx
        exact .inr ⟨hrecord, htuple, ⟨names, hfound, hx⟩, hdeclares⟩
    · cases hx

theorem MerelyInherits.mem_listedFieldNames (h : w.MerelyInherits id x) :
    x ∈ w.listedFieldNames id := by
  obtain ⟨names, hfound, hx⟩ := h.found
  rw [listedFieldNames, h.noRecord]
  simp only [h.tuple, if_pos, hfound, Option.map_some, Option.getD_some, hx]

theorem MerelyInherits.isClass (h : w.MerelyInherits id x) : w.isClass (.entity id) := by
  have htuple := h.tuple
  simp only [isBelow, linearization] at htuple
  simp only [World.isClass, asClass?, Object.entity?, Option.bind_some, Option.isSome_map]
  cases hclass : w.class? id with
  | none =>
    rw [hclass] at htuple
    cases htuple
  | some c => rfl

/-- A class that comes first in its own lookup order and has a list of field names itself merely inherits
nothing. -/
theorem not_merelyInherits_of_lists (horder : (w.linearization id).head? = some id)
    (hlists : ((w.entity? id).bind fun e ↦ e.attr? "_fields").isSome) : ¬w.MerelyInherits id x := by
  intro h
  obtain ⟨found, hfound, hx⟩ := h.found
  obtain ⟨names, hnames⟩ := Option.isSome_iff_exists.mp hlists
  obtain ⟨e, he, hattr⟩ := Option.bind_eq_some_iff.mp hnames
  obtain ⟨_, c, ⟨⟩, hclass⟩ := exists_of_isClass h.isClass
  obtain ⟨e', he', hc⟩ := shape_of_class? hclass
  obtain rfl : e = e' := Option.some.inj (he.symm.trans he')
  obtain ⟨rest, hrest⟩ := List.head?_eq_some_iff.mp horder
  -- the lookup stops at the class itself
  have hfirst : w.inClass? id "_fields" = some names := by
    simp [inClass?, hrest, lookupIn, he, hattr]
  have hown : w.classAttr? id e c "_fields" = some (ofClass names) := by
    simp [classAttr?, hfirst]
  rw [entityAttr?_of_class he hc, hown] at hfound
  obtain rfl := Option.some.inj hfound
  refine h.undeclared ?_
  simp only [declaresField, he, Option.any_some, hattr]
  rw [List.contains_iff_mem.mpr hx, Bool.or_true]

end World

/-- What is known of each of some values is known of their list. -/
theorem Yields.mapM {ε σ α β γ : Type} {g : α → γ} {k : β → γ} {as : List α}
    {f : α → ExceptT ε (StateM σ) β} (h : ∀ a ∈ as, Yields (fun b ↦ k b = g a) (f a)) :
    Yields (fun bs ↦ bs.map k = as.map g) (as.mapM f) := by
  induction as with
  | nil => exact .pure rfl
  | cons a as ih =>
    rw [List.mapM_cons]
    intro s bs v hrun
    obtain ⟨b, t, hb, hrest⟩ := run_bind_eq_ok_iff.mp hrun
    obtain ⟨bs', u, hbs, hpure⟩ := run_bind_eq_ok_iff.mp hrest
    cases hpure
    rw [List.map_cons, List.map_cons, h a List.mem_cons_self s b t hb,
      ih (fun a' ha' ↦ h a' (List.mem_cons_of_mem a ha')) t bs' _ hbs]

namespace Query

variable {w v : World} {id : EntityId} {o names : Object} {fields : List (String × Object × Object)}

theorem listedFields_names (h : listedFields o names w = (.ok fields, v)) :
    fields.map Prod.fst = w.fieldNamesIn names := by
  rw [listedFields, run_get_bind] at h
  obtain ⟨os, u, hos, hfields⟩ := run_bind_eq_ok_iff.mp h
  have hlist : names.iterate? = some os := by
    cases hiterate : names.iterate? with
    | some os' =>
      simp only [iterate, hiterate] at hos
      cases hos
      rfl
    | none =>
      simp only [iterate, hiterate] at hos
      cases hos
  rw [World.fieldNamesIn, hlist]
  refine Yields.mapM (fun name _ ↦ ?_) u fields v hfields
  exact .bind fun _ ↦ .bind fun _ ↦ .pure rfl

/-- Whatever the types and the defaults are, the fields are those that are listed for the class. -/
theorem fieldsOf_names (hclass : w.isClass (.entity id))
    (h : fieldsOf (.entity id) w = (.ok fields, v)) :
    fields.map Prod.fst = w.listedFieldNames id := by
  obtain ⟨⟨id', c⟩, hc⟩ := Option.isSome_iff_exists.mp hclass
  obtain rfl : id = id' := by
    simp only [World.asClass?, Object.entity?, Option.bind_some, Option.map_eq_some_iff] at hc
    obtain ⟨_, -, heq⟩ := hc
    exact congrArg Prod.fst heq
  have hrecordClass : w.recordClass (.entity id) = id := by rw [World.recordClass, hc]
  rw [fieldsOf, run_get_bind, hrecordClass] at h
  cases hrecord : w.recordFields? id with
  | some all =>
    rw [hrecord] at h
    cases h
    simp only [World.listedFieldNames, hrecord]
    rw [List.map_map]
    rfl
  | none =>
    simp only [hrecord, hc] at h
    simp only [World.listedFieldNames, hrecord]
    cases hfound : w.attr? (.entity id) "_fields" with
    | none =>
      rw [hfound] at h
      cases h
      split <;> rfl
    | some names =>
      simp only [hfound] at h
      split at h
      · next htuple =>
        rw [if_pos htuple]
        exact listedFields_names h
      · next htuple =>
        cases h
        rw [if_neg htuple]
        rfl

end Query

namespace Closure

/-- The node declares a field of the announced class. -/
def Announcement.ShowsField (a : Announcement) (x : String) (m : Node) : Prop :=
  ∃ type default, m = .leaf ⟨m.id, Name.within a.name x, []⟩ (.attribute type default)

/-- A node declares a field of one name only. -/
theorem Announcement.ShowsField.unique {a : Announcement} {x y : String} {m : Node}
    (hx : a.ShowsField x m) (hy : a.ShowsField y m) : x = y := by
  obtain ⟨type, default, hx⟩ := hx
  obtain ⟨type', default', hy⟩ := hy
  rw [hx] at hy
  injection hy with hhead
  injection hhead with _ hname
  exact Name.within_injective a.name hname

namespace Run

variable {c : Setting} {a : Announcement} {s t : State} {scope : Node} {id : EntityId}

theorem addField_lists (f : String × Object × Object) :
    Lists a (fun f m ↦ a.ShowsField f.1 m) [f] (do
      let text ← typeText f.2.1
      let shown := if f.2.2.same .missing then none else some "..."
      let _ ← addChild a fun id ↦ .leaf ⟨id, Name.within a.name f.1, []⟩ (.attribute text shown)
      pushType f.2.1) := by
  refine .beside_bind (ask_learns (Query.typeText_moves _)).beside fun text ↦ ?_
  exact .bind_beside (.addChild fun _ ↦ ⟨_, _, rfl⟩) fun _ ↦ pushType_beside _

/-- The fields that are listed for a class are put below the announced scope, one after the other. -/
theorem addFields_lists (hs : s.Sound) (hshows : a.Shows s scope) (hvalue : a.value = .entity id)
    (hclass : s.world.isClass (.entity id)) : ∃ done ms, done <+: s.world.listedFieldNames id ∧
      List.Forall₂ a.ShowsField done ms ∧ a.Adopts s ms (addFields a s).2 ∧
        ∀ t, addFields a s = (.ok (), t) → done = s.world.listedFieldNames id := by
  simp only [addFields]
  rw [run_get_bind, hvalue, hclass, Bool.not_true, if_neg Bool.false_ne_true, run_bind]
  have hbeside := (ask_learns (Query.fieldsOf_moves (.entity id))).beside s
  rcases hrun : ask (Query.fieldsOf (.entity id)) s with ⟨e | fields, u⟩
  · rw [hrun] at hbeside
    exact ⟨[], [], List.nil_prefix, .nil, .beside hs hbeside, fun _ h ↦ by cases h⟩
  · rw [hrun] at hbeside
    obtain ⟨v, hfields, -⟩ := ask_eq_ok hrun
    have hnames := Query.fieldsOf_names hclass hfields
    have hasked : a.Adopts s [] u := .beside hs hbeside
    obtain ⟨done, ms, hdone, hms, hadopts, hall⟩ :=
      Lists.forM (fun f (_ : f ∈ fields) ↦ addField_lists f) u hasked.sound
        ⟨scope, hshows.beside hbeside⟩
    refine ⟨done.map Prod.fst, ms, hnames ▸ hdone.map Prod.fst, ?_, hasked.trans hadopts, ?_⟩
    · exact List.forall₂_map_left_iff.mpr hms
    · intro t ht
      rw [hall () t ht, hnames]

end Run

/-- A module `app` with a class of tuples that has one field, and a class below it that adds nothing. -/
def heirUniverse : UniverseDeclaration where
  modules := [
    { name := "app", file := some "/srv/app.src"
      members := [("Point", .reference "Point"), ("Sub", .reference "Sub")] }]
  objects := [
    ("Point", .tupleClass { name := "Point", qualname := "Point", module := some "app" } false
      [{ name := "x", ascription := .standard "int" }] []),
    ("Sub", .class { name := "Sub", qualname := "Sub", module := some "app" } [.reference "Point"] []
      .absent false)]

/-- The world of these classes. -/
def heirWorld : World :=
  (State.startOf heirUniverse []).world

/-- The class that the module has under a name. -/
def heirMember? (name : String) : Option EntityId :=
  (heirWorld.attr? (.entity (.declared 0)) name).bind Object.entity?

/-- The unit is the module. -/
def heirSetting : Setting :=
  .plain ⟨"app", [⟨["srv"]⟩]⟩

/-- A compilation that starts from the class below the other one. -/
def heirOutset : State :=
  (State.start heirWorld {} ["app.Sub"]).begun heirSetting

/-- The scope of the class of tuples before anything is listed below it. -/
def pointScope : Node :=
  .scope ⟨0, "app.Point", []⟩ { kind := .class none } []

/-- The scope is all that has been declared. -/
def pointState : State where
  world := heirWorld
  tree := { roots := [pointScope] }
  nextNode := 1

/-- The announcement of the scope. -/
def pointAnnouncement : Announcement where
  name := "app.Point"
  value := .entity (.declared 8)
  node := some 0
  kind := .scope
  signature := none

end Closure

end DeclClosure

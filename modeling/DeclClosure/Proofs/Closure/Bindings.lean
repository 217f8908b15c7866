import DeclClosure.Proofs.Closure.Arrivals
import DeclClosure.Proofs.Closure.Compositions
import DeclClosure.Proofs.World.Parts

/-!
# What is passed on for the constants of a module

The constants of a scope are listed from its namespace, but what is passed on for one of them is what
the qualified name stands for (`State.LooksUp`). If the scope is a module, this is what the namespace
has unless the table has another module under the qualified name, as it does when a module re-exports
something under the name of one of its parts (`subconstant_eq_binding_iff`). A part that is loaded only
when the name is looked up is bound to it from then on, so it makes no difference.
-/

namespace DeclClosure

@[simp]
theorem World.binding?_withNotes (w : World) (notes : List Note) :
    (w.withNotes notes).binding? = w.binding? := rfl

theorem Query.stripRoot_ne_empty_of_nameOf {w v : World} {o : Object} {x : String}
    (h : nameOf o w = (.ok (some x), v)) : Name.stripRoot x ≠ "" := by
  have hdeclared := canonicalName?_of_nameOf h
  simp only [nameOf] at h
  rw [run_get_bind, hdeclared] at h
  obtain ⟨found, u, hfound, hname⟩ := run_bind_eq_ok_iff.mp h
  cases found with
  | none => cases hname
  | some found => exact stripRoot_ne_empty_of_resolve hfound

namespace Closure

variable {c : Setting} {s : State} {w : World} {x name : String} {v o : Object} {id : NodeId}

/-- In the step from `s` a name that is listed among the constants of `v` is looked up below the name
`x`, in the world `u`, and an object is found. The world `t` is what is left then. -/
structure State.LooksUp (c : Setting) (s : State) (x : String) (v : Object) (name : String)
    (o : Object) (u t : World) : Prop where
  /-- The name was listed. -/
  listed : ∃ w : World, w.Evolves u ∧ name ∈ w.constantsOf v
  /-- It is not looked up before the step. -/
  before : s.world.Evolves u
  /-- The qualified name stands for the object. -/
  resolves : Query.resolve (Name.within x name) u = (.ok (some o), t)
  /-- It is not looked up after the step. -/
  after : t.Evolves (s.next c).world

theorem State.LooksUp.evolves {u t : World} (h : s.LooksUp c x v name o u t) : u.Evolves t := by
  have hmoves := Query.resolve_moves (Name.within x name) u
  rwa [h.resolves] at hmoves

/-- What is passed on when a scope is announced has been looked up. -/
theorem State.Gains.exists_looksUp (hs : s.Sound) {z : String} {node : Option NodeId}
    {signature : Option Signature} {es : List Event}
    (hcons : s.queue.items = .node x v node .scope signature :: es)
    (h : s.Gains c (.constant z o)) :
    ∃ name u t, z = Name.within x name ∧ s.LooksUp c x v name o u t := by
  cases h.brings hs with
  | constant hsymbol =>
    rw [hcons] at hsymbol
    cases hsymbol
  | @subconstant y name p _ _ _ _ _ u t hnode hu hopens hresolve ht =>
    rw [hcons] at hnode
    cases hnode
    exact ⟨name, u, t, rfl, hopens.constant, hu, hresolve, ht⟩

/-- What is pending after the only pending event has been worked off has joined the queue meanwhile. -/
theorem State.gains_of_singleton {n : Nat} {d e : Event} (h : (s.after c n).queue.items = [d])
    (he : e ∈ (s.after c (n + 1)).queue.items) : (s.after c n).Gains c e := by
  refine ⟨_, ?_, he⟩
  rw [popped, h]
  rfl

/-- An object that is announced as a scope of the unit bore the name when it was declared. -/
theorem AnnouncedAs.exists_nameOf (hb : s.Blank) (h : AnnouncedAs c s .scope x o id) :
    ∃ u t, Query.nameOf o u = (.ok (some x), t) := by
  obtain ⟨k, signature, hmem⟩ := h
  have hkind : NodeKind.scope ≠ .method := nofun
  obtain ⟨j, -, found, p, verdict, htakes, hv, hann, -⟩ := exists_declaring hb hkind hmem
  obtain ⟨⟨sk, rfl⟩, rfl, rfl⟩ := Verdict.eq_scope_of_announces hann nofun
  obtain ⟨u, hrun, -⟩ := State.exists_judge_of_verdict? htakes hv
  obtain ⟨t, hname⟩ := Run.nameOf_of_judgeConstant hrun
  obtain ⟨u, hname, -⟩ := Run.ask_eq_ok hname
  exact ⟨_, u, hname⟩

/-- **What is passed on for the constants of a module.** Let a module be announced as a scope of the
unit, in any compilation. Whatever object is passed on in this step was looked up under the qualified
name of a constant that had been listed for the module.

If nothing is loaded or computed in the world, or the table has the module under its name when this
happens, or that name at least still stands for it, then the object is what the namespace has under the
name of the constant exactly if the table has no other module under the qualified name. This is so for
all names without points; a name with points is taken apart when it is looked up. It is so for all
modules but one that bears the name of the root namespace, whose constants are looked up as names of
their own. -/
theorem subconstant_eq_binding_iff (c : Setting) (w : World) (tr : Trackers) (seeds : List String)
    {n : Nat} {x z : String} {v o : Object} {id : NodeId} {signature : Option Signature}
    {es : List Event}
    (hcons : ((State.outset c w tr seeds).after c n).queue.items
      = .node x v (some id) .scope signature :: es)
    (hmodule : w.isModule v)
    (hgains : ((State.outset c w tr seeds).after c n).Gains c (.constant z o)) :
    ∃ name u t, z = Name.within x name ∧
      ((State.outset c w tr seeds).after c n).LooksUp c x v name o u t ∧
      ('.' ∉ name.toList → x ≠ Name.rootName →
        w.Still ∨ u.modules.lookup (Name.stripRoot x) = v.entity? ∨
          u.StillFinds x v (Name.stripRoot z) →
        (t.binding? v name = some o ↔ ∀ part, u.modules.lookup (Name.stripRoot z) = some part →
          t.binding? v name = some (.entity part))) := by
  have hb := State.blank_outset c w tr seeds
  obtain ⟨name, u, t, rfl, hlooks⟩ := hgains.exists_looksUp (State.after_sound hb.sound n) hcons
  refine ⟨name, u, t, rfl, hlooks, fun hname hx h ↦ ?_⟩
  have hann : AnnouncedAs c (State.outset c w tr seeds) .scope x v id :=
    ⟨n, signature, hcons ▸ List.mem_cons_self⟩
  have hnoted : w.Evolves (State.outset c w tr seeds).world := .of_eq rfl rfl
  have hu := hnoted.trans ((State.after_evolves c _ n).trans hlooks.before)
  obtain ⟨i, e, rfl, -, -⟩ := World.exists_of_isModule hmodule
  have hfinds : u.StillFinds x (.entity i) (Name.stripRoot (Name.within x name)) := by
    rcases h with hw | hloaded | hfinds
    · obtain ⟨notes, rfl⟩ := hu.rest hw
      have htrue := hann.trueName? hw hb (faithful_after hw tr seeds)
      refine World.stillFinds_of_still (hw.withNotes notes) ?_ _
      rw [World.meaning?_withNotes]
      exact (World.trueName?_eq_some_iff.mp htrue).2
    · obtain ⟨u', t', hbore⟩ := hann.exists_nameOf hb
      exact World.stillFinds_of_loaded hloaded (Query.stripRoot_ne_empty_of_nameOf hbore) _
    · exact hfinds
  have hid : u.isModule (.entity i) := hu.toLoads.isModule hmodule
  obtain ⟨u', hu', hlisted⟩ := hlooks.listed
  have hbound := hu'.toLoads.isSome_binding? hid (World.isSome_binding?_of_mem_constantsOf hlisted)
  exact World.binding?_eq_some_iff hname hx hid hbound hfinds hlooks.resolves

/-- A module `pkg` that re-exports a class of its part `pkg.impl`, and another part under the name of the
class, if there is to be one. -/
def reexportUniverse (shadowed : Bool) : UniverseDeclaration where
  modules := [
    { name := "pkg", file := some "/srv/pkg/__init__.src", members := [("Sub", .reference "Sub")] },
    { name := "pkg.impl", file := some "/srv/pkg/impl.src"
      members := [("Sub", .reference "Sub")] }] ++
    if shadowed then [{ name := "pkg.Sub", file := some "/srv/pkg/Sub.src" }] else []
  objects := [
    ("Sub", .class { name := "Sub", qualname := "Sub", module := some "pkg.impl" } [] [] .absent
      false)]

/-- The world of these modules. -/
def reexportWorld (shadowed : Bool) : World :=
  (State.startOf (reexportUniverse shadowed) []).world

/-- The unit is the module. -/
def reexportSetting : Setting :=
  .plain ⟨"pkg", [⟨["srv", "pkg"]⟩]⟩

/-- A compilation that starts from the module. -/
def reexportOutset (shadowed : Bool) : State :=
  .outset reexportSetting (reexportWorld shadowed) {} ["pkg"]

/-- The name and the entity that an event brings. -/
def Event.brought? : Event → Option (String × EntityId)
  | .constant x (.entity i) => some (x, i)
  | _ => none

/-- The name and the entity of the scope of the unit that an event announces, and the node. -/
def Event.announcedScope? : Event → Option (String × EntityId × NodeId)
  | .node x (.entity i) (some id) .scope none => some (x, i, id)
  | _ => none

theorem Event.eq_of_brought? {e : Event} {y : String} {i : EntityId}
    (h : e.brought? = some (y, i)) : e = .constant y (.entity i) := by
  unfold brought? at h
  split at h <;> cases h
  rfl

theorem Event.eq_of_announcedScope? {e : Event} {y : String} {i : EntityId} {id : NodeId}
    (h : e.announcedScope? = some (y, i, id)) : e = .node y (.entity i) (some id) .scope none := by
  unfold announcedScope? at h
  split at h <;> cases h
  rfl

set_option maxRecDepth 100000 in
/-- The third event announces the module, and brings an object for its constant. -/
theorem exists_gains_of_reexport (shadowed : Bool) :
    ((reexportOutset shadowed).after reexportSetting 2).queue.items =
        [.node "pkg" (.entity (.declared 0)) (some 0) .scope none] ∧
      ((reexportOutset shadowed).after reexportSetting 2).Gains reexportSetting
        (.constant "pkg.Sub" (.entity (.declared 2))) := by
  have hhead : ∀ b, ((reexportOutset b).after reexportSetting 2).queue.items.map
      Event.announcedScope? = [some ("pkg", .declared 0, 0)] := by
    decide +kernel
  have hbrings : ∀ b, ((reexportOutset b).after reexportSetting (2 + 1)).queue.items.map
      Event.brought? = [some ("pkg.Sub", .declared 2)] := by
    decide +kernel
  obtain ⟨e, he, hannounced⟩ := List.map_eq_singleton_iff.mp (hhead shadowed)
  obtain ⟨d, hd, hbrought⟩ := List.map_eq_singleton_iff.mp (hbrings shadowed)
  obtain rfl := Event.eq_of_announcedScope? hannounced
  obtain rfl := Event.eq_of_brought? hbrought
  have hmem : .constant "pkg.Sub" (.entity (.declared 2)) ∈
      ((reexportOutset shadowed).after reexportSetting (2 + 1)).queue.items := by
    rw [hd]
    exact List.mem_singleton_self _
  exact ⟨he, State.gains_of_singleton he hmem⟩

set_option maxRecDepth 100000 in
/-- If there is no other part, the class is passed on, to which the module has bound the name. -/
theorem subconstant_eq_binding_of_reexport : (reexportWorld false).Still ∧ ∃ o,
    ((reexportOutset false).after reexportSetting 2).Gains reexportSetting (.constant "pkg.Sub" o) ∧
      (reexportWorld false).binding? (.entity (.declared 0)) "Sub" = some o := by
  have hstill : (reexportWorld false).Still := by decide +kernel
  have hmodule : (reexportWorld false).isModule (.entity (.declared 0)) := by decide +kernel
  have hfree : (reexportWorld false).modules.lookup (Name.stripRoot "pkg.Sub") = none := by
    decide +kernel
  obtain ⟨hcons, hgains⟩ := exists_gains_of_reexport false
  refine ⟨hstill, _, hgains, ?_⟩
  rw [reexportOutset] at hcons hgains
  obtain ⟨name, u, t, hname, hlooks, hiff⟩ :=
    subconstant_eq_binding_iff reexportSetting (reexportWorld false) {} ["pkg"] hcons hmodule hgains
  obtain rfl : "Sub" = name := Name.within_injective "pkg" hname
  have hfaithful := faithful_after (c := reexportSetting) hstill {} ["pkg"] 2
  obtain ⟨notes, rfl⟩ := hfaithful.exists_withNotes hstill hlooks.before
  obtain ⟨more, rfl⟩ := hlooks.evolves.rest (hstill.withNotes notes)
  rw [World.modules_withNotes, hfree, World.binding?_withNotes, World.binding?_withNotes] at hiff
  exact (hiff (by decide) (by decide) (.inl hstill)).mpr nofun

set_option maxRecDepth 100000 in
/-- If there is one, that is passed on in place of the class. -/
theorem subconstant_ne_binding_of_shadowed : reexportSetting.listeners = ⟨Listener.defaults⟩ ∧
    (reexportWorld true).isModule (.entity (.declared 0)) ∧
    "Sub" ∈ (reexportWorld true).constantsOf (.entity (.declared 0)) ∧ ∃ id signature es o,
      ((reexportOutset true).after reexportSetting 2).queue.items =
          .node "pkg" (.entity (.declared 0)) (some id) .scope signature :: es ∧
        ((reexportOutset true).after reexportSetting 2).Gains reexportSetting
          (.constant "pkg.Sub" o) ∧
        ∀ t, ((reexportOutset true).after reexportSetting 2).world.Evolves t →
          t.binding? (.entity (.declared 0)) "Sub" ≠ some o := by
  obtain ⟨hcons, hgains⟩ := exists_gains_of_reexport true
  refine ⟨rfl, by decide +kernel, by decide +kernel, 0, none, [], _, hcons, hgains, fun t ht ↦ ?_⟩
  have hstill : (reexportWorld true).Still := by decide +kernel
  have hbound : ((reexportWorld true).binding? (.entity (.declared 0)) "Sub").map Object.entity?
      = some (some (.declared 3)) := by
    decide +kernel
  rw [reexportOutset] at ht
  have hfaithful := faithful_after (c := reexportSetting) hstill {} ["pkg"] 2
  obtain ⟨notes, rfl⟩ := hfaithful.exists_withNotes hstill ht
  intro hsame
  rw [World.binding?_withNotes] at hsame
  rw [hsame] at hbound
  cases hbound

end Closure

end DeclClosure

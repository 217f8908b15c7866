import DeclClosure.Closure.Drain
import DeclClosure.Proofs.Closure.Listings
import DeclClosure.Proofs.Closure.Termination
import DeclClosure.Proofs.World.Denoting

/-!
# How members of enumerations are shown

The listener for enumerations puts a constant below the announced scope for every member, in the order of
definition, and the text of the constant is that of the value of the member. It asks the world for nothing
that can fail, so it lists all of them (`Run.addEnumMembers_lists`), and what is known of the texts of values
says which constants show a literal (`Run.enumMembers_denote_iff`): those whose value has one. A member whose
value is a number that is not finite, or a member of another enumeration, shows a text that is neither a
literal nor three dots.
-/

namespace DeclClosure

/-- The text that a constant shows. -/
def Node.constText? : Node → Option String
  | .leaf _ (.const text _) => text
  | _ => none

namespace Closure

/-- The node is a constant for a name of the announced class, and shows this text. -/
def Announcement.ShowsConst (a : Announcement) (x text : String) (m : Node) : Prop :=
  m = .leaf ⟨m.id, Name.within a.name x, []⟩ (.const (some text) none)

namespace Run

variable {a : Announcement} {s : State} {scope : Node}

theorem scopeOf_of_shows (h : a.Shows s scope) (wanted : String) : scopeOf a wanted s = (.ok scope, s) := by
  have hnode : nodeOf a wanted s = (.ok scope, s) := by
    simp only [nodeOf]
    rw [run_get_bind, h.id, Option.bind_some, h.known]
    rfl
  rw [scopeOf, run_bind_ok hnode, if_pos h.isScope]
  rfl

/-- A child is put below the announced scope if there is one. -/
theorem addChild_of_shows (h : a.Shows s scope) (child : NodeId → Node) :
    addChild a child s = (.ok s.nextNode, s.list scope.id child) := by
  rw [addChild, run_bind_ok (scopeOf_of_shows h "add")]
  rfl

/-- The texts of some members are put below the announced scope, one after the other. -/
theorem forM_addConst (w : World) (members : List (String × Object)) (hs : s.Sound)
    (hshows : a.Shows s scope) : ∃ ms t,
      (members.forM fun x ↦ do
        let _ ← addChild a fun id ↦
          .leaf ⟨id, Name.within a.name x.1, []⟩ (.const (some (w.literal x.2)) none)) s = (.ok (), t) ∧
      List.Forall₂ (fun x m ↦ a.ShowsConst x.1 (w.literal x.2) m) members ms ∧ a.Adopts s ms t := by
  induction members generalizing s scope with
  | nil => exact ⟨[], s, rfl, .nil, .beside hs (refl_of State.Beside s)⟩
  | cons x members ih =>
    let child (id : NodeId) : Node :=
      .leaf ⟨id, Name.within a.name x.1, []⟩ (.const (some (w.literal x.2)) none)
    have hadopts := hshows.adopts_list hs child rfl rfl
    obtain ⟨ms, t, hrun, hms, hrest⟩ := ih hadopts.sound (hadopts.shows scope hshows)
    refine ⟨child s.nextNode :: ms, t, ?_, .cons rfl hms, hadopts.trans hrest⟩
    refine (run_bind_ok (t := s.list scope.id child) (a := ()) ?_).trans hrun
    exact run_bind_ok (addChild_of_shows hshows child)

/-- All members of an enumeration are listed below its scope. -/
theorem addEnumMembers_lists (hs : s.Sound) (hshows : a.Shows s scope) : ∃ ms t,
    addEnumMembers a s = (.ok (), t) ∧
      List.Forall₂ (fun x m ↦ a.ShowsConst x.1 (s.world.literal x.2) m) (s.world.enumMembersOf a.value) ms ∧
      a.Shows t (scope.mapChildren (· ++ ms)) := by
  obtain ⟨ms, t, hrun, hms, hadopts⟩ := forM_addConst s.world (s.world.enumMembersOf a.value) hs hshows
  exact ⟨ms, t, hrun, hms, hadopts.shows scope hshows⟩

/-- **How members of enumerations are shown.** Let a tree be in order, and a scope of it be announced for an
object. In every world the listener for enumerations succeeds, and all that it changes about the scope is
that constants come after its children, one for each member of the object in the order of definition.

The text of a constant depends on the value of the member. If the value is shown at all, then the text is a
literal of an equal value exactly if the value has a literal; otherwise the text is three dots. -/
theorem enumMembers_denote_iff (c : Setting) (hs : s.Sound) (hshows : a.Shows s scope) : ∃ ms t,
    onScope c a .enums s = (.ok (), t) ∧ a.Shows t (scope.mapChildren (· ++ ms)) ∧
      List.Forall₂ (fun x m ↦ ∃ text, a.ShowsConst x.1 text m ∧
        if s.world.isShown x.2 then s.world.Denotes text x.2 ↔ s.world.hasLiteral x.2 else text = "...")
          (s.world.enumMembersOf a.value) ms := by
  obtain ⟨ms, t, hrun, hms, hafter⟩ := addEnumMembers_lists hs hshows
  exact ⟨ms, t, hrun, hafter, hms.imp fun x m hm ↦ ⟨_, hm, s.world.literal_cases x.2⟩⟩

end Run

/-- A module `app` with an enumeration of numbers, and another one of which no member has a literal. -/
def levelUniverse : UniverseDeclaration where
  modules := [
    { name := "app", file := some "/srv/app.src"
      members := [("Level", .reference "Level"), ("Mark", .reference "Mark")] }]
  objects := [
    ("Level", .enumeration { name := "Level", qualname := "Level", module := some "app" }
      (.standard "enum.IntEnum") [("LOW", .atom (.int 1)), ("HIGH", .atom (.int 2))]),
    ("Mark", .enumeration { name := "Mark", qualname := "Mark", module := some "app" }
      (.standard "enum.Enum") [("UNKNOWN", .atom (.float .nan)),
        ("LOWEST", .tuple [.member (.reference "Level") "LOW"])])]

/-- The world of these classes. -/
def levelWorld : World :=
  (State.startOf levelUniverse []).world

/-- The class that the module has under a name. -/
def levelMember? (name : String) : Option EntityId :=
  (levelWorld.attr? (.entity (.declared 0)) name).bind Object.entity?

/-- The unit is the module, and only the listener for enumerations is there. -/
def levelSetting : Setting :=
  { Setting.plain ⟨"app", [⟨["srv"]⟩]⟩ with listeners := ⟨[("enums", .enums)]⟩ }

/-- The scope of the first enumeration before anything is listed below it. -/
def levelScope : Node :=
  .scope ⟨0, "app.Level", []⟩ { kind := .class none } []

/-- The scope is all that has been declared. -/
def levelState : State where
  world := levelWorld
  tree := { roots := [levelScope] }
  nextNode := 1

/-- The announcement of the scope. -/
def levelAnnouncement : Announcement where
  name := "app.Level"
  value := .entity (.declared 2)
  node := some 0
  kind := .scope
  signature := none

/-- A compilation that starts from the second enumeration. -/
def markOutset : State :=
  (State.start levelWorld {} ["app.Mark"]).begun levelSetting

set_option maxRecDepth 100000 in
/-- The members of the first enumeration are numbers, and each of them shows a literal of its value. -/
theorem enumMembers_denote_of_literals : levelMember? "Level" = some (.declared 2) ∧ ∃ ms t,
    Run.onScope levelSetting levelAnnouncement .enums levelState = (.ok (), t) ∧
      levelAnnouncement.Shows t (levelScope.mapChildren (· ++ ms)) ∧ ms.length = 2 ∧
        List.Forall₂ (fun x m ↦ ∃ text, levelAnnouncement.ShowsConst x.1 text m ∧
          levelState.world.Denotes text x.2)
            (levelState.world.enumMembersOf levelAnnouncement.value) ms := by
  have hs : levelState.Sound :=
    ⟨⟨List.nodup_singleton _⟩, fun b hb ↦ List.mem_singleton.mp hb ▸ Nat.zero_lt_one, nofun⟩
  have hshows : levelAnnouncement.Shows levelState levelScope := ⟨rfl, rfl, rfl⟩
  have hlength : (levelState.world.enumMembersOf levelAnnouncement.value).length = 2 := by
    decide +kernel
  have hmembers : ∀ x ∈ levelState.world.enumMembersOf levelAnnouncement.value,
      levelState.world.isShown x.2 ∧ levelState.world.hasLiteral x.2 := by
    decide +kernel
  obtain ⟨ms, t, hrun, hafter, hms⟩ := Run.enumMembers_denote_iff levelSetting hs hshows
  refine ⟨by decide +kernel, ms, t, hrun, hafter, hms.length_eq.symm.trans hlength, ?_⟩
  refine ((List.forall₂_and_left _ _).mpr ⟨hmembers, hms⟩).imp fun x m hm ↦ ?_
  obtain ⟨⟨hshown, hliteral⟩, text, hconst, hdenotes⟩ := hm
  rw [if_pos hshown] at hdenotes
  exact ⟨text, hconst, hdenotes.mpr hliteral⟩

set_option maxRecDepth 100000 in
/-- The members of the second one are a number that is not finite and a tuple with a member of the first
one. Neither shows a literal, or three dots. -/
theorem enumMembers_shown_without_literal : levelMember? "Mark" = some (.declared 9) ∧
    (levelWorld.enumMembersOf (.entity (.declared 9))).length = 2 ∧ ∃ t,
      Run.compile levelSetting (State.start levelWorld {} ["app.Mark"]) = (.ok (), t) ∧
        ∀ x ∈ levelWorld.enumMembersOf (.entity (.declared 9)), ∃ m ∈ t.tree.walk,
          m.name = Name.within "app.Mark" x.1 ∧ ∃ text, m.constText? = some text ∧ text ≠ "..." ∧
            ¬levelWorld.Denotes text x.2 := by
  have hrun : (∀ k < 3, (markOutset.after levelSetting k).advances levelSetting) ∧
      (markOutset.after levelSetting 3).queue.items.isEmpty ∧
        ∀ x ∈ levelWorld.enumMembersOf (.entity (.declared 9)),
          ∃ m ∈ (markOutset.after levelSetting 3).tree.walk, m.name = Name.within "app.Mark" x.1 ∧
            m.constText?.any fun text ↦ text != "..." && (Literal.ofText? text).isNone := by
    decide +kernel
  obtain ⟨hsteps, hnil, hnodes⟩ := hrun
  rw [markOutset] at hsteps hnil hnodes
  obtain ⟨t, hcompile, htree⟩ := Run.exists_compile_of_advances hsteps (List.isEmpty_iff.mp hnil)
  rw [← htree] at hnodes
  refine ⟨by decide +kernel, by decide +kernel, t, hcompile, fun x hx ↦ ?_⟩
  obtain ⟨m, hm, hname, htext⟩ := hnodes x hx
  obtain ⟨text, hconst, hneither⟩ := (Option.any_eq_true _ _).mp htext
  obtain ⟨hdots, hnone⟩ := Bool.and_eq_true_iff.mp hneither
  refine ⟨m, hm, hname, text, hconst, bne_iff_ne.mp hdots, fun hdenotes ↦ ?_⟩
  obtain ⟨v, hv, -⟩ := hdenotes.equal
  rw [Option.isNone_iff_eq_none.mp hnone] at hv
  cases hv

end Closure

end DeclClosure

import DeclClosure.Proofs.Closure.Judgement
import DeclClosure.Proofs.Tree.Contents
import DeclClosure.Proofs.World.Classes
import Mathlib.Logic.Relation

/-!
# What listeners do

All that a listener may do about a node is one of a few things (`Act`): it asks the world, asks for
a symbol, dresses the announced node, records the name of another class on it and asks for that
class, lists a member below it, passes on a constant of the namespace or a class that the node's
class was mixed into, or takes an empty scope of the standard environment out of the tree. A scope
outside of the unit is not dressed, and nothing is passed on or taken out there: only mixins are
recorded on it, those that the unit composed into it, and only callables are listed below it.

A dispatch to any listeners is a sequence of acts (`Run.dispatch_acts`), whether it succeeds or
fails. So what every act preserves is preserved by a whole dispatch. What an act looks up among the
registrations is what was registered before the compilation, since no act registers anything.
-/

namespace DeclClosure

/-- The leaf declares a member of an enumeration or a field of a record. -/
def Leaf.IsMember : Leaf → Prop
  | .const _ _ | .attribute _ _ => True
  | .plain | .method _ => False

theorem Node.callable?_of_isMember {d : Leaf} (hd : d.IsMember) (h : Head) :
    (leaf h d).callable? = none := by
  cases d with
  | method f => exact hd.elim
  | _ => rfl

namespace NodeKind

theorem isScope_of_callback {k : NodeKind} (h : k.callback = .scope) : k.isScope := by
  cases k with
  | scope => rfl
  | foreignScope => rfl
  | const => cases h
  | method => cases h

theorem eq_method {k : NodeKind} (h : k.callback = .method) : k = .method := by
  cases k with
  | method => rfl
  | const | scope | foreignScope => cases h

theorem ne_const {k : NodeKind} (h : k.isScope) : k ≠ .const := by
  rintro rfl
  cases h

theorem eq_scope {k : NodeKind} (hs : k.isScope) (hf : ¬k.isForeign) : k = .scope := by
  cases k with
  | scope => rfl
  | foreignScope => exact absurd rfl hf
  | const => cases hs
  | method => cases hs

theorem ne_method {k : NodeKind} (h : k.isScope) : k ≠ .method := by
  rintro rfl
  cases h

end NodeKind

namespace Node

/-- The change leaves the kind of every scope alone, adds to what it records, and adds none but some
names. -/
structure RecordsFacts (names : List String) (f : ScopeFacts → ScopeFacts) : Prop where
  /-- It leaves the kind alone. -/
  kind : ∀ s, (f s).kind = s.kind
  /-- It adds no mixins of other names. -/
  mixins : ∀ s, ∀ m ∈ (f s).mixins, m ∈ s.mixins ∨ m.name ∈ names
  /-- It keeps the mixins. -/
  kept : ∀ s, s.mixins ⊆ (f s).mixins
  /-- It adds no mixin that is there. -/
  nodup : ∀ s, s.mixins.Nodup → (f s).mixins.Nodup
  /-- It keeps the metaclass, or sets it to one of the names. -/
  metaclass : ∀ s, (f s).metaclass = s.metaclass ∨ ∃ x ∈ names, (f s).metaclass = some x
  /-- It takes no type parameters away. -/
  typeParameters : ∀ s, s.typeParameters ⊆ (f s).typeParameters
  /-- It takes no markers away. -/
  helpers : ∀ s, s.helpers ⊆ (f s).helpers

theorem RecordsFacts.records {names : List String} {f : ScopeFacts → ScopeFacts}
    (hf : RecordsFacts names f) : Records names (mapFacts f) := by
  refine ⟨?_, ?_, ?_, ?_, ?_, ?_, ?_, ?_⟩
  · rintro (_ | _) <;> exact ⟨rfl, rfl⟩
  · rintro (_ | ⟨h, s, cs⟩)
    · rfl
    · exact congrArg Stem.scope (hf.kind s)
  · rintro (_ | ⟨h, s, cs⟩) x hx
    · exact .inl hx
    · show x ∈ s.kind.superclass?.toList ++ s.mixins.map MixinRef.name ++ s.metaclass.toList ∨ _
      have hx : x ∈ (f s).kind.superclass?.toList ++ (f s).mixins.map MixinRef.name
          ++ (f s).metaclass.toList := hx
      rw [hf.kind, List.mem_append, List.mem_append] at hx
      rw [List.mem_append, List.mem_append]
      rcases hx with (hx | hx) | hx
      · exact .inl (.inl (.inl hx))
      · obtain ⟨m, hm, rfl⟩ := List.mem_map.mp hx
        exact (hf.mixins s m hm).imp_left fun hm ↦ .inl (.inr (List.mem_map_of_mem hm))
      · rcases hf.metaclass s with heq | ⟨y, hy, heq⟩
        · rw [heq] at hx
          exact .inl (.inr hx)
        · rw [heq] at hx
          obtain rfl := List.mem_singleton.mp hx
          exact .inr hy
  · rintro (_ | ⟨h, s, cs⟩) r hr
    · exact .inl hr
    · exact hf.mixins s r hr
  · rintro (_ | ⟨h, s, cs⟩)
    · exact List.Subset.refl _
    · exact hf.kept s
  · rintro (_ | ⟨h, s, cs⟩) hnodup
    · exact hnodup
    · exact hf.nodup s hnodup
  · rintro (_ | ⟨h, s, cs⟩) hbare
    · rfl
    · -- a list that has nothing more than an empty one is empty
      simp only [isBare, mapFacts, Bool.and_eq_true, List.isEmpty_iff] at hbare ⊢
      obtain ⟨⟨hm, ht⟩, hh⟩ := hbare
      exact ⟨⟨List.subset_nil.mp (hm ▸ hf.kept s), List.subset_nil.mp (ht ▸ hf.typeParameters s)⟩,
        List.subset_nil.mp (hh ▸ hf.helpers s)⟩
  · rintro (_ | _) <;> rfl

theorem records_addMixin (kind name : String) : Records [name] (addMixin kind name) := by
  refine RecordsFacts.records ⟨fun s ↦ ?_, fun s m hm ↦ ?_, fun s ↦ ?_, fun s hnodup ↦ ?_,
    fun s ↦ .inl ?_, fun s ↦ ?_, fun s ↦ ?_⟩
  · split <;> rfl
  · split at hm
    · exact .inl hm
    · rcases List.mem_append.mp hm with hm | hm
      · exact .inl hm
      · obtain rfl := List.mem_singleton.mp hm
        exact .inr List.mem_cons_self
  · split
    · exact List.Subset.refl _
    · exact List.subset_append_left _ _
  · split
    · exact hnodup
    · next hnew =>
      rw [List.contains_iff_mem] at hnew
      refine List.nodup_append.mpr ⟨hnodup, List.nodup_singleton _, fun m hm r hr ↦ ?_⟩
      obtain rfl := List.mem_singleton.mp hr
      rintro rfl
      exact hnew hm
  · split <;> rfl
  · split <;> exact List.Subset.refl _
  · split <;> exact List.Subset.refl _

theorem records_setMetaclass (name : String) : Records [name] (setMetaclass name) :=
  RecordsFacts.records ⟨fun _ ↦ rfl, fun _ _ hm ↦ .inl hm, fun _ ↦ List.Subset.refl _,
    fun _ h ↦ h, fun _ ↦ .inr ⟨name, List.mem_cons_self, rfl⟩, fun _ ↦ List.Subset.refl _,
    fun _ ↦ List.Subset.refl _⟩

theorem mixins_setMetaclass (name : String) (n : Node) : (setMetaclass name n).mixins = n.mixins := by
  cases n <;> rfl

theorem records_addTypeParameter (name : String) : Records [] (addTypeParameter name) :=
  RecordsFacts.records ⟨fun _ ↦ rfl, fun _ _ hm ↦ .inl hm, fun _ ↦ List.Subset.refl _,
    fun _ h ↦ h, fun _ ↦ .inl rfl, fun _ ↦ List.subset_append_left _ _,
    fun _ ↦ List.Subset.refl _⟩

theorem records_addHelper (word : String) : Records [] (addHelper word) := by
  refine RecordsFacts.records ⟨fun s ↦ ?_, fun s m hm ↦ .inl ?_, fun s ↦ ?_, fun s hnodup ↦ ?_,
    fun s ↦ .inl ?_, fun s ↦ ?_, fun s ↦ ?_⟩
  · split <;> rfl
  · split at hm <;> exact hm
  · split <;> exact List.Subset.refl _
  · split <;> exact hnodup
  · split <;> rfl
  · split <;> exact List.Subset.refl _
  · split
    · exact List.Subset.refl _
    · exact List.subset_append_left _ _

theorem records_addComment (text : String) : Records [] (addComment text) := by
  refine ⟨?_, ?_, ?_, ?_, ?_, ?_, ?_, ?_⟩
  · rintro (⟨h, _ | _ | _ | _⟩ | _) <;> exact ⟨rfl, rfl⟩
  · rintro (⟨h, _ | _ | _ | _⟩ | _) <;> rfl
  · rintro (_ | _) x hx <;> exact .inl hx
  · rintro (_ | _) r hr <;> exact .inl hr
  · rintro (_ | _) <;> exact List.Subset.refl _
  · rintro (_ | _) hnodup <;> exact hnodup
  · rintro (_ | _) hbare <;> exact hbare
  · rintro (⟨h, _ | _ | _ | _⟩ | _) <;> rfl

theorem records_mapMethod {f : MethodFacts → MethodFacts}
    (hf : ∀ m, (f m).owner = m.owner ∧ (f m).kind = m.kind) : Records [] (mapMethod f) := by
  refine ⟨?_, ?_, ?_, ?_, ?_, ?_, ?_, ?_⟩
  · rintro (⟨h, _ | _ | _ | m⟩ | _)
    case leaf.method =>
      refine ⟨?_, rfl⟩
      show Badge.mk _ _ (if (f m).owner = "" then _ else Name.within (f m).owner _) _ = _
      rw [(hf m).1]
      rfl
    all_goals exact ⟨rfl, rfl⟩
  · rintro (⟨h, _ | _ | _ | m⟩ | _) <;> rfl
  · rintro (⟨h, _ | _ | _ | m⟩ | _) x hx <;> exact .inl hx
  · rintro (⟨h, _ | _ | _ | m⟩ | _) r hr <;> exact .inl hr
  · rintro (⟨h, _ | _ | _ | m⟩ | _) <;> exact List.Subset.refl _
  · rintro (⟨h, _ | _ | _ | m⟩ | _) hnodup <;> exact hnodup
  · rintro (⟨h, _ | _ | _ | m⟩ | _) hbare <;> exact hbare
  · rintro (⟨h, _ | _ | _ | m⟩ | _)
    case leaf.method =>
      show some ((f m).owner, (f m).kind) = some (m.owner, m.kind)
      rw [(hf m).1, (hf m).2]
    all_goals rfl

end Node

namespace Closure

namespace State

/-- The state with a new node below a scope. -/
def list (s : State) (owner : NodeId) (child : NodeId → Node) : State :=
  { s with tree := s.tree.addUnder owner (child s.nextNode), nextNode := s.nextNode + 1 }

/-- The state with a node changed. -/
def dress (s : State) (id : NodeId) (f : Node → Node) : State :=
  { s with tree := s.tree.modify id f }

/-- The state with a node taken out of the tree. -/
def prune (s : State) (id : NodeId) : State :=
  { s with tree := (s.tree.remove id).2 }

/-- The state with a callback kept on record. -/
def keep (s : State) (call : String × Callback) : State :=
  { s with calls := s.calls ++ [call] }

end State

/-- The announced node is this scope. -/
structure Announcement.Shows (a : Announcement) (s : State) (scope : Node) : Prop where
  /-- The announcement has its identity. -/
  id : a.node = some scope.id
  /-- The tree knows it. -/
  known : s.tree.node? scope.id = some scope
  /-- It is a scope. -/
  isScope : scope.isScope

/-- One of the listeners takes out scopes that have nothing to declare. -/
def Setting.Prunes (c : Setting) : Prop :=
  .removeEmptyPayloadScopes ∈ c.listeners.entries.map Prod.snd

/-- One of the listeners lists callables. -/
def Setting.ListsMethods (c : Setting) : Prop :=
  .methods ∈ c.listeners.entries.map Prod.snd

/-- The announcement is of this node, and the node is not outside of the unit. -/
structure Announcement.Owns (a : Announcement) (id : NodeId) : Prop where
  /-- The announcement has its identity. -/
  node : a.node = some id
  /-- It is one of the unit. -/
  ours : ¬a.kind.isForeign

/-- A class is to be seen as composed, in some way, into an object that is declared as a scope. -/
inductive Blends (c : Setting) (t : Trackers) (w : World) (kind : NodeKind) (o : Object) :
    MixinKind → Object → Prop
  /-- It was registered as that; into an object outside of the unit, it was last seen to be composed by
  the unit itself. -/
  | registered {way : MixinKind} {d : Composition} : d ∈ t.mixins.compositionsOf o way →
      (kind.isForeign → Run.isOurs c d.location) → Blends c t w kind o way d.mixin
  /-- It is a base of a class of the unit, beyond the superclass. -/
  | base {p : Object} : ¬kind.isForeign → w.isClass o → p ∈ Run.extraBases w o →
      Blends c t w kind o .include p

/-- A class may be recorded on the announced scope under a name: as a mixin if it is to be seen as
composed into it, and on a scope of the unit in other ways. -/
def Announcement.Composes (c : Setting) (a : Announcement) (s : State) (o : Object) (name : String)
    (f : Node → Node) : Prop :=
  a.kind.isScope ∧ ((¬a.kind.isForeign ∧ ∀ n, (f n).mixins = n.mixins) ∨
    ∃ way : MixinKind, f = Node.addMixin way.word name ∧ ¬startsWithAny Run.typingNamespaces name ∧
      Blends c s.trackers s.world a.kind a.value way o)

/-- The announced class of the unit was mixed into another one by the unit. -/
def Announcement.LeadsTo (c : Setting) (a : Announcement) (trackers : Trackers) (o : Object) :
    Prop :=
  a.kind = .scope ∧
    ∃ r ∈ trackers.mixins.registrationsOf a.value, r.target = o ∧ Run.isOurs c r.location

/-- A listener passes on what a name below the announced scope of the unit stands for. -/
structure Announcement.Opens (c : Setting) (a : Announcement) (w : World) (name : String) : Prop where
  /-- The scope is one of the unit. -/
  kind : a.kind = .scope
  /-- One of the listeners passes on constants. -/
  listens : .subconstants ∈ c.listeners.entries.map Prod.snd
  /-- The name was seen among the constants of the object. -/
  constant : ∃ u : World, u.Evolves w ∧ name ∈ u.constantsOf a.value

/-- One thing that a listener does about a node. -/
inductive Act (c : Setting) (a : Announcement) : State → State → Prop
  /-- It asks the world. -/
  | learn {s : State} {w : World} : s.world.Evolves w → Act c a s (s.learn w)
  /-- It keeps a record of what it was told. -/
  | keep (s : State) (call : String × Callback) : Act c a s (s.keep call)
  /-- It asks for a symbol. -/
  | want (s : State) (name : String) : a.kind ≠ .const → Act c a s (s.push (.symbol name))
  /-- It changes the announced node, but neither its names nor what is below it, and records no other
  class. -/
  | dress (s : State) {id : NodeId} {f : Node → Node} : a.Owns id → Node.Records [] f →
      Act c a s (s.dress id f)
  /-- It asks for another class under the name that stands for it, and records that name on the
  announced node. -/
  | record {s : State} {w : World} {name : String} {o : Object} {id : NodeId} {f : Node → Node} :
      a.Composes c s o name f → a.node = some id →
      Query.nameOf o s.world = (.ok (some name), w) → s.world.Evolves w → Node.Records [name] f →
      Act c a s (((s.learn w).push (.symbol name)).dress id f)
  /-- It lists a member of an enumeration or a field of a record. -/
  | list {s : State} {scope : Node} (name : String) {d : Leaf} : a.kind = .scope →
      a.Shows s scope → d.IsMember →
      Act c a s (s.list scope.id fun id ↦ .leaf ⟨id, Name.within a.name name, []⟩ d)
  /-- It lists a callable and announces it. -/
  | listMethod {s : State} {scope : Node} (name : String) {f : MethodFacts}
      (signature : Option Signature) : a.kind.isScope → a.Shows s scope →
      c.ListsMethods ∧ f.owner = a.name →
      Act c a s ((s.list scope.id fun id ↦ .leaf ⟨id, name, []⟩ (.method f)).push
        (.node a.name a.value (some s.nextNode) .method signature))
  /-- It passes on what a name below the namespace stands for. -/
  | found {s : State} {w v : World} {name : String} {o : Object} : a.Opens c s.world name →
      Query.resolve (Name.within a.name name) s.world = (.ok (some o), w) → s.world.Evolves w →
      w.Evolves v → Act c a s ((s.learn v).push (.constant (Name.within a.name name) o))
  /-- It passes on a class that the unit mixed the announced one into, under the name that stands for
  it. -/
  | target {s : State} {w : World} {name : String} {o : Object} : a.LeadsTo c s.trackers o →
      Query.nameOf o s.world = (.ok (some name), w) → s.world.Evolves w →
      Act c a s ((s.learn w).push (.foreignConstant name o))
  /-- It takes an empty scope of the standard environment out of the tree. -/
  | prune {s : State} {scope : Node} : c.Prunes → a.kind = .scope → a.Shows s scope →
      scope.isEmpty → c.inPayload a.name → Act c a s (s.prune scope.id)

/-- Some acts, one after the other. -/
abbrev Acts (c : Setting) (a : Announcement) : State → State → Prop :=
  Relation.ReflTransGen (Act c a)

section Composing

variable {c : Setting} {a : Announcement} {s t : State}

theorem Run.extraBases_of_evolves {w v : World} {o : Object} (hw : w.Evolves v) (ho : w.isClass o) :
    extraBases v o = extraBases w o := by
  simp only [extraBases, World.superclass?, hw.basesOf_eq ho]

/-- A class that is to be seen as composed stays that. -/
theorem Blends.of_evolves {t : Trackers} {w v : World} {kind : NodeKind} {o p : Object}
    {way : MixinKind} (h : Blends c t w kind o way p) (hw : w.Evolves v) :
    Blends c t v kind o way p := by
  cases h with
  | registered hd hours => exact .registered hd hours
  | base hours hclass hp =>
    exact .base hours (hw.isClass_eq o ▸ hclass) (Run.extraBases_of_evolves hw hclass ▸ hp)

/-- What was registered stays as it is. -/
theorem Act.trackers_eq (h : Act c a s t) : t.trackers = s.trackers := by
  cases h <;> rfl

theorem Acts.trackers_eq (h : Acts c a s t) : t.trackers = s.trackers := by
  induction h with
  | refl => rfl
  | tail _ hact ih => exact hact.trackers_eq.trans ih

/-- Listeners take nothing out of the queue. -/
theorem Act.queue_subset (h : Act c a s t) : s.queue.items ⊆ t.queue.items := by
  cases h <;> first | exact List.Subset.refl _ | exact List.subset_append_left _ _

theorem Acts.queue_subset (h : Acts c a s t) : s.queue.items ⊆ t.queue.items := by
  induction h with
  | refl => exact List.Subset.refl _
  | tail _ hact ih => exact List.Subset.trans ih hact.queue_subset

theorem Act.evolves (h : Act c a s t) : s.world.Evolves t.world := by
  cases h with
  | learn hw | record _ _ _ hw _ | target _ _ hw => exact hw
  | found _ _ hw hv => exact hw.trans hv
  | keep | want | dress | list | listMethod | prune => exact refl_of World.Evolves s.world

theorem Acts.evolves (h : Acts c a s t) : s.world.Evolves t.world := by
  induction h with
  | refl => exact refl_of World.Evolves s.world
  | tail _ hact ih => exact ih.trans hact.evolves

/-- Acts lead on from a state that acts have led to from `u`. -/
def ActsFrom (c : Setting) (a : Announcement) (u s t : State) : Prop :=
  Acts c a u s → Acts c a s t

instance {u : State} : IsPreorder State (ActsFrom c a u) where
  refl _ _ := .refl
  trans _ _ _ hst htv hs := (hst hs).trans (htv (hs.trans (hst hs)))

end Composing

namespace Run

/-- The step is a sequence of acts. -/
abbrev Acting (c : Setting) (a : Announcement) {α : Type} (m : Run α) : Prop :=
  Moves (Acts c a) m

variable {c : Setting} {a : Announcement} {α : Type}

theorem Learning.acts {m : Run α} (h : Learning m) : Acting c a m := by
  refine h.mono fun s t hst ↦ ?_
  obtain ⟨w, hw, rfl⟩ := hst
  exact .single (.learn hw)

theorem modify_acts {f : State → State} (h : ∀ s, Act c a s (f s)) :
    Acting c a (modify f : Run Unit) :=
  Moves.modify fun s ↦ .single (h s)

/-! ### Looking at the announced node -/

theorem nodeOf_eq_ok {wanted : String} {n : Node} {s t : State}
    (h : nodeOf a wanted s = (.ok n, t)) :
    t = s ∧ a.node = some n.id ∧ s.tree.node? n.id = some n := by
  simp only [nodeOf] at h
  rw [run_get_bind] at h
  cases hnode : a.node.bind s.tree.node? with
  | none =>
    rw [hnode] at h
    cases h
  | some m =>
    rw [hnode] at h
    cases h
    obtain ⟨id, hid, hm⟩ := Option.bind_eq_some_iff.mp hnode
    obtain ⟨rfl, -⟩ := Tree.mem_walk_of_node? hm
    exact ⟨rfl, hid, hm⟩

theorem nodeOf_stays (wanted : String) : Moves Eq (nodeOf a wanted) := by
  refine Moves.bind (R := Eq) Moves.get fun s ↦ ?_
  split
  · exact Moves.pure _
  · exact Moves.throw _

theorem nodeOf_acts (wanted : String) : Acting c a (nodeOf a wanted) := by
  refine Moves.get.bind fun s ↦ ?_
  split
  · exact Moves.pure _
  · exact Moves.throw _

theorem scopeOf_eq_ok {wanted : String} {n : Node} {s t : State}
    (h : scopeOf a wanted s = (.ok n, t)) : t = s ∧ a.Shows s n := by
  obtain ⟨m, u, hm, hrest⟩ := run_bind_eq_ok_iff.mp h
  obtain ⟨rfl, hid, hknown⟩ := nodeOf_eq_ok hm
  split at hrest
  · next hscope =>
    cases hrest
    exact ⟨rfl, hid, hknown, hscope⟩
  · cases hrest

theorem scopeOf_stays (wanted : String) : Moves Eq (scopeOf a wanted) := by
  refine Moves.bind (R := Eq) (nodeOf_stays wanted) fun n ↦ ?_
  split
  · exact Moves.pure _
  · exact Moves.throw _

theorem scopeOf_acts (wanted : String) : Acting c a (scopeOf a wanted) := by
  refine (nodeOf_acts wanted).bind fun n ↦ ?_
  split
  · exact Moves.pure _
  · exact Moves.throw _

/-- What is done with the announced scope is done in the state in which it was looked at. -/
theorem scopeOf_bind_acts {wanted : String} {f : Node → Run α}
    (hf : ∀ s n, a.Shows s n → Acts c a s (f n s).2) : Acting c a (scopeOf a wanted >>= f) := by
  refine (scopeOf_acts wanted).bind_of fun s n t hrun ↦ ?_
  obtain ⟨rfl, hshows⟩ := scopeOf_eq_ok hrun
  exact hf t n hshows

/-- A new child is put below the announced scope, or the state stays as it is. -/
theorem addChild_cases (a : Announcement) (child : NodeId → Node) (s : State) :
    (∃ f, addChild a child s = (.error f, s)) ∨
      ∃ scope, a.Shows s scope ∧ addChild a child s = (.ok s.nextNode, s.list scope.id child) := by
  simp only [addChild]
  rw [run_bind]
  rcases hrun : scopeOf a "add" s with ⟨f | scope, t⟩
  · -- looking for the scope leaves the state alone, so a failure to find one does too
    have hstay : s = t := by
      have ht := scopeOf_stays (a := a) "add" s
      rwa [hrun] at ht
    exact .inl ⟨f, by rw [hstay]⟩
  · obtain ⟨rfl, hshows⟩ := scopeOf_eq_ok hrun
    exact .inr ⟨scope, hshows, rfl⟩

theorem modifyNode_acts {s : State} {n : Node} {f : Node → Node} (h : a.Shows s n)
    (hours : ¬a.kind.isForeign) (hf : Node.Records [] f) : Acting c a (modifyNode n.id f) :=
  modify_acts fun t ↦ .dress t ⟨h.id, hours⟩ hf

/-- What is done with an answer is done from where the world was asked. -/
theorem ask_bind_acts {β : Type} {q : Query β} (hq : Query.Evolving q) {f : β → Run α} {s : State}
    (hf : ∀ w b, q s.world = (.ok b, w) → s.world.Evolves w → Acts c a s (f b (s.learn w)).2) :
    Acts c a s ((ask q >>= f) s).2 := by
  obtain ⟨w, hw, ht⟩ := ask_learns hq s
  rw [run_bind]
  rcases hrun : ask q s with ⟨e | b, t⟩
  · rw [hrun] at ht
    obtain rfl : t = s.learn w := ht
    exact .single (.learn hw)
  · rw [hrun] at ht
    obtain rfl : t = s.learn w := ht
    obtain ⟨v, hv, heq⟩ := ask_eq_ok hrun
    obtain rfl : w = v := congrArg State.world heq
    exact hf w b hv hw

/-- A name that is not empty is the whole answer. -/
theorem eq_some_of_nonempty {n : Option String} {name : String} (h : nonempty n = some name) :
    n = some name :=
  (Option.filter_eq_some_iff.mp h).1

/-! ### Types -/

theorem push_symbol_acts (hk : a.kind ≠ .const) (name : String) :
    Acting c a (push (.symbol name)) :=
  modify_acts fun s ↦ .want s name hk

theorem pushType_acts (hk : a.kind ≠ .const) (o : Object) : Acting c a (pushType o) := by
  refine Moves.get.bind fun s ↦ ?_
  split
  · refine (nameOf_learns o).acts.bind fun name ↦ ?_
    split
    · exact push_symbol_acts hk _
    · exact Moves.pure _
  · exact Moves.pure _

theorem typeText_acts (o : Object) : Acting c a (typeText o) :=
  (ask_learns (Query.typeText_moves o)).acts

theorem recordTypeParameter_acts (hkind : a.kind = .scope) (param : Object) :
    Acting c a (recordTypeParameter a param) := by
  have hk : a.kind ≠ .const := hkind ▸ nofun
  have hours : ¬a.kind.isForeign := hkind ▸ nofun
  refine Moves.get.bind fun s ↦ ?_
  dsimp only
  split
  · exact Moves.pure _
  · refine scopeOf_bind_acts fun t n hn ↦ ?_
    split
    · exact refl_of (Acts c a) t
    · refine ((modifyNode_acts hn hours (Node.records_addTypeParameter _)).bind fun _ ↦ ?_) t
      split
      · split
        · exact push_symbol_acts hk _
        · exact Moves.pure _
      · exact Moves.pure _

theorem recordTypeParameters_acts (hkind : a.kind = .scope) :
    Acting c a (recordTypeParameters a) := by
  refine Moves.get.bind fun s ↦ ?_
  split
  · refine (ask_learns (Query.typeParameters_moves a.value)).acts.bind fun params ↦ ?_
    exact Moves.forM fun param _ ↦ recordTypeParameter_acts hkind param
  · exact Moves.pure _

/-- A name is asked for and then recorded, unless there is no node to record it on. -/
theorem record_acts {s : State} {w : World} {name : String} {o : Object}
    {f : Node → Node} (hcomp : a.Composes c s o name f)
    (hname : Query.nameOf o s.world = (.ok (some name), w)) (hw : s.world.Evolves w)
    {find : Run Node} (hfind : Moves Eq find)
    (hid : ∀ s n t, find s = (.ok n, t) → a.node = some n.id) (hf : Node.Records [name] f) :
    Acts c a s
      ((do push (.symbol name); let n ← find; modifyNode n.id f : Run Unit) (s.learn w)).2 := by
  have hpush : push (.symbol name) (s.learn w) = (.ok (), (s.learn w).push (.symbol name)) := rfl
  rw [run_bind_ok hpush, run_bind]
  have hstay := hfind ((s.learn w).push (.symbol name))
  rcases hrun : find ((s.learn w).push (.symbol name)) with ⟨e | n, t⟩
  · rw [hrun] at hstay
    obtain rfl : _ = t := hstay
    exact (Relation.ReflTransGen.single (.learn hw)).tail (.want _ name (NodeKind.ne_const hcomp.1))
  · have hnode := hid _ _ _ hrun
    rw [hrun] at hstay
    obtain rfl : _ = t := hstay
    exact .single (.record hcomp hnode hname hw hf)

theorem recordMetaclass_acts (hkind : a.kind = .scope) : Acting c a (recordMetaclass a) := by
  have hscope : a.kind.isScope := hkind ▸ rfl
  have hours : ¬a.kind.isForeign := hkind ▸ nofun
  refine Moves.get.bind fun s ↦ ?_
  dsimp only
  split
  · exact Moves.pure _
  · split
    · exact Moves.pure _
    · split
      · exact Moves.pure _
      · intro s
        refine ask_bind_acts (Query.nameOf_moves _) fun w n hrun hw ↦ ?_
        cases hname : nonempty n with
        | none => exact .single (.learn hw)
        | some name =>
          rw [eq_some_of_nonempty hname] at hrun
          dsimp only
          split
          · exact .single (.learn hw)
          · exact record_acts ⟨hscope, .inl ⟨hours, Node.mixins_setMetaclass name⟩⟩ hrun hw
              (nodeOf_stays _) (fun _ _ _ h ↦ (nodeOf_eq_ok h).2.1) (Node.records_setMetaclass name)

theorem recordMarkers_acts (hkind : a.kind = .scope) : Acting c a (recordMarkers a) := by
  have hours : ¬a.kind.isForeign := hkind ▸ nofun
  refine Moves.get.bind fun s ↦ ?_
  dsimp only
  split
  · refine scopeOf_bind_acts fun t n hn ↦ ?_
    exact Moves.forM (fun m _ ↦ modifyNode_acts hn hours (Node.records_addHelper m)) t
  · exact Moves.pure _

/-! ### Compositions -/

theorem recordMixin_acts (hscope : a.kind.isScope) {way : MixinKind} {mixin : Object} {u : State}
    (hblends : Blends c u.trackers u.world a.kind a.value way mixin) :
    Moves (ActsFrom c a u) (recordMixin a way mixin) := by
  intro s hs
  refine ask_bind_acts (Query.nameOf_moves mixin) fun w n hrun hw ↦ ?_
  cases hname : nonempty n with
  | none => exact .single (.learn hw)
  | some name =>
    rw [eq_some_of_nonempty hname] at hrun
    dsimp only
    split
    · exact .single (.learn hw)
    · next hx =>
      have hcomp : a.Composes c s mixin name (Node.addMixin way.word name) :=
        ⟨hscope, .inr ⟨way, rfl, hx, hs.trackers_eq ▸ hblends.of_evolves hs.evolves⟩⟩
      exact record_acts hcomp hrun hw (scopeOf_stays _) (fun _ _ _ h ↦ (scopeOf_eq_ok h).2.id)
        (Node.records_addMixin _ name)

/-- A registered mixin of the announced scope, as the listener chooses them. -/
theorem blends_of_mem {way : MixinKind} {t : Trackers} {w : World} {d : Composition}
    (hd : d ∈ (t.mixins.compositionsOf a.value way).filter
      fun t ↦ !a.kind.isForeign || isOurs c t.location) :
    Blends c t w a.kind a.value way d.mixin := by
  obtain ⟨hmem, hours⟩ := List.mem_filter.mp hd
  refine .registered hmem fun hforeign ↦ ?_
  rwa [hforeign, Bool.not_true, Bool.false_or] at hours

/-- An extra base of the announced class, as the listener chooses them. -/
theorem blends_of_mem_extraBases {t : Trackers} {w : World} {p : Object}
    (hbases : (!a.kind.isForeign && w.isClass a.value) = true) (hp : p ∈ extraBases w a.value) :
    Blends c t w a.kind a.value .include p := by
  obtain ⟨hours, hclass⟩ := Bool.and_eq_true_iff.mp hbases
  exact .base (fun hforeign ↦ by rw [hforeign] at hours; cases hours) hclass hp

theorem recordTracked_acts (hscope : a.kind.isScope) (way : MixinKind) :
    Acting c a (recordTracked c a way) := by
  intro s
  have hall : Moves (ActsFrom c a s) (((s.trackers.mixins.compositionsOf a.value way).filter
      fun t ↦ !a.kind.isForeign || isOurs c t.location).forM fun t ↦ recordMixin a way t.mixin) :=
    Moves.forM fun _ hd ↦ recordMixin_acts hscope (blends_of_mem hd)
  exact hall s .refl

/-- Records the bases of a class of the unit beyond its superclass. -/
def recordBases (a : Announcement) : Run Unit := do
  let w := (← get).world
  if !a.kind.isForeign && w.isClass a.value then
    (extraBases w a.value).forM (recordMixin a .include)

/-- The places where mixins are looked for, in their order. -/
def mixinRounds (c : Setting) (a : Announcement) : List (Run Unit) :=
  [recordTracked c a .prepend, recordBases a, recordTracked c a .include, recordTracked c a .extend]

theorem recordMixins_eq (c : Setting) (a : Announcement) :
    recordMixins c a = (mixinRounds c a).forM fun round ↦ round := by
  show recordMixins c a = (do
    recordTracked c a .prepend
    recordBases a
    recordTracked c a .include
    recordTracked c a .extend
    pure ())
  have hlast : ∀ m : Run Unit, (m >>= fun _ ↦ pure ()) = m := fun m ↦ bind_pure m
  simp only [recordMixins, recordBases, hlast, bind_assoc]
  refine congrArg _ (funext fun _ ↦ congrArg _ (funext fun s ↦ ?_))
  split <;> rfl

theorem recordBases_acts (hscope : a.kind.isScope) : Acting c a (recordBases a) := by
  intro s
  rw [recordBases, run_get_bind]
  split
  · next hbases =>
    have hall : Moves (ActsFrom c a s) ((extraBases s.world a.value).forM (recordMixin a .include)) :=
      Moves.forM fun _ hp ↦ recordMixin_acts hscope (blends_of_mem_extraBases hbases hp)
    exact hall s .refl
  · exact refl_of (Acts c a) s

theorem acts_of_mem_mixinRounds (hscope : a.kind.isScope) {round : Run Unit}
    (h : round ∈ mixinRounds c a) : Acting c a round := by
  simp only [mixinRounds, List.mem_cons, List.not_mem_nil, or_false] at h
  rcases h with rfl | rfl | rfl | rfl
  · exact recordTracked_acts hscope .prepend
  · exact recordBases_acts hscope
  · exact recordTracked_acts hscope .include
  · exact recordTracked_acts hscope .extend

theorem recordMixins_acts (hscope : a.kind.isScope) : Acting c a (recordMixins c a) := by
  rw [recordMixins_eq]
  exact Moves.forM fun _ h ↦ acts_of_mem_mixinRounds hscope h

theorem pushTargets_acts (hkind : a.kind = .scope) : Acting c a (pushTargets c a) := by
  intro s
  simp only [pushTargets]
  rw [run_get_bind]
  -- what is passed on was registered in the state in which that was looked up
  refine Moves.forM (R := ActsFrom c a s) (fun r hr t ht ↦ ?_) s .refl
  obtain ⟨hmem, hours⟩ := List.mem_filter.mp hr
  -- asking for the name and passing the class on are one act: the name is one that stands for it
  refine ask_bind_acts (Query.nameOf_moves r.target) fun w n hrun hw ↦ ?_
  cases hname : nonempty n with
  | none => exact .single (.learn hw)
  | some name =>
    rw [eq_some_of_nonempty hname] at hrun
    exact .single (.target ⟨hkind, r, ht.trackers_eq ▸ hmem, rfl, hours⟩ hrun hw)

/-! ### Members -/

theorem addMethod_acts (hlists : c.ListsMethods) (hkind : a.kind.isScope) (name : String)
    (callable : Object) (kind : MethodKind) : Acting c a (addMethod a name callable kind) := by
  refine (ask_learns (Query.signature?_moves callable)).acts.bind fun signature ↦ ?_
  refine Moves.get.bind fun s ↦ ?_
  intro t
  dsimp only
  rw [run_bind]
  rcases addChild_cases a (fun id ↦ .leaf ⟨id, name, []⟩ (.method {
    owner := a.name
    params := listedParams signature
    signature := (signature.map s.world.signatureText).getD "(*args, **kwargs)"
    kind })) t with ⟨f, hrun⟩ | ⟨scope, hshows, hrun⟩
  · rw [hrun]
  · rw [hrun]
    exact .single (.listMethod name signature hkind hshows ⟨hlists, rfl⟩)

theorem addMethods_acts (hlists : c.ListsMethods) (hkind : a.kind.isScope) :
    Acting c a (addMethods c a) := by
  refine Moves.get.bind fun s ↦ ?_
  refine Moves.forM fun m _ ↦ ?_
  refine Moves.get.bind fun s ↦ ?_
  split
  · exact addMethod_acts hlists hkind _ _ _
  · exact Moves.pure _

theorem addChild_acts (hkind : a.kind = .scope) (name : String) {d : Leaf} (hd : d.IsMember) :
    Acting c a (addChild a fun id ↦ .leaf ⟨id, Name.within a.name name, []⟩ d) := by
  intro s
  rcases addChild_cases a (fun id ↦ .leaf ⟨id, Name.within a.name name, []⟩ d) s with
    ⟨f, hrun⟩ | ⟨scope, hshows, hrun⟩
  · rw [hrun]
  · rw [hrun]
    exact .single (.list name hkind hshows hd)

theorem addEnumMembers_acts (hkind : a.kind = .scope) : Acting c a (addEnumMembers a) := by
  refine Moves.get.bind fun s ↦ ?_
  refine Moves.forM fun m _ ↦ ?_
  exact (addChild_acts hkind _ (d := .const _ _) trivial).bind fun _ ↦ Moves.pure _

theorem addFields_acts (hkind : a.kind = .scope) : Acting c a (addFields a) := by
  have hk : a.kind ≠ .const := by
    rw [hkind]
    exact nofun
  refine Moves.get.bind fun s ↦ ?_
  split
  · exact Moves.pure _
  · refine (ask_learns (Query.fieldsOf_moves a.value)).acts.bind fun fields ↦ ?_
    refine Moves.forM fun f _ ↦ ?_
    refine (typeText_acts _).bind fun text ↦ ?_
    exact (addChild_acts hkind _ (d := .attribute _ _) trivial).bind fun _ ↦ pushType_acts hk _

theorem writeParamType_acts (hk : a.kind ≠ .const) {node : NodeId} (hnode : a.Owns node)
    (p : FunctionParam) : Acting c a (writeParamType node p) := by
  simp only [writeParamType]
  split
  · exact Moves.pure _
  · refine (typeText_acts _).bind fun text ↦ ?_
    refine (modify_acts fun s ↦ ?_).bind fun _ ↦ pushType_acts hk _
    exact .dress s hnode (Node.records_mapMethod fun _ ↦ ⟨rfl, rfl⟩)

theorem writeTypes_acts (hkind : a.kind = .method) : Acting c a (writeTypes a) := by
  have hk : a.kind ≠ .const := hkind ▸ nofun
  simp only [writeTypes]
  split
  · next s node hsignature hid =>
    have hnode : a.Owns node := ⟨hid, hkind ▸ nofun⟩
    refine (Moves.forM fun p _ ↦ writeParamType_acts hk hnode p).bind fun _ ↦ ?_
    split
    · exact Moves.pure _
    · refine (typeText_acts _).bind fun text ↦ ?_
      refine (modify_acts fun s ↦ ?_).bind fun _ ↦ pushType_acts hk _
      exact .dress s hnode (Node.records_mapMethod fun _ ↦ ⟨rfl, rfl⟩)
  · exact Moves.pure _

theorem isPayloadImport_learns (c : Setting) (name : String) (o : Object) :
    Learning (isPayloadImport c name o) := by
  refine Moves.get.bind fun s ↦ ?_
  dsimp only
  split
  · refine (nameOf_learns o).bind fun target ↦ ?_
    split <;> exact Moves.pure _
  · exact Moves.pure _

theorem pushSubconstant_acts (hkind : a.kind = .scope)
    (hl : .subconstants ∈ c.listeners.entries.map Prod.snd) {u : State} {constant : String}
    (hmem : constant ∈ u.world.constantsOf a.value) :
    Moves (ActsFrom c a u) (pushSubconstant c a constant) := by
  intro s hs
  refine ask_bind_acts (Query.resolve_moves _) fun w o hrun hw ↦ ?_
  cases o with
  | none => exact .single (.learn hw)
  | some o =>
    dsimp only
    -- asking what the name stands for and passing that on are one act
    obtain ⟨v, hv, ht⟩ := isPayloadImport_learns c constant o (s.learn w)
    rw [run_bind]
    rcases hpayload : isPayloadImport c constant o (s.learn w) with ⟨e | payload, t⟩
    · rw [hpayload] at ht
      obtain rfl : t = (s.learn w).learn v := ht
      exact .single (.learn (hw.trans hv))
    · rw [hpayload] at ht
      obtain rfl : t = (s.learn w).learn v := ht
      cases payload with
      | true => exact .single (.learn (hw.trans hv))
      | false => exact .single (.found ⟨hkind, hl, u.world, hs.evolves, hmem⟩ hrun hw hv)

theorem pushSubconstants_acts (hkind : a.kind = .scope)
    (hl : .subconstants ∈ c.listeners.entries.map Prod.snd) :
    Acting c a (pushSubconstants c a) := by
  have all : Acting c a (do ((← get).world.constantsOf a.value).forM (pushSubconstant c a)) := by
    intro s
    have hfrom : Moves (ActsFrom c a s) ((s.world.constantsOf a.value).forM (pushSubconstant c a)) :=
      Moves.forM fun _ hmem ↦ pushSubconstant_acts hkind hl hmem
    exact hfrom s .refl
  simp only [pushSubconstants]
  split
  · refine (scopeOf_acts _).bind fun scope ↦ ?_
    split
    · exact Moves.pure _
    · exact all
  · exact all

theorem removeIfEmpty_acts (hprunes : c.Prunes) (hkind : a.kind = .scope) :
    Acting c a (removeIfEmpty c a) := by
  simp only [removeIfEmpty]
  split
  · next hpayload =>
    refine scopeOf_bind_acts fun s n hn ↦ ?_
    split
    · next hempty => exact .single (.prune hprunes hkind hn hempty hpayload)
    · exact refl_of (Acts c a) s
  · exact Moves.pure _

theorem document_acts (hours : ¬a.kind.isForeign) (o : Object) : Acting c a (document a o) := by
  refine Moves.get.bind fun s ↦ ?_
  split
  · exact Moves.pure _
  · refine (nodeOf_acts _).bind_of fun s n t hrun ↦ ?_
    obtain ⟨-, hid, -⟩ := nodeOf_eq_ok hrun
    split
    · exact modify_acts (fun t ↦ .dress t ⟨hid, hours⟩ (Node.records_addComment _)) t
    · exact refl_of (Acts c a) t

theorem documentMethod_acts (hours : ¬a.kind.isForeign) : Acting c a (documentMethod a) := by
  refine (nodeOf_acts _).bind fun n ↦ ?_
  refine (ask_learns (Query.resolve_moves _)).acts.bind fun o ↦ ?_
  split
  · exact document_acts hours _
  · exact Moves.pure _

/-! ### Listeners -/

theorem onScope_acts (hscope : a.kind.isScope) {l : Listener}
    (hl : l ∈ c.listeners.entries.map Prod.snd) (hkind : l.ignoresForeign → a.kind = .scope) :
    Acting c a (onScope c a l) := by
  cases l with
  | typeVariables => exact recordTypeParameters_acts (hkind rfl)
  | mixins => exact recordMixins_acts hscope
  | metaclass => exact recordMetaclass_acts (hkind rfl)
  | methods => exact addMethods_acts hl hscope
  | helpers => exact recordMarkers_acts (hkind rfl)
  | enums => exact addEnumMembers_acts (hkind rfl)
  | fields => exact addFields_acts (hkind rfl)
  | signatures => exact Moves.pure _
  | subconstants => exact pushSubconstants_acts (hkind rfl) hl
  | documentation => exact document_acts (hkind rfl ▸ nofun) _
  | foreignConstants => exact pushTargets_acts (hkind rfl)
  | removeEmptyPayloadScopes => exact removeIfEmpty_acts hl (hkind rfl)
  | recorder r => exact Moves.pure _

theorem onMethod_acts (hkind : a.kind = .method) (l : Listener) : Acting c a (onMethod a l) := by
  cases l with
  | signatures => exact writeTypes_acts hkind
  | documentation => exact documentMethod_acts (hkind ▸ nofun)
  | _ => exact Moves.pure _

theorem keepRecord_acts (name : String) (r : Recorder) (callback : Callback) :
    Acting c a (keepRecord name r callback) := by
  refine (modify_acts fun s ↦ .keep s _).bind fun _ ↦ ?_
  split
  · exact Moves.throw _
  · exact Moves.pure _

theorem tell_acts (name : String) {l : Listener} (hl : l ∈ c.listeners.entries.map Prod.snd) :
    Acting c a (tell c a name l) := by
  simp only [tell]
  split
  · exact Moves.pure _
  · next hforeign =>
    split
    · exact keepRecord_acts _ _ _
    · next hcallback =>
      -- of scopes outside of the unit, only listeners that want to know of them are told
      have hscope := NodeKind.isScope_of_callback hcallback
      refine onScope_acts hscope hl fun hignores ↦ NodeKind.eq_scope hscope fun hf ↦ ?_
      exact hforeign (Bool.and_eq_true_iff.mpr ⟨hf, hignores⟩)
    · next hcallback => exact onMethod_acts (NodeKind.eq_method hcallback) _
    · exact Moves.pure _

/-- A dispatch to all listeners is a sequence of acts. -/
theorem dispatch_acts : Acting c a (c.listeners.dispatch (tell c a)) :=
  Moves.forM fun l hl ↦ tell_acts l.1 (List.mem_map_of_mem hl)

end Run

/-! ### Leaving out a listener -/

/-- The setting without a listener. -/
def Setting.without (c : Setting) (l : Listener) : Setting :=
  { c with listeners := ⟨c.listeners.entries.filter fun e ↦ e.2 ≠ l⟩ }

theorem Setting.not_mem_without (c : Setting) (l : Listener) :
    l ∉ (c.without l).listeners.entries.map Prod.snd := by
  intro h
  obtain ⟨e, he, heq⟩ := List.mem_map.mp h
  exact of_decide_eq_true (List.mem_filter.mp he).2 heq

/-- What a listener does about a node does not depend on the other listeners. -/
theorem Run.tell_without (c : Setting) (l : Listener) (a : Announcement) (name : String)
    (l' : Listener) : tell (c.without l) a name l' = tell c a name l' := rfl

/-- The other listeners act as they do without the one. -/
theorem Run.tell_acts_of_ne {c : Setting} {a : Announcement} {l : Listener} {e : String × Listener}
    (he : e ∈ c.listeners.entries) (hne : e.2 ≠ l) : Acting (c.without l) a (tell c a e.1 e.2) := by
  rw [← tell_without c l]
  exact tell_acts e.1 (List.mem_map_of_mem (List.mem_filter.mpr ⟨he, decide_eq_true hne⟩))

end Closure

end DeclClosure

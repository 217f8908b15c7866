import DeclClosure.Proofs.Tracker.Registrations
import Mathlib.Data.List.DropRight

/-!
# The two indexes tell one story

A session of the tracker registers compositions and forgets them all from time to time. What it knows
at the end is what it would know if it had just been installed and the registrations since the last
reset had been made (`MixinTracker.after_eq`). So a statement about all sessions is one about
histories of registrations, and these are dealt with one registration after the other.

By the mixin, the tracker has these registrations as they came. By the target and the kind, it has each
mixin once. A mixin that is registered again keeps its place, so the mixins stand in the order of their
first registrations (`MixinTracker.map_key_compositionsOf`), but it gets the new location, so each has
the location of its last one (`MixinTracker.location_of_composition`). Both indexes can be read off the
same list (`MixinTracker.indexes_agree`).
-/

namespace DeclClosure

/-- An item that comes after some others is new among them, or they stay as they are without it. -/
theorem eraseDups_concat {α : Type} [DecidableEq α] (as : List α) (a : α) :
    (as ++ [a]).eraseDups = if a ∈ as then as.eraseDups else as.eraseDups ++ [a] := by
  rw [List.eraseDups_append]
  by_cases h : a ∈ as <;> simp [List.removeAll, List.eraseDups_cons, h]

/-- The registration is one into a target in one way. -/
def Registration.goesInto (r : Registration) (target : Object) (kind : MixinKind) : Bool :=
  r.target.same target && r.kind = kind

namespace MixinTracker

/-! ### Sessions -/

/-- A call that changes what the tracker knows. The location of a registration is a text, be it given
by the caller or read off the stack. -/
inductive Call where
  | register (m : MixinCall)
  | reset
deriving Repr

/-- The registration that is made, if one is. -/
def Call.registration? : Call → Option MixinCall
  | .register m => some m
  | .reset => none

/-- The tracker after a call. -/
def call (t : MixinTracker) : Call → MixinTracker
  | .register m => t.register m.1 m.2.1 m.2.2.1 m.2.2.2
  | .reset => t.reset

/-- The tracker after some calls, from its installation on. -/
def after (calls : List Call) : MixinTracker :=
  calls.foldl call (({} : MixinTracker).install).2

/-- The registrations behind the last reset. -/
def sinceReset (calls : List Call) : List MixinCall :=
  (calls.rtakeWhile fun c ↦ c.registration?.isSome).filterMap Call.registration?

theorem sinceReset_concat_register (calls : List Call) (m : MixinCall) :
    sinceReset (calls ++ [.register m]) = sinceReset calls ++ [m] := by
  rw [sinceReset, List.rtakeWhile_concat_pos _ _ _ rfl, List.filterMap_append]
  rfl

theorem sinceReset_concat_reset (calls : List Call) : sinceReset (calls ++ [.reset]) = [] := by
  rw [sinceReset, List.rtakeWhile_concat_neg _ _ _ Bool.false_ne_true]
  rfl

theorem reset_registered (ms : List MixinCall) : (registered ms).reset = registered [] := by
  rw [reset, installed_registered]
  rfl

/-- Only what was registered behind the last reset is known. -/
theorem after_eq (calls : List Call) : after calls = registered (sinceReset calls) := by
  induction calls using List.reverseRecOn with
  | nil => rfl
  | append_singleton calls c ih =>
    have hstep : after (calls ++ [c]) = (after calls).call c := by
      rw [after, List.foldl_append]
      rfl
    rw [hstep, ih]
    cases c with
    | register m => rw [sinceReset_concat_register, registered_append, call]
    | reset => rw [sinceReset_concat_reset, call, reset_registered]

/-! ### Histories of registrations -/

variable {ms : List MixinCall} {target mixin : Object} {kind : MixinKind}

/-- What is kept of a registration by its mixin. -/
def registrationOf (m : MixinCall) : Registration :=
  ⟨m.1, m.2.2.1, m.2.2.2⟩

theorem goesInto_iff {m : MixinCall} :
    (registrationOf m).goesInto target kind ↔ target.key = m.1.key ∧ kind = m.2.2.1 := by
  rw [Registration.goesInto, Bool.and_eq_true, Object.same_iff, decide_eq_true_eq, registrationOf,
    eq_comm, eq_comm (a := kind)]

theorem mem_registrationsOf_iff {r : Registration} : r ∈ (registered ms).registrationsOf mixin ↔
    ∃ m ∈ ms, m.2.1.key = mixin.key ∧ registrationOf m = r := by
  rw [registrationsOf_registered]
  simp only [List.mem_map, List.mem_filter, Object.same_iff, and_assoc, registrationOf]

/-- By the target, the mixins stand in the order in which they came first. -/
theorem map_key_compositionsOf (ms : List MixinCall) (target : Object) (kind : MixinKind) :
    ((registered ms).compositionsOf target kind).map (fun d ↦ d.mixin.key) =
      ((ms.filter fun m ↦ (registrationOf m).goesInto target kind).map
        fun m ↦ m.2.1.key).eraseDups := by
  induction ms using List.reverseRecOn with
  | nil => rfl
  | append_singleton ms m ih =>
    rw [compositionsOf_registered_append, List.filter_append, List.map_append, List.filter_cons,
      List.filter_nil]
    by_cases hinto : (registrationOf m).goesInto target kind
    · rw [if_pos (goesInto_iff.mp hinto), map_key_putComposition, ih, if_pos hinto,
        List.map_singleton, eraseDups_concat]
      simp only [List.mem_eraseDups]
    · rw [if_neg (goesInto_iff.not.mp hinto), ih, if_neg hinto, List.map_nil, List.append_nil]

/-- By the target, there are the mixins that were registered into it. -/
theorem exists_same_iff : (∃ d ∈ (registered ms).compositionsOf target kind, d.mixin.same mixin) ↔
    ∃ r ∈ (registered ms).registrationsOf mixin, r.goesInto target kind := by
  have hkey : (∃ d ∈ (registered ms).compositionsOf target kind, d.mixin.same mixin) ↔
      mixin.key ∈ ((registered ms).compositionsOf target kind).map fun d ↦ d.mixin.key := by
    simp only [Object.same_iff, List.mem_map]
  rw [hkey, map_key_compositionsOf, List.mem_eraseDups]
  simp only [List.mem_map, List.mem_filter, mem_registrationsOf_iff]
  constructor
  · rintro ⟨m, ⟨hm, hinto⟩, hmixin⟩
    exact ⟨registrationOf m, ⟨m, hm, hmixin, rfl⟩, hinto⟩
  · rintro ⟨_, ⟨m, hm, hmixin, rfl⟩, hinto⟩
    exact ⟨m, ⟨hm, hinto⟩, hmixin⟩

/-- Where a mixin was last composed into a target is what its last registration there says. -/
theorem lastLocation?_eq (ms : List MixinCall) (target mixin : Object) (kind : MixinKind) :
    lastLocation? ms target mixin kind =
      (((registered ms).registrationsOf mixin).filter fun r ↦
        r.goesInto target kind).getLast?.map Registration.location := by
  rw [registrationsOf_registered, lastLocation?, List.filter_map, List.filter_filter, List.getLast?_map,
    List.getLast?_filter, Option.map_map]
  congr 2
  funext m
  exact Bool.and_right_comm ..

/-- By the target, a mixin has the location of its last registration there. -/
theorem location_of_composition {d : Composition}
    (h : d ∈ (registered ms).compositionsOf target kind) :
    (((registered ms).registrationsOf d.mixin).filter fun r ↦
      r.goesInto target kind).getLast?.map Registration.location = some d.location := by
  rw [← lastLocation?_eq]
  exact exists_composition_iff.mp ⟨d, h, rfl, rfl⟩

/-- **The two indexes tell one story.** Whatever was registered and forgotten, the tracker has by the
mixin the registrations behind the last reset, in order. By the target and the kind, it has the mixins
for which this list has an entry with this target and kind, in the order in which they were first
registered into it, each with the location of the last such entry. -/
theorem indexes_agree (calls : List Call) :
    (∀ mixin, (after calls).registrationsOf mixin =
      ((sinceReset calls).filter fun m ↦ m.2.1.same mixin).map registrationOf) ∧
    ∀ target kind,
      (∀ mixin, (∃ d ∈ (after calls).compositionsOf target kind, d.mixin.same mixin) ↔
        ∃ r ∈ (after calls).registrationsOf mixin, r.goesInto target kind) ∧
      ((after calls).compositionsOf target kind).map (fun d ↦ d.mixin.key) =
        (((sinceReset calls).filter fun m ↦ (registrationOf m).goesInto target kind).map
          fun m ↦ m.2.1.key).eraseDups ∧
      ∀ d ∈ (after calls).compositionsOf target kind,
        (((after calls).registrationsOf d.mixin).filter fun r ↦
          r.goesInto target kind).getLast?.map Registration.location = some d.location := by
  rw [after_eq]
  exact ⟨registrationsOf_registered _, fun target kind ↦ ⟨fun mixin ↦ exists_same_iff,
    map_key_compositionsOf _ target kind, fun d hd ↦ location_of_composition hd⟩⟩

/-- A session with two mixins of one target: a reset, and then each is registered, the first of them
once more. -/
def repeatedCalls : List Call :=
  let target : Object := .entity (.declared 0)
  let first : Object := .entity (.declared 1)
  let second : Object := .entity (.declared 2)
  [.register (target, second, .include, "/srv/a.src:1"), .reset,
    .register (target, first, .include, "/srv/a.src:2"),
    .register (target, second, .include, "/srv/a.src:3"),
    .register (target, first, .extend, "/srv/a.src:4"),
    .register (target, first, .include, "/srv/a.src:5")]

/-- The first one stays in front with its new location, and is known as an extension besides. -/
theorem indexes_agree_of_repeated :
    (∀ d ∈ (after repeatedCalls).compositionsOf (.entity (.declared 0)) .include,
      (((after repeatedCalls).registrationsOf d.mixin).filter fun r ↦
        r.goesInto (.entity (.declared 0)) .include).getLast?.map Registration.location =
          some d.location) ∧
    ((after repeatedCalls).compositionsOf (.entity (.declared 0)) .include).map
        (fun d ↦ (d.mixin.key, d.location)) =
      [(.entity (.declared 1), "/srv/a.src:5"), (.entity (.declared 2), "/srv/a.src:3")] ∧
    ((after repeatedCalls).registrationsOf (.entity (.declared 1))).map Registration.location =
      ["/srv/a.src:2", "/srv/a.src:4", "/srv/a.src:5"] :=
  ⟨((indexes_agree repeatedCalls).2 _ _).2.2, by decide, by decide⟩

end MixinTracker

end DeclClosure

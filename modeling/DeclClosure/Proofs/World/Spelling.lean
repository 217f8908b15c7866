import DeclClosure.Proofs.Text.Replacing
import DeclClosure.Proofs.Moves
import DeclClosure.Proofs.World.Classes
import DeclClosure.Reflection.TypeText
import DeclClosure.Universe.Declaration.Universe

/-!
# How types are spelled

The text of a type form is its written form, in which the marks that classes show elsewhere are replaced
wherever they occur. So a class bears its own name in the text of a form exactly if no mark occurs in that
name (`World.typeText_eq_shown_iff`). The layout of a form, which is what stands between the names, is not
touched by the replacements, and no mark reaches from a name into it (`Spells.join`).
-/

namespace DeclClosure

/-! ### The marks of classes -/

/-- The marks of classes. -/
def classMarks : List String := ["<class '", "'>", "NoneType"]

/-- No mark occurs in the text. -/
def Unmarked (s : String) : Prop :=
  ∀ mark ∈ classMarks, ¬Text.Occurs mark s

instance (pattern s : String) : Decidable (Text.Occurs pattern s) :=
  inferInstanceAs (Decidable (pattern.toList <:+: s.toList))

instance (s : String) : Decidable (Unmarked s) :=
  inferInstanceAs (Decidable (∀ mark ∈ classMarks, ¬Text.Occurs mark s))

theorem length_withoutClassMarks_le (s : String) : (withoutClassMarks s).length ≤ s.length :=
  (Text.length_replace_le (by decide) (by decide) _).trans
    ((Text.length_replace_le (by decide) (by decide) _).trans
      (Text.length_replace_le (by decide) (by decide) s))

/-- A text stays as it is exactly if no mark occurs in it. -/
theorem withoutClassMarks_eq_self_iff {s : String} : withoutClassMarks s = s ↔ Unmarked s := by
  constructor
  · intro h
    -- each replacement in turn would make the text shorter, and none makes it longer
    have hlast (s : String) : (Text.replace s "NoneType" "None").length ≤ s.length :=
      Text.length_replace_le (by decide) (by decide) s
    have hmiddle (s : String) : (Text.replace s "'>" "").length ≤ s.length :=
      Text.length_replace_le (by decide) (by decide) s
    have hlength := congrArg String.length h
    rw [withoutClassMarks] at hlength
    have hopening : ¬Text.Occurs "<class '" s := fun hoccurs ↦ by
      have hlt := Text.length_replace_lt "" (by decide) (by decide) hoccurs
      have := (hlast _).trans (hmiddle (Text.replace s "<class '" ""))
      omega
    rw [Text.replace_of_not_occurs hopening] at hlength
    have hclosing : ¬Text.Occurs "'>" s := fun hoccurs ↦ by
      have hlt := Text.length_replace_lt "" (by decide) (by decide) hoccurs
      have := hlast (Text.replace s "'>" "")
      omega
    rw [Text.replace_of_not_occurs hclosing] at hlength
    have hnothing : ¬Text.Occurs "NoneType" s := fun hoccurs ↦ by
      have hlt := Text.length_replace_lt "None" (by decide) (by decide) hoccurs
      omega
    simp only [Unmarked, classMarks, List.forall_mem_cons]
    exact ⟨hopening, hclosing, hnothing, nofun⟩
  · intro h
    rw [withoutClassMarks, Text.replace_of_not_occurs (h "<class '" (by decide)),
      Text.replace_of_not_occurs (h "'>" (by decide)),
      Text.replace_of_not_occurs (h "NoneType" (by decide))]

/-- What may stand between names. -/
def Separates (sep : String) : Prop :=
  ∀ mark ∈ classMarks, Text.Parts mark.toList sep.toList

theorem withoutClassMarks_parts {sep : String} (h : Separates sep) (s t : String) :
    withoutClassMarks (s ++ sep ++ t) = withoutClassMarks s ++ sep ++ withoutClassMarks t := by
  rw [withoutClassMarks, Text.replace_parts (by decide) (h "<class '" (by decide)),
    Text.replace_parts (by decide) (h "'>" (by decide)),
    Text.replace_parts (by decide) (h "NoneType" (by decide))]
  rfl

-- The hypothesis is a Boolean search: the instance that decides a `∀` over characters tries all characters
-- there are.
theorem separates_of {sep : String} {u v : List Char} {c : Char} (hsep : sep.toList = u ++ c :: v)
    (h : (classMarks.all fun mark ↦ (sep.toList.all fun x ↦ mark.toList.head? != some x) &&
      !mark.toList.contains c && u.all fun x ↦ mark.toList.getLast? != some x) = true) :
    Separates sep := by
  intro mark hmark
  have hmarks := List.all_eq_true.mp h mark hmark
  simp only [Bool.and_eq_true, List.all_eq_true, bne_iff_ne, Bool.not_eq_true', List.contains_eq_mem,
    decide_eq_false_iff_not] at hmarks
  obtain ⟨⟨hfirst, hc⟩, hu⟩ := hmarks
  exact ⟨hfirst, u, c, v, hsep, hc, hu⟩

theorem separates_comma : Separates ", " :=
  separates_of (u := []) rfl (by decide)

theorem separates_bar : Separates " | " :=
  separates_of (u := [' ']) rfl (by decide)

theorem separates_open : Separates "[" :=
  separates_of (u := []) rfl (by decide)

theorem separates_close : Separates "]" :=
  separates_of (u := []) rfl (by decide)

/-- Without the marks, what is written is no longer than a text, and it is that text exactly if some names
are unmarked. -/
structure Spells (written text : String) (names : List String) : Prop where
  /-- It is no longer. -/
  length_le : (withoutClassMarks written).length ≤ text.length
  /-- It is the text if no mark occurs in the names. -/
  eq_iff : withoutClassMarks written = text ↔ ∀ n ∈ names, Unmarked n

namespace Spells

variable {r r' t t' sep : String} {ns ns' : List String}

theorem name (s : String) : Spells s s [s] :=
  ⟨length_withoutClassMarks_le s, withoutClassMarks_eq_self_iff.trans List.forall_mem_singleton.symm⟩

theorem word {s : String} (h : Unmarked s) : Spells s s [] :=
  ⟨length_withoutClassMarks_le s, iff_of_true (withoutClassMarks_eq_self_iff.mpr h) nofun⟩

/-- The name of the class of nothing is a mark itself. -/
theorem nothing : Spells "NoneType" "None" [] :=
  have h : withoutClassMarks "NoneType" = "None" := by decide +kernel
  ⟨by rw [h], iff_of_true h nofun⟩

/-- Names on both sides of a separator are spelled each for itself. -/
theorem join (hsep : Separates sep) (h : Spells r t ns) (h' : Spells r' t' ns') :
    Spells (r ++ sep ++ r') (t ++ sep ++ t') (ns ++ ns') := by
  have hparts := withoutClassMarks_parts hsep r r'
  have hle := h.length_le
  have hle' := h'.length_le
  refine ⟨?_, ?_⟩
  · rw [hparts]
    simp only [String.length_append]
    omega
  · rw [hparts, List.forall_mem_append, ← h.eq_iff, ← h'.eq_iff]
    constructor
    · intro heq
      -- neither side can make up for what the other one lacks
      have hlength := congrArg String.length heq
      simp only [String.length_append] at hlength
      have hlists := congrArg String.toList heq
      simp only [String.toList_append] at hlists
      obtain ⟨hleft, hright⟩ := List.append_inj hlists (by
        simp only [List.length_append, String.length_toList]
        omega)
      exact ⟨String.toList_inj.mp (List.append_cancel_right hleft), String.toList_inj.mp hright⟩
    · rintro ⟨hr, hr'⟩
      rw [hr, hr']

theorem intercalate {α : Type} {f g : α → String} {k : α → List String} (hsep : Separates sep)
    {as : List α} (h : ∀ a ∈ as, Spells (f a) (g a) (k a)) :
    Spells (sep.intercalate (as.map f)) (sep.intercalate (as.map g)) (as.flatMap k) := by
  induction as with
  | nil =>
    rw [List.map_nil, List.map_nil, String.intercalate_nil, List.flatMap_nil]
    exact word (by decide)
  | cons a as ih =>
    have hfirst := h a List.mem_cons_self
    have hrest := ih fun b hb ↦ h b (List.mem_cons_of_mem a hb)
    cases as with
    | nil =>
      rw [List.map_singleton, List.map_singleton, String.intercalate_singleton,
        String.intercalate_singleton, List.flatMap_singleton]
      exact hfirst
    | cons b as =>
      simp only [List.map_cons, String.intercalate_cons_cons] at hrest ⊢
      rw [List.flatMap_cons]
      exact hfirst.join hsep hrest

end Spells

/-! ### Types built from classes -/

/-- The object is a type form. -/
def Object.isForm : Object → Bool
  | form _ _ _ => true
  | _ => false

namespace World

variable {w : World} {id : EntityId} {c : ClassFacts} {o : Object} {os : List Object}

/-- The object says which module it belongs to. -/
def namesModule (w : World) (id : EntityId) : Bool :=
  match w.entityAttr? id "__module__" with
  | some (.atom _ a) => a != .none
  | _ => false

/-- The object is a class that names its module, and the class of nothing bears its own name. -/
def isNamedClass (w : World) (id : EntityId) : Bool :=
  (w.class? id).any fun c ↦
    w.namesModule id && (id != .standard "NoneType" || w.spelled id c == "NoneType")

/-- The form is made of types only: its other arguments are no values and no remarks. -/
def isTypeHead (w : World) : FormHead → Bool
  | .class origin | .parametrized origin => w.isNamedClass origin
  | .literal | .annotated => false
  | .union | .named _ | .callable | .typingUnion | .special _ => true

mutual

/-- The object is built from classes and nothing by type forms, to any depth. -/
def isBuiltType (w : World) : Object → Bool
  | .entity id => w.isNamedClass id
  | .atom _ .none => true
  | .form _ head args => w.isTypeHead head && w.areBuiltTypes args
  | _ => false

/-- The objects are types like this, or stand for further arguments. -/
def areBuiltTypes (w : World) : List Object → Bool
  | [] => true
  | .atom _ .ellipsis :: os => w.areBuiltTypes os
  | o :: os => w.isBuiltType o && w.areBuiltTypes os

end

/-- A class by its own name; the class of nothing as nothing. -/
def shownClass (w : World) (id : EntityId) : String :=
  if id = .standard "NoneType" then "None" else (w.class? id).elim "" (w.spelled id)

/-- The names that make up what is shown of a class. -/
def classNames (w : World) (id : EntityId) : List String :=
  if id = .standard "NoneType" then [] else (w.class? id).elim [] fun c ↦ [w.spelled id c]

/-- What is shown of the head of a form. -/
def shownHead (w : World) : FormHead → String
  | .class origin | .parametrized origin => w.shownClass origin
  | head => w.headText head

/-- The names that make up what is shown of the head of a form. -/
def headNames (w : World) : FormHead → List String
  | .class origin | .parametrized origin => w.classNames origin
  | .named n | .special n => ["typing." ++ n]
  | _ => []

/-- What is shown of a form, given what is shown of its arguments. -/
def shownForm (w : World) (head : FormHead) (args : List Object) (items : List String) : String :=
  let title := w.shownHead head
  match head with
  | .union => " | ".intercalate items
  | .callable =>
    if args.length = 2 ∧ args.head?.any w.isParameterList then title ++ bracketed items
    else title ++ bracketed [bracketed items.dropLast, items.getLast?.getD ""]
  | .typingUnion =>
    match args, items with
    | [a, b], [s, t] =>
      if a.same noneType then "typing.Optional" ++ bracketed [t]
      else if b.same noneType then "typing.Optional" ++ bracketed [s]
      else title ++ bracketed items
    | _, _ => title ++ bracketed items
  | _ => title ++ bracketed (if items.isEmpty then ["()"] else items)

mutual

/-- What is to be shown of a type: every class by its own name. -/
def shownType (w : World) : Object → String
  | .entity id => w.shownClass id
  | .atom _ .none => "None"
  | .atom _ .ellipsis => "..."
  | .form _ head args => w.shownForm head args (w.shownTypes args)
  | _ => ""

/-- What is to be shown of some types. -/
def shownTypes (w : World) : List Object → List String
  | [] => []
  | o :: os => w.shownType o :: w.shownTypes os

end

mutual

/-- The names that make up what is to be shown of a type. -/
def typeNames (w : World) : Object → List String
  | .entity id => w.classNames id
  | .form _ head args => w.headNames head ++ w.allTypeNames args
  | _ => []

/-- The names that make up what is to be shown of some types. -/
def allTypeNames (w : World) : List Object → List String
  | [] => []
  | o :: os => w.typeNames o ++ w.allTypeNames os

end

/-- An argument of a named form. -/
def typeArgument (w : World) : Object → String
  | .entity id => w.typeEntity id
  | .atom _ .ellipsis => "..."
  | o => w.written o

/-- An argument of a form of the language core. -/
def coreArgument (w : World) : Object → String
  | .entity id => w.coreEntity id
  | .atom _ .ellipsis => "..."
  | o => w.written o

theorem typeArguments_eq (w : World) (os : List Object) :
    w.typeArguments os = os.map w.typeArgument := by
  induction os with
  | nil => rfl
  | cons o os ih =>
    rw [List.map_cons, ← ih]
    cases o with
    | atom tag a => cases a <;> rfl
    | _ => rfl

theorem coreArguments_eq (w : World) (os : List Object) :
    w.coreArguments os = os.map w.coreArgument := by
  induction os with
  | nil => rfl
  | cons o os ih =>
    rw [List.map_cons, ← ih]
    cases o with
    | atom tag a => cases a <;> rfl
    | _ => rfl

theorem shownTypes_eq (w : World) (os : List Object) : w.shownTypes os = os.map w.shownType := by
  induction os with
  | nil => rfl
  | cons o os ih => rw [shownTypes, ih, List.map_cons]

theorem allTypeNames_eq (w : World) (os : List Object) :
    w.allTypeNames os = os.flatMap w.typeNames := by
  induction os with
  | nil => rfl
  | cons o os ih => rw [allTypeNames, ih, List.flatMap_cons]

/-! ### Classes -/

/-- In a form of either style, a class that names its module is written by its own name. -/
theorem spells_of_isNamedClass (h : w.isNamedClass id) :
    Spells (w.coreEntity id) (w.shownClass id) (w.classNames id) ∧
      Spells (w.typeEntity id) (w.shownClass id) (w.classNames id) := by
  obtain ⟨c, hclass, hnamed⟩ := (Option.any_eq_true _ _).mp h
  obtain ⟨hmodule, hnothing⟩ := Bool.and_eq_true_iff.mp hnamed
  obtain ⟨e, he, hshape⟩ := shape_of_class? hclass
  have htype : w.typeEntity id = w.spelled id c := by rw [typeEntity, hclass]
  have hcore : w.coreEntity id = w.spelled id c := by
    have hqualname : w.textAttr? id "__qualname__" = some c.qualname := by
      simp [textAttr?, entityAttr?, he, hshape, classAttr?, ownText, Object.text?]
    rw [namesModule] at hmodule
    simp only [coreEntity, hqualname, spelled]
    split at hmodule
    · next a ha =>
      rw [ha]
      cases a with
      | none => cases hmodule
      | _ => rfl
    · cases hmodule
  rw [htype, hcore, shownClass, classNames]
  by_cases hid : id = .standard "NoneType"
  · have hname : w.spelled id c = "NoneType" := by simpa [hid] using hnothing
    rw [if_pos hid, if_pos hid, hname]
    exact ⟨.nothing, .nothing⟩
  · rw [if_neg hid, if_neg hid, hclass]
    exact ⟨.name _, .name _⟩

/-! ### Forms -/

theorem spells_bracketed {r t : String} {ns ms : List String} {rs ts : List String}
    (h : Spells r t ns) (hitems : Spells (", ".intercalate rs) (", ".intercalate ts) ms) :
    Spells (r ++ bracketed rs) (t ++ bracketed ts) (ns ++ ms) := by
  have hclosed := (h.join separates_open hitems).join separates_close (.word (s := "") (by decide))
  simpa only [bracketed, String.append_assoc, String.append_empty, List.append_nil] using hclosed

/-- The arguments of a form, each written in one way, in brackets after a title. -/
theorem spells_arguments {r t : String} {ns : List String} {f : Object → String} (h : Spells r t ns)
    (hitems : ∀ o ∈ os, Spells (f o) (w.shownType o) (w.typeNames o)) :
    Spells (r ++ bracketed (os.map f)) (t ++ bracketed (w.shownTypes os))
      (ns ++ w.allTypeNames os) := by
  rw [shownTypes_eq, allTypeNames_eq]
  exact spells_bracketed h (.intercalate separates_comma hitems)

/-- Without arguments, a pair of parentheses is written in their place. -/
theorem spells_orEmpty {r t : String} {ns : List String} {f : Object → String} (h : Spells r t ns)
    (hitems : ∀ o ∈ os, Spells (f o) (w.shownType o) (w.typeNames o)) :
    Spells (r ++ bracketed (if (os.map f).isEmpty then ["()"] else os.map f))
      (t ++ bracketed (if (w.shownTypes os).isEmpty then ["()"] else w.shownTypes os))
      (ns ++ w.allTypeNames os) := by
  cases os with
  | nil =>
    have hempty : Spells (", ".intercalate ["()"]) (", ".intercalate ["()"]) [] := by
      rw [String.intercalate_singleton]
      exact .word (by decide)
    exact spells_bracketed h hempty
  | cons o os => exact spells_arguments h hitems

/-- The union operator writes the class of nothing as nothing. -/
theorem spells_union (hitems : ∀ o ∈ os, Spells (w.coreArgument o) (w.shownType o) (w.typeNames o)) :
    Spells (" | ".intercalate ((os.zip (os.map w.coreArgument)).map fun (a, s) ↦
        if a.same noneType then "None" else s))
      (" | ".intercalate (w.shownTypes os)) (w.allTypeNames os) := by
  have hzip (os : List Object) : (os.zip (os.map w.coreArgument)).map (fun (a, s) ↦
      if a.same noneType then "None" else s) =
        os.map fun o ↦ if o.same noneType then "None" else w.coreArgument o := by
    induction os with
    | nil => rfl
    | cons o os ih => rw [List.map_cons, List.zip_cons_cons, List.map_cons, ih, List.map_cons]
  rw [hzip, shownTypes_eq, allTypeNames_eq]
  refine .intercalate separates_bar fun o ho ↦ ?_
  split
  · next hsame =>
    obtain rfl := Object.same_entity_iff.mp hsame
    exact .word (by decide)
  · exact hitems o ho

/-- The parameters of a callable stand in brackets of their own. -/
theorem spells_callable (hitems : ∀ o ∈ os, Spells (w.typeArgument o) (w.shownType o) (w.typeNames o)) :
    Spells ("typing.Callable" ++ bracketed [bracketed (os.map w.typeArgument).dropLast,
        (os.map w.typeArgument).getLast?.getD ""])
      ("typing.Callable" ++ bracketed [bracketed (w.shownTypes os).dropLast,
        (w.shownTypes os).getLast?.getD ""]) (w.allTypeNames os) := by
  have htitle : Spells "typing.Callable" "typing.Callable" [] := .word (by decide)
  have hempty : Spells "" "" [] := .word (by decide)
  refine spells_bracketed htitle ?_
  simp only [String.intercalate_cons_cons, String.intercalate_singleton]
  rcases List.eq_nil_or_concat' os with rfl | ⟨params, result, rfl⟩
  · have hnone : Spells (bracketed []) (bracketed []) [] := .word (by decide)
    exact hnone.join separates_comma hempty
  · have hparams := spells_arguments hempty fun o ho ↦ hitems o (List.mem_append_left _ ho)
    have hresult := hitems result (List.mem_append_right _ List.mem_cons_self)
    simp only [String.empty_append, List.nil_append] at hparams
    rw [shownTypes_eq, allTypeNames_eq] at hparams ⊢
    simpa using hparams.join separates_comma hresult

/-- A union of two types of which one is the class of nothing shows the other one only. -/
theorem spells_typingUnion
    (hitems : ∀ o ∈ os, Spells (w.typeArgument o) (w.shownType o) (w.typeNames o)) :
    Spells (w.formText .typingUnion os [] (os.map w.typeArgument) [])
      (w.shownForm .typingUnion os (w.shownTypes os)) (w.allTypeNames os) := by
  have hunion : Spells ("typing.Union" ++ bracketed (os.map w.typeArgument))
      ("typing.Union" ++ bracketed (w.shownTypes os)) (w.allTypeNames os) :=
    spells_arguments (.word (by decide)) hitems
  match os, hitems, hunion with
  | [], _, hunion => exact hunion
  | [_], _, hunion => exact hunion
  | _ :: _ :: _ :: _, _, hunion => exact hunion
  | [a, b], hitems, hunion =>
    have hoption (o : Object) (ho : o ∈ [a, b]) :
        Spells ("typing.Optional" ++ bracketed [w.typeArgument o])
          ("typing.Optional" ++ bracketed [w.shownType o]) (w.typeNames o) := by
      have hself : ∀ p ∈ [o], Spells (w.typeArgument p) (w.shownType p) (w.typeNames p) :=
        fun p hp ↦ hitems p (List.mem_singleton.mp hp ▸ ho)
      have hone := spells_arguments (.word (s := "typing.Optional") (by decide)) hself
      simpa [shownTypes, allTypeNames] using hone
    simp only [formText, shownForm, List.map_cons, List.map_nil, shownTypes]
    split
    · next ha =>
      obtain rfl := Object.same_entity_iff.mp ha
      simpa [allTypeNames, typeNames, classNames] using hoption b (by simp)
    · split
      · next hb =>
        obtain rfl := Object.same_entity_iff.mp hb
        simpa [allTypeNames, typeNames, classNames] using hoption a (by simp)
      · exact hunion

/-- The written form of a type spells the names that make it up, if its arguments do. -/
theorem spells_form (head : FormHead) (hhead : w.isTypeHead head)
    (hitems : ∀ o ∈ os, Spells (w.typeArgument o) (w.shownType o) (w.typeNames o) ∧
      Spells (w.coreArgument o) (w.shownType o) (w.typeNames o)) :
    Spells (w.formText head os (w.writtenAll os) (w.typeArguments os) (w.coreArguments os))
      (w.shownForm head os (w.shownTypes os)) (w.headNames head ++ w.allTypeNames os) := by
  have htypes : ∀ o ∈ os, Spells (w.typeArgument o) (w.shownType o) (w.typeNames o) :=
    fun o ho ↦ (hitems o ho).1
  have hcores : ∀ o ∈ os, Spells (w.coreArgument o) (w.shownType o) (w.typeNames o) :=
    fun o ho ↦ (hitems o ho).2
  rw [typeArguments_eq, coreArguments_eq]
  cases head with
  | «class» origin => exact spells_orEmpty (spells_of_isNamedClass hhead).1 hcores
  | parametrized origin => exact spells_orEmpty (spells_of_isNamedClass hhead).2 htypes
  | named n => exact spells_orEmpty (.name _) htypes
  | special n => exact spells_orEmpty (.name _) htypes
  | union => exact spells_union hcores
  | typingUnion => exact spells_typingUnion htypes
  | callable =>
    simp only [formText, shownForm]
    split
    · exact spells_arguments (.word (s := "typing.Callable") (by decide)) htypes
    · exact spells_callable htypes
  | literal => cases hhead
  | annotated => cases hhead

theorem areBuiltTypes_cons (h : w.areBuiltTypes (o :: os)) :
    ((∃ tag, o = .atom tag .ellipsis) ∨ w.isBuiltType o) ∧ w.areBuiltTypes os := by
  rw [areBuiltTypes.eq_def] at h
  split at h
  · next heq => cases heq
  · next heq =>
    cases heq
    exact ⟨.inl ⟨_, rfl⟩, h⟩
  · next heq =>
    cases heq
    exact (Bool.and_eq_true_iff.mp h).imp_left .inr

/-- Of the values without parts only nothing is a type. -/
theorem spells_atom {tag : Nat} {a : Atom} (h : w.isBuiltType (.atom tag a)) :
    Spells (w.typeArgument (.atom tag a)) (w.shownType (.atom tag a)) (w.typeNames (.atom tag a)) ∧
      Spells (w.coreArgument (.atom tag a)) (w.shownType (.atom tag a)) (w.typeNames (.atom tag a)) := by
  cases a with
  | none => exact ⟨.word (s := "None") (by decide), .word (s := "None") (by decide)⟩
  | _ => cases h

mutual

/-- A type that is built from classes spells the names that make it up, as it is written and as an argument
of a form of either style. -/
theorem spells_type : ∀ o, w.isBuiltType o →
    (Spells (w.typeArgument o) (w.shownType o) (w.typeNames o) ∧
      Spells (w.coreArgument o) (w.shownType o) (w.typeNames o))
  | .entity _, h => (spells_of_isNamedClass h).symm
  | .atom _ _, h => spells_atom h
  | .form _ head args, h =>
    have ⟨hhead, hargs⟩ := Bool.and_eq_true_iff.mp h
    have hform := spells_form head hhead (spells_types args hargs)
    ⟨hform, hform⟩

/-- So do the arguments of a form. -/
theorem spells_types : ∀ os, w.areBuiltTypes os → ∀ o ∈ os,
    Spells (w.typeArgument o) (w.shownType o) (w.typeNames o) ∧
      Spells (w.coreArgument o) (w.shownType o) (w.typeNames o)
  | [], _ => nofun
  | o :: os, h =>
    have ⟨hfirst, hrest⟩ := areBuiltTypes_cons h
    have hself : Spells (w.typeArgument o) (w.shownType o) (w.typeNames o) ∧
        Spells (w.coreArgument o) (w.shownType o) (w.typeNames o) :=
      hfirst.elim (fun ⟨_, ho⟩ ↦ ho ▸ ⟨.word (s := "...") (by decide), .word (s := "...") (by decide)⟩)
        (spells_type o)
    List.forall_mem_cons.mpr ⟨hself, spells_types os hrest⟩

end

/-! ### Texts of types -/

/-- A class that is a type by itself bears its own name; so does the class of nothing. -/
theorem typeText_class {nameOf : Object → Query (Option String)} (h : w.isNamedClass id)
    (hgiven : ¬(Object.entity id).same unspecified) (htext : w.asText? (.entity id) = none)
    (hname : nameOf (.entity id) w = (.ok none, w)) :
    Query.typeText nameOf (.entity id) w = (.ok (w.shownClass id), w) := by
  obtain ⟨c, hclass, -⟩ := (Option.any_eq_true _ _).mp h
  have hasClass : w.asClass? (.entity id) = some (id, c) := by
    simp [asClass?, Object.entity?, hclass]
  simp only [Query.typeText]
  rw [run_get_bind, if_neg hgiven, shownClass]
  by_cases hid : id = .standard "NoneType"
  · subst hid
    rfl
  · have hother : ¬((Object.entity id).same .none || (Object.entity id).same noneType) := by
      rw [Bool.or_eq_true, not_or]
      refine ⟨by simp [Object.same, Object.key, Object.none, Object.taggedKey], fun hsame ↦ hid ?_⟩
      exact Object.entity.inj (Object.same_entity_iff.mp hsame)
    rw [if_neg hother, if_neg hid, htext, hasClass, hclass]
    show (nameOf (.entity id) >>= _) w = _
    rw [run_bind_ok hname]
    rfl

/-- What is no class is written without the marks of classes. -/
theorem typeText_written {nameOf : Object → Query (Option String)} (hgiven : ¬o.same unspecified)
    (hnothing : ¬(o.same .none || o.same noneType)) (htext : w.asText? o = none)
    (hclass : w.asClass? o = none) :
    Query.typeText nameOf o w = (.ok (withoutClassMarks (w.written o)), w) := by
  simp only [Query.typeText]
  rw [run_get_bind, if_neg hgiven, if_neg hnothing, htext, hclass]
  rfl

end World

/-- A module `pkg` with two classes, and two types that are built from them. -/
def boxUniverse : UniverseDeclaration where
  modules := [
    { name := "pkg", file := some "/srv/pkg.src"
      members := [("table", .reference "table"), ("boxes", .reference "boxes")] }]
  objects := [
    ("Box", .class { name := "Box", qualname := "Box", module := some "pkg" } [] [] .absent false),
    ("NoneTypeBox", .class { name := "NoneTypeBox", qualname := "NoneTypeBox", module := some "pkg" } []
      [] .absent false),
    ("table", .value (.applied (.standard "dict")
      [.standard "str", .union [.reference "Box", .atom .none]])),
    ("boxes", .value (.applied (.standard "list") [.reference "NoneTypeBox"]))]

/-- The world of these classes. -/
def boxWorld : World :=
  (Query.newUniverse boxUniverse {}).2

/-- What the module has under a name. -/
def boxMember (name : String) : Object :=
  (boxWorld.attr? (.entity (.declared 0)) name).getD .none

end DeclClosure

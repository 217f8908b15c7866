import DeclClosure.Proofs.World.Literals
import DeclClosure.Reflection.TypeText

/-!
# Which values are shown as literals

The text of a value in a declaration (`World.literal`) is three dots or the written form of the value, as
its class decides (`World.isShown`). The class does not decide whether the written form is a literal:
members of enumerations of numbers and texts are numbers and texts as well, but they are written in angle
brackets, and a number that is not finite is written as a word. That is all that can go wrong
(`World.literal_cases`).

An instance of a class of values is written like the empty value that it stands for, so except for members
the written form is that of the plain value (`World.written_plain`), and reading it back gives this value.
-/

namespace DeclClosure

open Number

/-- The object if it is a value without parts. -/
def Object.atom? : Object → Option Atom
  | .atom _ a => some a
  | _ => Option.none

namespace World

variable {w : World} {o : Object}

/-- The object is a member of an enumeration. -/
def isMember (w : World) (o : Object) : Bool :=
  match o.entity?.bind w.entity? with
  | some ⟨.member _ _ _ _, _⟩ => true
  | _ => false

/-- The object stands for a value without parts, or for a tuple of them. Other objects are known by
themselves and not by what is written. -/
def isValue (w : World) (o : Object) : Bool :=
  match w.plain o with
  | .atom _ _ => true
  | .tuple _ items => items.all fun o ↦ (w.plain o).atom?.isSome
  | _ => false

/-- The text is a literal of a value that equals the object. -/
structure Denotes (w : World) (s : String) (o : Object) : Prop where
  /-- The object is a value. -/
  isValue : w.isValue o
  /-- The text is a literal, and its value is equal. -/
  equal : ∃ v, Literal.ofText? s = some v ∧ w.equalValues v o

/-- The written form of the object is shown, and not three dots: it is an instance of a class of literals,
a tuple of such instances, or an instance of a class of tuples. -/
def isShown (w : World) (o : Object) : Bool :=
  w.isLiteral o ||
    match o with
    | .tuple _ items => items.all w.isLiteral
    | o => w.isInstance o (.standard "tuple")

/-- The value of the literal of an object without parts: what it stands for if that has a literal. A member
of an enumeration has none. -/
def atomLiteral? (w : World) (o : Object) : Option Object :=
  if w.isMember o then none else ((w.plain o).atom?.filter Atom.hasLiteral).map (.atom 0)

/-- The value of the literal of an object, if it has one: that of an object without parts, or the tuple of
those of the items. A member of an enumeration has none. -/
def literalValue? (w : World) (o : Object) : Option Object :=
  match w.plain o with
  | .tuple _ items => if w.isMember o then none else (items.mapM w.atomLiteral?).map (.tuple 0)
  | _ => w.atomLiteral? o

/-- The object has a literal. -/
def hasLiteral (w : World) (o : Object) : Bool :=
  (w.literalValue? o).isSome

theorem literal_eq (w : World) (o : Object) : w.literal o = if w.isShown o then w.written o else "..." := by
  rw [literal.eq_def, isShown.eq_def]
  cases w.isLiteral o with
  | true => rfl
  | false => cases o <;> rfl

/-! ### Members -/

theorem exists_written_of_isMember (h : w.isMember o) : ∃ cs, (w.written o).toList = '<' :: cs := by
  cases o with
  | entity id =>
    cases he : w.entity? id with
    | none => simp [isMember, Object.entity?, he] at h
    | some e =>
      obtain ⟨shape, attrs⟩ := e
      cases shape with
      | member cls n value shown =>
        have hopen : "<".toList = ['<'] := rfl
        refine ⟨(w.className cls ++ "." ++ n ++ ": " ++ shown ++ ">").toList, ?_⟩
        simp only [written, entityText, he, String.toList_append, hopen, List.append_assoc,
          List.cons_append, List.nil_append]
      | _ => simp [isMember, Object.entity?, he] at h
  | _ => simp [isMember, Object.entity?] at h

/-- A member is written in angle brackets, which no literal is. -/
theorem reads_of_isMember (h : w.isMember o) : Literal.Reads (w.written o).toList none := by
  obtain ⟨cs, hcs⟩ := exists_written_of_isMember h
  rw [hcs]
  exact .of_takeAtom? none ⟨'<', cs, rfl, by decide, by decide, by decide⟩ fun _ _ ↦ rfl

/-! ### Everything else -/

/-- The classes of values are found in the same order, and empty values are written alike. -/
theorem plainValues_eq (w : World) :
    plainValues = (emptyValues.map fun p ↦ (p.1, w.written p.2)) ++
      [("list", "[]"), ("dict", "\x7b\x7d")] := by
  have hzero : (Binary64.zero false).write = "0.0" := by decide +kernel
  have hcomplex : Binary64.writeComplex (.zero false) (.zero false) = "0j" := by decide +kernel
  simp only [emptyValues, List.map_cons, List.map_nil, written, writtenAll, Atom.written, hzero, hcomplex]
  rfl

theorem instanceText_of_emptyValue? {cls : EntityId} {v : Object} (h : w.emptyValue? cls = some v) :
    w.instanceText cls = w.written v := by
  obtain ⟨p, hp, rfl⟩ := Option.map_eq_some_iff.mp h
  have hfind : (plainValues.find? fun p ↦ w.isBelow cls (.standard p.1)) = some (p.1, w.written p.2) := by
    rw [plainValues_eq w, List.find?_append, List.find?_map]
    show ((emptyValues.find? fun p ↦ w.isBelow cls (.standard p.1)).map _).or _ = _
    rw [hp]
    rfl
  simp only [instanceText, hfind]

/-- Except for members, objects are written as what they stand for. -/
theorem written_plain (h : ¬w.isMember o) : w.written (w.plain o) = w.written o := by
  rw [plain]
  split
  · next heq => exact absurd (by simp [isMember, heq]) h
  · next cls _ heq =>
    cases hv : w.emptyValue? cls with
    | none => rfl
    | some v =>
      cases o with
      | entity id =>
        have he : w.entity? id = some ⟨.instance cls, _⟩ := heq
        simp only [written, entityText, he]
        exact (instanceText_of_emptyValue? hv).symm
      | _ => cases heq
  · rfl

theorem plain_atom (w : World) (t : ℕ) (a : Atom) : w.plain (.atom t a) = .atom t a :=
  rfl

theorem exists_of_atomLiteral? {v : Object} (h : w.atomLiteral? o = some v) :
    ∃ t a, w.plain o = .atom t a ∧ a.hasLiteral ∧ v = .atom 0 a := by
  rw [atomLiteral?] at h
  split at h
  · cases h
  · obtain ⟨a, ha, rfl⟩ := Option.map_eq_some_iff.mp h
    obtain ⟨ha, hliteral⟩ := Option.filter_eq_some_iff.mp ha
    cases hplain : w.plain o with
    | atom t b =>
      rw [hplain] at ha
      obtain rfl := Option.some.inj ha
      exact ⟨t, _, rfl, hliteral, rfl⟩
    | _ =>
      rw [hplain] at ha
      cases ha

/-- What stands for a value without parts is read back if it has a literal, and is not read otherwise. -/
theorem reads_atomLiteral? (h : (w.plain o).atom?.isSome) :
    Literal.Reads (w.written o).toList (w.atomLiteral? o) := by
  by_cases hmember : w.isMember o
  · rw [atomLiteral?, if_pos hmember]
    exact reads_of_isMember hmember
  · rw [atomLiteral?, if_neg hmember, ← written_plain hmember]
    cases hplain : w.plain o with
    | atom t a =>
      have hvalue : ((Object.atom t a).atom?.filter Atom.hasLiteral).map (Object.atom 0) =
          if a.hasLiteral then some (Object.atom 0 a) else none := by
        rw [Object.atom?, Option.filter_some]
        split <;> rfl
      rw [hvalue, written]
      exact Literal.reads_written a
    | _ =>
      rw [hplain] at h
      cases h

theorem writtenAll_eq (w : World) (items : List Object) : w.writtenAll items = items.map w.written := by
  induction items with
  | nil => rfl
  | cons o os ih => rw [writtenAll, ih, List.map_cons]

theorem written_tuple (w : World) (t : ℕ) (items : List Object) :
    w.written (.tuple t items) = Literal.tupleText (items.map w.written) := by
  rw [written, writtenAll_eq]
  rfl

/-- A tuple of values without parts is read back item by item. -/
theorem ofText?_written_tuple (t : ℕ) {items : List Object}
    (h : ∀ o ∈ items, (w.plain o).atom?.isSome) :
    Literal.ofText? (w.written (.tuple t items)) = (items.mapM w.atomLiteral?).map (.tuple 0) := by
  have hreads : List.Forall₂ (fun s v? ↦ Literal.Reads s.toList v?) (items.map w.written)
      (items.map w.atomLiteral?) := by
    rw [List.forall₂_map_left_iff, List.forall₂_map_right_iff, List.forall₂_same]
    exact fun o ho ↦ reads_atomLiteral? (h o ho)
  rw [written_tuple, Literal.ofText?_tupleText hreads, List.mapM_map]
  rfl

/-- **Reading back what is written** gives the value of the literal that an object has, and nothing if it
has none. -/
theorem ofText?_written (h : w.isValue o) : Literal.ofText? (w.written o) = w.literalValue? o := by
  rw [isValue] at h
  rw [literalValue?]
  cases hplain : w.plain o with
  | atom t a =>
    have hatom : (w.plain o).atom?.isSome := by rw [hplain]; rfl
    exact Literal.ofText?_of_reads (reads_atomLiteral? hatom)
  | tuple t items =>
    rw [hplain] at h
    dsimp only
    split
    · next hmember => exact Literal.ofText?_of_reads (reads_of_isMember hmember)
    · next hmember =>
      rw [← written_plain hmember, hplain]
      exact ofText?_written_tuple t (List.all_eq_true.mp h)
  | _ =>
    rw [hplain] at h
    cases h

/-! ### Equality -/

end World

theorem Number.Binary64.equals_self {x : Binary64} (h : x.isFinite) : x.equals x := by
  cases x with
  | finite negative m e fits =>
    simp only [Binary64.equals, Binary64.ratio?, beq_self_eq_true]
  | _ => cases h

/-- What has a literal equals itself, which not every value does. -/
theorem Atom.equals_self {a : Atom} (h : a.hasLiteral) : a.equals a := by
  cases a with
  | float x => exact Binary64.equals_self h
  | complex re im =>
    obtain ⟨hre, him⟩ := Bool.and_eq_true_iff.mp h
    show (re.equals re && im.equals im) = true
    rw [Binary64.equals_self hre, Binary64.equals_self him, Bool.and_self]
  | bool b => cases b <;> rfl
  | int i => exact beq_self_eq_true i
  | text s => exact beq_self_eq_true (Atom.text s)
  | bytes bs => exact beq_self_eq_true (Atom.bytes bs)
  | none => rfl
  | _ => cases h

theorem Object.equals_atom {a : Atom} (h : a.hasLiteral) (t t' : ℕ) :
    (Object.atom t a).equals (.atom t' a) := by
  rw [Object.equals, Atom.equals_self h, Bool.or_true]

namespace World

variable {w : World} {o v : Object}

/-- The items of a tuple equal the values of their literals. -/
theorem equalsAll_of_atomLiterals {items vs : List Object} (h : items.mapM w.atomLiteral? = some vs) :
    Object.equalsAll (vs.map w.plain) (items.map w.plain) ∧
      ∀ o ∈ items, (w.plain o).atom?.isSome := by
  induction items generalizing vs with
  | nil =>
    rw [List.mapM_nil] at h
    obtain rfl := Option.some.inj h
    exact ⟨by rw [List.map_nil, Object.equalsAll], List.forall_mem_nil _⟩
  | cons o os ih =>
    rw [List.mapM_cons] at h
    obtain ⟨v, hv, h⟩ := Option.bind_eq_some_iff.mp h
    obtain ⟨vs, hvs, h⟩ := Option.bind_eq_some_iff.mp h
    obtain rfl := Option.some.inj h
    obtain ⟨t, a, hplain, ha, rfl⟩ := exists_of_atomLiteral? hv
    obtain ⟨hequal, hatoms⟩ := ih hvs
    constructor
    · rw [List.map_cons, List.map_cons, plain_atom, hplain, Object.equalsAll, Object.equals_atom ha,
        hequal, Bool.and_self]
    · rw [List.forall_mem_cons, hplain]
      exact ⟨rfl, hatoms⟩

/-- The value of the literal of an object equals the object. -/
theorem equalValues_of_literalValue? (h : w.literalValue? o = some v) :
    w.isValue o ∧ w.equalValues v o := by
  rw [literalValue?] at h
  cases hplain : w.plain o with
  | tuple t items =>
    rw [hplain] at h
    dsimp only at h
    split at h
    · cases h
    · obtain ⟨vs, hvs, rfl⟩ := Option.map_eq_some_iff.mp h
      obtain ⟨hequal, hatoms⟩ := equalsAll_of_atomLiterals hvs
      have hself : w.plain (.tuple 0 vs) = .tuple 0 vs := rfl
      rw [isValue, equalValues, hself, hplain]
      exact ⟨List.all_eq_true.mpr hatoms, hequal⟩
  | _ =>
    rw [hplain] at h
    obtain ⟨t, a, hatom, ha, rfl⟩ := exists_of_atomLiteral? h
    rw [isValue, equalValues, plain_atom, hatom]
    exact ⟨rfl, Object.equals_atom ha 0 t⟩

/-- The written form of an object is a literal of an equal value iff the object has a literal. -/
theorem denotes_written_iff (w : World) (o : Object) : w.Denotes (w.written o) o ↔ w.hasLiteral o := by
  rw [hasLiteral, Option.isSome_iff_exists]
  constructor
  · rintro ⟨hvalue, v, hread, -⟩
    exact ⟨v, ofText?_written hvalue ▸ hread⟩
  · rintro ⟨v, hv⟩
    obtain ⟨hvalue, hequal⟩ := equalValues_of_literalValue? hv
    exact ⟨hvalue, v, (ofText?_written hvalue).trans hv, hequal⟩

/-- **What is shown as a literal.** The text of a value is three dots, or else it is a literal of an equal
value iff the value has a literal at all. -/
theorem literal_cases (w : World) (o : Object) :
    if w.isShown o then (w.Denotes (w.literal o) o ↔ w.hasLiteral o) else w.literal o = "..." := by
  rw [literal_eq]
  split
  · exact w.denotes_written_iff o
  · rfl

end World

end DeclClosure

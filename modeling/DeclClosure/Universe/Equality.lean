import DeclClosure.Universe.Attribute

/-!
# Equality of values

When two objects count as equal values, which is weaker than being one object: numbers are equal
across their types, collections item by item, type forms by head and arguments. Members of an
enumeration of numbers or texts count as what they stand for, and instances of a class of values as an
empty value (`World.plain`).
-/

namespace DeclClosure

open Number

/-- The zero of either sign. -/
def Number.Binary64.isZero (x : Binary64) : Bool :=
  x.equalsInt 0

namespace Atom

/-- A truth value as a number. -/
def ofBool (b : Bool) : Atom :=
  .int (if b then 1 else 0)

/-- Equality of two values that are no truth values. -/
def equalsPlain : Atom → Atom → Bool
  | .int i, .int j => i == j
  | .int i, .float y | .float y, .int i => y.equalsInt i
  | .float x, .float y => x.equals y
  | .int i, .complex re im | .complex re im, .int i => re.equalsInt i && im.isZero
  | .float x, .complex re im | .complex re im, .float x => x.equals re && im.isZero
  | .complex re im, .complex re' im' => re.equals re' && im.equals im'
  | a, b => a == b

/-- A truth value is the number `0` or `1`; every other value is itself. -/
def asNumber : Atom → Atom
  | .bool b => ofBool b
  | a => a

/-- Equality across the types of numbers. -/
def equals (a b : Atom) : Bool :=
  a.asNumber.equalsPlain b.asNumber

end Atom

namespace Object

mutual

/-- Equality of values. -/
def equals : Object → Object → Bool
  | .atom t a, .atom t' b => (Object.atom t a).same (.atom t' b) || a.equals b
  | .tuple _ as, .tuple _ bs => equalsAll as bs
  | .list _ as, .list _ bs => equalsAll as bs
  | .set _ as, .set _ bs => as.length == bs.length && containedIn as bs
  | .dict _ as, .dict _ bs => as.length == bs.length && entriesIn as bs
  | .form _ .union as, .form _ .union bs | .form _ .union as, .form _ .typingUnion bs
  | .form _ .typingUnion as, .form _ .union bs | .form _ .typingUnion as, .form _ .typingUnion bs
  | .form _ .literal as, .form _ .literal bs => as.length == bs.length && containedIn as bs
  | .form _ h as, .form _ h' bs => h == h' && equalsAll as bs
  | .forwardRef _ s, .forwardRef _ t => s == t
  | a, b => a.same b

/-- Equality of values item by item. -/
def equalsAll : List Object → List Object → Bool
  | [], [] => true
  | a :: as, b :: bs => equals a b && equalsAll as bs
  | _, _ => false

/-- Every item of the first list equals one of the second. -/
def containedIn : List Object → List Object → Bool
  | [], _ => true
  | a :: as, bs => bs.any (equals a) && containedIn as bs

/-- Every entry of the first list equals one of the second. -/
def entriesIn : List (Object × Object) → List (Object × Object) → Bool
  | [], _ => true
  | (k, v) :: es, bs => (bs.any fun b ↦ equals k b.1 && equals v b.2) && entriesIn es bs

end

/-- The items without those that equal an earlier one. -/
def dedup : List Object → List Object :=
  go []
where
  /-- Goes on after some items that are kept. -/
  go (kept : List Object) : List Object → List Object
    | [] => kept
    | o :: os => if kept.any (equals o) then go kept os else go (kept ++ [o]) os

/-- The value of a dictionary under a key. -/
def lookupEqual (key : Object) (entries : List (Object × Object)) : Option Object :=
  (entries.find? fun e ↦ equals key e.1).map (·.2)

end Object

namespace World

/-- The classes of values, with what their instances without contents are equal to. -/
def emptyValues : List (String × Object) :=
  [("int", .atom 0 (.int 0)), ("float", .atom 0 (.float (.zero false))),
    ("complex", .atom 0 (.complex (.zero false) (.zero false))), ("str", .atom 0 (.text "")),
    ("bytes", .atom 0 (.bytes [])), ("tuple", .tuple 0 [])]

/-- The value that an instance of a class stands for, if the class is one of values. -/
def emptyValue? (w : World) (cls : EntityId) : Option Object :=
  (emptyValues.find? fun p ↦ w.isBelow cls (.standard p.1)).map (·.2)

/-- The value that an object stands for: a member if its class is one of numbers or texts, an instance
if its class is one of values. Everything else stands for itself. -/
def plain (w : World) (o : Object) : Object :=
  match o.entity?.bind w.entity? with
  | some ⟨.member cls _ value _, _⟩ =>
    if w.isBelow cls (.standard "int") || w.isBelow cls (.standard "str")
      || w.isBelow cls (.standard "float") then value
    else o
  | some ⟨.instance cls, _⟩ => (w.emptyValue? cls).getD o
  | _ => o

/-- Equality of two objects, members and instances counted as what they stand for. -/
def equalValues (w : World) (a b : Object) : Bool :=
  match w.plain a, w.plain b with
  | .tuple _ as, .tuple _ bs => Object.equalsAll (as.map w.plain) (bs.map w.plain)
  | .list _ as, .list _ bs => Object.equalsAll (as.map w.plain) (bs.map w.plain)
  | a, b => a.equals b

end World

end DeclClosure

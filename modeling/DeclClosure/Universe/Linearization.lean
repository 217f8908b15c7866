import DeclClosure.Universe.World

/-!
# Lookup order of classes

The order in which a class and its ancestors are searched: the class first, every class before its
own ancestors, and bases in the order in which they are listed. The order is merged from the orders
of the bases and the list of the bases: the next class is the first head of a list that is in the
tail of none. Where there is no such head, the bases fit no order.
-/

namespace DeclClosure

namespace Linearization

/-- The class is in no tail. -/
def isFree (lines : List (List EntityId)) (id : EntityId) : Bool :=
  lines.all fun l ↦ !(l.drop 1).contains id

/-- Takes a class off the head of every list that starts with it, and drops empty lists. -/
def strike (lines : List (List EntityId)) (id : EntityId) : List (List EntityId) :=
  (lines.map fun l ↦ if l.head? = some id then l.drop 1 else l).filter fun l ↦ !l.isEmpty

/-- Merges some orders, with at most `fuel` classes. -/
def merge : Nat → List (List EntityId) → Option (List EntityId)
  | 0, lines => if lines.isEmpty then some [] else none
  | fuel + 1, lines =>
    if lines.isEmpty then some []
    else
      match (lines.filterMap List.head?).find? (isFree lines) with
      | some id => (merge fuel (strike lines id)).map (id :: ·)
      | none => none

/-- The order of a class with some bases, whose orders are known. -/
def ofBases (id : EntityId) (bases : List EntityId) (orders : List (List EntityId)) :
    Option (List EntityId) :=
  let lines := (orders ++ [bases]).filter fun l ↦ !l.isEmpty
  (merge lines.flatten.length lines).map (id :: ·)

end Linearization

/-- The metaclass of a class: the most derived of the one asked for and those of the bases. -/
def World.metaclassFor (w : World) (asked : EntityId) (bases : List EntityId) : EntityId :=
  bases.foldl (fun winner base ↦
    let m := w.classOf (.entity base)
    if w.isBelow winner m then winner else if w.isBelow m winner then m else winner) asked

end DeclClosure

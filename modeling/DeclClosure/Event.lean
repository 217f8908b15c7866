/-!
# Queues of events

A queue hands out what was put in, oldest first and each item once. The list of its items is its
only content, so a push appends to the list and a pop takes the head off.
-/

namespace DeclClosure

/-- A queue. -/
structure Queue (α : Type) where
  /-- The pending items, oldest first. -/
  items : List α
deriving Repr

namespace Queue

variable {α : Type}

/-- The queue with nothing pending. -/
def empty : Queue α := ⟨[]⟩

/-- Puts an item at the end. -/
def push (q : Queue α) (a : α) : Queue α := ⟨q.items ++ [a]⟩

/-- Puts some items at the end, in their order. -/
def pushAll (q : Queue α) (as : List α) : Queue α := ⟨q.items ++ as⟩

/-- The oldest item and the queue without it, if there is one. -/
def pop? (q : Queue α) : Option (α × Queue α) :=
  match q.items with
  | [] => none
  | a :: rest => some (a, ⟨rest⟩)

/-- How many items are pending. -/
def size (q : Queue α) : Nat := q.items.length

/-- Nothing is pending. -/
def isEmpty (q : Queue α) : Bool := q.items.isEmpty

@[simp] theorem items_push (q : Queue α) (a : α) : (q.push a).items = q.items ++ [a] := rfl

@[simp] theorem items_pushAll (q : Queue α) (as : List α) :
    (q.pushAll as).items = q.items ++ as := rfl

theorem pop?_eq_none_iff {q : Queue α} : q.pop? = none ↔ q.isEmpty = true := by
  cases q with | mk items => cases items <;> simp [pop?, isEmpty]

theorem pop?_push_empty (a : α) : (empty.push a).pop? = some (a, empty) := rfl

end Queue

/-- A pop from a queue with nothing pending. -/
structure EmptyQueue where
deriving DecidableEq, Repr

/-- The wording of the error. -/
def EmptyQueue.message (_ : EmptyQueue) : String := "pop from an empty event queue"

/-- What kind of declaration an announcement is about. -/
inductive NodeKind where
  | const
  | scope
  | foreignScope
  | method
deriving DecidableEq, Repr

namespace NodeKind

/-- The word for a kind. -/
def word : NodeKind → String
  | .const => "const"
  | .scope => "scope"
  | .foreignScope => "foreign_scope"
  | .method => "method"

/-- The kind that a word names. -/
def ofWord? (w : String) : Option NodeKind :=
  [const, scope, foreignScope, method].find? fun k ↦ k.word == w

/-- The declaration belongs to somebody else. -/
def isForeign : NodeKind → Bool
  | .foreignScope => true
  | _ => false

/-- The declaration is a scope. -/
def isScope : NodeKind → Bool
  | .scope | .foreignScope => true
  | _ => false

end NodeKind

/-- The classes of events: a name to look up, an object found under a name in the unit or outside
of it, a node that has joined the tree, and events that say nothing. -/
inductive EventClass where
  | symbol
  | constant
  | foreignConstant
  | node
  | bare
deriving DecidableEq, Repr

namespace EventClass

/-- The name of a class of events. -/
def name : EventClass → String
  | .symbol => "SymbolFound"
  | .constant => "ConstantFound"
  | .foreignConstant => "ForeignConstantFound"
  | .node => "NodeAdded"
  | .bare => "Event"

/-- Objects found outside of the unit are found objects too. -/
def isConstant : EventClass → Bool
  | .constant | .foreignConstant => true
  | _ => false

/-- All but bare events bear a name. -/
def hasSymbol : EventClass → Bool
  | .bare => false
  | _ => true

end EventClass

end DeclClosure

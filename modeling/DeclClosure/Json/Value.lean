import DeclClosure.Number.Binary64

/-!
# Documents

The values that documents are made of: what the view of a declaration tree is written as, and what
a configuration is read from. An object keeps its members in the order in which they were put in;
keys are unique where the library builds one.
-/

namespace DeclClosure.Json

open Number

/-- A document. -/
inductive Value where
  | null
  | bool (b : Bool)
  | int (i : Int)
  | float (x : Binary64)
  | str (s : String)
  | list (items : List Value)
  | object (members : List (String × Value))
deriving Inhabited, Repr

/-! ### Equality

A document is nested in its lists, and for such a type the instance is not derived. -/

mutual

/-- Whether two documents are the same. -/
def Value.decEq : (v w : Value) → Decidable (v = w)
  | .null, .null => isTrue rfl
  | .bool a, .bool b => decidable_of_iff (a = b) (Value.bool.injEq a b ▸ Iff.rfl)
  | .int a, .int b => decidable_of_iff (a = b) (Value.int.injEq a b ▸ Iff.rfl)
  | .float a, .float b => decidable_of_iff (a = b) (Value.float.injEq a b ▸ Iff.rfl)
  | .str a, .str b => decidable_of_iff (a = b) (Value.str.injEq a b ▸ Iff.rfl)
  | .list vs, .list ws =>
    have := decEqItems vs ws
    decidable_of_iff (vs = ws) (Value.list.injEq vs ws ▸ Iff.rfl)
  | .object ms, .object ns =>
    have := decEqMembers ms ns
    decidable_of_iff (ms = ns) (Value.object.injEq ms ns ▸ Iff.rfl)
  | .null, .bool _ | .null, .int _ | .null, .float _ | .null, .str _ | .null, .list _
  | .null, .object _ => isFalse nofun
  | .bool _, .null | .bool _, .int _ | .bool _, .float _ | .bool _, .str _ | .bool _, .list _
  | .bool _, .object _ => isFalse nofun
  | .int _, .null | .int _, .bool _ | .int _, .float _ | .int _, .str _ | .int _, .list _
  | .int _, .object _ => isFalse nofun
  | .float _, .null | .float _, .bool _ | .float _, .int _ | .float _, .str _ | .float _, .list _
  | .float _, .object _ => isFalse nofun
  | .str _, .null | .str _, .bool _ | .str _, .int _ | .str _, .float _ | .str _, .list _
  | .str _, .object _ => isFalse nofun
  | .list _, .null | .list _, .bool _ | .list _, .int _ | .list _, .float _ | .list _, .str _
  | .list _, .object _ => isFalse nofun
  | .object _, .null | .object _, .bool _ | .object _, .int _ | .object _, .float _
  | .object _, .str _ | .object _, .list _ => isFalse nofun

/-- Whether two lists of documents are the same. -/
def decEqItems : (vs ws : List Value) → Decidable (vs = ws)
  | [], [] => isTrue rfl
  | v :: vs, w :: ws =>
    have := v.decEq w
    have := decEqItems vs ws
    decidable_of_iff (v = w ∧ vs = ws) (List.cons.injEq v vs w ws ▸ Iff.rfl)
  | [], _ :: _ | _ :: _, [] => isFalse nofun

/-- Whether two lists of members are the same. -/
def decEqMembers : (ms ns : List (String × Value)) → Decidable (ms = ns)
  | [], [] => isTrue rfl
  | (k, v) :: ms, (l, w) :: ns =>
    have := v.decEq w
    have := decEqMembers ms ns
    decidable_of_iff ((k = l ∧ v = w) ∧ ms = ns) (by rw [List.cons.injEq, Prod.mk.injEq])
  | [], _ :: _ | _ :: _, [] => isFalse nofun

end

instance : DecidableEq Value :=
  Value.decEq

namespace Value

/-- A text, or null where there is none. -/
def ofOptional : Option String → Value
  | some s => .str s
  | none => .null

/-- The member of an object, if the value is one and has it. -/
def get? (v : Value) (key : String) : Option Value :=
  match v with
  | object members => members.lookup key
  | _ => none

/-- The text, if the value is one. -/
def text? : Value → Option String
  | str s => some s
  | _ => none

/-- The items, if the value is a list. -/
def items : Value → List Value
  | list vs => vs
  | _ => []

/-- The texts among the items of a list. -/
def texts (v : Value) : List String :=
  v.items.filterMap text?

end Value

end DeclClosure.Json

import DeclClosure.Universe.Declaration.Class

/-!
# Declaring enumerations

An enumeration turns the values of its namespace into members. A value that equals an earlier one
gives that member a further name. Enumerations of numbers and of texts convert the values first.
Functions and wrapped ones stay what they are, and so do names with two underscores on both sides.
-/

namespace DeclClosure

namespace Enumeration

/-- The kinds of standard enumerations that others are based on. -/
inductive Base where
  | plain
  | int
  | flag
  | intFlag
  | text
deriving DecidableEq, Repr

/-- The kind of a base. -/
def Base.ofId (id : EntityId) : Base :=
  if id = .standard "enum.IntEnum" then .int
  else if id = .standard "enum.Flag" then .flag
  else if id = .standard "enum.IntFlag" then .intFlag
  else if id = .standard "enum.StrEnum" then .text
  else .plain

/-- Values combine bit by bit. -/
def Base.isFlag : Base → Bool
  | .flag | .intFlag => true
  | _ => false

/-- The class of the values. -/
def Base.valueClass : Base → String
  | .int | .intFlag => "int"
  | .text => "str"
  | .plain | .flag => "object"

/-- What becomes of bits that no member has: flags refuse them, flags of numbers keep them. -/
def Base.boundary : Base → String
  | .intFlag => "keep"
  | _ => "strict"

/-- The number with as many bits as another one needs, all set. -/
def allBits (bits : Nat) : Nat :=
  if bits = 0 then 0 else Nat.pow 2 (bits.log2 + 1) - 1

/-- A value as an integer. -/
def asInteger : Object → Object
  | .atom _ (.bool b) => .atom 0 (Atom.ofBool b)
  | .atom tag (.float x) =>
    match x.truncate? with
    | some i => .atom 0 (.int i)
    | none => .atom tag (.float x)
  | .tuple _ (o :: _) => asInteger o
  | o => o

/-- A value as its enumeration keeps it. -/
def Base.convert (b : Base) (w : World) (o : Object) : Object :=
  match b with
  | .int | .intFlag => asInteger (w.plain o)
  | .text => w.plain o
  | .plain | .flag => o

/-- What stays as it is in the namespace of an enumeration. -/
def staysAsIs (w : World) (entry : String × Object) : Bool :=
  isDunder entry.1 ||
    match entry.2 with
    | .classMethod _ _ | .staticMethod _ _ | .property _ _ | .bound _ => true
    | o => w.isFunction o

/-- A number is a power of two. -/
def isSingleBit : Object → Bool
  | .atom _ (.int (.ofNat n)) => n != 0 && Nat.pow 2 n.log2 == n
  | _ => false

end Enumeration

namespace Query

open Enumeration

/-- Makes members of some values, after those that are there already. -/
def newMembers (cls : EntityId) (b : Enumeration.Base) (members : List (String × Object)) :
    List (String × Object) → Query (List (String × Object))
  | [] => return members
  | (name, value) :: rest => do
    let w ← get
    let value := b.convert w value
    let known := members.find? fun m ↦
      match (m.2.entity?.bind w.entity?).map Entity.shape with
      | some (.member _ _ v _) => w.equalValues v value
      | _ => false
    match known with
    | some m => newMembers cls b (members ++ [(name, m.2)]) rest
    | none =>
      let id ← declare {
        shape := .member cls name value (w.written value)
        attrs := [("__objclass__", .entity cls),
          ("_sort_order_", .atom 0 (.int members.length))] }
      newMembers cls b (members ++ [(name, .entity id)]) rest

/-- The value of a member. -/
def memberValue (w : World) (o : Object) : Object :=
  match (o.entity?.bind w.entity?).map Entity.shape with
  | some (.member _ _ v _) => v
  | _ => .none

/-- The bits that occur in the values of some members. -/
def bitsOf (w : World) (members : List (String × Object)) : Nat :=
  members.foldl (fun bits m ↦
    match memberValue w m.2 with
    | .atom _ (.int (.ofNat n)) => bits ||| n
    | _ => bits) 0

/-- What an enumeration of flags keeps besides. -/
def flagAttrs (w : World) (b : Enumeration.Base) (members : List (String × Object)) :
    Query (List (String × Object)) := do
  let bits := bitsOf w members
  let number (n : Nat) : Object := .atom 0 (.int n)
  let word := b.boundary
  let boundary ← declare {
    shape := .member (.standard "enum.FlagBoundary") word.toUpper (World.ownText word)
      (Text.quoted word) }
  return [("_boundary_", .entity boundary), ("_flag_mask_", number bits),
    ("_all_bits_", number (allBits bits)), ("_inverted_", .none)]

/-- The functions of flags. -/
def flagFunctions : List (String × String) :=
  [("__or__", "Flag.__or__"), ("__and__", "Flag.__and__"), ("__xor__", "Flag.__xor__"),
    ("__ror__", "Flag.__or__"), ("__rand__", "Flag.__and__"), ("__rxor__", "Flag.__xor__"),
    ("__invert__", "Flag.__invert__")]

/-- A function of the module of enumerations. -/
def enumFunction (name qualname : String) : Query (String × Object) := do
  let o ← machineFunction (Name.leaf qualname) qualname (Standard.sourceFile "enum")
    (World.ownText "enum")
  return (name, o)

/-- The class whose rule gives the next value. -/
def nextValueOwner : Enumeration.Base → String
  | .flag | .intFlag => "Flag"
  | .text => "StrEnum"
  | _ => "Enum"

/-- What an enumeration keeps of its members. -/
def memberTables (w : World) (b : Enumeration.Base) (members : List (String × Object)) :
    Query (List (String × Object)) := do
  let key (m : String × Object) : Object := World.ownText m.1
  let isFirst (m : String × Object) : Bool :=
    match (m.2.entity?.bind w.entity?).map Entity.shape with
    | some (.member _ n v _) => n = m.1 && (!b.isFlag || isSingleBit v)
    | _ => false
  let newMember ←
    if b = .text then do pure (← enumFunction "_new_member_" "StrEnum.__new__").2
    else do pure (Object.entity (← declare { shape := .builtin "object.__new__" }))
  return [("_new_member_", newMember), ("_use_args_", .bool (b.valueClass != "object")),
    ("_member_names_", .list (← freshTag) ((members.filter isFirst).map key)),
    ("_member_map_", .dict (← freshTag) (members.map fun m ↦ (key m, m.2))),
    ("_value2member_map_", .dict (← freshTag) (members.map fun m ↦ (memberValue w m.2, m.2))),
    ("_unhashable_values_", .list (← freshTag) []),
    ("_member_type_", .standard b.valueClass)]

/-- How an enumeration writes its values: a rule of the class of the values, or none. -/
def valueWriter (b : Enumeration.Base) : Query Object := do
  if b.valueClass = "object" then return .none
  else return .entity (← declare { shape := .builtin (Name.within b.valueClass "__repr__") })

/-- Declares an enumeration. -/
def newEnumeration (d : ClassDeclaration) (base : EntityId) (attrs : List (String × Object)) :
    Query EntityId := do
  let w ← get
  let b := Base.ofId base
  let kept := attrs.filter (staysAsIs w)
  let nextValue ← enumFunction "_generate_next_value_" (nextValueOwner b ++ "._generate_next_value_")
  let id ← newClass d [.entity base] none (nextValue :: kept)
  let members ← newMembers id b [] (attrs.filter fun a ↦ !staysAsIs w a)
  let tables ← memberTables (← get) b members
  let writer ← valueWriter b
  let flags ← if b.isFlag then flagAttrs (← get) b members else pure []
  let functions ← if b.isFlag then flagFunctions.mapM fun f ↦ enumFunction f.1 f.2 else pure []
  let new ← enumFunction "__new__" "Enum.__new__"
  let names := tables ++ [("_value_repr_", writer)] ++ flags ++ members ++ functions ++ [new]
  modify fun w ↦ w.update id (fun e ↦ setAll e names) (keepsKin_setAll names)
  return id

end Query

end DeclClosure

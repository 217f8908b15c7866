import DeclClosure.Reflection.Naming
import DeclClosure.Universe.Equality

/-!
# Fields of records

The fields that a class declares, with types and defaults. Of a record class these are the fields
that it annotates itself; a tuple class lists its field names, and has types and defaults for some
of them.
-/

namespace DeclClosure

/-- The type of a field without one. -/
def anyType : Object := .standard "typing.Any"

namespace World

/-- The fields of a record class, those of its ancestors included. -/
def recordFields? (w : World) (id : EntityId) : Option (List Field) :=
  (w.linearization id).findSome? fun a ↦ (w.class? a).bind ClassFacts.fields

/-- The class whose fields an object has: the object itself, or its class. -/
def recordClass (w : World) (o : Object) : EntityId :=
  match w.asClass? o with
  | some (id, _) => id
  | none => w.classOf o

/-- The object has an entry under a text. -/
def hasEntry (o : Object) (name : String) : Bool :=
  match o with
  | .dict _ entries => (Object.lookupEqual (ownText name) entries).isSome
  | _ => false

/-- The name that a listed field has. -/
def fieldName (w : World) (o : Object) : String :=
  o.text?.getD (w.written o)

end World

namespace Query

/-- The value of a dictionary under a key, or something else where it has none. -/
def entryOr (o key default : Object) : Query Object := do
  match o with
  | .dict _ entries => return (Object.lookupEqual key entries).getD default
  | o =>
    let w ← get
    fail "AttributeError"
      (Text.quoted (w.className (w.classOf o)) ++ " object has no attribute 'get'")

/-- The fields of a class that lists their names. -/
def listedFields (o names : Object) : Query (List (String × Object × Object)) := do
  let w ← get
  let types := (w.attr? o "__annotations__").getD (.dict 0 [])
  let defaults := (w.attr? o "_field_defaults").getD (.dict 0 [])
  (← iterate names).mapM fun name ↦ do
    return (w.fieldName name, ← entryOr types name anyType, ← entryOr defaults name .missing)

/-- The fields that a class declares: names, types and defaults. -/
def fieldsOf (o : Object) : Query (List (String × Object × Object)) := do
  let w ← get
  match w.recordFields? (w.recordClass o) with
  | some fields =>
    let own := (w.attr? o "__annotations__").getD (.dict 0 [])
    return (fields.filter fun f ↦ World.hasEntry own f.name).map fun f ↦
      (f.name, f.ascription, f.default)
  | none =>
    match w.asClass? o, w.attr? o "_fields" with
    | some (id, _), some names =>
      if w.isBelow id (.standard "tuple") then listedFields o names else return []
    | _, _ => return []

end Query

end DeclClosure

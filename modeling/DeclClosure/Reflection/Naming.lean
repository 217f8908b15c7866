import DeclClosure.Reflection.Resolve
import DeclClosure.Universe.Form
import DeclClosure.Universe.Written

/-!
# Names that objects declare

The name that an object declares for itself (`World.canonicalName?`), and whether that name still
leads to the object (`Query.nameOf`). Only modules and classes declare names. A class that was made
within a function has none, and neither has one that says that it has none.
-/

namespace DeclClosure

namespace World

/-- The name that a class declares, from its name within the module and what it says of its
module. -/
def qualifiedName? (qualname : String) (module : Option Object) : Option String :=
  if qualname = "" ∨ qualname.toList.contains '<' then none
  else
    match module with
    | some (.atom _ (.text m)) =>
      if m = "" ∨ m = Name.rootName then some qualname else some (Name.within m qualname)
    | some (.atom tag a) =>
      if (Object.atom tag a).isTrue then some (Name.within a.written qualname) else some qualname
    | _ => some qualname

/-- The name that an object declares for itself. -/
def canonicalName? (w : World) (o : Object) : Option String :=
  match w.asModule? o with
  | some _ => (w.attr? o "__name__").bind Object.text?
  | none =>
    match w.asClass? o with
    | some (_, c) => qualifiedName? c.qualname (w.attr? o "__module__")
    | none => none

/-- The bases of a class; what is no class has none. -/
def basesOf (w : World) (o : Object) : List Object :=
  ((w.attr? o "__bases__").bind Object.iterate?).getD []

/-- The bases that only carry machinery of type forms. -/
def isTypingBase (o : Object) : Bool :=
  o.same (.standard "typing.Generic") || o.same (.standard "typing.Protocol")

/-- The superclass: the first base that is more than machinery. -/
def superclass? (w : World) (o : Object) : Option Object :=
  (w.basesOf o).find? fun b ↦ !isTypingBase b

/-- The class of an object, as an object. -/
def classObject (w : World) (o : Object) : Object :=
  .entity (w.classOf o)

/-- The object is a member of an enumeration. -/
def isEnumMember (w : World) (o : Object) : Bool :=
  w.isInstance o (.standard "enum.Enum")

/-- The object has an origin, as forms with arguments and the bare forms of classes have. -/
def isTypeForm (w : World) : Object → Bool
  | .form _ _ _ => true
  | .entity id =>
    match (w.entity? id).map Entity.shape with
    | some (.bareForm cls _) =>
      ["typing._SpecialGenericAlias", "typing._TupleType", "typing._CallableType"].any fun k ↦
        cls = .standard k
    | _ => id = .standard "typing.Generic"
  | _ => false

/-- The class is abstract. -/
def isAbstract (w : World) (o : Object) : Bool :=
  match w.asClass? o with
  | some (_, c) => !c.abstracts.isEmpty
  | none => false

/-- The object has the truth value "true" under a name. -/
def hasTrue (w : World) (o : Object) (name : String) : Bool :=
  (w.attr? o name).any fun v ↦ v.same (.bool true)

/-- The class may have no subclasses. -/
def isFinal (w : World) (o : Object) : Bool :=
  w.hasTrue o "__final__"

/-- The class is a protocol. -/
def isProtocol (w : World) (o : Object) : Bool :=
  w.hasTrue o "_is_protocol"

end World

namespace Query

/-- The name that an object declares, if that name stands for this very object. -/
def nameOf (o : Object) : Query (Option String) := do
  match (← get).canonicalName? o with
  | none => return none
  | some name =>
    match ← resolve name with
    | some found => return if found.same o then some name else none
    | none => return none

/-- What an object holds one by one; fails if it holds nothing in that way. -/
def iterate (o : Object) : Query (List Object) := do
  match o.iterate? with
  | some os => return os
  | none =>
    let w ← get
    fail "TypeError" (Text.quoted (w.className (w.classOf o)) ++ " object is not iterable")

/-- The type parameters of a class. A type form has the type variables of its arguments. -/
def typeParameters (o : Object) : Query (List Object) := do
  let w ← get
  match o, w.attr? o "__parameters__" with
  | .form _ _ args, _ => return w.typeVariables args
  | _, some params => if params.isTrue then iterate params else return []
  | _, none => return []

end Query

end DeclClosure

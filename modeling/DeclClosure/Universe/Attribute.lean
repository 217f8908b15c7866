import DeclClosure.Universe.World

/-!
# Attributes

What a name means on an object. A class has the names of its own namespace and of its ancestors,
then those of its metaclass; an instance has its own names and then those of its class; a module has
the names of its namespace and then those that it computes. A class method reached in one of these
ways comes bound, a static method comes without its wrapping, and a function comes bound if it was
found beyond the object itself.

`World.attr?` is the part that asks no module to compute anything; `Query.attr` is the whole.
-/

namespace DeclClosure

/-- A name that starts and ends with two underscores. -/
def isDunder (name : String) : Bool :=
  let cs := name.toList
  cs.length > 4 && cs.take 2 == ['_', '_'] && cs.drop (cs.length - 2) == ['_', '_']

namespace World

/-- The first object that some entities have under a name. -/
def lookupIn (w : World) (ids : List EntityId) (name : String) : Option Object :=
  ids.findSome? fun id ↦ (w.entity? id).bind fun e ↦ e.attr? name

/-- The name as a class and its ancestors have it. -/
def inClass? (w : World) (id : EntityId) (name : String) : Option Object :=
  w.lookupIn (w.linearization id) name

/-- A function. -/
def isFunction (w : World) (o : Object) : Bool :=
  (w.asFunction? o).isSome

/-- What is found in a class as it reaches the class itself. -/
def ofClass : Object → Object
  | .classMethod _ inner => .bound inner
  | .staticMethod _ inner => inner
  | o => o

/-- What is found in the class of an object as it reaches the object. -/
def ofInstance (w : World) (o : Object) : Object :=
  if w.isFunction o then .bound o else ofClass o

/-- A text that belongs to the object it was asked of. -/
def ownText (s : String) : Object := .atom 0 (.text s)

/-- The names that every class has for itself. -/
def classAttr? (w : World) (id : EntityId) (e : Entity) (c : ClassFacts) (name : String) :
    Option Object :=
  if name = "__name__" then some (ownText c.name)
  else if name = "__qualname__" then some (ownText c.qualname)
  else if name = "__bases__" then some (.tuple 0 (c.bases.map .entity))
  else if name = "__mro__" then some (.tuple 0 (c.linearization.map .entity))
  else if name = "__class__" then some (.entity c.metaclass)
  else if name = "__module__" ∨ name = "__doc__" then e.attr? name
  else if name = "__annotations__" then
    match e.attr? name, id with
    | some o, _ => some o
    | none, .declared _ => some (.dict 0 [])
    | none, _ => none
  else
    match w.inClass? id name with
    | some o => some (ofClass o)
    | none => (w.inClass? c.metaclass name).map w.ofInstance

/-- The names that a function has. -/
def functionAttr? (e : Entity) (f : FunctionFacts) (name : String) : Option Object :=
  match e.attr? name with
  | some o => some o
  | none =>
    if name = "__name__" then some (ownText f.name)
    else if name = "__qualname__" then some (ownText f.qualname)
    else if name = "__wrapped__" then f.wraps.map .entity
    else if name = "__isabstractmethod__" ∧ f.abstract then some (.bool true)
    else none

/-- The names that an instance has: its own and those of its class. -/
def instanceAttr? (w : World) (e : Entity) (cls : EntityId) (name : String) : Option Object :=
  match e.attr? name with
  | some o => some o
  | none =>
    if name = "__class__" then some (.entity cls) else (w.inClass? cls name).map w.ofInstance

/-- The names that an entity has without computing any. -/
def entityAttr? (w : World) (id : EntityId) (name : String) : Option Object := do
  let e ← w.entity? id
  match e.shape with
  | .module _ => e.attr? name
  | .class c => w.classAttr? id e c name
  | .function f => functionAttr? e f name
  | .builtin qualname =>
    if name = "__name__" ∨ name = "__qualname__" then some (ownText qualname) else e.attr? name
  | .typeVariable _ n _ => if name = "__name__" then some (ownText n) else e.attr? name
  | .instance cls => w.instanceAttr? e cls name
  | .member cls n value _ =>
    if name = "name" ∨ name = "_name_" then some (ownText n)
    else if name = "value" ∨ name = "_value_" then some value
    else w.instanceAttr? e cls name
  | .bareForm _ n =>
    if name = "__name__" ∨ name = "__qualname__" then some (ownText n)
    else if name = "__module__" then some (ownText "typing")
    else none

/-- The class that a named form stands for. -/
def namedOrigin (name : String) : EntityId :=
  if name ∈ ["List", "Dict", "Set", "FrozenSet", "Tuple", "Type"] then
    .standard (String.ofList (name.toList.map Char.toLower))
  else .standard ("collections.abc." ++ name)

/-- The names that a form has. A form of the language core passes them on to its class; the others
do so only for plain names. -/
def formAttr? (w : World) (head : FormHead) (args : List Object) (name : String) :
    Option Object :=
  if name = "__args__" then some (.tuple 0 args)
  else
    match head with
    | .class origin =>
      if name = "__origin__" then some (.entity origin)
      else if name = "__class__" then some (.standard head.className)
      else w.entityAttr? origin name
    | .union => if name = "__module__" then some (ownText "types") else none
    | .parametrized origin =>
      if name = "__origin__" then some (.entity origin)
      else if isDunder name && !(["__name__", "__qualname__", "__module__"].contains name) then none
      else w.entityAttr? origin name
    | .named n =>
      if name = "__name__" ∨ name = "__qualname__" then some (ownText n)
      else if name = "__module__" then some (ownText "typing")
      else if isDunder name then none
      else w.entityAttr? (namedOrigin n) name
    | .annotated =>
      match name, args with
      | "__module__", .entity id :: _ => w.entityAttr? id name
      | "__module__", .form _ (.class origin) _ :: _ => w.entityAttr? origin name
      | "__module__", _ => some (ownText "typing")
      | _, _ => none
    | .callable | .typingUnion | .literal | .special _ =>
      if name = "__module__" then some (ownText "typing") else none

/-- The names of a number: its parts, and those of a fraction if it is whole. -/
def numberAttr? (tag : Nat) (a : Atom) (name : String) : Option Object :=
  let whole (i : Int) : Object := .atom 0 (.int i)
  match a, name with
  | .int i, "real" | .int i, "numerator" => some (.atom tag (.int i))
  | .int _, "imag" | .bool _, "imag" => some (whole 0)
  | .int _, "denominator" | .bool _, "denominator" => some (whole 1)
  | .bool b, "real" | .bool b, "numerator" => some (whole (if b then 1 else 0))
  | .float x, "real" | .complex x _, "real" => some (.atom tag (.float x))
  | .float _, "imag" => some (.atom tag (.float (.zero false)))
  | .complex _ y, "imag" => some (.atom tag (.float y))
  | _, _ => none

/-- The names that an object has without computing any. What wraps a function passes them on. -/
def attr? (w : World) : Object → String → Option Object
  | .entity id, name => w.entityAttr? id name
  | .bound inner, name => w.attr? inner name
  | .classMethod _ inner, name | .staticMethod _ inner, name =>
    if name = "__func__" ∨ name = "__wrapped__" then some inner else w.attr? inner name
  | .property _ getter, name =>
    match getter with
    | some inner =>
      if name = "fget" then some inner
      else if name = "__doc__" ∨ name = "__isabstractmethod__" then w.attr? inner name
      else none
    | none => if name = "fget" ∨ name = "__doc__" then some .none else none
  | .form _ head args, name => w.formAttr? head args name
  | .forwardRef _ _, name => if name = "__module__" then some (ownText "typing") else none
  | .atom tag a, name => numberAttr? tag a name
  | _, _ => none

end World

namespace Query

/-- The next answer of a module to the request for a name that it computes. -/
def computed (id : EntityId) (facts : ModuleFacts) (name : String) : Query Object := do
  match facts.answers.lookup name with
  | none => fail "AttributeError" name
  | some answers =>
    let w ← get
    let n := (w.asked.lookup (id, name)).getD 0
    set { w with asked := ((id, name), n + 1) :: w.asked.filter fun a ↦ a.1 != (id, name) }
    match answers[min n (answers.length - 1)]? with
    | some (.object o) => return o
    | some (.failure r) => throw r
    | none => fail "AttributeError" name

/-- The name's object on an object. -/
def attr (o : Object) (name : String) : Query Object := do
  let w ← get
  match w.attr? o name with
  | some found => return found
  | none =>
    match w.asModule? o with
    | some (id, e) =>
      match e.module? with
      | some facts => computed id facts name
      | none => fail "AttributeError" name
    | none => fail "AttributeError" name

/-- The name's object on an object, `none` if the object lacks it. -/
def attr? (o : Object) (name : String) : Query (Option Object) :=
  catching ["AttributeError"] (attr o name)

end Query

end DeclClosure

import DeclClosure.Number.Shortest
import DeclClosure.Universe.Attribute

/-!
# Written forms of objects

How an object is written: values as literals, classes and modules in angle brackets, type forms as
they are spelled in source. Within a type form a class is written by its module and name alone. The
forms of the language core and the named forms differ in small ways, so there are two rules for the
arguments (`World.coreArguments` and `World.typeArguments`).
-/

namespace DeclClosure

/-- The literal of a value without parts. -/
def Atom.written : Atom → String
  | .none => "None"
  | .ellipsis => "Ellipsis"
  | .notImplemented => "NotImplemented"
  | .missing => "<missing>"
  | .bool b => if b then "True" else "False"
  | .int i => toString i
  | .float x => x.write
  | .complex re im => Number.Binary64.writeComplex re im
  | .text s => Text.quoted s
  | .bytes bs => Text.quotedBytes bs

namespace World

/-- The text that an entity has under a name. -/
def textAttr? (w : World) (id : EntityId) (name : String) : Option String :=
  (w.entityAttr? id name).bind Object.text?

/-- A class by its module and name: the name alone for a class of the root namespace. A class
without a module shows that it has none. -/
def spelled (w : World) (id : EntityId) (c : ClassFacts) : String :=
  match w.entityAttr? id "__module__" with
  | some (.atom _ (.text m)) => if m = Name.rootName then c.qualname else Name.within m c.qualname
  | some (.atom _ a) => Name.within a.written c.qualname
  | _ => c.qualname

/-- A class in angle brackets. -/
def classText (w : World) (id : EntityId) (c : ClassFacts) : String :=
  if w.isBelow c.metaclass (.standard "enum.EnumType") then
    (if w.isBelow id (.standard "enum.Flag") then "<flag " else "<enum ") ++ Text.quoted c.name ++ ">"
  else if id = .standard "typing.Any" then "typing.Any"
  else
    match w.textAttr? id "__module__" with
    | some m =>
      if m = Name.rootName then "<class '" ++ c.name ++ "'>"
      else "<class '" ++ Name.within m c.qualname ++ "'>"
    | none => "<class '" ++ c.name ++ "'>"

/-- A module in angle brackets, with its file if it has one. -/
def moduleText (e : Entity) : String :=
  let shown (name : String) : Option String := (e.attr? name).bind fun o ↦
    match o with
    | .atom _ a => some a.written
    | _ => none
  match shown "__file__" with
  | some f => "<module " ++ (shown "__name__").getD "'?'" ++ " from " ++ f ++ ">"
  | none => "<module " ++ (shown "__name__").getD "'?'" ++ ">"

/-- The sign of a variance. -/
def varianceSign : Variance → String
  | .invariant => "~"
  | .covariant => "+"
  | .contravariant => "-"

/-- The classes whose instances are written as plain values, with what an empty one shows. -/
def plainValues : List (String × String) :=
  [("int", "0"), ("float", "0.0"), ("complex", "0j"), ("str", "''"), ("bytes", "b''"),
    ("tuple", "()"), ("list", "[]"), ("dict", "\x7b\x7d")]

/-- An instance: as an empty value if its class is one of values, otherwise by its class. -/
def instanceText (w : World) (cls : EntityId) : String :=
  match plainValues.find? fun p ↦ w.isBelow cls (.standard p.1) with
  | some p => p.2
  | none =>
    match w.class? cls with
    | some c => "<" ++ w.spelled cls c ++ " object>"
    | none => "<object>"

/-- An entity. -/
def entityText (w : World) (id : EntityId) : String :=
  match w.entity? id with
  | none => "<object>"
  | some e =>
    match e.shape with
    | .module _ => moduleText e
    | .class c => w.classText id c
    | .function f => "<function " ++ f.qualname ++ ">"
    | .builtin n => "<built-in function " ++ n ++ ">"
    | .typeVariable .many n _ => n
    | .typeVariable _ n v => varianceSign v ++ n
    | .instance cls => w.instanceText cls
    | .member cls n _ shown => "<" ++ w.className cls ++ "." ++ n ++ ": " ++ shown ++ ">"
    | .bareForm _ n => "typing." ++ n

/-- A class as an argument of a named form; a function by its name. -/
def typeEntity (w : World) (id : EntityId) : String :=
  match w.class? id, w.asFunction? (.entity id) with
  | some c, _ => w.spelled id c
  | none, some (_, f) => f.name
  | none, none => w.entityText id

/-- An entity as an argument of a form of the language core: by module and name where it has both.
-/
def coreEntity (w : World) (id : EntityId) : String :=
  match w.textAttr? id "__qualname__", w.entityAttr? id "__module__" with
  | some q, some (.atom _ (.text m)) => if m = Name.rootName then q else Name.within m q
  | some q, some (.atom _ a) => if a = .none then w.entityText id else Name.within a.written q
  | _, _ => w.entityText id

/-- What a named form of a class is called. -/
def headText (w : World) : FormHead → String
  | .class origin => w.coreEntity origin
  | .parametrized origin => w.typeEntity origin
  | .named n | .special n => "typing." ++ n
  | .callable => "typing.Callable"
  | .typingUnion => "typing.Union"
  | .literal => "typing.Literal"
  | .annotated => "typing.Annotated"
  | .union => ""

/-- The class of nothing. -/
def noneType : Object := .standard "NoneType"

/-- The object stands for a whole list of parameters. -/
def isParameterList (w : World) : Object → Bool
  | .atom _ .ellipsis => true
  | .entity id =>
    match w.entity? id with
    | some ⟨.typeVariable .parameters _ _, _⟩ => true
    | _ => false
  | _ => false

/-- Some texts in brackets. -/
def bracketed (items : List String) : String :=
  "[" ++ ", ".intercalate items ++ "]"

/-- What a form shows, given how each argument is written in itself, as a type and for the language
core. A form without arguments shows an empty pair of parentheses. -/
def formText (w : World) (head : FormHead) (args : List Object)
    (written types cores : List String) : String :=
  let orEmpty (items : List String) : List String := if items.isEmpty then ["()"] else items
  let title := w.headText head
  match head with
  | .class _ => title ++ bracketed (orEmpty cores)
  | .union => " | ".intercalate ((args.zip cores).map fun (a, s) ↦
      if a.same noneType then "None" else s)
  | .callable =>
    if args.length = 2 ∧ args.head?.any w.isParameterList then title ++ bracketed types
    else title ++ bracketed [bracketed types.dropLast, types.getLast?.getD ""]
  | .typingUnion =>
    match args, types with
    | [a, b], [s, t] =>
      if a.same noneType then "typing.Optional" ++ bracketed [t]
      else if b.same noneType then "typing.Optional" ++ bracketed [s]
      else title ++ bracketed types
    | _, _ => title ++ bracketed types
  | .annotated => title ++ bracketed (types.take 1 ++ written.drop 1)
  | .named _ | .special _ | .literal | .parametrized _ => title ++ bracketed (orEmpty types)

mutual

/-- How an object is written. -/
def written (w : World) : Object → String
  | .entity id => w.entityText id
  | .atom _ a => a.written
  | .tuple _ items =>
    match w.writtenAll items with
    | [s] => "(" ++ s ++ ",)"
    | ss => "(" ++ ", ".intercalate ss ++ ")"
  | .list _ items => "[" ++ ", ".intercalate (w.writtenAll items) ++ "]"
  | .set _ items =>
    match w.writtenAll items with
    | [] => "set()"
    | ss => "\x7b" ++ ", ".intercalate ss ++ "\x7d"
  | .dict _ entries => "\x7b" ++ ", ".intercalate (w.writtenEntries entries) ++ "\x7d"
  | .classMethod _ inner => "<classmethod(" ++ w.written inner ++ ")>"
  | .staticMethod _ inner => "<staticmethod(" ++ w.written inner ++ ")>"
  | .property _ _ => "<property object>"
  | .bound inner => "<bound method " ++ w.written inner ++ ">"
  | .form _ head args =>
    w.formText head args (w.writtenAll args) (w.typeArguments args) (w.coreArguments args)
  | .forwardRef _ text => "ForwardRef(" ++ Text.quoted text ++ ")"

/-- Some objects as they are written. -/
def writtenAll (w : World) : List Object → List String
  | [] => []
  | o :: os => w.written o :: w.writtenAll os

/-- The entries of a dictionary as they are written. -/
def writtenEntries (w : World) : List (Object × Object) → List String
  | [] => []
  | (k, v) :: es => (w.written k ++ ": " ++ w.written v) :: w.writtenEntries es

/-- Some arguments of a named form. -/
def typeArguments (w : World) : List Object → List String
  | [] => []
  | .entity id :: os => w.typeEntity id :: w.typeArguments os
  | .atom _ .ellipsis :: os => "..." :: w.typeArguments os
  | o :: os => w.written o :: w.typeArguments os

/-- Some arguments of a form of the language core. -/
def coreArguments (w : World) : List Object → List String
  | [] => []
  | .entity id :: os => w.coreEntity id :: w.coreArguments os
  | .atom _ .ellipsis :: os => "..." :: w.coreArguments os
  | o :: os => w.written o :: w.coreArguments os

end

end World

end DeclClosure

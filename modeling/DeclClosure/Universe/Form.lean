import DeclClosure.Universe.Equality

/-!
# Building type forms

What a type form with arguments is, for every head that takes arguments, and what a union of two
types is. Within a named form a text stands for a name to be looked up later and nothing stands for
its class; the forms of the language core keep both as they are. Unions have no unions among their
arguments and no argument twice, and a union of one type is that type.
-/

namespace DeclClosure

namespace Object

/-- An argument of a named form as a type. -/
def asType : Object → Object
  | .atom _ .none => .standard "NoneType"
  | .atom tag (.text s) => .forwardRef tag s
  | o => o

/-- The types in a union, or the one type. -/
def unionMembers : Object → List Object
  | .form _ .union args | .form _ .typingUnion args => args
  | o => [o]

/-- The literals in a form, or the one value. -/
def literalMembers : Object → List Object
  | .form _ .literal args => args
  | o => [o]

/-- The types of two values without parts are the same, so that `1` and `True` are two literals. -/
def sameLiteral : Object → Object → Bool
  | .atom _ a, .atom _ b => a.className == b.className && a.equals b
  | a, b => a.equals b

/-- The literals without those given before. -/
def dedupLiterals : List Object → List Object → List Object
  | kept, [] => kept
  | kept, o :: os =>
    if kept.any (sameLiteral o) then dedupLiterals kept os else dedupLiterals (kept ++ [o]) os

/-- A union in a given style. -/
def unionOf (tag : Nat) (head : FormHead) (types : List Object) : Object :=
  match dedup (types.flatMap unionMembers) with
  | [o] => o
  | os => .form tag head os

end Object

namespace World

/-- The object may stand in a union of the language core. -/
def isCoreType (w : World) : Object → Bool
  | .atom _ .none => true
  | .form _ (.class _) _ | .form _ .union _ => true
  | o => w.isClass o

/-- Nothing as an argument of a union of the language core. -/
def unionArgument : Object → Object
  | .atom _ .none => .standard "NoneType"
  | o => o

/-- The union of two types. -/
def unionPair (w : World) (tag : Nat) (a b : Object) : Object :=
  if w.isCoreType a && w.isCoreType b then
    .unionOf tag .union [unionArgument a, unionArgument b]
  else .unionOf tag .typingUnion [a.asType, b.asType]

/-- What a class with arguments is. -/
def classForm (w : World) (tag : Nat) (id : EntityId) (args : List Object) : Object :=
  if id = .standard "typing.Annotated" then
    match args with
    | .form _ .annotated (origin :: more) :: remarks =>
      .form tag .annotated (origin :: (more ++ remarks))
    | origin :: remarks => .form tag .annotated (origin.asType :: remarks)
    | [] => .form tag .annotated []
  else
    let below (a : EntityId) : Bool := a = .standard "typing.Generic"
      || (w.class? a).any ClassFacts.subscriptable
    match (w.linearization id).find? below with
    | some (.standard "typing.Generic") => .form tag (.parametrized id) (args.map Object.asType)
    | _ => .form tag (.class id) args

/-- What a bare form with arguments is. -/
def namedForm (tag : Nat) (name : String) (args : List Object) : Object :=
  match name with
  | "Optional" =>
    .unionOf tag .typingUnion (args.map Object.asType ++ [.standard "NoneType"])
  | "Union" => .unionOf tag .typingUnion (args.map Object.asType)
  | "Literal" => .form tag .literal (Object.dedupLiterals [] (args.flatMap Object.literalMembers))
  | "Callable" =>
    match args with
    | [.list _ params, result] | [.tuple _ params, result] =>
      .form tag .callable (params.map Object.asType ++ [result.asType])
    | _ => .form tag .callable (args.map Object.asType)
  | "ClassVar" | "Final" | "Concatenate" | "TypeGuard" | "Unpack" =>
    .form tag (.special name) (args.map Object.asType)
  | _ => .form tag (.named name) (args.map Object.asType)

/-- What an object with arguments is, `none` if it takes none. -/
def withArguments? (w : World) (tag : Nat) (head : Object) (args : List Object) : Option Object :=
  match head.entity? with
  | none => none
  | some id =>
    match (w.entity? id).map Entity.shape with
    | some (.class _) => some (w.classForm tag id args)
    | some (.bareForm _ name) => some (namedForm tag name args)
    | _ => none

/-- The object is a type variable. -/
def isTypeVariable (w : World) (o : Object) : Bool :=
  match (o.entity?.bind w.entity?).map Entity.shape with
  | some (.typeVariable _ _ _) => true
  | _ => false

mutual

/-- The type variables in an object, with repetitions. -/
def variablesIn (w : World) : Object → List Object
  | .entity id => if w.isTypeVariable (.entity id) then [.entity id] else []
  | .form _ _ args => w.variablesInAll args
  | _ => []

/-- The type variables in some objects, with repetitions. -/
def variablesInAll (w : World) : List Object → List Object
  | [] => []
  | o :: os => w.variablesIn o ++ w.variablesInAll os

end

/-- The type variables of some objects in order of first appearance. -/
def typeVariables (w : World) (os : List Object) : List Object :=
  Object.dedup (w.variablesInAll os)

end World

end DeclClosure

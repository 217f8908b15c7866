import DeclClosure.Universe.Declaration.Expression
import DeclClosure.Universe.Linearization

/-!
# Declaring classes

A class is declared from its bases and the names of its namespace. Bases may be type forms: each
stands for the class that it was built from, and the type variables in them become the type
parameters of the class. What else a class has follows from its bases and its metaclass: the lookup
order, the names that keep it abstract, and the marks of protocols.
-/

namespace DeclClosure

/-- What the declaration of a class says. -/
structure ClassDeclaration where
  /-- The name. -/
  name : String
  /-- The name within its module. -/
  qualname : String
  /-- The module that it says it belongs to. -/
  module : Option String
  /-- The documentation. -/
  doc : Option String := none
deriving Repr, Inhabited

/-- The roots of generic classes and of protocols, and the metaclass of abstract classes. -/
def genericRoot : EntityId := .standard "typing.Generic"

/-- The root of protocols. -/
def protocolRoot : EntityId := .standard "typing.Protocol"

/-- The metaclass of abstract classes. -/
def abstractMeta : EntityId := .standard "abc.ABCMeta"

namespace Query

/-- The object is a named type form. -/
def isNamedForm : Object → Bool
  | .form _ (.class _) _ | .form _ .union _ => false
  | .form _ _ _ => true
  | _ => false

/-- The classes that a listed base stands for, given all listed bases and those after it. -/
def baseClasses (w : World) (all rest : List Object) : Object → List EntityId
  | .entity id => [id]
  | .form _ (.class origin) _ => [origin]
  | .form _ (.parametrized origin) _ =>
    if origin = genericRoot ∧
        ((all.any fun b ↦ b.same (.entity protocolRoot)) ∨ rest.any isNamedForm) then []
    else [origin]
  | .form _ (.named n) _ =>
    let origin := World.namedOrigin n
    let more := rest.any fun b ↦ isNamedForm b
      || (b.entity?.any fun id ↦ w.isBelow id genericRoot)
    (if all.any fun b ↦ b.same (.entity origin) then [] else [origin])
      ++ if more then [] else [genericRoot]
  | _ => []

/-- The classes that some listed bases stand for. -/
def allBaseClasses (w : World) (all : List Object) : List Object → List EntityId
  | [] => []
  | b :: bs => baseClasses w all bs b ++ allBaseClasses w all bs

/-- The type parameters that some listed bases give to a class: those of its generic form if there
is one, otherwise all type variables in the forms. -/
def parametersOf (w : World) (bases : List Object) : List Object :=
  let forms := bases.filter fun b ↦ b.entity?.isNone
  let generic := forms.find? fun b ↦
    match b with
    | .form _ (.parametrized origin) _ => origin = genericRoot
    | _ => false
  match generic with
  | some f => w.typeVariables [f]
  | none => w.typeVariables forms

/-- Sets some names one after the other. -/
def setAll (e : Entity) (attrs : List (String × Object)) : Entity :=
  attrs.foldl (fun e a ↦ e.setAttr a.1 a.2) e

theorem shape_setAll (e : Entity) (attrs : List (String × Object)) :
    (setAll e attrs).shape = e.shape := by
  induction attrs generalizing e with
  | nil => rfl
  | cons a attrs ih =>
    show (setAll (e.setAttr a.1 a.2) attrs).shape = e.shape
    rw [ih, e.shape_setAttr]

theorem keepsKin_setAll (attrs : List (String × Object)) :
    Entity.KeepsKin fun e ↦ setAll e attrs :=
  fun e ↦ Entity.kin?_congr (shape_setAll e attrs)

/-- The object keeps a class abstract that has it. -/
def isAbstractMember (w : World) (o : Object) : Bool :=
  (w.attr? o "__isabstractmethod__").any Object.isTrue

/-- The names that keep a class abstract: its own, and those of its bases that are abstract still.
-/
def abstractNames (w : World) (metaclass : EntityId) (order bases : List EntityId)
    (attrs : List (String × Object)) : List String :=
  if w.isBelow metaclass abstractMeta then
    let attrs := (setAll { shape := .module {} } attrs).attrs
    let own := (attrs.filter fun a ↦ isAbstractMember w a.2).map (·.1)
    let inherited := (bases.flatMap fun b ↦ (w.class? b).elim [] ClassFacts.abstracts).filter
      fun n ↦
        match (attrs.lookup n).or (w.lookupIn order n) with
        | some o => isAbstractMember w o
        | none => false
    (own ++ inherited).eraseDups
  else []

/-- A function that comes with a class. -/
def machineFunction (name qualname file : String) (module : Object) : Query Object := do
  return .entity (← declare {
    shape := .function { name, qualname, file }
    attrs := [("__module__", module), ("__doc__", .none)] })

/-- The file of functions that come with classes. -/
def machineFile : String := "<string>"

/-- The marks of a protocol: whether the class is one itself, the hook for subclass tests, and the
initializer of those that are one. -/
def protocolAttrs (w : World) (bases order : List EntityId) (attrs : List (String × Object)) :
    Query (List (String × Object)) := do
  if !order.contains protocolRoot then return []
  let typing := World.ownText "typing"
  let file := Standard.sourceFile "typing"
  let direct := bases.contains protocolRoot
  let isProtocol := (attrs.lookup "_is_protocol").any Object.isTrue || direct
  let mark := if (attrs.lookup "_is_protocol").any Object.isTrue then []
    else [("_is_protocol", Object.bool direct)]
  let hook ←
    if (attrs.lookup "__subclasshook__").isSome then pure []
    else
      pure [("__subclasshook__", ← machineFunction "_proto_hook"
        "Protocol.__init_subclass__.<locals>._proto_hook" file typing)]
  let inherits := (attrs.lookup "__init__").isNone && (w.lookupIn order "__init__").isNone
  let init ←
    if isProtocol && inherits then
      pure [("__init__", ← machineFunction "_no_init_or_replace_init" "_no_init_or_replace_init" file
        typing)]
    else pure []
  return mark ++ hook ++ init

/-- Declares a class with some listed bases, a metaclass if one is asked for, and the names of its
namespace. -/
def newClass (d : ClassDeclaration) (bases : List Object) (asked : Option EntityId)
    (attrs : List (String × Object)) : Query EntityId := do
  let w ← get
  let listed := allBaseClasses w bases bases
  let baseIds := if listed.isEmpty then [.standard "object"] else listed
  let metaclass := w.metaclassFor (asked.getD (.standard "type")) baseIds
  if w.isBelow metaclass enumRoot then
    fail "TypeError" "EnumType.__call__() takes from 2 to 3 positional arguments but 4 were given"
  let id := EntityId.declared w.declared.size
  match Linearization.ofBases id baseIds (baseIds.map w.linearization) with
  | none => fail "TypeError" "Cannot create a consistent method resolution order (MRO)"
  | some order =>
    let facts : ClassFacts := {
      name := d.name
      qualname := d.qualname
      bases := baseIds
      linearization := order
      metaclass
      abstracts := abstractNames w metaclass (order.drop 1) baseIds attrs }
    let id ← declare { shape := .class facts }
    let module ← newText? d.module
    let doc ← newText? d.doc
    let params ←
      if (order.drop 1).contains genericRoot then
        pure [("__parameters__", ← newTuple (parametersOf w bases))]
      else pure []
    let protocol ← protocolAttrs w baseIds (order.drop 1) attrs
    let state ←
      if w.isBelow metaclass abstractMeta then
        pure [("_abc_impl", Object.entity (← declare { shape := .instance (.standard "_abc._abc_data") }))]
      else pure []
    let names := [("__module__", module)] ++ attrs ++ [("__doc__", doc)] ++ params ++ protocol ++ state
    modify fun w ↦ w.update id (fun e ↦ setAll e names) (keepsKin_setAll names)
    return id

end Query

end DeclClosure

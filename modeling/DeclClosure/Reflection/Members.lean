import DeclClosure.Reflection.Sources
import DeclClosure.Text.Sorted

/-!
# Members of namespaces

What the own namespace of an object lists: constants by sorted name, methods in the order of
definition, and the members of an enumeration. Functions, descriptors and names that start with two
underscores are no constants.
-/

namespace DeclClosure

namespace World

/-- The instances of a class have a name of the object protocol. -/
def classHas (w : World) (o : Object) (name : String) : Bool :=
  (w.inClass? (w.classOf o) name).isSome

/-- The object is a routine: a function, a bound or wrapped one, or an object that binds like one.
-/
def isRoutine (w : World) (o : Object) : Bool :=
  match o with
  | .bound _ | .classMethod _ _ | .staticMethod _ _ => true
  | .entity id =>
    match (w.entity? id).map Entity.shape with
    | some (.function _) | some (.builtin _) => true
    | some (.instance _) | some (.member _ _ _ _) => w.classHas o "__get__" && !w.classHas o "__set__"
    | _ => false
  | _ => false

/-- The object stands for an attribute that can be set. -/
def isDataDescriptor (w : World) (o : Object) : Bool :=
  match o with
  | .property _ _ => true
  | .entity id =>
    match (w.entity? id).map Entity.shape with
    | some (.instance _) | some (.member _ _ _ _) =>
      w.classHas o "__set__" || w.classHas o "__delete__"
    | _ => false
  | _ => false

/-- The entry of a namespace is a constant. -/
def isConstant (w : World) (entry : String × Object) : Bool :=
  !Name.startsWith "__" entry.1 && !w.isRoutine entry.2 && !w.isDataDescriptor entry.2

/-- The sorted names of the constants of an object. -/
def constantsOf (w : World) (o : Object) : List String :=
  Text.sortByName id ((((w.namespace? o).getD []).filter w.isConstant).map (·.1)).eraseDups

/-- Functions that are made for every namespace. -/
def generatedFunctions : List String := ["__annotate__", "__annotate_func__"]

/-- The method that an entry of a namespace stands for. A module only has the functions that say
they are its own. -/
def methodOf? (w : World) (moduleName : Option (Option Object)) (entry : String × Object) :
    Option (String × Object × MethodKind) :=
  if generatedFunctions.contains entry.1 then none
  else
    match entry.2 with
    | .classMethod _ inner => some (entry.1, inner, .onClass)
    | .staticMethod _ inner => some (entry.1, inner, .static)
    | .property _ getter => getter.map fun g ↦ (entry.1, g, .property)
    | o =>
      if !w.isFunction o then none
      else
        match moduleName with
        | none => some (entry.1, o, .onInstance)
        | some name =>
          let home := (w.attr? o "__module__").bind Object.text?
          if home == name.bind Object.text? then some (entry.1, o, .function) else none

/-- The own methods of an object in the order of definition. -/
def methodsOf (w : World) (o : Object) : List (String × Object × MethodKind) :=
  let moduleName := if w.isModule o then some (w.attr? o "__name__") else none
  ((w.namespace? o).getD []).filterMap (w.methodOf? moduleName)

/-- The members of an enumeration with their values, in the order of definition, without the further
names of a member. -/
def enumMembersOf (w : World) (o : Object) : List (String × Object) :=
  match w.asClass? o with
  | none => []
  | some (id, _) =>
    if !w.isBelow id (.standard "enum.Enum") then []
    else
      match w.attr? o "_member_map_" with
      | some (.dict _ entries) =>
        entries.filterMap fun (key, member) ↦
          match (member.entity?.bind w.entity?).map Entity.shape with
          | some (.member _ name value _) =>
            if key.text? = some name then some (name, value) else none
          | _ => none
      | _ => []

end World

end DeclClosure

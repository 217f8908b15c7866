import DeclClosure.Closure.Enrichment.Basic

/-!
# Facts about classes

What a class says of itself beside its members: its type parameters, a metaclass of its own, and
whether it is abstract, final or a protocol.
-/

namespace DeclClosure.Closure.Run

/-- Records a type parameter, and asks for its definition in the module that it says it belongs to.
-/
def recordTypeParameter (a : Announcement) (param : Object) : Run Unit := do
  let w := (← get).world
  match nonempty ((w.attr? param "__name__").bind Object.text?) with
  | none => return ()
  | some name =>
    let scope ← scopeOf a "type_parameters"
    if scope.typeParameters.contains name then return ()
    modifyNode scope.id (Node.addTypeParameter name)
    match nonempty ((w.attr? param "__module__").bind Object.text?) with
    | some home => if home != "typing" then push (.symbol (Name.within home name))
    | none => return ()

/-- Records the type parameters of a class. -/
def recordTypeParameters (a : Announcement) : Run Unit := do
  if (← get).world.isClass a.value then
    (← ask (Query.typeParameters a.value)).forM (recordTypeParameter a)

/-- Metaclasses that other facts already express. -/
def impliedMetaclasses : List String := ["abc.ABCMeta", "enum.EnumMeta", "enum.EnumType"]

/-- The namespaces of type forms. -/
def typingNamespaces : List String := ["typing.", "typing_extensions."]

/-- Records the metaclass of a class that has it from none of its bases. -/
def recordMetaclass (a : Announcement) : Run Unit := do
  let w := (← get).world
  if !w.isClass a.value then return ()
  let metaclass := w.classOf a.value
  if metaclass = .standard "type" then return ()
  if (w.basesOf a.value).any fun b ↦ w.classOf b = metaclass then return ()
  match nonempty (← nameOf (.entity metaclass)) with
  | none => return ()
  | some name =>
    if impliedMetaclasses.contains name || startsWithAny typingNamespaces name then return ()
    push (.symbol name)
    let node ← nodeOf a "metaclass"
    modifyNode node.id (Node.setMetaclass name)

/-- The markers of a class. -/
def markersOf (w : World) (o : Object) : List String :=
  (if w.isAbstract o then ["abstract"] else []) ++ (if w.isFinal o then ["final"] else [])
    ++ if w.isProtocol o then ["protocol"] else []

/-- Records the markers of a class. -/
def recordMarkers (a : Announcement) : Run Unit := do
  let w := (← get).world
  if w.isClass a.value then
    let scope ← scopeOf a "helpers"
    (markersOf w a.value).forM fun m ↦ modifyNode scope.id (Node.addHelper m)

end DeclClosure.Closure.Run

import DeclClosure.Closure.Enrichment.Basic
import DeclClosure.Reflection.Documentation
import DeclClosure.Reflection.Members
import DeclClosure.Reflection.Records
import DeclClosure.Symbol.Snapshot

/-!
# Members of scopes

What is listed inside of a scope: the callables whose code lies in the unit, the members of an
enumeration, the fields of a record, and the constants of the namespace, which become declarations
of their own. Callables are announced in turn, and their types are written when that happens.
-/

namespace DeclClosure.Closure

/-- The parameters of a callable without their types; a default only shows that there is one. A
callable without a signature takes anything. -/
def listedParams : Option Signature → List Param
  | none => [{ name := "args", kind := .varPositional }, { name := "kwargs", kind := .varKeyword }]
  | some s => s.params.map fun p ↦
      { name := p.name, kind := p.kind, default := p.default.map fun _ ↦ "..." }

namespace Run

/-- Lists a callable and announces it. -/
def addMethod (a : Announcement) (name : String) (callable : Object) (kind : MethodKind) :
    Run Unit := do
  let signature ← ask (Query.signature? callable)
  let w := (← get).world
  let facts : MethodFacts := {
    owner := a.name
    params := listedParams signature
    signature := (signature.map w.signatureText).getD "(*args, **kwargs)"
    kind }
  let id ← addChild a fun id ↦ .leaf ⟨id, name, []⟩ (.method facts)
  push (.node a.name a.value (some id) .method signature)

/-- Lists the callables of a scope. -/
def addMethods (c : Setting) (a : Announcement) : Run Unit := do
  ((← get).world.methodsOf a.value).forM fun (name, callable, kind) ↦ do
    if c.hasMethod (← get).world callable then addMethod a name callable kind

/-- Lists the members of an enumeration. -/
def addEnumMembers (a : Announcement) : Run Unit := do
  let w := (← get).world
  (w.enumMembersOf a.value).forM fun (name, value) ↦ do
    let _ ← addChild a fun id ↦
      .leaf ⟨id, Name.within a.name name, []⟩ (.const (some (w.literal value)) none)

/-- Lists the fields of a record. -/
def addFields (a : Announcement) : Run Unit := do
  if !(← get).world.isClass a.value then return ()
  (← ask (Query.fieldsOf a.value)).forM fun (name, type, default) ↦ do
    let text ← typeText type
    let shown := if default.same .missing then none else some "..."
    let _ ← addChild a fun id ↦ .leaf ⟨id, Name.within a.name name, []⟩ (.attribute text shown)
    pushType type

/-- Sets the type of a parameter. -/
def setParamType (name type : String) (f : MethodFacts) : MethodFacts :=
  { f with params := f.params.map fun p ↦
      if p.name = name then { p with ascription := some type } else p }

/-- Writes the type of a parameter and asks for its class. -/
def writeParamType (node : NodeId) (p : FunctionParam) : Run Unit := do
  match p.ascription with
  | none => return ()
  | some type =>
    let text ← typeText type
    modifyNode node (Node.mapMethod (setParamType p.name text))
    pushType type

/-- Writes the types of a callable. -/
def writeTypes (a : Announcement) : Run Unit := do
  match a.signature, a.node with
  | some s, some node =>
    s.params.forM (writeParamType node)
    match s.returns with
    | none => return ()
    | some type =>
      let text ← typeText type
      modifyNode node (Node.mapMethod fun f ↦ { f with returnType := some text })
      pushType type
  | _, _ => return ()

/-- The object is something of the standard environment that was imported under its own name. -/
def isPayloadImport (c : Setting) (name : String) (o : Object) : Run Bool := do
  let w := (← get).world
  if w.isNamespace o then
    match ← nameOf o with
    | some target => return Name.leaf target == name && c.inPayload target
    | none => return false
  else return w.isTypingImport name o

/-- Passes on a constant of a scope, unless it is only imported. -/
def pushSubconstant (c : Setting) (a : Announcement) (constant : String) : Run Unit := do
  let name := Name.within a.name constant
  match ← ask (Query.resolve name) with
  | none => return ()
  | some o => if !(← isPayloadImport c constant o) then push (.constant name o)

/-- Passes on the constants of a scope. A scope of the standard environment that has shown nothing
so far is left alone. -/
def pushSubconstants (c : Setting) (a : Announcement) : Run Unit := do
  if c.inPayload a.name then
    if (← scopeOf a "is_empty").isEmpty then return ()
  ((← get).world.constantsOf a.value).forM (pushSubconstant c a)

/-- Takes a scope of the standard environment out of the tree if it has nothing to show. -/
def removeIfEmpty (c : Setting) (a : Announcement) : Run Unit := do
  if c.inPayload a.name then
    let scope ← scopeOf a "is_empty"
    if scope.isEmpty then modify fun s ↦ { s with tree := (s.tree.remove scope.id).2 }

/-- Adds the documentation of an object to the announced node, unless it is there already. -/
def document (a : Announcement) (o : Object) : Run Unit := do
  match nonempty ((← get).world.documentation? o) with
  | none => return ()
  | some text =>
    let node ← nodeOf a "comments"
    if !node.head.comments.contains text then modifyNode node.id (Node.addComment text)

/-- Documents a callable with what its qualified name stands for. -/
def documentMethod (a : Announcement) : Run Unit := do
  let node ← nodeOf a "qualified_name"
  match ← ask (Query.resolve node.qualifiedName) with
  | some o => document a o
  | none => return ()

end Run

end DeclClosure.Closure

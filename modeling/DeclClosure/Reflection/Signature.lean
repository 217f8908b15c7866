import DeclClosure.Reflection.TypeText
import DeclClosure.Reflection.Sources
import DeclClosure.Text.Blank
import DeclClosure.Text.DigitClass
import DeclClosure.Text.WordChar
import DeclClosure.Tree.Params

/-!
# Signatures

The signature of a callable. Wrappers show the signature of what they wrap. Types that are given as
texts are looked up where the function was defined; if one of them cannot be found, all types of the
function stay as they were written. A callable that declares a signature that is none has none.
-/

namespace DeclClosure

/-- A signature: parameters and the type of the result. -/
structure Signature where
  /-- The parameters. -/
  params : List FunctionParam
  /-- The type of the result, if it is given. -/
  returns : Option Object
deriving Repr

/-- The part of a type's written form that is left when every dotted word loses a leading qualifier
for type forms; `inWord` tells that a word has begun. -/
def stripTypingFrom (inWord : Bool) : Nat → List Char → List Char
  | _, [] => []
  | skip + 1, _ :: cs => stripTypingFrom true skip cs
  | 0, c :: cs =>
    if Text.isWordChar c || c = '.' then
      if !inWord && "typing.".toList.isPrefixOf (c :: cs) then stripTypingFrom true 6 cs
      else c :: stripTypingFrom true 0 cs
    else c :: stripTypingFrom false 0 cs

/-- A text without a qualifier for type forms at the start of its words. -/
def stripTyping (s : String) : String :=
  String.ofList (stripTypingFrom false 0 s.toList)

namespace World

/-- A class as a type in a signature. -/
def signatureClass (w : World) (id : EntityId) (c : ClassFacts) : String :=
  match w.textAttr? id "__module__" with
  | some m => if m = Name.rootName then c.qualname else Name.within m c.qualname
  | none => c.qualname

/-- A type in a signature. -/
def signatureType (w : World) (o : Object) : String :=
  if ((w.attr? o "__module__").bind Object.text?) = some "typing" then stripTyping (w.written o)
  else
    match w.asClass? o with
    | some (id, c) => w.signatureClass id c
    | none => w.written o

/-- A parameter in a signature. -/
def signatureParam (w : World) (p : FunctionParam) : Param where
  name := p.name
  kind := p.kind
  ascription := p.ascription.map w.signatureType
  default := p.default.map w.written

/-- The text of a signature. -/
def signatureText (w : World) (s : Signature) : String :=
  Param.listText (s.params.map w.signatureParam) ++
    match s.returns with
    | some o => " -> " ++ w.signatureType o
    | none => ""

/-- A type that is given, unless it is the mark of one that is not. -/
def given? (o : Option Object) : Option Object :=
  o.filter fun t ↦ !t.same unspecified

/-- The signature of a function as it was written. -/
def writtenSignature (f : FunctionFacts) : Signature where
  params := f.params.map fun p ↦
    { p with ascription := given? p.ascription, default := given? p.default }
  returns := given? f.returns

/-- The function whose signature a callable shows, `none` if it shows none. A chain of wrappers ends
at a function that declares a signature. -/
def signatureSource? (w : World) : Nat → Object → Option FunctionFacts
  | 0, _ => none
  | fuel + 1, o =>
    match o with
    | .staticMethod _ inner => w.signatureSource? fuel inner
    | o =>
      match w.asFunction? o with
      | none => none
      | some (_, f) =>
        if f.badSignature then none
        else
          match f.wraps with
          | some inner => w.signatureSource? fuel (.entity inner)
          | none => some f

end World

namespace Query

/-- The words that name a value in source. -/
def valueWords : List (String × Object) :=
  [("None", .none), ("True", .bool true), ("False", .bool false)]

/-- Words that cannot be names. -/
def reservedWords : List String :=
  ["and", "as", "assert", "async", "await", "break", "class", "continue", "def", "del", "elif",
    "else", "except", "finally", "for", "from", "global", "if", "import", "in", "is", "lambda",
    "nonlocal", "not", "or", "pass", "raise", "return", "try", "while", "with", "yield"]

/-- The word can be a name in source. -/
def isIdentifier (s : String) : Bool :=
  match s.toList with
  | [] => false
  | c :: cs =>
    (Text.isWordChar c && !Text.isDigitChar c) && cs.all Text.isWordChar && !reservedWords.contains s

/-- The object of a name in the namespace of a module, then in the root namespace. -/
def globalName (globals : Option EntityId) (name : String) : Query Object := do
  let w ← get
  match valueWords.lookup name with
  | some o => return o
  | none =>
    let inModule := globals.bind fun id ↦ (w.entity? id).bind fun e ↦ e.attr? name
    match inModule with
    | some o => return o
    | none =>
      match w.attr? rootModule name with
      | some o => return o
      | none => fail "NameError" ("name '" ++ name ++ "' is not defined")

/-- The object below another one along some names. -/
def attrPath (o : Object) : List String → Query Object
  | [] => return o
  | n :: ns => do attrPath (← attr o n) ns

/-- The object that a dotted name stands for where a function was defined. -/
def evaluate (globals : Option EntityId) (s : String) : Query Object := do
  let text := Text.trimEnd (String.ofList (s.toList.dropWhile fun c ↦ c = ' ' ∨ c = '\t'))
  match Name.segments text with
  | [] => fail "SyntaxError" "invalid syntax"
  | first :: rest =>
    if !(isIdentifier first && rest.all isIdentifier) then fail "SyntaxError" "invalid syntax"
    else attrPath (← globalName globals first) rest

/-- A type, looked up if it is given as a text. -/
def evaluateType (globals : Option EntityId) : Option Object → Query (Option Object)
  | some (.atom _ (.text s)) => some <$> evaluate globals s
  | o => return o

/-- The signature of a function with all its types looked up. -/
def evaluatedSignature (f : FunctionFacts) : Query Signature := do
  let params ← f.params.mapM fun p ↦ do
    return { p with ascription := ← evaluateType f.globals p.ascription }
  let returns ← evaluateType f.globals f.returns
  return World.writtenSignature { f with params, returns }

/-- The signature of a callable, `none` if it shows none. -/
def signature? (o : Object) : Query (Option Signature) := do
  let w ← get
  match w.signatureSource? w.wrapLimit o with
  | none => return none
  | some f =>
    tryCatch (some <$> evaluatedSignature f) fun r ↦
      if ["NameError", "SyntaxError", "AttributeError", "TypeError"].any r.isA then
        return some (World.writtenSignature f)
      else if r.isA "ValueError" then return none
      else throw r

end Query

end DeclClosure

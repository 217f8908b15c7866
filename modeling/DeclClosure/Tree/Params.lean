import DeclClosure.Tree.Node

/-!
# Parameter lists

A parameter list is written with the marks that tell the kinds apart: a slash after the last
parameter that takes a position only, a star before the first one that takes a keyword only, unless
a starred parameter stands there already.
-/

namespace DeclClosure

/-- The text is there and not empty. -/
def nonempty? : Option String → Option String
  | some s => if s = "" then none else some s
  | none => none

namespace Param

/-- The name with the stars of its kind. -/
def starred (p : Param) : String :=
  match p.kind with
  | .varPositional => "*" ++ p.name
  | .varKeyword => "**" ++ p.name
  | _ => p.name

/-- A parameter without the marks around it. -/
def text (p : Param) : String :=
  match nonempty? p.ascription, p.default with
  | some a, some d => p.starred ++ ": " ++ a ++ " = " ++ d
  | some a, none => p.starred ++ ": " ++ a
  | none, some d => p.starred ++ "=" ++ d
  | none, none => p.starred

/-- The pieces of a parameter list. `pending` tells that the slash is still to come, `starred` that
no star is needed any more. -/
def pieces (pending starred : Bool) : List Param → List String
  | [] => if pending then ["/"] else []
  | p :: ps =>
    let slash := if pending && p.kind != .positionalOnly then ["/"] else []
    let star := if p.kind == .keywordOnly && !starred then ["*"] else []
    let starred := starred || p.kind == .keywordOnly || p.kind == .varPositional
    slash ++ star ++ p.text :: pieces (p.kind == .positionalOnly) starred ps

/-- A parameter list in parentheses. -/
def listText (ps : List Param) : String :=
  "(" ++ ", ".intercalate (pieces false false ps) ++ ")"

end Param

end DeclClosure

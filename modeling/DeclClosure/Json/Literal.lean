import DeclClosure.Json.Value
import DeclClosure.Number.Shortest
import DeclClosure.Text.Quoted

/-!
# Documents in messages

How a value of a document is shown in a message: by a literal, and by the word for its type.
-/

namespace DeclClosure.Json

mutual

/-- The literal of a value. -/
def Value.literal : Value → String
  | .null => "None"
  | .bool b => if b then "True" else "False"
  | .int i => toString i
  | .float x => x.write
  | .str s => Text.quoted s
  | .list items => "[" ++ ", ".intercalate (literals items) ++ "]"
  | .object members => "\x7b" ++ ", ".intercalate (memberLiterals members) ++ "\x7d"

/-- The literals of some values. -/
def literals : List Value → List String
  | [] => []
  | v :: vs => v.literal :: literals vs

/-- The literals of the members of an object. -/
def memberLiterals : List (String × Value) → List String
  | [] => []
  | (k, v) :: ms => (Text.quoted k ++ ": " ++ v.literal) :: memberLiterals ms

end

/-- The word for the type of a value. -/
def Value.typeName : Value → String
  | .null => "NoneType"
  | .bool _ => "bool"
  | .int _ => "int"
  | .float _ => "float"
  | .str _ => "str"
  | .list _ => "list"
  | .object _ => "dict"

end DeclClosure.Json

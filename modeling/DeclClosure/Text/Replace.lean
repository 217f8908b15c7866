/-!
# Replacing within a text

Every occurrence of a pattern is replaced, from left to right; what was put in is not searched
again.
-/

namespace DeclClosure.Text

/-- Replaces the pattern in `cs`, of which the first `skip` characters belong to an occurrence that
was replaced already. -/
def replaceFrom (pattern replacement : List Char) : Nat → List Char → List Char
  | _, [] => []
  | skip + 1, _ :: cs => replaceFrom pattern replacement skip cs
  | 0, c :: cs =>
    if pattern.isPrefixOf (c :: cs) then
      replacement ++ replaceFrom pattern replacement (pattern.length - 1) cs
    else c :: replaceFrom pattern replacement 0 cs

/-- The text with every occurrence of a pattern replaced. -/
def replace (s pattern replacement : String) : String :=
  String.ofList (replaceFrom pattern.toList replacement.toList 0 s.toList)

end DeclClosure.Text

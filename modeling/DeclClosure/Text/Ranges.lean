/-!
# Sets of characters as ranges

Every character class of this library that reaches beyond the first 128 characters is a table of
ranges. A range is a first and a last code point; a stepped range also has the distance between
two neighbours, since scripts with two cases often interleave them. The two membership tests are
the only readers of the tables.
-/

namespace DeclClosure.Text

/-- Membership in a table of closed ranges of code points. -/
def inRanges (table : Array (Nat × Nat)) (c : Char) : Bool :=
  table.any fun r ↦ r.1 ≤ c.toNat && c.toNat ≤ r.2

/-- Membership in a table of stepped ranges: first, last and distance. -/
def inSteps (table : Array (Nat × Nat × Nat)) (c : Char) : Bool :=
  table.any fun r ↦ r.1 ≤ c.toNat && c.toNat ≤ r.2.1 && (c.toNat - r.1) % r.2.2 == 0

theorem inRanges_iff {table : Array (Nat × Nat)} {c : Char} :
    inRanges table c = true ↔ ∃ r ∈ table, r.1 ≤ c.toNat ∧ c.toNat ≤ r.2 := by
  simp only [inRanges, Array.any_eq_true', Bool.and_eq_true, decide_eq_true_eq]

end DeclClosure.Text

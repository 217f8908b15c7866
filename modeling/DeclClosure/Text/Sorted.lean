/-!
# Sorting by name

Entries that bear a name are sorted by it, by code point; entries of one name keep their order. The
lists are short, and the recursion follows them, so what is sorted can be computed in proofs as
well.
-/

namespace DeclClosure.Text

variable {α : Type}

/-- Puts an entry before the first one whose name is not smaller. -/
def insertByName (name : α → String) (a : α) : List α → List α
  | [] => [a]
  | b :: bs => if name a ≤ name b then a :: b :: bs else b :: insertByName name a bs

/-- The entries sorted by name. -/
def sortByName (name : α → String) (as : List α) : List α :=
  as.foldr (insertByName name) []

theorem insertByName_perm {name : α → String} (a : α) (as : List α) :
    (insertByName name a as).Perm (a :: as) := by
  induction as with
  | nil => exact List.Perm.refl _
  | cons b bs ih =>
    rw [insertByName]
    split
    · exact List.Perm.refl _
    · exact (ih.cons b).trans (List.Perm.swap a b bs)

theorem sortByName_perm {name : α → String} (as : List α) : (sortByName name as).Perm as := by
  induction as with
  | nil => exact List.Perm.refl _
  | cons a as ih => exact (insertByName_perm a _).trans (ih.cons a)

end DeclClosure.Text

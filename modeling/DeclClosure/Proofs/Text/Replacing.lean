import DeclClosure.Text.Replace
import Mathlib.Data.List.Infix

/-!
# What replacing does

A text is searched from left to right. Where the pattern does not occur the text stays as it is
(`Text.replace_of_not_occurs`), and otherwise a shorter replacement makes it shorter
(`Text.length_replace_lt`). Replacing in a text
of two parts is replacing in each part, if between them stands something that no occurrence of
the pattern can reach into (`Text.Parts`, `Text.replaceFrom_parts`): all of it is unlike the first
character of the pattern, one character is in no pattern, and those before this one are unlike the last.
-/

namespace DeclClosure.Text

variable {p r a b d cs sep : List Char} {c x : Char}

theorem replaceFrom_skip (n : Nat) (cs : List Char) :
    replaceFrom p r n cs = replaceFrom p r 0 (cs.drop n) := by
  induction n generalizing cs with
  | zero => rw [List.drop_zero]
  | succ n ih =>
    cases cs with
    | nil => rfl
    | cons c cs =>
      rw [replaceFrom, ih]
      rfl

/-- An occurrence is replaced, and what comes after it is searched. -/
theorem replaceFrom_matching (hp : p ≠ []) (h : p <+: cs) :
    replaceFrom p r 0 cs = r ++ replaceFrom p r 0 (cs.drop p.length) := by
  cases cs with
  | nil => exact absurd (List.prefix_nil.mp h) hp
  | cons c cs =>
    rw [replaceFrom, if_pos (List.isPrefixOf_iff_prefix.mpr h), replaceFrom_skip]
    cases p with
    | nil => exact absurd rfl hp
    | cons x p => rfl

theorem replaceFrom_skipping (h : ¬p <+: c :: cs) :
    replaceFrom p r 0 (c :: cs) = c :: replaceFrom p r 0 cs := by
  rw [replaceFrom, if_neg fun h' ↦ h (List.isPrefixOf_iff_prefix.mp h')]

/-! ### Lengths -/

/-- With a replacement that is no longer than the pattern, the text does not become longer. -/
theorem length_replaceFrom_le (hp : p ≠ []) (hr : r.length ≤ p.length) :
    ∀ cs : List Char, (replaceFrom p r 0 cs).length ≤ cs.length
  | [] => Nat.le_refl 0
  | c :: cs => by
    by_cases h : p <+: c :: cs
    · have hpos : 0 < p.length := List.length_pos_iff.mpr hp
      have hlen := h.length_le
      have hrest := length_replaceFrom_le hp hr ((c :: cs).drop p.length)
      rw [replaceFrom_matching hp h, List.length_append]
      rw [List.length_drop] at hrest
      omega
    · rw [replaceFrom_skipping h]
      exact Nat.succ_le_succ (length_replaceFrom_le hp hr cs)
termination_by cs => cs.length
decreasing_by
  · simp only [List.length_drop, List.length_cons]
    omega
  · exact Nat.lt_succ_self _

/-- Where the pattern does not occur, nothing is replaced. -/
theorem replaceFrom_of_not_infix (h : ¬p <:+: cs) : replaceFrom p r 0 cs = cs := by
  induction cs with
  | nil => rfl
  | cons c cs ih =>
    rw [replaceFrom_skipping fun h' ↦ h h'.isInfix, ih fun h' ↦ h (List.infix_cons h')]

/-- Where it occurs, a shorter replacement makes the text shorter. -/
theorem length_replaceFrom_lt (hp : p ≠ []) (hr : r.length < p.length) (h : p <:+: cs) :
    (replaceFrom p r 0 cs).length < cs.length := by
  induction cs with
  | nil => exact absurd (List.infix_nil.mp h) hp
  | cons c cs ih =>
    by_cases hprefix : p <+: c :: cs
    · have hlen := hprefix.length_le
      have hrest := length_replaceFrom_le hp hr.le ((c :: cs).drop p.length)
      rw [replaceFrom_matching hp hprefix, List.length_append]
      rw [List.length_drop] at hrest
      omega
    · have hinfix := (List.infix_cons_iff.mp h).resolve_left hprefix
      rw [replaceFrom_skipping hprefix]
      exact Nat.succ_lt_succ (ih hinfix)

/-! ### Parts -/

/-- An occurrence that begins before `d` ends before it. -/
theorem replaceFrom_append (hp : p ≠ []) (hd : ∀ a, p <+: a ++ d → p <+: a) :
    ∀ a : List Char, replaceFrom p r 0 (a ++ d) = replaceFrom p r 0 a ++ replaceFrom p r 0 d
  | [] => rfl
  | c :: a => by
    by_cases h : p <+: c :: a
    · have hpos : 0 < p.length := List.length_pos_iff.mpr hp
      rw [replaceFrom_matching hp h, replaceFrom_matching hp (h.trans (List.prefix_append _ _)),
        List.drop_append_of_le_length h.length_le, replaceFrom_append hp hd, List.append_assoc]
    · have hlonger : ¬p <+: c :: (a ++ d) := fun h' ↦ h (hd (c :: a) h')
      rw [List.cons_append, replaceFrom_skipping h, replaceFrom_skipping hlonger,
        replaceFrom_append hp hd a]
      rfl
termination_by a => a.length
decreasing_by
  · simp only [List.length_drop, List.length_cons]
    omega
  · exact Nat.lt_succ_self _

theorem prefix_of_append_cons (hc : c ∉ p) (h : p <+: a ++ c :: b) : p <+: a := by
  obtain ⟨t, ht⟩ := h
  rcases List.append_eq_append_iff.mp ht with ⟨u, rfl, -⟩ | ⟨u, rfl, hu⟩
  · exact List.prefix_append p u
  · cases u with
    | nil => rw [List.append_nil]
    | cons y u =>
      obtain rfl : c = y := (List.cons.inj hu).1
      exact absurd (List.mem_append_right _ List.mem_cons_self) hc

theorem prefix_of_append_unlike (hd : ∀ y ∈ d, p.getLast? ≠ some y) (h : p <+: a ++ d) : p <+: a := by
  obtain ⟨t, ht⟩ := h
  rcases List.append_eq_append_iff.mp ht with ⟨u, rfl, -⟩ | ⟨u, rfl, rfl⟩
  · exact List.prefix_append p u
  · cases hu : u.getLast? with
    | none =>
      rw [List.getLast?_eq_none_iff.mp hu, List.append_nil]
    | some y =>
      refine absurd ?_ (hd y (List.mem_append_left _ (List.mem_of_getLast? hu)))
      rw [List.getLast?_append, hu]
      rfl

/-- No occurrence of the pattern reaches into the separator, from whichever side. -/
structure Parts (p sep : List Char) : Prop where
  /-- No occurrence begins in the separator. -/
  first : ∀ x ∈ sep, p.head? ≠ some x
  /-- One character is in no occurrence, and no occurrence ends before it. -/
  last : ∃ u c v, sep = u ++ c :: v ∧ c ∉ p ∧ ∀ x ∈ u, p.getLast? ≠ some x

theorem not_matching_of_unlike (hp : p ≠ []) (hc : p.head? ≠ some c) : ¬p <+: c :: cs := by
  cases p with
  | nil => exact absurd rfl hp
  | cons x p =>
    intro h
    obtain rfl := (List.cons_prefix_cons.mp h).1
    exact hc rfl

theorem replaceFrom_unlike_append (hp : p ≠ []) (h : ∀ x ∈ sep, p.head? ≠ some x) (b : List Char) :
    replaceFrom p r 0 (sep ++ b) = sep ++ replaceFrom p r 0 b := by
  induction sep with
  | nil => rfl
  | cons c sep ih =>
    rw [List.cons_append, replaceFrom_skipping (not_matching_of_unlike hp (h c List.mem_cons_self)),
      ih fun x hx ↦ h x (List.mem_cons_of_mem c hx)]
    rfl

/-- Replacing in two parts with a separator between them is replacing in each. -/
theorem replaceFrom_parts (hp : p ≠ []) (h : Parts p sep) (a b : List Char) :
    replaceFrom p r 0 (a ++ sep ++ b) =
      replaceFrom p r 0 a ++ sep ++ replaceFrom p r 0 b := by
  obtain ⟨u, c, v, hsep, hc, hu⟩ := h.last
  have hends : ∀ a, p <+: a ++ (sep ++ b) → p <+: a := by
    intro a hprefix
    rw [hsep, List.append_assoc, List.cons_append, ← List.append_assoc] at hprefix
    exact prefix_of_append_unlike hu (prefix_of_append_cons hc hprefix)
  rw [List.append_assoc, replaceFrom_append hp hends a, replaceFrom_unlike_append hp h.first,
    List.append_assoc]

/-! ### Texts -/

/-- A text occurs in another one. -/
def Occurs (pattern s : String) : Prop :=
  pattern.toList <:+: s.toList

theorem toList_replace (s pattern replacement : String) :
    (replace s pattern replacement).toList =
      replaceFrom pattern.toList replacement.toList 0 s.toList := by
  rw [replace, String.toList_ofList]

variable {s t pattern replacement : String}

theorem length_replace_le (hp : pattern ≠ "") (hr : replacement.length ≤ pattern.length) (s : String) :
    (replace s pattern replacement).length ≤ s.length := by
  rw [← String.length_toList, ← String.length_toList, toList_replace]
  refine length_replaceFrom_le (fun h ↦ hp (String.toList_eq_nil_iff.mp h)) ?_ _
  rwa [String.length_toList, String.length_toList]

theorem length_replace_lt (replacement : String) (hp : pattern ≠ "")
    (hr : replacement.length < pattern.length) (h : Occurs pattern s) :
    (replace s pattern replacement).length < s.length := by
  rw [← String.length_toList, ← String.length_toList, toList_replace]
  refine length_replaceFrom_lt (fun h ↦ hp (String.toList_eq_nil_iff.mp h)) ?_ h
  rwa [String.length_toList, String.length_toList]

theorem replace_of_not_occurs (h : ¬Occurs pattern s) : replace s pattern replacement = s := by
  rw [← String.toList_inj, toList_replace, replaceFrom_of_not_infix h]

theorem replace_parts {sep : String} (hp : pattern ≠ "") (h : Parts pattern.toList sep.toList)
    (s t : String) : replace (s ++ sep ++ t) pattern replacement =
      replace s pattern replacement ++ sep ++ replace t pattern replacement := by
  rw [← String.toList_inj]
  simp only [toList_replace, String.toList_append]
  exact replaceFrom_parts (fun h ↦ hp (String.toList_eq_nil_iff.mp h)) h _ _

end DeclClosure.Text

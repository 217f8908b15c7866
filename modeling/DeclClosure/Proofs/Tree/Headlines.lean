import DeclClosure.Proofs.Tree.Nesting
import DeclClosure.Tree.Listing

/-!
# The lines that declare nodes

Every node is declared by one line of the listing, its headline. Above it stand remarks and the way in
which a callable is bound, and below it the lines of what is below the node. The headline begins with
a keyword, if there is one for the node, and the name under which the node is written; a callable is
written under its own name, every other node relative to the scope that it stands directly below
(`Node.headline_names`).

So a listing can be read from the outside to the inside. On the way from a root down to a node each
node is declared one level deeper than the one before it (`Tree.Declared`), and the headlines stand
in this order in the block of the root (`Tree.Declared.sublist_lines`). In a nested tree the names
that are read on the way make the qualified name (`Tree.Declared.intercalate_names`).
-/

namespace DeclClosure

/-! ### Names and headlines -/

/-- What may stand before the name in the line that declares a node. -/
def listingKeywords : List String :=
  ["", "class ", "module ", "def "]

/-- The line declares the name: behind the indentation and the keyword, the name is the last word of
the line, or a blank, a colon or a parenthesis follows. -/
def LineNames (name line : String) : Prop :=
  ∃ depth, ∃ keyword ∈ listingKeywords, ∃ ending : String,
    line = pad depth ++ keyword ++ name ++ ending ∧
      (ending = "" ∨ ∃ c ∈ [' ', ':', '('], ending.toList.head? = some c)

namespace Node

/-- The name under which a node is listed below a scope. -/
def written (scope : Option String) : Node → String
  | leaf h (.method _) => h.name
  | n => relativeName scope n.name

/-- The line that declares a node below a scope, at a level. -/
def headline (scope : Option String) (depth : Nat) : Node → String
  | leaf h d => (d.lines depth h.name (relativeName scope h.name)).getLast?.getD ""
  | .scope h f _ => (f.headerLines depth (relativeName scope h.name)).getLast?.getD ""

/-- A root is written under its full name, unless it is a callable of some owner. -/
theorem written_of_root {r : Node} (h : r.qualifiedName = r.name) :
    r.written none = r.qualifiedName := by
  rw [h]
  cases r with
  | leaf h d => cases d <;> rfl
  | scope => rfl

theorem relativeName_within (scope rest : String) :
    relativeName (some scope) (Name.within scope rest) = rest := by
  have hstarts : Name.startsWith (Name.namespacePrefix scope) (Name.within scope rest) := by
    rw [Name.startsWith, Name.namespacePrefix, Name.within, List.isPrefixOf_iff_prefix,
      String.toList_append (s := scope ++ ".")]
    exact List.prefix_append _ _
  have hlength : scope.length + 1 = (scope.toList ++ ".".toList).length := by
    rw [List.length_append, String.length_toList]
    rfl
  rw [relativeName, if_pos hstarts, Name.within, String.toList_append, String.toList_append,
    hlength, List.drop_left, String.ofList_toList]

/-- A callable is written under its own name, which stands after that of its owner in the qualified
one. -/
theorem written_of_method? {d : Node} {f : MethodFacts} (h : d.method? = some f)
    (howner : f.owner ≠ "") (scope : Option String) :
    d.written scope = d.name ∧ d.qualifiedName = Name.within f.owner d.name := by
  cases d with
  | leaf h d =>
    cases d with
    | method g =>
      cases h
      exact ⟨rfl, if_neg howner⟩
    | _ => cases h
  | scope => cases h

/-- Every other node is written relative to the scope, and its own name is the qualified one. -/
theorem written_of_method?_eq_none {d : Node} (h : d.method? = none) (scope : Option String) :
    d.written scope = relativeName scope d.name ∧ d.qualifiedName = d.name := by
  cases d with
  | leaf h d =>
    cases d with
    | method g => cases h
    | _ => exact ⟨rfl, rfl⟩
  | scope => exact ⟨rfl, rfl⟩

/-- The name of a node that lies in a scope is made of that of the scope and the written one. -/
theorem within_written {scope : String} {d : Node} (h : d.badge.LiesIn scope)
    (howner : ∀ f, d.method? = some f → f.owner ≠ "") :
    Name.within scope (d.written (some scope)) = d.qualifiedName := by
  cases hmethod : d.method? with
  | some f =>
    -- the qualified name of a callable is not its own name, since it has an owner
    obtain ⟨hwritten, hname⟩ := written_of_method? hmethod (howner f hmethod) (some scope)
    rw [hwritten]
    refine (h.resolve_right ?_).symm
    rintro ⟨hself, -⟩
    exact Name.within_ne _ _ (hname.symm.trans hself)
  | none =>
    obtain ⟨hwritten, hname⟩ := written_of_method?_eq_none hmethod (some scope)
    obtain ⟨-, rest, hrest⟩ :=
      h.resolve_left fun hself ↦ Name.within_ne _ _ (hself.symm.trans hname)
    have hwithin : d.name = Name.within scope rest := hrest
    rw [hwritten, hname, hwithin, relativeName_within]

theorem linesAll_eq_flatMap (scope : String) (depth : Nat) (ns : List Node) :
    linesAll scope depth ns = ns.flatMap (lines (some scope) depth) := by
  induction ns with
  | nil => rfl
  | cons n ns ih => rw [linesAll, ih, List.flatMap_cons]

/-- A leaf is listed under its written name, whatever it declares. -/
theorem headline_names_leaf (scope : Option String) (depth : Nat) (h : Head) (d : Leaf) :
    LineNames ((leaf h d).written scope) ((leaf h d).headline scope depth) := by
  simp only [headline]
  cases d with
  | plain => exact ⟨depth, "", by decide, "", by simp [Leaf.lines, written, name, head], .inl rfl⟩
  | const value ascription =>
    simp only [Leaf.lines, written, name, head]
    cases nonempty? ascription with
    | none =>
      exact ⟨depth, "", by decide, " = " ++ value.getD "None", by simp [String.append_assoc],
        .inr ⟨' ', by decide, by simp⟩⟩
    | some a =>
      cases value with
      | none =>
        exact ⟨depth, "", by decide, ": " ++ a, by simp [String.append_assoc],
          .inr ⟨':', by decide, by simp⟩⟩
      | some v =>
        exact ⟨depth, "", by decide, ": " ++ a ++ " = " ++ v, by simp [String.append_assoc],
          .inr ⟨':', by decide, by simp⟩⟩
  | «attribute» ascription default =>
    refine ⟨depth, "", by decide, ": " ++ ascription ++ default.elim "" (" = " ++ ·), ?_,
      .inr ⟨':', by decide, by simp⟩⟩
    cases default <;> simp [Leaf.lines, written, name, head, String.append_assoc]
  | method f =>
    refine ⟨depth, "def ", by decide,
      Param.listText f.params ++ (nonempty? f.returnType).elim "" (" -> " ++ ·) ++ ": ...", ?_,
      .inr ⟨'(', by decide, by simp [Param.listText]⟩⟩
    cases hreturn : nonempty? f.returnType <;>
      simp [Leaf.lines, written, hreturn, String.append_assoc]

/-- A node is listed under its written name, whatever its type. -/
theorem headline_names (scope : Option String) (depth : Nat) (n : Node) :
    LineNames (n.written scope) (n.headline scope depth) := by
  cases n with
  | leaf h d => exact headline_names_leaf scope depth h d
  | scope h f cs =>
    simp only [headline, ScopeFacts.headerLines, written, name, head]
    cases f.kind with
    | «class» superclass =>
      refine ⟨depth, "class ", by decide, if (f.bases superclass).isEmpty then ":"
        else "(" ++ ", ".intercalate (f.bases superclass) ++ "):", ?_, ?_⟩
      · simp [String.append_assoc]
      · split
        · exact .inr ⟨':', by decide, rfl⟩
        · exact .inr ⟨'(', by decide, by simp⟩
    | _ => exact ⟨depth, "module ", by decide, ":", by simp, .inr ⟨':', by decide, rfl⟩⟩

theorem lines_infix_linesAll (scope : String) (depth : Nat) {d : Node} {ns : List Node}
    (hd : d ∈ ns) : d.lines (some scope) depth <:+: linesAll scope depth ns := by
  obtain ⟨before, after, rfl⟩ := List.append_of_mem hd
  rw [linesAll_eq_flatMap, List.flatMap_append, List.flatMap_cons, ← List.append_assoc]
  exact ⟨_, _, rfl⟩

theorem eq_dropLast_append_getLast?_getD {ls : List String} (h : ls ≠ []) :
    ls = ls.dropLast ++ [ls.getLast?.getD ""] := by
  rw [List.getLast?_eq_some_getLast h, Option.getD_some, List.dropLast_append_getLast]

/-- The headline of a node is one of its lines, and below it stand the lines of its children, one
level deeper. -/
theorem exists_lines_eq (scope : Option String) (depth : Nat) (n : Node) :
    ∃ above below, n.lines scope depth = above ++ n.headline scope depth :: below ∧
      ∀ d ∈ n.children, d.lines (some n.name) (depth + 1) <:+: below := by
  cases n with
  | leaf h d =>
    have hlines : d.lines depth h.name (relativeName scope h.name) ≠ [] := by
      cases d with
      | const value ascription =>
        simp only [Leaf.lines]
        split <;> exact List.cons_ne_nil _ _
      | _ => simp [Leaf.lines]
    refine ⟨h.commentLines depth ++ (d.lines depth h.name (relativeName scope h.name)).dropLast,
      [], ?_, List.forall_mem_nil _⟩
    rw [lines, headline, List.append_assoc, ← eq_dropLast_append_getLast?_getD hlines]
  | scope h f cs =>
    have hlines : f.headerLines depth (relativeName scope h.name) ≠ [] := by
      rw [ScopeFacts.headerLines]
      cases f.kind <;> simp
    obtain ⟨below, hbelow, hchildren⟩ : ∃ below : List String,
        (Node.scope h f cs).lines scope depth = h.commentLines depth
          ++ f.headerLines depth (relativeName scope h.name) ++ below ∧
        ∀ d ∈ cs, d.lines (some h.name) (depth + 1) <:+: below := by
      cases cs with
      | nil => exact ⟨_, rfl, List.forall_mem_nil _⟩
      | cons d ds => exact ⟨_, rfl, fun _ ↦ lines_infix_linesAll h.name (depth + 1)⟩
    refine ⟨h.commentLines depth ++ (f.headerLines depth (relativeName scope h.name)).dropLast,
      below, ?_, hchildren⟩
    rw [hbelow, headline]
    nth_rewrite 1 [eq_dropLast_append_getLast?_getD hlines]
    simp only [List.append_assoc, List.singleton_append]

end Node

/-! ### From the roots to a node -/

/-- What is joined is part of the whole. -/
theorem Text.exists_intercalate_eq {x : String} {xs : List String} (separator : String)
    (hx : x ∈ xs) : ∃ before after, separator.intercalate xs = before ++ x ++ after := by
  induction xs with
  | nil => cases hx
  | cons y ys ih =>
    cases ys with
    | nil =>
      rw [List.mem_singleton.mp hx, String.intercalate_singleton]
      exact ⟨"", "", by rw [String.empty_append, String.append_empty]⟩
    | cons z zs =>
      rw [String.intercalate_cons_cons]
      rcases List.mem_cons.mp hx with rfl | hx
      · exact ⟨"", separator ++ separator.intercalate (z :: zs), by
          rw [String.empty_append, String.append_assoc]⟩
      · obtain ⟨before, after, hrest⟩ := ih hx
        exact ⟨y ++ separator ++ before, after, by rw [hrest]; simp only [String.append_assoc]⟩

namespace Tree

/-- On the way from a root down to the node, these names are written, in these lines of the
listing. -/
inductive Declared (t : Tree) : List String → List String → Node → Prop
  | root {r : Node} : r ∈ t.roots → Declared t [r.written none] [r.headline none 0] r
  | child {names lines : List String} {p d : Node} : Declared t names lines p → d ∈ p.children →
      Declared t (names ++ [d.written (some p.name)])
        (lines ++ [d.headline (some p.name) lines.length]) d

/-- The lines of a root make up one block of the listing. -/
theorem exists_listing_eq {t : Tree} {r : Node} (hr : r ∈ t.roots) :
    ∃ before after, t.listing = before ++ "\n".intercalate (r.lines none 0) ++ after := by
  obtain ⟨before, after, hblocks⟩ : ∃ before after,
      "\n\n".intercalate (t.roots.map fun n ↦ "\n".intercalate (n.lines none 0)) =
        before ++ "\n".intercalate (r.lines none 0) ++ after :=
    Text.exists_intercalate_eq _ (List.mem_map_of_mem hr)
  simp only [listing]
  split
  · next hempty =>
    -- no part of an empty text is not empty
    rw [hempty] at hblocks
    obtain ⟨hfront, rfl⟩ := String.append_eq_empty_iff.mp hblocks.symm
    exact ⟨before, "", by rw [hfront]; rfl⟩
  · exact ⟨before, after ++ "\n", by rw [hblocks, String.append_assoc]⟩

namespace Declared

variable {t : Tree} {names lines : List String} {n : Node}

mutual

theorem exists_of_mem_preorder {m : Node} : ∀ p : Node, (∃ names lines, t.Declared names lines p) →
    m ∈ p.preorder → ∃ names lines, t.Declared names lines m
  | .leaf h d, hp, hm => List.mem_singleton.mp hm ▸ hp
  | .scope h f cs, hp, hm => by
    rcases List.mem_cons.mp hm with rfl | hm
    · exact hp
    · obtain ⟨names, lines, hp⟩ := hp
      exact exists_of_mem_preorderAll cs (fun d hd ↦ ⟨_, _, hp.child hd⟩) hm

theorem exists_of_mem_preorderAll {m : Node} : ∀ ns : List Node,
    (∀ d ∈ ns, ∃ names lines, t.Declared names lines d) → m ∈ Node.preorderAll ns →
      ∃ names lines, t.Declared names lines m
  | [], _, hm => nomatch hm
  | n :: ns, hns, hm => by
    obtain ⟨hn, hns⟩ := List.forall_mem_cons.mp hns
    rcases List.mem_append.mp hm with hm | hm
    · exact exists_of_mem_preorder n hn hm
    · exact exists_of_mem_preorderAll ns hns hm

end

/-- Every node of the walk is reached. -/
theorem exists_of_mem_walk (hn : n ∈ t.walk) : ∃ names lines, t.Declared names lines n :=
  exists_of_mem_preorderAll t.roots (fun _ hr ↦ ⟨_, _, .root hr⟩) (mem_walk_iff.mp hn)

/-- Each name is the one that its line declares. -/
theorem lineNames (h : t.Declared names lines n) : List.Forall₂ LineNames names lines := by
  induction h with
  | root hr => exact .cons (Node.headline_names _ _ _) .nil
  | child _ _ ih => exact List.rel_append ih (.cons (Node.headline_names _ _ _) .nil)

/-- The lines stand in this order in the block of a root. -/
theorem sublist_lines (h : t.Declared names lines n) :
    ∃ r ∈ t.roots, lines.Sublist (r.lines none 0) := by
  -- all lines of the last node come after the headlines of the others
  have hall : ∃ r ∈ t.roots, ∃ before scope, lines = before ++ [n.headline scope before.length] ∧
      (before ++ n.lines scope before.length).Sublist (r.lines none 0) := by
    induction h with
    | @root r hr => exact ⟨r, hr, [], none, rfl, List.Sublist.refl _⟩
    | @child names lines p d hp hd ih =>
      obtain ⟨r, hr, before, scope, rfl, hsub⟩ := ih
      obtain ⟨above, below, hlines, hchildren⟩ := p.exists_lines_eq scope before.length
      refine ⟨r, hr, _, some p.name, rfl, List.Sublist.trans ?_ hsub⟩
      rw [List.length_append, List.length_singleton, List.append_assoc, hlines]
      refine List.Sublist.append_left (List.sublist_append_of_sublist_right ?_) before
      exact (hchildren d hd).sublist.cons_cons _
  obtain ⟨r, hr, before, scope, rfl, hsub⟩ := hall
  obtain ⟨above, below, hlines, -⟩ := n.exists_lines_eq scope before.length
  refine ⟨r, hr, List.Sublist.trans (List.Sublist.append_left ?_ before) hsub⟩
  rw [hlines, List.singleton_sublist]
  exact List.mem_append_right _ List.mem_cons_self

/-- They stand in this order in one block of the listing. -/
theorem listed (h : t.Declared names lines n) :
    ∃ block before after, t.listing = before ++ "\n".intercalate block ++ after ∧
      lines.Sublist block := by
  obtain ⟨r, hr, hsub⟩ := h.sublist_lines
  obtain ⟨before, after, hlisting⟩ := exists_listing_eq hr
  exact ⟨r.lines none 0, before, after, hlisting, hsub⟩

theorem mem_walk (h : t.Declared names lines n) : n ∈ t.walk := by
  induction h with
  | root hr => exact root_mem_walk hr
  | child _ hd ih => exact child_mem_walk hd ih

theorem names_ne_nil (h : t.Declared names lines n) : names ≠ [] := by
  cases h with
  | root => exact List.cons_ne_nil _ _
  | child => exact List.append_ne_nil_of_right_ne_nil _ (List.cons_ne_nil _ _)

/-- In a nested tree the names make the qualified name of the node. -/
theorem intercalate_names (ht : t.Nested)
    (howner : ∀ m ∈ t.walk, ∀ f, m.method? = some f → f.owner ≠ "")
    (h : t.Declared names lines n) : ".".intercalate names = n.qualifiedName := by
  induction h with
  | @root r hr =>
    rw [String.intercalate_singleton]
    exact Node.written_of_root (ht.roots r hr)
  | @child names lines p d hp hd ih =>
    have hdwalk := child_mem_walk hd hp.mem_walk
    have hscope : p.qualifiedName = p.name := by
      cases p with
      | leaf => cases hd
      | scope => rfl
    rw [String.intercalate_append_of_ne_nil hp.names_ne_nil (List.cons_ne_nil _ _),
      String.intercalate_singleton, ih, hscope]
    exact Node.within_written (ht.below p hp.mem_walk d hd) (howner d hdwalk)

end Declared

end Tree

end DeclClosure

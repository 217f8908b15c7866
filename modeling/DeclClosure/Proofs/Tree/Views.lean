import DeclClosure.Proofs.Json.Writing
import DeclClosure.Proofs.Tree.Contents
import DeclClosure.Tree.View

/-!
# The view of a tree tells trees apart

Two trees are the same (`Tree.Same`) if node for node, in their order, all declared facts are; neither
the identities of nodes nor the index of scopes count. A view leaves out a list that is empty and a
metaclass without a name, and nodes of different types share keys. It is still read back fact by
fact: what a view has under a key is one fact of the node, given its type.

Since a written document of texts can be read in one way only, up to the order of its members, the
text of a tree says what the tree declares and nothing else (`Tree.text_eq_iff_same`).
-/

namespace DeclClosure

open Json (Value)

/-! ### Trees with the same contents -/

/-- The parameters have the same name, kind, type and default. -/
def Param.Same (p q : Param) : Prop :=
  p.name = q.name ∧ p.kind.word = q.kind.word ∧ p.ascription = q.ascription ∧
    p.default = q.default

/-- The callables declare the same, parameter by parameter. -/
def MethodFacts.Same (f g : MethodFacts) : Prop :=
  f.owner = g.owner ∧ List.Forall₂ Param.Same f.params g.params ∧ f.signature = g.signature ∧
    f.kind = g.kind ∧ f.returnType = g.returnType

/-- The leaves declare the same. -/
def Leaf.Same : Leaf → Leaf → Prop
  | .method f, .method g => f.Same g
  | d, e => d = e

/-- The nodes have the same name and the same remarks. -/
def Head.Same (h k : Head) : Prop :=
  h.name = k.name ∧ h.comments = k.comments

mutual

/-- The nodes are of one type and declare the same, as do the nodes below them. -/
def Node.Same : Node → Node → Prop
  | .leaf h d, .leaf k e => h.Same k ∧ d.Same e
  | .scope h f cs, .scope k g ds => h.Same k ∧ f = g ∧ Node.SameAll cs ds
  | .leaf _ _, .scope _ _ _ | .scope _ _ _, .leaf _ _ => False

/-- The nodes are the same one by one. -/
def Node.SameAll : List Node → List Node → Prop
  | [], [] => True
  | m :: ms, n :: ns => m.Same n ∧ Node.SameAll ms ns
  | [], _ :: _ | _ :: _, [] => False

end

/-- The trees have the same nodes in the same order. -/
def Tree.Same (t u : Tree) : Prop :=
  Node.SameAll t.roots u.roots

/-- The metaclass of a scope; a leaf has none. -/
def Node.metaclass? : Node → Option String
  | leaf _ _ => none
  | scope _ f _ => f.metaclass

/-! ### Views of the parts of a node -/

section Parts

variable {α : Type} {f : α → Value} {as bs : List α}

/-- The list of the views, if there are any. -/
def unlessEmpty (items : List Value) : Option Value :=
  if items.isEmpty then none else some (.list items)

theorem lookup_memberUnlessEmpty (key : String) (items : List Value) (k : String) :
    (memberUnlessEmpty key items).lookup k = if k = key then unlessEmpty items else none := by
  rw [memberUnlessEmpty, unlessEmpty]
  by_cases hitems : items.isEmpty
  · rw [if_pos hitems, if_pos hitems, List.lookup_nil, ite_self]
  · rw [if_neg hitems, if_neg hitems, List.lookup_cons]
    by_cases hk : k = key
    · rw [beq_iff_eq.mpr hk, if_pos hk]
    · rw [beq_eq_false_iff_ne.mpr hk, if_neg hk, List.lookup_nil]

/-- A list of views is there or left out: it tells the views one by one either way. -/
theorem map_sortKeys_of_unlessEmpty {vs ws : List Value}
    (h : (unlessEmpty vs).map Value.sortKeys = (unlessEmpty ws).map Value.sortKeys) :
    vs.map Value.sortKeys = ws.map Value.sortKeys := by
  cases vs <;> cases ws <;>
    simp [unlessEmpty, Value.sortKeys, Json.sortItems_eq_map] at h ⊢
  exact h

theorem eq_of_map_str {ss ts : List String}
    (h : (ss.map Value.str).map Value.sortKeys = (ts.map Value.str).map Value.sortKeys) :
    ss = ts := by
  have hself : ∀ ss : List String, (ss.map Value.str).map Value.sortKeys = ss.map Value.str := by
    intro ss
    rw [List.map_map]
    rfl
  rw [hself, hself] at h
  exact List.map_injective_iff.mpr (fun _ _ ↦ Value.str.inj) h

theorem MixinRef.eq_of_agrees {m n : MixinRef} (h : m.view.Agrees n.view) : m = n := by
  have hkind : some (Value.str m.kind) = some (.str n.kind) := h.get? "kind"
  have hname : some (Value.str m.name) = some (.str n.name) := h.get? "name"
  cases m
  cases n
  simp_all

theorem sortKeys_ofOptional (s : Option String) :
    (Value.ofOptional s).sortKeys = .ofOptional s := by
  cases s <;> rfl

theorem ofOptional_inj {s t : Option String}
    (h : (some (Value.ofOptional s)).map Value.sortKeys =
      (some (Value.ofOptional t)).map Value.sortKeys) : s = t := by
  rw [Option.map_some, Option.map_some, Option.some.injEq, sortKeys_ofOptional,
    sortKeys_ofOptional] at h
  match s, t, h with
  | none, none, _ => rfl
  | some _, some _, h => exact congrArg some (Value.str.inj h)

theorem Param.same_of_agrees {p q : Param} (h : p.view.Agrees q.view) : p.Same q := by
  have hname : some (Value.str p.name) = some (.str q.name) := h.get? "name"
  have hkind : some (Value.str p.kind.word) = some (.str q.kind.word) := h.get? "kind"
  exact ⟨Value.str.inj (Option.some.inj hname), Value.str.inj (Option.some.inj hkind),
    ofOptional_inj (h.get? "annotation"), ofOptional_inj (h.get? "default")⟩

end Parts

/-! ### What a view has under a key -/

theorem lookup_cons_eq_ite (k key : String) (v : Value) (ms : List (String × Value)) :
    ((key, v) :: ms).lookup k = if k = key then some v else ms.lookup k := by
  rw [List.lookup_cons]
  by_cases hk : k = key
  · rw [beq_iff_eq.mpr hk, if_pos hk]
  · rw [beq_eq_false_iff_ne.mpr hk, if_neg hk]

theorem Head.lookup_view (word : String) (h : Head) (k : String) :
    (h.view word).lookup k =
      if k = "type" then some (.str word) else if k = "name" then some (.str h.name)
      else if k = "comments" then unlessEmpty (h.comments.map .str) else none := by
  rw [Head.view, List.lookup_append, lookup_memberUnlessEmpty, lookup_cons_eq_ite,
    lookup_cons_eq_ite, List.lookup_nil]
  split_ifs <;> rfl

theorem ScopeFacts.lookup_view {f : ScopeFacts} (hf : f.metaclass ≠ some "") (k : String) :
    f.view.lookup k =
      if k = "mixins" then unlessEmpty (f.mixins.map MixinRef.view)
      else if k = "type_parameters" then unlessEmpty (f.typeParameters.map .str)
      else if k = "helpers" then unlessEmpty (f.helpers.map .str)
      else if k = "metaclass" then f.metaclass.map .str else none := by
  obtain ⟨kind, mixins, typeParameters, helpers, metaclass⟩ := f
  rw [ScopeFacts.view, List.lookup_append, List.lookup_append, List.lookup_append,
    lookup_memberUnlessEmpty, lookup_memberUnlessEmpty, lookup_memberUnlessEmpty]
  cases metaclass with
  | none =>
    simp only [List.lookup_nil, Option.or_none, Option.map_none, ite_self]
    split_ifs <;> simp_all
  | some m =>
    have hm : m ≠ "" := fun hm ↦ hf (congrArg some hm)
    simp only [if_neg hm, lookup_cons_eq_ite, List.lookup_nil, Option.map_some]
    split_ifs <;> simp_all

theorem ScopeKind.lookup_view {kind : ScopeKind} {k : String} (hk : k ≠ "superclass") :
    kind.view.lookup k = none := by
  cases kind with
  | «class» superclass => rw [ScopeKind.view, lookup_cons_eq_ite, if_neg hk, List.lookup_nil]
  | _ => rfl

/-- What the view of a leaf has under a key. -/
theorem Node.get?_view_leaf (h : Head) (d : Leaf) (k : String) :
    (Node.leaf h d).view.get? k =
      ((h.view (Node.leaf h d).typeWord).lookup k).or (d.view.lookup k) := by
  rw [Node.view, Value.get?, List.lookup_append]

/-- What the view of a scope has under a key. -/
theorem Node.get?_view_scope (h : Head) (f : ScopeFacts) (cs : List Node) (k : String) :
    (Node.scope h f cs).view.get? k =
      ((h.view (Node.scope h f cs).typeWord).lookup k).or ((f.view.lookup k).or
        (if k = "children" then some (.list (Node.viewAll cs)) else f.kind.view.lookup k)) := by
  rw [Node.view, Value.get?, List.lookup_append, List.lookup_append, List.lookup_append,
    lookup_cons_eq_ite, List.lookup_nil, Option.or_assoc, Option.or_assoc]
  split_ifs <;> rfl

/-- The view of a scope has each of its facts under the key of the fact, if it has it at all. -/
theorem Node.get?_view_facts (h : Head) {f : ScopeFacts} (hf : f.metaclass ≠ some "")
    (cs : List Node) :
    (Node.scope h f cs).view.get? "mixins" = unlessEmpty (f.mixins.map MixinRef.view) ∧
    (Node.scope h f cs).view.get? "type_parameters" = unlessEmpty (f.typeParameters.map .str) ∧
    (Node.scope h f cs).view.get? "helpers" = unlessEmpty (f.helpers.map .str) ∧
    (Node.scope h f cs).view.get? "metaclass" = f.metaclass.map .str ∧
    (Node.scope h f cs).view.get? "children" = some (.list (Node.viewAll cs)) := by
  simp [get?_view_scope, Head.lookup_view, ScopeFacts.lookup_view hf, ScopeKind.lookup_view]

/-! ### From the views back to the nodes -/

theorem Node.typeWord_eq_of_agrees {m n : Node} (h : m.view.Agrees n.view) :
    m.typeWord = n.typeWord := by
  have htype : ∀ n : Node, n.view.get? "type" = some (.str n.typeWord) := by
    rintro (⟨h, d⟩ | ⟨h, f, cs⟩)
    · rw [get?_view_leaf, Head.lookup_view]
      rfl
    · rw [get?_view_scope, Head.lookup_view]
      rfl
  have hget := h.get? "type"
  rw [htype, htype] at hget
  exact Value.str.inj (Option.some.inj hget)

theorem Node.head_same_of_agrees {m n : Node} (hm : m.metaclass? ≠ some "")
    (hn : n.metaclass? ≠ some "") (h : m.view.Agrees n.view) : m.head.Same n.head := by
  have hname : ∀ n : Node, n.view.get? "name" = some (.str n.name) := by
    rintro (⟨h, d⟩ | ⟨h, f, cs⟩)
    · rw [get?_view_leaf, Head.lookup_view]
      rfl
    · rw [get?_view_scope, Head.lookup_view]
      rfl
  have hcomments : ∀ n : Node, n.metaclass? ≠ some "" →
      n.view.get? "comments" = unlessEmpty (n.head.comments.map .str) := by
    rintro (⟨h, d⟩ | ⟨h, f, cs⟩) hf
    · rw [get?_view_leaf, Head.lookup_view]
      cases d <;> simp [Leaf.view, lookup_cons_eq_ite, head]
    · rw [get?_view_scope, Head.lookup_view, ScopeFacts.lookup_view hf,
        ScopeKind.lookup_view (by simp)]
      simp [head]
  have hname' := h.get? "name"
  have hcomments' := h.get? "comments"
  rw [hname, hname] at hname'
  rw [hcomments m hm, hcomments n hn] at hcomments'
  exact ⟨Value.str.inj (Option.some.inj hname'),
    eq_of_map_str (map_sortKeys_of_unlessEmpty hcomments')⟩

theorem MethodKind.word_injective : Function.Injective MethodKind.word := by
  intro k l h
  cases k <;> cases l <;> first | rfl | simp [word] at h

theorem MethodFacts.same_of_agrees {h k : Head} {f g : MethodFacts}
    (hv : (Node.leaf h (.method f)).view.Agrees (Node.leaf k (.method g)).view) : f.Same g := by
  have hget := hv.get?
  simp only [Node.get?_view_leaf, Head.lookup_view, Leaf.view, lookup_cons_eq_ite,
    List.lookup_nil] at hget
  have howner : some (Value.str f.owner) = some (.str g.owner) := hget "owner"
  have hkind : some (Value.str f.kind.word) = some (.str g.kind.word) := hget "kind"
  have hsignature : some (Value.str f.signature) = some (.str g.signature) := hget "signature"
  have hparams : some (Value.list (f.params.map Param.view)).sortKeys =
      some (Value.list (g.params.map Param.view)).sortKeys := hget "params"
  refine ⟨Value.str.inj (Option.some.inj howner), ?_, Value.str.inj (Option.some.inj hsignature),
    MethodKind.word_injective (Value.str.inj (Option.some.inj hkind)),
    ofOptional_inj (hget "return_annotation")⟩
  rw [Value.sortKeys, Value.sortKeys, Option.some.injEq, Value.list.injEq, Json.sortItems_eq_map,
    Json.sortItems_eq_map, List.map_map, List.map_map, ← List.forall₂_eq_eq_eq,
    List.forall₂_map_left_iff, List.forall₂_map_right_iff] at hparams
  exact hparams.imp fun _ _ ↦ Param.same_of_agrees

theorem Leaf.same_of_agrees {h k : Head} {d e : Leaf}
    (hv : (Node.leaf h d).view.Agrees (Node.leaf k e).view) : d.Same e := by
  have hword := Node.typeWord_eq_of_agrees hv
  have hget := hv.get?
  simp only [Node.get?_view_leaf, Head.lookup_view] at hget
  cases d <;> cases e
  case plain.plain => rfl
  case const.const value ascription value' ascription' =>
    have hvalue := ofOptional_inj (hget "value")
    have hascription := ofOptional_inj (hget "annotation")
    rw [hvalue, hascription]
    rfl
  case attribute.attribute ascription default ascription' default' =>
    have hascription : some (Value.str ascription) = some (.str ascription') := hget "annotation"
    have hdefault := ofOptional_inj (hget "default")
    rw [Value.str.inj (Option.some.inj hascription), hdefault]
    rfl
  case method.method => exact MethodFacts.same_of_agrees hv
  all_goals simp [Node.typeWord] at hword

theorem ScopeKind.eq_of_agrees {h k : Head} {f g : ScopeFacts} {cs ds : List Node}
    (hf : f.metaclass ≠ some "") (hg : g.metaclass ≠ some "")
    (hv : (Node.scope h f cs).view.Agrees (Node.scope k g ds).view) : f.kind = g.kind := by
  have hword := Node.typeWord_eq_of_agrees hv
  have hsuperclass := hv.get? "superclass"
  rw [Node.get?_view_scope, Node.get?_view_scope, Head.lookup_view, Head.lookup_view,
    ScopeFacts.lookup_view hf, ScopeFacts.lookup_view hg] at hsuperclass
  cases hfk : f.kind <;> cases hgk : g.kind
  case scope.scope | module.module => rfl
  case class.class =>
    rw [hfk, hgk] at hsuperclass
    exact congrArg ScopeKind.class (ofOptional_inj hsuperclass)
  all_goals simp [Node.typeWord, hfk, hgk] at hword

theorem ScopeFacts.eq_of_agrees {h k : Head} {f g : ScopeFacts} {cs ds : List Node}
    (hf : f.metaclass ≠ some "") (hg : g.metaclass ≠ some "")
    (hv : (Node.scope h f cs).view.Agrees (Node.scope k g ds).view) : f = g := by
  have hkind := ScopeKind.eq_of_agrees hf hg hv
  have hget := hv.get?
  obtain ⟨hm, ht, hh, hc, -⟩ := Node.get?_view_facts h hf cs
  obtain ⟨hm', ht', hh', hc', -⟩ := Node.get?_view_facts k hg ds
  have hmixins : f.mixins = g.mixins := by
    have hviews := map_sortKeys_of_unlessEmpty (hm' ▸ hm ▸ hget "mixins")
    rw [List.map_map, List.map_map] at hviews
    exact List.map_injective_iff.mpr (fun _ _ ↦ MixinRef.eq_of_agrees) hviews
  have htypeParameters : f.typeParameters = g.typeParameters :=
    eq_of_map_str (map_sortKeys_of_unlessEmpty (ht' ▸ ht ▸ hget "type_parameters"))
  have hhelpers : f.helpers = g.helpers :=
    eq_of_map_str (map_sortKeys_of_unlessEmpty (hh' ▸ hh ▸ hget "helpers"))
  have hmetaclass : f.metaclass = g.metaclass := by
    have hnames := hget "metaclass"
    rw [hc, hc', Option.map_map, Option.map_map] at hnames
    exact Option.map_injective (fun _ _ ↦ Value.str.inj) hnames
  cases f
  cases g
  simp_all

/-- All scopes among the nodes and below them that have a metaclass name it. -/
def NamesMetaclasses (ns : List Node) : Prop :=
  ∀ n ∈ Node.preorderAll ns, n.metaclass? ≠ some ""

theorem NamesMetaclasses.cons {n : Node} {ns : List Node} (h : NamesMetaclasses (n :: ns)) :
    n.metaclass? ≠ some "" ∧ NamesMetaclasses n.children ∧ NamesMetaclasses ns := by
  obtain ⟨hn, hns⟩ := List.forall_mem_append.mp h
  obtain ⟨hself, hbelow⟩ := Node.forall_preorder_iff.mp hn
  exact ⟨hself, hbelow, hns⟩

mutual

theorem Node.same_of_agrees : ∀ {m n : Node}, m.metaclass? ≠ some "" →
    NamesMetaclasses m.children → n.metaclass? ≠ some "" → NamesMetaclasses n.children →
    m.view.Agrees n.view → m.Same n
  | .leaf h d, .leaf k e, hm, _, hn, _, hv =>
    ⟨Node.head_same_of_agrees hm hn hv, Leaf.same_of_agrees hv⟩
  | .scope h f cs, .scope k g ds, hm, hcs, hn, hds, hv => by
    have hchildren := hv.get? "children"
    rw [(Node.get?_view_facts h hm cs).2.2.2.2, (Node.get?_view_facts k hn ds).2.2.2.2,
      Option.map_some, Option.map_some, Option.some.injEq] at hchildren
    exact ⟨Node.head_same_of_agrees hm hn hv, ScopeFacts.eq_of_agrees hm hn hv,
      Node.sameAll_of_agrees hcs hds (Value.list.inj hchildren)⟩
  | .leaf h d, .scope k g ds, _, _, _, _, hv => by
    have hword := Node.typeWord_eq_of_agrees hv
    cases d <;> cases hkind : g.kind <;> simp [Node.typeWord, hkind] at hword
  | .scope h f cs, .leaf k e, _, _, _, _, hv => by
    have hword := Node.typeWord_eq_of_agrees hv
    cases e <;> cases hkind : f.kind <;> simp [Node.typeWord, hkind] at hword

theorem Node.sameAll_of_agrees : ∀ {ms ns : List Node}, NamesMetaclasses ms →
    NamesMetaclasses ns →
    Json.sortItems (Node.viewAll ms) = Json.sortItems (Node.viewAll ns) → Node.SameAll ms ns
  | [], [], _, _, _ => trivial
  | m :: ms, n :: ns, hms, hns, hv => by
    obtain ⟨hm, hbelow, hms⟩ := hms.cons
    obtain ⟨hn, hbelow', hns⟩ := hns.cons
    obtain ⟨hhead, htail⟩ := List.cons.inj hv
    exact ⟨Node.same_of_agrees hm hbelow hn hbelow' hhead, Node.sameAll_of_agrees hms hns htail⟩
  | [], _ :: _, _, _, hv | _ :: _, [], _, _, hv => nomatch hv

end

/-! ### From the nodes to the views -/

theorem Leaf.view_eq_of_same {d e : Leaf} (h : d.Same e) : d.view = e.view := by
  cases d <;> cases e <;> simp only [Leaf.Same] at h
  case method.method f g =>
    obtain ⟨howner, hparams, hsignature, hkind, hreturn⟩ := h
    have hviews : f.params.map Param.view = g.params.map Param.view := by
      rw [← List.forall₂_eq_eq_eq, List.forall₂_map_left_iff, List.forall₂_map_right_iff]
      refine hparams.imp fun p q hpq ↦ ?_
      obtain ⟨hname, hkind, hascription, hdefault⟩ := hpq
      rw [Param.view, Param.view, hname, hkind, hascription, hdefault]
    rw [Leaf.view, Leaf.view, howner, hviews, hsignature, hkind, hreturn]
  all_goals first | rfl | (cases h <;> rfl)

theorem Leaf.typeWord_eq_of_same {d e : Leaf} (h : d.Same e) (hd he : Head) :
    (Node.leaf hd d).typeWord = (Node.leaf he e).typeWord := by
  cases d <;> cases e <;> first | rfl | cases h

theorem Head.view_eq_of_same {h k : Head} (hs : h.Same k) (word : String) :
    h.view word = k.view word := by
  rw [Head.view, Head.view, hs.1, hs.2]

mutual

/-- Nodes that declare the same have the same view. -/
theorem Node.view_eq_of_same : ∀ {m n : Node}, m.Same n → m.view = n.view
  | .leaf h d, .leaf k e, ⟨hhead, hdecl⟩ => by
    rw [Node.view, Node.view, Leaf.view_eq_of_same hdecl, Leaf.typeWord_eq_of_same hdecl h k,
      Head.view_eq_of_same hhead]
  | .scope h f cs, .scope k g ds, ⟨hhead, hfacts, hchildren⟩ => by
    subst hfacts
    rw [Node.view, Node.view, Node.viewAll_eq_of_same hchildren, Head.view_eq_of_same hhead]
    rfl

theorem Node.viewAll_eq_of_same : ∀ {ms ns : List Node}, Node.SameAll ms ns →
    Node.viewAll ms = Node.viewAll ns
  | [], [], _ => rfl
  | m :: ms, n :: ns, ⟨hm, hms⟩ => by
    rw [Node.viewAll, Node.viewAll, Node.view_eq_of_same hm, Node.viewAll_eq_of_same hms]

end

/-! ### Views are documents of texts -/

theorem Json.Value.isTextual_ofOptional (s : Option String) : (Value.ofOptional s).IsTextual := by
  cases s <;> trivial

theorem areTextual_map_str (ss : List String) : Json.AreTextual (ss.map Value.str) :=
  Json.areTextual_iff.mpr fun _ hv ↦ by
    obtain ⟨s, -, rfl⟩ := List.mem_map.mp hv
    trivial

theorem MixinRef.isTextual_view (m : MixinRef) : m.view.IsTextual :=
  ⟨by simp, trivial, trivial, trivial⟩

theorem Param.isTextual_view (p : Param) : p.view.IsTextual :=
  ⟨by simp, trivial, trivial, Value.isTextual_ofOptional _, Value.isTextual_ofOptional _, trivial⟩

theorem haveTextual_append {ms ns : List (String × Value)} :
    Json.HaveTextual (ms ++ ns) ↔ Json.HaveTextual ms ∧ Json.HaveTextual ns := by
  rw [Json.haveTextual_iff, Json.haveTextual_iff, Json.haveTextual_iff, List.forall_mem_append]

theorem haveTextual_memberUnlessEmpty {items : List Value} (key : String)
    (h : Json.AreTextual items) : Json.HaveTextual (memberUnlessEmpty key items) := by
  rw [memberUnlessEmpty]
  split
  · trivial
  · exact ⟨h, trivial⟩

theorem keys_memberUnlessEmpty (key : String) (items : List Value) :
    ((memberUnlessEmpty key items).map Prod.fst).Sublist [key] := by
  rw [memberUnlessEmpty]
  split
  · exact List.nil_sublist _
  · exact List.Sublist.refl _

theorem Head.haveTextual_view (word : String) (h : Head) : Json.HaveTextual (h.view word) :=
  haveTextual_append.mpr ⟨⟨trivial, trivial, trivial⟩,
    haveTextual_memberUnlessEmpty _ (areTextual_map_str _)⟩

theorem Head.keys_view (word : String) (h : Head) :
    ((h.view word).map Prod.fst).Sublist ["type", "name", "comments"] := by
  rw [Head.view, List.map_append]
  exact (List.Sublist.refl _).append (keys_memberUnlessEmpty _ _)

theorem Leaf.haveTextual_view (d : Leaf) : Json.HaveTextual d.view := by
  have hopt := Value.isTextual_ofOptional
  cases d with
  | plain => trivial
  | const value ascription => exact ⟨hopt _, hopt _, trivial⟩
  | «attribute» ascription default => exact ⟨trivial, hopt _, trivial⟩
  | method f =>
    refine ⟨trivial, trivial, trivial, Json.areTextual_iff.mpr ?_, hopt _, trivial⟩
    exact List.forall_mem_map.mpr fun p _ ↦ p.isTextual_view

theorem ScopeFacts.haveTextual_view (f : ScopeFacts) : Json.HaveTextual f.view := by
  have hmixins : Json.AreTextual (f.mixins.map MixinRef.view) :=
    Json.areTextual_iff.mpr <| List.forall_mem_map.mpr fun m _ ↦ m.isTextual_view
  refine haveTextual_append.mpr ⟨haveTextual_append.mpr ⟨haveTextual_append.mpr
    ⟨haveTextual_memberUnlessEmpty _ hmixins,
      haveTextual_memberUnlessEmpty _ (areTextual_map_str _)⟩,
    haveTextual_memberUnlessEmpty _ (areTextual_map_str _)⟩, ?_⟩
  split
  · split
    · trivial
    · exact ⟨trivial, trivial⟩
  · trivial

theorem ScopeFacts.keys_view (f : ScopeFacts) :
    (f.view.map Prod.fst).Sublist ["mixins", "type_parameters", "helpers", "metaclass"] := by
  rw [ScopeFacts.view, List.map_append, List.map_append, List.map_append]
  refine (((keys_memberUnlessEmpty _ _).append (keys_memberUnlessEmpty _ _)).append
    (keys_memberUnlessEmpty _ _)).append ?_
  split
  · split
    · exact List.nil_sublist _
    · exact List.Sublist.refl _
  · exact List.nil_sublist _

/-- No key comes twice in the view of a leaf. -/
theorem Node.nodup_keys_leaf (word : String) (h : Head) (d : Leaf) :
    ((h.view word ++ d.view).map Prod.fst).Nodup := by
  rw [List.map_append]
  cases d <;> exact ((Head.keys_view word h).append_right _).nodup (by simp [Leaf.view])

/-- No key comes twice in the view of a scope. -/
theorem Node.nodup_keys_scope (word : String) (h : Head) (f : ScopeFacts) (children : Value) :
    ((h.view word ++ f.view ++ [("children", children)] ++ f.kind.view).map Prod.fst).Nodup := by
  rw [List.map_append, List.map_append, List.map_append]
  have hkeys := ((Head.keys_view word h).append f.keys_view).append_right ["children"]
  cases f.kind <;> exact (hkeys.append_right _).nodup (by simp [ScopeKind.view])

mutual

theorem Node.isTextual_view : ∀ n : Node, n.view.IsTextual
  | .leaf h d => ⟨Node.nodup_keys_leaf _ h d,
      haveTextual_append.mpr ⟨Head.haveTextual_view _ h, d.haveTextual_view⟩⟩
  | .scope h f cs => by
    rw [Node.view]
    refine ⟨Node.nodup_keys_scope _ h f _, haveTextual_append.mpr ⟨haveTextual_append.mpr
      ⟨haveTextual_append.mpr ⟨Head.haveTextual_view _ h, f.haveTextual_view⟩,
        Node.areTextual_viewAll cs, trivial⟩, ?_⟩⟩
    cases f.kind with
    | «class» superclass => exact ⟨Value.isTextual_ofOptional superclass, trivial⟩
    | _ => trivial

theorem Node.areTextual_viewAll : ∀ ns : List Node, Json.AreTextual (Node.viewAll ns)
  | [] => trivial
  | n :: ns => ⟨n.isTextual_view, Node.areTextual_viewAll ns⟩

end

/-! ### The text of a tree -/

namespace Tree

variable {t u : Tree}

theorem isTextual_view (t : Tree) : t.view.IsTextual :=
  ⟨by simp, Node.areTextual_viewAll t.roots, trivial⟩

/-- The views of two trees agree exactly when the trees declare the same. -/
theorem agrees_view_iff (ht : ∀ n ∈ t.walk, n.metaclass? ≠ some "")
    (hu : ∀ n ∈ u.walk, n.metaclass? ≠ some "") : t.view.Agrees u.view ↔ t.Same u := by
  refine ⟨fun h ↦ ?_, fun h ↦ ?_⟩
  · have hnodes : some (Value.list (Node.viewAll t.roots)).sortKeys =
        some (Value.list (Node.viewAll u.roots)).sortKeys := h.get? "nodes"
    rw [Value.sortKeys, Value.sortKeys, Option.some.injEq, Value.list.injEq] at hnodes
    exact Node.sameAll_of_agrees (forall_walk_iff.mp ht) (forall_walk_iff.mp hu) hnodes
  · rw [Value.Agrees, view, view, Node.viewAll_eq_of_same h]

/-- **The view tells trees apart.** Let every scope of two trees that has a metaclass name it. Then
the texts of the trees are the same exactly when the trees are, node for node and in order; the index
of scopes and what was taken out of a tree play no part. The same holds of whatever is written in
place of the text, as long as it is the same for two documents exactly when they agree. -/
theorem text_eq_iff_same (ht : ∀ n ∈ t.walk, n.metaclass? ≠ some "")
    (hu : ∀ n ∈ u.walk, n.metaclass? ≠ some "") :
    (t.text = u.text ↔ t.Same u) ∧
      ∀ {α : Type} (write : Value → α), Json.Separates write →
        (write t.view = write u.view ↔ t.Same u) := by
  have hwrite : ∀ {α : Type} (write : Value → α), Json.Separates write →
      (write t.view = write u.view ↔ t.Same u) := fun write hwrite ↦
    (hwrite t.view u.view t.isTextual_view u.isTextual_view).trans (agrees_view_iff ht hu)
  exact ⟨hwrite Value.text Json.separates_text, hwrite⟩

/-- Two constants below a class with a metaclass, numbered from an identity on, in the index or
not. -/
def ofConstants (first : NodeId) (index : List (String × NodeId)) (names : List String) : Tree where
  roots := [.scope ⟨first, "pkg.Color", []⟩ ⟨.class none, [], [], [], some "enum.EnumType"⟩
    (names.mapIdx fun k name ↦ .leaf ⟨first + k + 1, name, []⟩ (.const (some "1") none))]
  index

/-- The text counts neither the identities nor the index, but it counts the order of the nodes. -/
theorem text_ofConstants :
    (ofConstants 0 [("pkg.Color", 0)] ["pkg.Color.RED", "pkg.Color.BLUE"]).text =
        (ofConstants 7 [] ["pkg.Color.RED", "pkg.Color.BLUE"]).text ∧
      (ofConstants 0 [] ["pkg.Color.RED", "pkg.Color.BLUE"]).text ≠
        (ofConstants 0 [] ["pkg.Color.BLUE", "pkg.Color.RED"]).text := by
  refine ⟨(text_eq_iff_same (by decide) (by decide)).1.mpr ?_,
    (text_eq_iff_same (by decide) (by decide)).1.not.mpr ?_⟩
  · simp [Same, ofConstants, Node.Same, Node.SameAll, Head.Same, Leaf.Same]
  · simp [Same, ofConstants, Node.Same, Node.SameAll, Head.Same, Leaf.Same]

end Tree

end DeclClosure

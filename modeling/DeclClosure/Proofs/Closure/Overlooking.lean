import DeclClosure.Proofs.Closure.Acts
import DeclClosure.Proofs.Tree.Comments

/-!
# Nothing depends on comments

A program overlooks comments if clearing them beforehand changes nothing but that they are cleared
afterwards (`Run.Overlooks`). Verdicts overlook them, and so does every listener but the one that
documents (`Run.tell_overlooks`): listeners look at the announced node, but for its identity, its names
and whether it is empty, which comments have no part in.
-/

namespace DeclClosure.Closure

/-- The state with all comments cleared. -/
def State.uncommented (s : State) : State :=
  { s with tree := s.tree.uncommented }

namespace State

variable (s : State) (kind : NodeKind) (name : String)

/-- A new node has no comments. -/
theorem uncommented_attach (o : Object) {node : NodeId → Node}
    (hnode : (node s.nextNode).uncommented = node s.nextNode) :
    (s.attach kind name o node).uncommented = s.uncommented.attach kind name o node := by
  have htree := s.tree.uncommented_add (node s.nextNode)
  rw [hnode] at htree
  simp only [attach, uncommented]
  rw [htree]

theorem uncommented_closeNamespace :
    (s.closeNamespace name).uncommented = s.uncommented.closeNamespace name := by
  have haliases : s.uncommented.aliases = s.aliases := rfl
  simp only [closeNamespace]
  rw [haliases]
  split <;> rfl

/-- What is made of an object does not depend on comments, and has none. -/
theorem uncommented_enact (o : Object) (v : Verdict) :
    (s.enact kind name o v).uncommented = s.uncommented.enact kind name o v := by
  match v with
  | .drop _ => rfl
  | .const announced value ascription =>
    simp only [enact, attachConst]
    exact s.uncommented_attach _ _ _ rfl
  | .alias target shown =>
    simp only [enact, attachConst]
    rw [← uncommented_closeNamespace]
    split
    · exact uncommented_attach _ _ _ _ rfl
    · rfl
  | .scope k =>
    simp only [enact, attachScope]
    rw [uncommented_attach _ _ _ _ rfl]
    cases k.superclass? <;> rfl

end State

namespace Run

variable {α β : Type} {c : Setting} {a : Announcement}

/-- Run with and without comments, the program comes to the same answer, and to the same state once
comments are cleared. -/
abbrev Overlooks (m : Run α) : Prop :=
  Alike (fun s t ↦ t = s.uncommented) m m

/-! ### Basic steps -/

/-- What is read of the state is no comment. -/
theorem get_overlooks {f : State → Run α} (hf : ∀ s, f s.uncommented = f s)
    (h : ∀ s, Overlooks (f s)) : Overlooks (get >>= f) := by
  refine Alike.get_bind ?_
  rintro s _ rfl
  rw [hf]
  exact h s

theorem modify_overlooks {f : State → State} (hf : ∀ s, (f s).uncommented = f s.uncommented) :
    Overlooks (modify f : Run Unit) := by
  refine Alike.modify ?_
  rintro s _ rfl
  exact (hf s).symm

theorem note_overlooks (n : Note) : Overlooks (note n) :=
  modify_overlooks fun _ ↦ rfl

theorem push_overlooks (e : Event) : Overlooks (push e) :=
  modify_overlooks fun _ ↦ rfl

theorem ask_overlooks (q : Query α) : Overlooks (ask q) := by
  rintro s _ rfl
  have hworld : s.uncommented.world = s.world := rfl
  simp only [ask]
  rw [hworld]
  rcases q s.world with ⟨_ | _, w⟩ <;> exact ⟨rfl, rfl⟩

theorem nameOf_overlooks (o : Object) : Overlooks (nameOf o) :=
  ask_overlooks _

theorem typeText_overlooks (o : Object) : Overlooks (typeText o) :=
  ask_overlooks _

theorem modifyNode_overlooks (id : NodeId) {f : Node → Node} (hf : Node.Overlooks f) :
    Overlooks (modifyNode id f) :=
  modify_overlooks fun s ↦ congrArg (fun tree ↦ { s with tree }) (s.tree.uncommented_modify hf id)

/-! ### The announced node -/

/-- What is read of the announced node is no comment. -/
theorem nodeOf_overlooks {wanted : String} {f : Node → Run α} (hf : ∀ n, f n.uncommented = f n)
    (h : ∀ n, Overlooks (f n)) : Overlooks (nodeOf a wanted >>= f) := by
  rintro s _ rfl
  have hnode : a.node.bind s.uncommented.tree.node? =
      (a.node.bind s.tree.node?).map Node.uncommented := by
    cases a.node with
    | none => rfl
    | some id => exact s.tree.node?_uncommented id
  simp only [nodeOf]
  rw [bind_assoc, run_get_bind, run_get_bind, hnode]
  cases a.node.bind s.tree.node? with
  | none => exact ⟨rfl, rfl⟩
  | some n =>
    simp only [Option.map_some]
    rw [pure_bind, pure_bind, hf]
    exact h n s s.uncommented rfl

theorem scopeOf_overlooks {wanted : String} {f : Node → Run α} (hf : ∀ n, f n.uncommented = f n)
    (h : ∀ n, Overlooks (f n)) : Overlooks (scopeOf a wanted >>= f) := by
  simp only [scopeOf]
  rw [bind_assoc]
  refine nodeOf_overlooks (fun n ↦ ?_) fun n ↦ ?_
  · rw [Node.isScope_uncommented, Node.ofNode_uncommented]
    split
    · rw [pure_bind, pure_bind, hf]
    · rfl
  · split
    · rw [pure_bind]
      exact h n
    · exact (Alike.throw _).bind h

theorem freshNode_overlooks : Overlooks freshNode := by
  rintro s _ rfl
  exact ⟨rfl, rfl⟩

/-- What is listed has no comments. -/
theorem addChild_overlooks {child : NodeId → Node}
    (hchild : ∀ id, (child id).uncommented = child id) : Overlooks (addChild a child) := by
  refine scopeOf_overlooks (fun n ↦ by rw [Node.id_uncommented]) fun n ↦ ?_
  refine freshNode_overlooks.bind fun id ↦ (modify_overlooks fun s ↦ ?_).bind fun _ ↦ Alike.pure _
  show { s with tree := (s.tree.addUnder n.id (child id)).uncommented } = _
  rw [s.tree.uncommented_addUnder, hchild]
  rfl

/-! ### Verdicts -/

theorem definedInUnit_overlooks (o : Object) (strict : Bool) :
    Overlooks (definedInUnit c o strict) := by
  refine (ask_overlooks _).bind fun files ↦ get_overlooks (fun _ ↦ rfl) fun s ↦ ?_
  exact Alike.ite (Alike.pure _) (Alike.pure _)

theorem classify_overlooks (name : String) (o : Object) : Overlooks (classify name o) := by
  refine get_overlooks (fun _ ↦ rfl) fun s ↦ Alike.ite (Alike.pure _) ?_
  exact (nameOf_overlooks o).bind fun _ ↦ Alike.ite (Alike.pure _) (Alike.pure _)

theorem anonymousText_overlooks (name : String) (o : Object) :
    Overlooks (anonymousText name o) := by
  refine get_overlooks (fun _ ↦ rfl) fun s ↦ Alike.ite (Alike.pure _) ?_
  exact (nameOf_overlooks _).bind fun _ ↦ Alike.pure _

theorem judgeAlias_overlooks (name : String) (o : Object) : Overlooks (judgeAlias c name o) := by
  refine Alike.ite (Alike.pure _) ((nameOf_overlooks o).bind fun target ↦ ?_)
  cases nonempty target with
  | some t => exact Alike.pure _
  | none => exact (anonymousText_overlooks name o).bind fun _ ↦ Alike.pure _

theorem genericName_overlooks (cls : Object) : Overlooks (genericName cls) := by
  refine (nameOf_overlooks cls).bind fun name ↦ ?_
  cases name with
  | none => exact Alike.pure _
  | some name =>
    refine (ask_overlooks _).bind fun params ↦ ?_
    cases params <;> exact Alike.pure _

theorem classText_overlooks (cls : Object) : Overlooks (classText cls) := by
  simp only [classText]
  split
  · exact Alike.pure _
  · exact genericName_overlooks cls

theorem judgeValue_overlooks (name : String) (o : Object) : Overlooks (judgeValue c name o) := by
  refine Alike.ite (Alike.pure _) (get_overlooks (fun _ ↦ rfl) fun s ↦ ?_)
  refine Alike.ite (Alike.pure _) (Alike.ite ?_ ?_)
  · exact (ask_overlooks _).bind fun _ ↦ Alike.pure _
  · refine (classText_overlooks _).bind fun text ↦ ?_
    exact Alike.ite (Alike.pure _) (Alike.pure _)

theorem verifiedSuperclass_overlooks (fuel : Nat) (o : Object) :
    Overlooks (verifiedSuperclass fuel o) := by
  induction fuel generalizing o with
  | zero => exact Alike.pure _
  | succ fuel ih =>
    refine get_overlooks (fun _ ↦ rfl) fun s ↦ ?_
    cases s.world.superclass? o with
    | none => exact Alike.pure _
    | some superclass =>
      refine (nameOf_overlooks o).bind fun name ↦ (nameOf_overlooks superclass).bind fun found ↦ ?_
      cases nonempty found with
      | none => exact ih superclass
      | some superclassName =>
        refine (ask_overlooks _).bind fun found ↦ ?_
        cases found with
        | none => exact ih superclass
        | some found =>
          refine get_overlooks (fun _ ↦ rfl) fun t ↦ Alike.ite (ih superclass) ?_
          exact (nameOf_overlooks found).bind fun _ ↦ Alike.ite (ih superclass) (Alike.pure _)

theorem superclassName_overlooks (o : Object) : Overlooks (superclassName c o) := by
  refine get_overlooks (fun _ ↦ rfl) fun s ↦ (verifiedSuperclass_overlooks _ o).bind fun found ↦ ?_
  cases found with
  | none => exact Alike.pure _
  | some superclass =>
    refine Alike.ite (Alike.pure _) ((nameOf_overlooks superclass).bind fun name ↦ ?_)
    exact Alike.ite (Alike.pure _) ((nameOf_overlooks superclass).bind fun _ ↦ Alike.pure _)

theorem judgeScope_overlooks (o : Object) : Overlooks (judgeScope c o) :=
  get_overlooks (fun _ ↦ rfl) fun _ ↦
    Alike.ite ((superclassName_overlooks o).bind fun _ ↦ Alike.pure _) (Alike.pure _)

theorem judgeNamespace_overlooks (name : String) (o : Object) :
    Overlooks (judgeNamespace c name o) := by
  refine get_overlooks (fun _ ↦ rfl) fun s ↦ Alike.ite (Alike.pure _) ?_
  refine (definedInUnit_overlooks o _).bind fun defined ↦ Alike.ite (judgeScope_overlooks o) ?_
  exact (note_overlooks _).bind fun _ ↦ Alike.pure _

theorem judgeConstant_overlooks (name : String) (o : Object) :
    Overlooks (judgeConstant c name o) := by
  refine (classify_overlooks name o).bind fun kind ↦ ?_
  match kind with
  | .alias => exact judgeAlias_overlooks name o
  | .scope => exact judgeNamespace_overlooks name o
  | .value => exact judgeValue_overlooks name o

theorem judgeForeign_overlooks (o : Object) : Overlooks (judgeForeign c o) :=
  get_overlooks (fun _ ↦ rfl) fun _ ↦ Alike.ite (Alike.pure _) (judgeScope_overlooks o)

/-! ### Symbols and objects -/

theorem onSymbol_overlooks (name : String) : Overlooks (onSymbol c name) := by
  refine Alike.ite (note_overlooks _) ((ask_overlooks _).bind fun found ↦ ?_)
  cases found with
  | none => exact note_overlooks _
  | some o => exact push_overlooks _

theorem onConstant_overlooks {judge : String → Object → Run Verdict}
    (hjudge : ∀ name o, Overlooks (judge name o)) (kind : NodeKind) (name : String) (o : Object) :
    Overlooks (onConstant kind judge name o) := by
  refine get_overlooks (fun _ ↦ rfl) fun s ↦ ?_
  split
  · exact note_overlooks _
  · refine (modify_overlooks (f := fun s ↦ s.markSeen _) fun _ ↦ rfl).bind fun _ ↦ ?_
    exact (hjudge _ o).bind fun v ↦ modify_overlooks fun t ↦ t.uncommented_enact kind _ o v

/-! ### Facts about classes -/

theorem pushType_overlooks (o : Object) : Overlooks (pushType o) := by
  refine get_overlooks (fun _ ↦ rfl) fun s ↦ Alike.ite ?_ (Alike.pure _)
  refine (nameOf_overlooks o).bind fun name ↦ ?_
  cases nonempty name with
  | some name => exact push_overlooks _
  | none => exact Alike.pure _

theorem recordTypeParameter_overlooks (param : Object) :
    Overlooks (recordTypeParameter a param) := by
  refine get_overlooks (fun _ ↦ rfl) fun s ↦ ?_
  dsimp only
  cases nonempty ((s.world.attr? param "__name__").bind Object.text?) with
  | none => exact Alike.pure _
  | some name =>
    refine scopeOf_overlooks (fun n ↦ ?_) fun n ↦ Alike.ite (Alike.pure _) ?_
    · rw [Node.typeParameters_uncommented, Node.id_uncommented]
    · refine (modifyNode_overlooks _ (Node.overlooks_mapFacts _)).bind fun _ ↦ ?_
      cases nonempty ((s.world.attr? param "__module__").bind Object.text?) with
      | some home => exact Alike.ite (push_overlooks _) (Alike.pure _)
      | none => exact Alike.pure _

theorem recordTypeParameters_overlooks : Overlooks (recordTypeParameters a) := by
  refine get_overlooks (fun _ ↦ rfl) fun s ↦ Alike.ite ?_ (Alike.pure _)
  refine (ask_overlooks _).bind fun params ↦ ?_
  exact Alike.forM fun param _ ↦ recordTypeParameter_overlooks param

theorem recordMetaclass_overlooks : Overlooks (recordMetaclass a) := by
  refine get_overlooks (fun _ ↦ rfl) fun s ↦ ?_
  refine Alike.ite (Alike.pure _) (Alike.ite (Alike.pure _) (Alike.ite (Alike.pure _) ?_))
  refine (nameOf_overlooks _).bind fun name ↦ ?_
  cases nonempty name with
  | none => exact Alike.pure _
  | some name =>
    refine Alike.ite (Alike.pure _) ((push_overlooks _).bind fun _ ↦ ?_)
    exact nodeOf_overlooks (fun n ↦ by rw [Node.id_uncommented]) fun n ↦
      modifyNode_overlooks _ (Node.overlooks_mapFacts _)

theorem recordMarkers_overlooks : Overlooks (recordMarkers a) := by
  refine get_overlooks (fun _ ↦ rfl) fun s ↦ Alike.ite ?_ (Alike.pure _)
  refine scopeOf_overlooks (fun n ↦ by rw [Node.id_uncommented]) fun n ↦ ?_
  exact Alike.forM fun m _ ↦ modifyNode_overlooks _ (Node.overlooks_mapFacts _)

/-! ### Compositions -/

theorem recordMixin_overlooks (kind : MixinKind) (mixin : Object) :
    Overlooks (recordMixin a kind mixin) := by
  refine (nameOf_overlooks mixin).bind fun name ↦ ?_
  cases nonempty name with
  | none => exact Alike.pure _
  | some name =>
    refine Alike.ite (Alike.pure _) ((push_overlooks _).bind fun _ ↦ ?_)
    exact scopeOf_overlooks (fun n ↦ by rw [Node.id_uncommented]) fun n ↦
      modifyNode_overlooks _ (Node.overlooks_mapFacts _)

theorem recordTracked_overlooks (kind : MixinKind) : Overlooks (recordTracked c a kind) :=
  get_overlooks (fun _ ↦ rfl) fun _ ↦ Alike.forM fun t _ ↦ recordMixin_overlooks kind t.mixin

theorem recordMixins_overlooks : Overlooks (recordMixins c a) := by
  have rest : Overlooks (recordTracked c a .include >>= fun _ ↦ recordTracked c a .extend) :=
    (recordTracked_overlooks .include).bind fun _ ↦ recordTracked_overlooks .extend
  refine (recordTracked_overlooks .prepend).bind fun _ ↦ get_overlooks (fun _ ↦ rfl) fun s ↦ ?_
  exact Alike.ite ((Alike.forM fun b _ ↦ recordMixin_overlooks .include b).bind fun _ ↦ rest) rest

theorem pushTargets_overlooks : Overlooks (pushTargets c a) := by
  refine get_overlooks (fun _ ↦ rfl) fun s ↦ Alike.forM fun r _ ↦ ?_
  refine (nameOf_overlooks r.target).bind fun name ↦ ?_
  cases nonempty name with
  | some name => exact push_overlooks _
  | none => exact Alike.pure _

/-! ### Members -/

theorem addMethod_overlooks (name : String) (callable : Object) (kind : MethodKind) :
    Overlooks (addMethod a name callable kind) := by
  refine (ask_overlooks _).bind fun signature ↦ get_overlooks (fun _ ↦ rfl) fun s ↦ ?_
  exact (addChild_overlooks fun _ ↦ rfl).bind fun _ ↦ push_overlooks _

theorem addMethods_overlooks : Overlooks (addMethods c a) := by
  refine get_overlooks (fun _ ↦ rfl) fun s ↦ Alike.forM fun m _ ↦ ?_
  exact get_overlooks (fun _ ↦ rfl) fun t ↦
    Alike.ite (addMethod_overlooks _ _ _) (Alike.pure _)

theorem addEnumMembers_overlooks : Overlooks (addEnumMembers a) :=
  get_overlooks (fun _ ↦ rfl) fun _ ↦ Alike.forM fun _ _ ↦
    (addChild_overlooks fun _ ↦ rfl).bind fun _ ↦ Alike.pure _

theorem addFields_overlooks : Overlooks (addFields a) := by
  refine get_overlooks (fun _ ↦ rfl) fun s ↦ Alike.ite (Alike.pure _) ?_
  refine (ask_overlooks _).bind fun fields ↦ Alike.forM fun f _ ↦ ?_
  refine (typeText_overlooks _).bind fun text ↦ ?_
  exact (addChild_overlooks fun _ ↦ rfl).bind fun _ ↦ pushType_overlooks _

theorem writeParamType_overlooks (node : NodeId) (p : FunctionParam) :
    Overlooks (writeParamType node p) := by
  simp only [writeParamType]
  cases p.ascription with
  | none => exact Alike.pure _
  | some type =>
    refine (typeText_overlooks type).bind fun text ↦ ?_
    exact (modifyNode_overlooks node (Node.overlooks_mapMethod _)).bind fun _ ↦
      pushType_overlooks type

theorem writeTypes_overlooks : Overlooks (writeTypes a) := by
  simp only [writeTypes]
  split
  · next s node _ _ =>
    refine (Alike.forM fun p _ ↦ writeParamType_overlooks node p).bind fun _ ↦ ?_
    cases s.returns with
    | none => exact Alike.pure _
    | some type =>
      refine (typeText_overlooks type).bind fun text ↦ ?_
      exact (modifyNode_overlooks node (Node.overlooks_mapMethod _)).bind fun _ ↦
        pushType_overlooks type
  · exact Alike.pure _

theorem isPayloadImport_overlooks (name : String) (o : Object) :
    Overlooks (isPayloadImport c name o) := by
  refine get_overlooks (fun _ ↦ rfl) fun s ↦ Alike.ite ?_ (Alike.pure _)
  refine (nameOf_overlooks o).bind fun target ↦ ?_
  cases target <;> exact Alike.pure _

theorem pushSubconstant_overlooks (constant : String) :
    Overlooks (pushSubconstant c a constant) := by
  refine (ask_overlooks _).bind fun found ↦ ?_
  cases found with
  | none => exact Alike.pure _
  | some o =>
    exact (isPayloadImport_overlooks constant o).bind fun _ ↦
      Alike.ite (push_overlooks _) (Alike.pure _)

/-- Whether the scope is empty does not depend on comments. -/
theorem pushSubconstants_overlooks : Overlooks (pushSubconstants c a) := by
  have all : Overlooks (do ((← get).world.constantsOf a.value).forM (pushSubconstant c a)) :=
    get_overlooks (fun _ ↦ rfl) fun _ ↦ Alike.forM fun x _ ↦ pushSubconstant_overlooks x
  refine Alike.ite (scopeOf_overlooks (fun n ↦ ?_) fun n ↦ Alike.ite (Alike.pure _) all) all
  rw [Node.isEmpty_uncommented]

theorem removeIfEmpty_overlooks : Overlooks (removeIfEmpty c a) := by
  refine Alike.ite (scopeOf_overlooks (fun n ↦ ?_) fun n ↦ Alike.ite ?_ (Alike.pure _))
    (Alike.pure _)
  · rw [Node.isEmpty_uncommented, Node.id_uncommented]
  · exact modify_overlooks fun s ↦
      congrArg (fun tree ↦ { s with tree }) (s.tree.uncommented_remove n.id)

/-! ### Listeners -/

theorem onScope_overlooks {l : Listener} (hl : l ≠ .documentation) :
    Overlooks (onScope c a l) := by
  cases l with
  | typeVariables => exact recordTypeParameters_overlooks
  | mixins => exact recordMixins_overlooks
  | metaclass => exact recordMetaclass_overlooks
  | methods => exact addMethods_overlooks
  | helpers => exact recordMarkers_overlooks
  | enums => exact addEnumMembers_overlooks
  | fields => exact addFields_overlooks
  | subconstants => exact pushSubconstants_overlooks
  | documentation => exact absurd rfl hl
  | foreignConstants => exact pushTargets_overlooks
  | removeEmptyPayloadScopes => exact removeIfEmpty_overlooks
  | signatures | recorder => exact Alike.pure _

theorem onMethod_overlooks {l : Listener} (hl : l ≠ .documentation) :
    Overlooks (onMethod a l) := by
  cases l with
  | signatures => exact writeTypes_overlooks
  | documentation => exact absurd rfl hl
  | _ => exact Alike.pure _

theorem keepRecord_overlooks (name : String) (r : Recorder) (callback : Callback) :
    Overlooks (keepRecord name r callback) := by
  refine (modify_overlooks (f := fun s ↦ s.keep (name, callback)) fun _ ↦ rfl).bind fun _ ↦ ?_
  exact Alike.ite (Alike.throw _) (Alike.pure _)

/-- Every listener but the one that documents overlooks comments. -/
theorem tell_overlooks (name : String) {l : Listener} (hl : l ≠ .documentation) :
    Overlooks (tell c a name l) := by
  simp only [tell]
  split
  · exact Alike.pure _
  · split
    · exact keepRecord_overlooks _ _ _
    · exact onScope_overlooks hl
    · exact onMethod_overlooks hl
    · exact Alike.pure _

end Run

end DeclClosure.Closure

import Mathlib.Order.Defs.Unbundled

/-!
# What programs do to their state

A program that may fail keeps what it changed before it failed. `Moves R m` says that `m` leads
every state to one that is related to it by `R`, whether it succeeds or fails. For a reflexive and
transitive relation this follows the structure of the program, so it is enough to look at its
primitive steps.

What a program does after it has obtained a value may depend on that value; `Moves.bind_of` hands
the equation of the first run on to the second program. `Yields P m` says that every value that `m`
gives satisfies `P`.

Two programs may be run side by side: `Alike R m m'` says that from related states they come to the
same answer, and to related states again.
-/

namespace DeclClosure

variable {ε σ α β γ : Type} {R : σ → σ → Prop}

/-- Whether the program succeeds or fails, the state that it ends in is related to the state that it
starts from. -/
def Moves (R : σ → σ → Prop) (m : ExceptT ε (StateM σ) α) : Prop :=
  ∀ s, R s (m s).2

/-- One program after the other: the second one runs only if the first one succeeds. -/
theorem run_bind (m : ExceptT ε (StateM σ) α) (f : α → ExceptT ε (StateM σ) β) (s : σ) :
    (m >>= f) s = match m s with
      | (.ok a, t) => f a t
      | (.error e, t) => (.error e, t) := by
  change (match m s with | (r, t) => ExceptT.bindCont f r t) = _
  rcases m s with ⟨_ | _, _⟩ <;> rfl

theorem run_bind_ok {m : ExceptT ε (StateM σ) α} {f : α → ExceptT ε (StateM σ) β} {s t : σ} {a : α}
    (h : m s = (.ok a, t)) : (m >>= f) s = f a t := by
  rw [run_bind, h]

theorem run_bind_error {m : ExceptT ε (StateM σ) α} {f : α → ExceptT ε (StateM σ) β} {s t : σ}
    {e : ε} (h : m s = (.error e, t)) : (m >>= f) s = (.error e, t) := by
  rw [run_bind, h]

/-- A run of two programs that succeeds is made of two runs that succeed. -/
theorem run_bind_eq_ok_iff {m : ExceptT ε (StateM σ) α} {f : α → ExceptT ε (StateM σ) β} {s u : σ}
    {b : β} : (m >>= f) s = (.ok b, u) ↔ ∃ a t, m s = (.ok a, t) ∧ f a t = (.ok b, u) := by
  rw [run_bind]
  rcases m s with ⟨_ | a, t⟩
  · constructor
    · intro h
      cases h
    · rintro ⟨_, _, h, -⟩
      cases h
  · constructor
    · exact fun h ↦ ⟨a, t, rfl, h⟩
    · rintro ⟨_, _, h, hf⟩
      cases h
      exact hf

theorem run_map (f : α → β) (m : ExceptT ε (StateM σ) α) (s : σ) :
    (f <$> m) s = match m s with
      | (.ok a, t) => (.ok (f a), t)
      | (.error e, t) => (.error e, t) := by
  change (match m s with
    | (r, t) => (match r with | .ok a => Pure.pure (.ok (f a)) | .error e => Pure.pure (.error e) :
      StateM σ (Except ε β)) t) = _
  rcases m s with ⟨_ | _, _⟩ <;> rfl

/-- A program with a handler: the handler only runs if the program fails, from where it failed. -/
theorem run_tryCatch (m : ExceptT ε (StateM σ) α) (h : ε → ExceptT ε (StateM σ) α) (s : σ) :
    (tryCatch m h : ExceptT ε (StateM σ) α) s = match m s with
      | (.ok a, t) => (.ok a, t)
      | (.error e, t) => h e t := by
  change (match m s with
    | (r, t) => (match r with | .ok a => Pure.pure (Except.ok a) | .error e => h e :
      StateM σ (Except ε α)) t) = _
  rcases m s with ⟨_ | _, _⟩ <;> rfl

theorem run_get_bind (f : σ → ExceptT ε (StateM σ) β) (s : σ) : (get >>= f) s = f s s := rfl

namespace Moves

theorem mono {R' : σ → σ → Prop} {m : ExceptT ε (StateM σ) α} (h : Moves R m)
    (hR : ∀ s t, R s t → R' s t) : Moves R' m :=
  fun s ↦ hR s _ (h s)

theorem modify {f : σ → σ} (h : ∀ s, R s (f s)) :
    Moves R (modify f : ExceptT ε (StateM σ) PUnit) :=
  h

theorem ite {c : Prop} [Decidable c] {m m' : ExceptT ε (StateM σ) α} (hm : Moves R m)
    (hm' : Moves R m') : Moves R (if c then m else m') := by
  split
  · exact hm
  · exact hm'

/-- Two branches that go on in the same way. -/
theorem join {c : Prop} [Decidable c] {m m' : ExceptT ε (StateM σ) α}
    {f : β → ExceptT ε (StateM σ) γ} (hf : ∀ b, Moves R (f b))
    (hm : (∀ b, Moves R (f b)) → Moves R m) (hm' : (∀ b, Moves R (f b)) → Moves R m') :
    Moves R (if c then m else m') :=
  ite (hm hf) (hm' hf)

section Preorder

variable [IsPreorder σ R]

theorem pure (a : α) : Moves R (pure a : ExceptT ε (StateM σ) α) :=
  fun s ↦ refl_of R s

theorem throw (e : ε) : Moves R (throw e : ExceptT ε (StateM σ) α) :=
  fun s ↦ refl_of R s

theorem get : Moves R (get : ExceptT ε (StateM σ) σ) :=
  fun s ↦ refl_of R s

/-- The second program is only run from where the first one ends, with the value that it gives. -/
theorem bind_of {m : ExceptT ε (StateM σ) α} {f : α → ExceptT ε (StateM σ) β} (hm : Moves R m)
    (hf : ∀ s a t, m s = (.ok a, t) → R t (f a t).2) : Moves R (m >>= f) := by
  intro s
  have hs := hm s
  rw [run_bind]
  rcases h : m s with ⟨_ | a, t⟩
  · rwa [h] at hs
  · rw [h] at hs
    exact trans_of R hs (hf s a t h)

theorem bind {m : ExceptT ε (StateM σ) α} {f : α → ExceptT ε (StateM σ) β} (hm : Moves R m)
    (hf : ∀ a, Moves R (f a)) : Moves R (m >>= f) :=
  hm.bind_of fun _ a t _ ↦ hf a t

/-- A program that starts by changing the state and goes on with what the state was. -/
theorem get_set_bind {g : σ → σ} {f : σ → ExceptT ε (StateM σ) β} (hg : ∀ s, R s (g s))
    (hf : ∀ s, Moves R (f s)) :
    Moves R (MonadState.get >>= fun s ↦ MonadStateOf.set (g s) >>= fun _ ↦ f s) :=
  fun s ↦ trans_of R (hg s) (hf s (g s))

theorem map {m : ExceptT ε (StateM σ) α} (f : α → β) (hm : Moves R m) : Moves R (f <$> m) :=
  hm.bind fun _ ↦ Moves.pure _

/-- What comes after a failure is not run. -/
theorem throw_bind (e : ε) (f : α → ExceptT ε (StateM σ) β) :
    Moves R (MonadExcept.throw e >>= f : ExceptT ε (StateM σ) β) :=
  fun s ↦ refl_of R s

theorem tryCatch {m : ExceptT ε (StateM σ) α} {h : ε → ExceptT ε (StateM σ) α} (hm : Moves R m)
    (hh : ∀ e, Moves R (h e)) : Moves R (tryCatch m h) := by
  intro s
  have hs := hm s
  rw [run_tryCatch]
  rcases he : m s with ⟨e | a, t⟩
  · rw [he] at hs
    exact trans_of R hs (hh e t)
  · rwa [he] at hs

theorem forM {as : List α} {f : α → ExceptT ε (StateM σ) PUnit} (h : ∀ a ∈ as, Moves R (f a)) :
    Moves R (as.forM f) := by
  induction as with
  | nil => exact Moves.pure _
  | cons a as ih =>
    exact (h a List.mem_cons_self).bind fun _ ↦ ih fun b hb ↦ h b (List.mem_cons_of_mem a hb)

theorem forIn {as : List α} {b : β} {f : α → β → ExceptT ε (StateM σ) (ForInStep β)}
    (h : ∀ a ∈ as, ∀ b, Moves R (f a b)) : Moves R (ForIn.forIn as b f) := by
  induction as generalizing b with
  | nil => exact Moves.pure _
  | cons a as ih =>
    rw [List.forIn_cons]
    refine (h a List.mem_cons_self b).bind fun step ↦ ?_
    cases step with
    | done b => exact Moves.pure b
    | yield b => exact ih fun c hc ↦ h c (List.mem_cons_of_mem a hc)

/-- A list of programs that is run with success runs up to any of them, then that one, and then the
others. -/
theorem exists_of_forM {as : List α} {f : α → ExceptT ε (StateM σ) PUnit}
    (h : ∀ a ∈ as, Moves R (f a)) {a : α} (ha : a ∈ as) {s v : σ}
    (hrun : as.forM f s = (.ok ⟨⟩, v)) : ∃ t u, R s t ∧ f a t = (.ok ⟨⟩, u) ∧ R u v := by
  induction as generalizing s with
  | nil => cases ha
  | cons b bs ih =>
    obtain ⟨⟨⟩, t, hb, hbs⟩ := run_bind_eq_ok_iff.mp hrun
    have hfirst := h b List.mem_cons_self s
    rw [hb] at hfirst
    have hrest : ∀ a ∈ bs, Moves R (f a) := fun a ha ↦ h a (List.mem_cons_of_mem b ha)
    rcases List.mem_cons.mp ha with rfl | ha
    · have hlater := Moves.forM hrest t
      rw [hbs] at hlater
      exact ⟨s, t, refl_of R s, hb, hlater⟩
    · obtain ⟨t', u, ht, hu, hv⟩ := ih hrest ha hbs
      exact ⟨t', u, trans_of R hfirst ht, hu, hv⟩

theorem mapM {as : List α} {f : α → ExceptT ε (StateM σ) β} (h : ∀ a ∈ as, Moves R (f a)) :
    Moves R (as.mapM f) := by
  induction as with
  | nil => exact Moves.pure _
  | cons a as ih =>
    rw [List.mapM_cons]
    refine (h a List.mem_cons_self).bind fun b ↦ ?_
    exact (ih fun b hb ↦ h b (List.mem_cons_of_mem a hb)).bind fun _ ↦ Moves.pure _

end Preorder

end Moves

/-- What holds of the first state holds of the second one. -/
def Keeps (I : σ → Prop) (s t : σ) : Prop :=
  I s → I t

instance (I : σ → Prop) : IsPreorder σ (Keeps I) where
  refl _ h := h
  trans _ _ _ hst htu h := htu (hst h)

/-- Every value of the program satisfies `P`. -/
def Yields (P : α → Prop) (m : ExceptT ε (StateM σ) α) : Prop :=
  ∀ s a t, m s = (.ok a, t) → P a

namespace Yields

variable {P : β → Prop}

theorem mono {Q : β → Prop} {m : ExceptT ε (StateM σ) β} (h : Yields P m) (hPQ : ∀ b, P b → Q b) :
    Yields Q m :=
  fun s b t hrun ↦ hPQ b (h s b t hrun)

theorem pure {b : β} (h : P b) : Yields P (pure b : ExceptT ε (StateM σ) β) := by
  intro s a t hrun
  cases hrun
  exact h

theorem bind {m : ExceptT ε (StateM σ) α} {f : α → ExceptT ε (StateM σ) β}
    (h : ∀ a, Yields P (f a)) : Yields P (m >>= f) := by
  intro s b u hrun
  obtain ⟨a, t, -, hf⟩ := run_bind_eq_ok_iff.mp hrun
  exact h a t b u hf

end Yields

/-- From related states the two programs come to the same answer and to related states. -/
def Alike (R : σ → σ → Prop) (m m' : ExceptT ε (StateM σ) α) : Prop :=
  ∀ s t, R s t → (m s).1 = (m' t).1 ∧ R (m s).2 (m' t).2

namespace Alike

theorem pure (a : α) : Alike R (pure a : ExceptT ε (StateM σ) α) (Pure.pure a) :=
  fun _ _ h ↦ ⟨rfl, h⟩

theorem throw (e : ε) : Alike R (throw e : ExceptT ε (StateM σ) α) (MonadExcept.throw e) :=
  fun _ _ h ↦ ⟨rfl, h⟩

theorem modify {f g : σ → σ} (h : ∀ s t, R s t → R (f s) (g t)) :
    Alike R (modify f : ExceptT ε (StateM σ) PUnit) (modify g) :=
  fun s t hst ↦ ⟨rfl, h s t hst⟩

theorem bind {m m' : ExceptT ε (StateM σ) α} {f f' : α → ExceptT ε (StateM σ) β}
    (hm : Alike R m m') (hf : ∀ a, Alike R (f a) (f' a)) : Alike R (m >>= f) (m' >>= f') := by
  intro s t hst
  obtain ⟨hanswer, hrest⟩ := hm s t hst
  rw [run_bind, run_bind]
  rcases hs : m s with ⟨r, s'⟩
  rcases ht : m' t with ⟨r', t'⟩
  rw [hs, ht] at hanswer hrest
  obtain rfl : r = r' := hanswer
  cases r with
  | error e => exact ⟨rfl, hrest⟩
  | ok a => exact hf a s' t' hrest

/-- Programs that start by looking at the state. -/
theorem get_bind {f f' : σ → ExceptT ε (StateM σ) α}
    (h : ∀ s t, R s t → Alike R (f s) (f' t)) : Alike R (get >>= f) (get >>= f') :=
  fun s t hst ↦ h s t hst s t hst

theorem map {m m' : ExceptT ε (StateM σ) α} (f : α → β) (h : Alike R m m') :
    Alike R (f <$> m) (f <$> m') :=
  h.bind fun _ ↦ Alike.pure _

theorem ite {c : Prop} [Decidable c] {m m' n n' : ExceptT ε (StateM σ) α} (hm : Alike R m m')
    (hn : Alike R n n') : Alike R (if c then m else n) (if c then m' else n') := by
  split
  · exact hm
  · exact hn

/-- The same programs, one after the other. -/
theorem forM {as : List α} {f f' : α → ExceptT ε (StateM σ) PUnit}
    (h : ∀ a ∈ as, Alike R (f a) (f' a)) : Alike R (as.forM f) (as.forM f') := by
  induction as with
  | nil => exact Alike.pure _
  | cons a as ih =>
    exact (h a List.mem_cons_self).bind fun _ ↦ ih fun b hb ↦ h b (List.mem_cons_of_mem a hb)

theorem tryCatch {m m' : ExceptT ε (StateM σ) α} {h h' : ε → ExceptT ε (StateM σ) α}
    (hm : Alike R m m') (hh : ∀ e, Alike R (h e) (h' e)) :
    Alike R (tryCatch m h) (MonadExcept.tryCatch m' h') := by
  intro s t hst
  obtain ⟨hanswer, hrest⟩ := hm s t hst
  rw [run_tryCatch, run_tryCatch]
  rcases hs : m s with ⟨r, s'⟩
  rcases ht : m' t with ⟨r', t'⟩
  rw [hs, ht] at hanswer hrest
  obtain rfl : r = r' := hanswer
  cases r with
  | error e => exact hh e s' t' hrest
  | ok a => exact ⟨rfl, hrest⟩

end Alike

end DeclClosure

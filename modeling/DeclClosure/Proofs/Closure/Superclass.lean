import DeclClosure.Proofs.Closure.Judgement
import DeclClosure.Proofs.World.Classes

/-!
# The walk along superclasses

The superclass that a class names is looked for along a chain of superclasses. A base is older than
the class, so the chain ends by itself: how far `Run.verifiedSuperclass` may look does not matter as
long as it may look at more classes than lie above the one it starts from
(`Run.verifiedSuperclass_congr`), and `Run.chainLimit` allows for that in every world
(`Run.verifiedSuperclass_of_chainLimit_le`).
-/

namespace DeclClosure.Closure.Run

theorem isClass_of_learns {α : Type} {m : Run α} (hm : Learning m) {s t : State}
    {x : Except Failure α} {o : Object} (h : m s = (x, t)) (ho : s.world.isClass o) :
    t.world.isClass o := by
  obtain ⟨w, hw, ht⟩ := hm s
  rw [h] at ht
  obtain rfl : t = s.learn w := ht
  show w.isClass o
  rwa [hw.isClass_eq]

/-- Two programs that go on in the same way after the first one's answer. -/
theorem run_bind_congr {α β : Type} {m : Run α} {f g : α → Run β} {s : State}
    (h : ∀ a t, m s = (.ok a, t) → f a t = g a t) : (m >>= f) s = (m >>= g) s := by
  rw [run_bind, run_bind]
  rcases hrun : m s with ⟨_ | a, t⟩
  · rfl
  · exact h a t hrun

/-- The walk does not depend on how far it may look beyond the classes above its start. -/
theorem verifiedSuperclass_congr {fuel fuel' : Nat} {o : Object} {s : State}
    (ho : s.world.isClass o) (h : o.rank < fuel) (h' : o.rank < fuel') :
    verifiedSuperclass fuel o s = verifiedSuperclass fuel' o s := by
  induction fuel generalizing fuel' o s with
  | zero => omega
  | succ fuel ih =>
    obtain ⟨fuel', rfl⟩ : ∃ k, fuel' = k + 1 := ⟨fuel' - 1, by omega⟩
    simp only [verifiedSuperclass]
    rw [run_get_bind, run_get_bind]
    cases hp : s.world.superclass? o with
    | none => rfl
    | some p =>
      obtain ⟨hclass, hlt⟩ := World.isClass_superclass ho hp
      -- wherever the walk goes on from `p`, it is a class there still
      have next {t : State} (ht : t.world.isClass p) :
          verifiedSuperclass fuel p t = verifiedSuperclass fuel' p t :=
        ih ht (by omega) (by omega)
      dsimp only
      refine run_bind_congr fun name t ht ↦ ?_
      have htp := isClass_of_learns (nameOf_learns o) ht hclass
      refine run_bind_congr fun superclassName u hu ↦ ?_
      have hup := isClass_of_learns (nameOf_learns p) hu htp
      cases nonempty superclassName with
      | none => exact next hup
      | some known =>
        refine run_bind_congr fun found v hv ↦ ?_
        have hvp := isClass_of_learns (ask_learns (Query.resolve_moves _)) hv hup
        cases found with
        | none => exact next hvp
        | some found =>
          dsimp only
          rw [run_get_bind, run_get_bind]
          by_cases hnamespace : (!v.world.isNamespace found) = true
          · rw [if_pos hnamespace, if_pos hnamespace]
            exact next hvp
          · rw [if_neg hnamespace, if_neg hnamespace]
            refine run_bind_congr fun foundName x hx ↦ ?_
            have hxp := isClass_of_learns (nameOf_learns found) hx hvp
            by_cases hname : (foundName == name) = true
            · rw [if_pos hname, if_pos hname]
              exact next hxp
            · rw [if_neg hname, if_neg hname]

/-- In every world the walk from a class ends before it has looked at as many classes as it may. -/
theorem verifiedSuperclass_of_chainLimit_le {fuel : Nat} {o : Object} {s : State}
    (ho : s.world.isClass o) (h : chainLimit s.world ≤ fuel) :
    verifiedSuperclass fuel o s = verifiedSuperclass (chainLimit s.world) o s := by
  have hrank := World.rank_lt ho
  simp only [chainLimit] at h ⊢
  exact verifiedSuperclass_congr ho (by omega) (by omega)

end DeclClosure.Closure.Run

import TypeInference.Proofs.Context.Walk

/-!
# Invariants of solving

A run of the solver changes the bindings in one way only: an unbound variable is
bound to a resolved type that does not mention it. What this keeps, a whole run
keeps, whether it succeeds or fails. The argument may use a property of the
types that are unified, if their components and their common type have it too.
-/

namespace TypeInference

open Ty

/-- A property of bindings that is kept where types with the property `G` are solved. -/
structure Bindings.IsInvariant (G : Ty → Prop) (I : Bindings → Prop) : Prop where
  part : ∀ {t p : Ty}, G t → p ∈ t.parts → G p
  unify : ∀ {a b c : Ty}, G a → G b → Ty.unify a b = .ok c → G c
  resolve : ∀ {b : Bindings} {t : Ty}, I b → G t → G (b.resolve t)
  assign : ∀ {b : Bindings} {k : VarKind} {v : VarId} {t : Ty}, I b → G (.infer k v) → G t →
    b.resolve (.infer k v) = .infer k v → (b.resolve t).hasVar v = false →
    I (b.assign v (b.resolve t))

/-- A property that every binding keeps, whatever is bound. -/
theorem Bindings.IsInvariant.of_assign {I : Bindings → Prop}
    (h : ∀ {b : Bindings} {k : VarKind} {v : VarId} {t : Ty}, I b →
      b.resolve (.infer k v) = .infer k v → (b.resolve t).hasVar v = false →
      I (b.assign v (b.resolve t))) : IsInvariant (fun _ => True) I where
  part _ _ := trivial
  unify _ _ _ := trivial
  resolve _ _ := trivial
  assign hb _ _ := h hb

namespace Solve

open Bindings

variable {α β : Type} {G : Ty → Prop} {I : Bindings → Prop} {merge : Ty → Ty → Solve Unit} {t u : Ty}

/-- Whether the property holds after the computation, also where it fails, if it does before. -/
def Keeps (I : Bindings → Prop) (x : Solve α) : Prop := ∀ b : Bindings, I b → I (perform x b).2

theorem keeps_pure (a : α) : Keeps I (pure a) := fun _ hb => hb

theorem keeps_throw (e : UnifyError) : Keeps I (throw e : Solve α) := fun _ hb => hb

theorem Keeps.bind {x : Solve α} {f : α → Solve β} (hx : Keeps I x) (hf : ∀ a, Keeps I (f a)) :
    Keeps I (x >>= f) := by
  intro b hb
  have hfirst := hx b hb
  rw [perform_bind]
  rcases hrun : perform x b with ⟨e | a, b'⟩
  · rwa [hrun] at hfirst
  · rw [hrun] at hfirst
    exact hf a b' hfirst

section

variable (hI : IsInvariant G I)
include hI

section

variable (hmerge : ∀ t u : Ty, G t → G u → Keeps I (merge t u))
include hmerge

theorem keeps_bindVar {k : VarKind} {v : VarId} (hv : G (.infer k v)) (hu : G u) :
    Keeps I (bindVar merge k v u) := by
  intro b hb
  simp only [bindVar, perform_bind, perform_get]
  split
  · exact hb
  · split
    · rename_i hunbound
      split
      · exact hb
      · rename_i hoccurs
        exact hI.assign hb hv hu hunbound (by simpa using hoccurs)
    · exact hmerge _ _ (hI.resolve hb hv) (hI.resolve hb hu) b hb

theorem keeps_walk (h : Ty.Refines t u) (ht : G t) (hu : G u) : Keeps I (walk merge t u) := by
  induction h with
  | error =>
      rw [walk_error]
      exact keeps_pure ()
  | var hne _ _ =>
      rw [walk_infer hne]
      exact keeps_bindVar hI hmerge ht hu
  | node hsettled hhead _ ih =>
      rw [walk_eq_parts hsettled hhead]
      exact walkList_of_forall (keeps_pure ()) (fun _ _ hx hy => hx.bind fun _ => hy)
        fun i p q hp hq =>
          ih i p q hp hq (hI.part ht (List.mem_of_getElem? hp)) (hI.part hu (List.mem_of_getElem? hq))

end

theorem keeps_meet (depth : Nat) (ht : G t) (hu : G u) : Keeps I (meet depth t u) := by
  induction depth generalizing t u with
  | zero => exact keeps_throw _
  | succ depth ih =>
      rw [meet]
      cases hc : Ty.unify t u with
      | error e => exact keeps_throw e
      | ok c =>
          obtain ⟨hrt, hru⟩ := refines_of_unify hc
          have hGc := hI.unify ht hu hc
          have hmerge (x y : Ty) (hx : G x) (hy : G y) : Keeps I (discard (meet depth x y)) :=
            (ih hx hy).bind fun _ => keeps_pure _
          exact (keeps_walk hI hmerge hrt ht hGc).bind fun _ =>
            (keeps_walk hI hmerge hru hu hGc).bind fun _ => keeps_pure c

theorem keeps_unify (ht : G t) (hu : G u) : Keeps I (unify t u) := by
  intro b hb
  rw [unify, perform_bind, perform_get]
  refine (keeps_meet hI (b.free + 1) (hI.resolve hb ht) (hI.resolve hb hu)).bind (fun c b' hb' => ?_)
    b hb
  rw [perform_bind, perform_get]
  exact hb'

end

end Solve

end TypeInference

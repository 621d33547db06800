import TypeInference.Proofs.Context.Closed

/-!
# Bindings of coherent types

Where every variable stands for a type that agrees with the declarations of its
structs, resolved types agree with them too. Unification and instantiation keep
it so.
-/

namespace TypeInference

open Ty

variable {D : Declarations} {b : Bindings} {t u : Ty}

def Bindings.Coherent (D : Declarations) (b : Bindings) : Prop :=
  ∀ k v, (b.resolve (.infer k v)).Coherent D

namespace Bindings

theorem coherent_empty (D : Declarations) : empty.Coherent D := by
  intro k v
  rw [resolve_empty]
  exact coherent_leaf (by simp) rfl

theorem Coherent.resolve (hb : b.Coherent D) (hD : D.Closed) (ht : t.Coherent D) :
    (b.resolve t).Coherent D :=
  Bindings.Every.resolve hb (isClosed_coherent hD) ht

theorem Coherent.newVars (hb : b.Coherent D) (n : Nat) : (b.newVars n).2.Coherent D := hb

end Bindings

namespace Context

variable {c : Context}

theorem coherent_unify (hD : D.Closed) (ht : t.Coherent D) (hu : u.Coherent D)
    (hc : c.bindings.Coherent D) : (c.unify t u).2.bindings.Coherent D ∧
      ∀ r, (c.unify t u).1 = .ok r → r.Coherent D :=
  every_unify (isClosed_coherent hD) ht hu hc

/-- A declaration becomes an instance of itself, if it has parameters. -/
theorem coherent_freshInstance (hD : D.Closed) {id : NodeId} {d : Adt Ty} (hd : D id = some d)
    (hc : c.bindings.Coherent D) : (c.freshInstance d).2.bindings.Coherent D ∧
      (Ty.adt (c.freshInstance d).1).Coherent D := by
  unfold freshInstance
  split
  · rename_i hgeneric
    refine ⟨hc, coherent_declaration hD hd ?_⟩
    simpa [Adt.isGeneric] using hgeneric
  · rename_i hgeneric
    refine ⟨hc.newVars _, coherent_instantiate hD hd ?_ (by simp [Bindings.newVars]) fun u hu => ?_⟩
    · simpa [Adt.isGeneric] using hgeneric
    · obtain ⟨i, -, rfl⟩ := List.mem_map.1 hu
      exact coherent_leaf (by simp) rfl

end Context

end TypeInference

import TypeInference.Proofs.Context.Refinement

/-!
# Created variables

Variables are numbered as they are created, and solving creates none. Where only
types over created variables are unified, only created variables are bound, and
only to types over created variables. So a new variable is not bound yet, and it
does not occur in what older variables stand for. As with `Tidy`, the kinds of
variables play no part.
-/

namespace TypeInference

open Ty

namespace Ty

variable {n m : Nat} {t : Ty}

def IsOld (n : Nat) : Ty → Prop
  | .infer _ v => v < n
  | _ => True

instance (n : Nat) : DecidablePred (IsOld n)
  | .infer _ v => inferInstanceAs (Decidable (v < n))
  | .error | .unit | .prim _ | .param _ | .fn _ _ | .adt _ => inferInstanceAs (Decidable True)

/-- Whether the type mentions the first `n` variables only, whatever their kinds. -/
abbrev Old (n : Nat) (t : Ty) : Prop := t.Every (IsOld n)

theorem isLocal_isOld (n : Nat) : IsLocal (IsOld n) := by
  intro t u hhead _ h
  cases t <;> cases u <;> simp_all [IsOld, head]

theorem Old.mono (h : t.Old n) (hnm : n ≤ m) : t.Old m := by
  refine Every.mono h fun u hu => ?_
  cases u with
  | infer k v => exact Nat.lt_of_lt_of_le hu hnm
  | _ => trivial

theorem Old.lt_of_hasVar (h : t.Old n) {v : VarId} (hv : t.hasVar v) : v < n := by
  obtain ⟨k, hk⟩ := hasVar_iff.1 hv
  exact h _ hk

theorem Old.hasVar_eq_false (h : t.Old n) {v : VarId} (hv : n ≤ v) : t.hasVar v = false := by
  rw [Bool.eq_false_iff]
  exact fun hvar => Nat.not_lt.2 hv (h.lt_of_hasVar hvar)

end Ty

namespace Bindings

variable {b : Bindings} {n m : Nat} {t : Ty}

/-- Whether only the first `n` variables are bound, and only to types over them. -/
def Old (n : Nat) (b : Bindings) : Prop := ∀ p ∈ b.solved, p.1 < n ∧ p.2.Old n

theorem old_empty (n : Nat) : empty.Old n := fun _ hp => nomatch hp

theorem Old.mono (h : b.Old n) (hnm : n ≤ m) : b.Old m :=
  fun p hp => ⟨Nat.lt_of_lt_of_le (h p hp).1 hnm, (h p hp).2.mono hnm⟩

theorem Old.unbound (h : b.Old n) {v : VarId} (hv : n ≤ v) : b.isBound v = false := by
  rw [Bool.eq_false_iff]
  intro hbound
  obtain ⟨p, hp, rfl⟩ := List.mem_map.1 (isBound_iff.1 hbound)
  exact Nat.not_lt.2 hv (h p hp).1

theorem old_chase {solved : List (VarId × Ty)} (h : ∀ p ∈ solved, p.2.Old n) (k : VarKind) {v : VarId}
    (hv : v < n) : (chase solved k v).Old n := by
  induction solved generalizing k v with
  | nil => exact every_leaf hv rfl
  | cons p later ih =>
      have hlater : ∀ q ∈ later, q.2.Old n := fun q hq => h q (List.mem_cons_of_mem _ hq)
      rw [chase]
      split
      · exact (h p List.mem_cons_self).rewrite_vars (isLocal_isOld n) fun l w hw =>
          ih hlater l (h p List.mem_cons_self _ hw)
      · exact ih hlater k hv

theorem Old.resolve (h : b.Old n) (ht : t.Old n) : (b.resolve t).Old n :=
  ht.rewrite_vars (isLocal_isOld n) fun k _ hv => old_chase (fun p hp => (h p hp).2) k (ht _ hv)

theorem Old.assign (h : b.Old n) {v : VarId} (hv : v < n) (ht : t.Old n) :
    (b.assign v t).Old n := by
  intro p hp
  rcases List.mem_append.1 hp with hp | hp
  · exact h p hp
  · obtain rfl := List.mem_singleton.1 hp
    exact ⟨hv, ht⟩

/-- Solving creates no variables, and it binds created ones only. -/
theorem isInvariant_old (n m : Nat) :
    IsInvariant (Ty.Old n) fun b => b.count = m ∧ b.Old n where
  part ht hp := Every.part ht hp
  unify ha hb hc := Every.unify (isLocal_isOld n) ha hb hc
  resolve hb ht := hb.2.resolve ht
  assign hb hv ht _ _ := ⟨hb.1, hb.2.assign hv.root (hb.2.resolve ht)⟩

end Bindings

namespace Context

variable {c : Context}

/-- The contexts that arise from a new one by any run of operations in which only types over created
variables are unified, whether that succeeds or fails. -/
inductive Arises : Context → Prop where
  | new (builtins : List Prim) : Arises { bare with builtins }
  | newVar {c : Context} (h : Arises c) (k : VarKind) : Arises (c.newVar k).2
  | freshInstance {c : Context} (h : Arises c) (a : Adt Ty) : Arises (c.freshInstance a).2
  | insert {c : Context} (h : Arises c) (id : NodeId) (t : Ty) : Arises (c.insert id t)
  | sweep {c : Context} (h : Arises c) {σ : Type} (visit : σ → NodeId → Ty → Visit σ) (s : σ) :
      Arises (c.sweep visit s).2
  | unify {c : Context} (h : Arises c) {a b : Ty} (ha : a.Old c.bindings.count)
      (hb : b.Old c.bindings.count) : Arises (c.unify a b).2

/-- A fresh instance creates a variable for each parameter and does nothing else. -/
theorem freshInstance_of_isGeneric {a : Adt Ty} (h : a.isGeneric = true) :
    c.freshInstance a = (a.instantiate (c.bindings.newVars a.params.length).1,
      { c with bindings := (c.bindings.newVars a.params.length).2 }) := by
  simp [freshInstance, h]

theorem freshInstance_of_not_isGeneric {a : Adt Ty} (h : a.isGeneric = false) :
    c.freshInstance a = (a, c) := by
  simp [freshInstance, h]

/-- What holds of no bindings, and is kept where variables are created and where types over created
variables are unified, holds of the bindings of every context that arises. -/
theorem Arises.bindings_induct {I : Bindings → Prop} (hempty : I .empty)
    (hcreate : ∀ (b : Bindings) (n : Nat), I b → I { b with count := b.count + n })
    (hunify : ∀ (c : Context) (a b : Ty), c.Arises → a.Old c.bindings.count →
      b.Old c.bindings.count → I c.bindings → I (c.unify a b).2.bindings)
    (h : c.Arises) : I c.bindings := by
  induction h with
  | new _ => exact hempty
  | newVar _ _ ih => exact hcreate _ 1 ih
  | freshInstance _ a ih =>
      cases hgeneric : a.isGeneric with
      | false => rwa [freshInstance_of_not_isGeneric hgeneric]
      | true =>
          rw [freshInstance_of_isGeneric hgeneric]
          exact hcreate _ a.params.length ih
  | insert _ _ _ ih => exact ih
  | sweep _ _ _ ih => exact ih
  | unify h ha hb ih => exact hunify _ _ _ h ha hb ih

theorem Arises.old (h : Arises c) : c.bindings.Old c.bindings.count := by
  refine bindings_induct (I := fun b => b.Old b.count) (Bindings.old_empty 0)
    (fun b n hb => hb.mono (Nat.le_add_right _ n)) (fun c a b _ ha hb hold => ?_) h
  obtain ⟨hcount, hold'⟩ := Solve.keeps_unify (Bindings.isInvariant_old _ _) ha hb c.bindings
    ⟨rfl, hold⟩
  show (c.unify a b).2.bindings.Old (c.unify a b).2.bindings.count
  rw [show (c.unify a b).2.bindings.count = c.bindings.count from hcount]
  exact hold'

theorem Arises.tidy (h : Arises c) : c.bindings.Tidy :=
  bindings_induct Bindings.tidy_empty (fun _ _ hb => hb)
    (fun c a b _ _ _ hb => (Solve.isRefining_unify a b c.bindings hb).tidy) h

end Context

end TypeInference

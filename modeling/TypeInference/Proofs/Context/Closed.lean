import TypeInference.Context.Basic
import TypeInference.Proofs.Context.Agreement
import TypeInference.Proofs.Context.Invariant
import TypeInference.Proofs.Ty.Instance

/-!
# Bindings of types with a closed property

A property of types that solving cannot lose: variables have it, and taking a
component, replacing variables and unifying keep it. If every variable stands
for a type that has the property, then so it does after a unification, whether
it succeeds or fails.
-/

namespace TypeInference

open Ty Solve

structure Ty.IsClosed (G : Ty → Prop) : Prop where
  infer : ∀ k v, G (.infer k v)
  part : ∀ {t p : Ty}, G t → p ∈ t.parts → G p
  replace : ∀ {t : Ty} {var : VarKind → VarId → Ty}, G t →
    (∀ k v, .infer k v ∈ t.nodes → G (var k v)) → G (t.rewrite var .param)
  unify : ∀ {a b c : Ty}, G a → G b → Ty.unify a b = .ok c → G c

/-- Agreement with declarations is closed. -/
theorem Ty.isClosed_coherent {D : Declarations} (hD : D.Closed) : IsClosed (Ty.Coherent D) where
  infer _ _ := coherent_leaf (by simp) rfl
  part ht hp := ht.part hp
  replace ht hvar := ht.rewrite hD hvar fun _ _ => coherent_leaf (by simp) rfl
  unify ha hb h := ha.unify hD hb h

/-- A local property that every node has is closed. -/
theorem Ty.isClosed_every {P : Ty → Prop} (hP : IsLocal P) (hvar : ∀ k v, P (.infer k v)) :
    IsClosed (Ty.Every P) where
  infer k v := every_leaf (hvar k v) rfl
  part ht hp := ht.part hp
  replace ht h := ht.rewrite_vars hP h
  unify ha hb h := ha.unify hP hb h

variable {G : Ty → Prop} {b : Bindings} {t u : Ty}

def Bindings.Every (G : Ty → Prop) (b : Bindings) : Prop := ∀ k v, G (b.resolve (.infer k v))

namespace Bindings

theorem every_empty (hG : IsClosed G) : empty.Every G := by
  intro k v
  rw [resolve_empty]
  exact hG.infer k v

theorem Every.resolve (hb : b.Every G) (hG : IsClosed G) (ht : G t) : G (b.resolve t) :=
  hG.replace ht fun k v _ => hb k v

theorem Every.assign (hb : b.Every G) (hG : IsClosed G) (v : VarId) (ht : G t) :
    (b.assign v t).Every G := by
  intro k w
  rw [resolve_assign]
  refine hG.replace (hb k w) fun l x _ => ?_
  by_cases h : x = v
  · rw [point, if_pos h]
    exact ht
  · rw [point, if_neg h]
    exact hG.infer l x

theorem isInvariant_every (hG : IsClosed G) : IsInvariant G (Every G) where
  part := hG.part
  unify := hG.unify
  resolve hb ht := hb.resolve hG ht
  assign hb _ ht _ _ := hb.assign hG _ (hb.resolve hG ht)

end Bindings

namespace Solve

variable {α : Type}

def KeepsEvery (G : Ty → Prop) (x : Solve α) : Prop :=
  ∀ b : Bindings, b.Every G → (perform x b).2.Every G

theorem keepsEvery_unify (hG : IsClosed G) (ht : G t) (hu : G u) : KeepsEvery G (unify t u) :=
  keeps_unify (Bindings.isInvariant_every hG) ht hu

theorem unify_of_meet {depth : Nat} {c : Ty} {b' : Bindings}
    (h : perform (meet depth t u) b = (.ok c, b')) : Ty.unify t u = .ok c := by
  cases depth with
  | zero => cases h
  | succ depth =>
      rw [meet] at h
      cases hc : Ty.unify t u with
      | error e =>
          rw [hc] at h
          cases h
      | ok r =>
          simp only [hc, perform_bind_eq_ok_iff, perform_ofExcept, perform_pure] at h
          obtain ⟨_, _, hr, _, _, -, _, _, -, hc'⟩ := h
          simp_all

/-- The unified type is the resolved common type of the two resolved types. -/
theorem exists_of_unify {r : Ty} {b' : Bindings} (h : perform (unify t u) b = (.ok r, b')) :
    ∃ c, Ty.unify (b.resolve t) (b.resolve u) = .ok c ∧ r = b'.resolve c := by
  rw [unify, perform_bind, perform_get] at h
  simp only [perform_bind] at h
  rcases hrun : perform (meet (b.free + 1) (b.resolve t) (b.resolve u)) b with ⟨e | c, b₁⟩
  · rw [hrun] at h
    cases h
  · rw [hrun] at h
    obtain ⟨hr, rfl⟩ := Prod.mk.inj h
    exact ⟨c, unify_of_meet hrun, (Except.ok.inj hr).symm⟩

/-- The unified type has the property as well. -/
theorem every_unify (hG : IsClosed G) (ht : G t) (hu : G u) (hb : b.Every G) :
    (perform (unify t u) b).2.Every G ∧ ∀ c, (perform (unify t u) b).1 = .ok c → G c := by
  have hevery := keepsEvery_unify hG ht hu b hb
  refine ⟨hevery, fun r h => ?_⟩
  obtain ⟨c, hc, rfl⟩ := exists_of_unify (Prod.ext h rfl)
  exact hevery.resolve hG (hG.unify (hb.resolve hG ht) (hb.resolve hG hu) hc)

end Solve

namespace Context

theorem every_unify {c : Context} (hG : IsClosed G) (ht : G t) (hu : G u)
    (hc : c.bindings.Every G) :
    (c.unify t u).2.bindings.Every G ∧ ∀ r, (c.unify t u).1 = .ok r → G r :=
  Solve.every_unify hG ht hu hc

/-- A struct stays that struct when it is resolved. -/
theorem root_resolve (c : Context) {a : Adt Ty} {w : Ty} (hhead : w.head = (Ty.adt a).head)
    (hshape : w.shape? = some a.shape) :
    (c.resolve w).head = (Ty.adt a).head ∧ (c.resolve w).shape? = some a.shape := by
  have hfixed : w.IsFixed := by cases w <;> simp_all [shape?, IsFixed]
  exact ⟨(head_rewrite hfixed).trans hhead, (shape_rewrite hfixed).trans hshape⟩

/-- A struct unified with anything but an error is that struct. -/
theorem root_of_unify_adt {c : Context} {a : Adt Ty} {r : Ty} (h : (c.unify (.adt a) u).1 = .ok r)
    (hu : c.resolve u ≠ .error) : r.head = (Ty.adt a).head ∧ r.shape? = some a.shape := by
  obtain ⟨hhead, hshape⟩ := c.root_resolve (w := .adt a) rfl rfl
  have hsettled : (c.resolve (.adt a)).isSettled := isSettled_of_head hhead
  obtain ⟨w, hw, rfl⟩ := Solve.exists_of_unify (Prod.ext h rfl)
  have hcommon : w.head = (c.resolve (.adt a)).head ∧ w.shape? = (c.resolve (.adt a)).shape? := by
    rcases isSettled_or (c.resolve u) with herror | ⟨k, v, hvar⟩ | hother
    · exact (hu herror).elim
    · change Ty.unify (c.resolve (.adt a)) (c.resolve u) = .ok w at hw
      rw [hvar, unify_infer_right hsettled] at hw
      unfold absorb at hw
      split at hw
      · cases hw
      · split at hw
        · cases hw
        · obtain rfl := Except.ok.inj hw
          exact ⟨rfl, rfl⟩
    · obtain ⟨-, hhead', hshape', -⟩ := parts_of_unify hsettled hother hw
      exact ⟨hhead', hshape'⟩
  exact root_resolve (c.unify (.adt a) u).2 (hcommon.1.trans hhead) (hcommon.2.trans hshape)

end Context

end TypeInference

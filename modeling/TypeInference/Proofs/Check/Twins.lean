import TypeInference.Proofs.Check.Pairing

/-!
# Runs that agree in their solutions

Two sessions are twins if their solutions are paired completely. Types of twins
that are one type in every pair are alike once they are resolved, so every
question about them has one answer, and what a check does next is the same on
both sides.
-/

namespace TypeInference

open Ty Bindings Check

variable {W : Setting} {P Q : Pairing} {s s' : Session} {t t' u u' : Ty}

namespace Pairing

structure Covers (P : Pairing) (s s' : Session) : Prop where
  forth : ∀ {σ}, RespectsKinds P.kinds σ → s.context.bindings.SatisfiedBy σ → ∃ σ', P.joint σ σ'
  back : ∀ {σ'}, RespectsKinds P.kinds' σ' → s'.context.bindings.SatisfiedBy σ' →
    ∃ σ, P.joint σ σ' ∧ RespectsKinds P.kinds σ

/-- Sessions with the same solutions, in which every node has the same type in each of them. -/
structure Twins (P : Pairing) (W : Setting) (s s' : Session) : Prop where
  holds : P.Holds W (fun _ => True) s s'
  covers : P.Covers s s'

namespace Twins

variable (h : P.Twins W s s')
include h

/-- Resolved types of twins differ in the numbers of their variables only. -/
theorem alike (ht : P.Types W t t') : (s.context.resolve t).Alike (s'.context.resolve t') := by
  have hs := h.holds.left.sound.bindings
  have hs' := h.holds.right.sound.bindings
  have hresolved := h.holds.resolve ht
  obtain ⟨σ', hσ'⟩ := h.covers.forth (respectsKinds_general hs.toValid)
    (satisfiedBy_general hs.toValid)
  obtain ⟨σ, hσ, hkinds⟩ := h.covers.back (respectsKinds_general hs'.toValid)
    (satisfiedBy_general hs'.toValid)
  refine alike_of_subst (h.holds.respects hσ' (respectsKinds_general hs.toValid)) hkinds
    hresolved.left.fine.wellKinded hresolved.right.fine.wellKinded ?_ ?_
  · rw [← hresolved.equal hσ', subst_general hs.toValid hresolved.left.fine.wellKinded]
    exact hs.toValid.tidy.resolve_resolve t
  · rw [hresolved.equal hσ, subst_general hs'.toValid hresolved.right.fine.wellKinded]
    exact hs'.toValid.tidy.resolve_resolve t'

theorem insert {id : NodeId} (hid : ¬W.scope.isStruct id) (hlt : id < s.locations.size)
    (ht : P.Types W t t') :
    P.Twins W { s with context := s.context.insert id t }
      { s' with context := s'.context.insert id t' } :=
  ⟨h.holds.insert hid hlt ht, ⟨h.covers.forth, h.covers.back⟩⟩

theorem setLocations {l : Locations} (hle : s.locations.size ≤ l.size) :
    P.Twins W { s with locations := l } { s' with locations := l } :=
  ⟨h.holds.setLocations hle, ⟨h.covers.forth, h.covers.back⟩⟩

theorem more (ks : List VarKind) : (P.more ks).Twins W (s.more ks.length) (s'.more ks.length) := by
  refine ⟨h.holds.more ks, fun {σ} hkinds hσ => ?_, fun {σ'} hkinds hσ' => ?_⟩
  · exact h.covers.forth (hkinds.of_prefix (List.prefix_append _ _)) hσ
  · obtain ⟨σ, hjoint, hrespects⟩ :=
      h.covers.back (hkinds.of_prefix (List.prefix_append _ _)) hσ'
    exact ⟨σ, hjoint, hrespects.append hkinds fun i => (h.holds.aligned hjoint i).symm⟩

/-- If two types of the first session unify, so do their counterparts, and exactly the solutions that
make them equal are left on both sides. -/
theorem unify (ht : P.Types W t t') (hu : P.Types W u u') {c : Ty}
    (hok : (s.context.unify t u).1 = .ok c) :
    ∃ c', (s'.context.unify t' u').1 = .ok c' ∧
      (P.narrow (s.context.unify t u).2.bindings).Twins W
        { s with context := (s.context.unify t u).2 }
        { s' with context := (s'.context.unify t' u').2 } ∧
      (P.narrow (s.context.unify t u).2.bindings).Types W c c' := by
  have hvalid := (h.holds.left.unify ht.left hu.left).sound.bindings.toValid
  have hforth {σ : VarId → Ty} (hkinds : RespectsKinds P.kinds σ)
      (hσ : (s.context.unify t u).2.bindings.SatisfiedBy σ) :
      ∃ σ', (P.narrow (s.context.unify t u).2.bindings).joint σ σ' := by
    have hold := ((h.holds.left.satisfiedBy_unify_iff ht.left hu.left hok hkinds).1 hσ).1
    obtain ⟨σ', hjoint⟩ := h.covers.forth hkinds hold
    exact ⟨σ', hjoint, hkinds, hσ⟩
  obtain ⟨c', hok', hholds, hc⟩ := h.holds.unify ht hu hok
    ⟨_, hforth (respectsKinds_general hvalid) (satisfiedBy_general hvalid)⟩
  refine ⟨c', hok', ⟨hholds, hforth, fun {σ'} hkinds hσ' => ?_⟩, hc⟩
  obtain ⟨hold, heq⟩ := (h.holds.right.satisfiedBy_unify_iff ht.right hu.right hok' hkinds).1 hσ'
  obtain ⟨σ, hjoint, hrespects⟩ := h.covers.back hkinds hold
  rw [← ht.equal hjoint, ← hu.equal hjoint] at heq
  have hσ := (h.holds.left.satisfiedBy_unify_iff ht.left hu.left hok hrespects).2
    ⟨(h.holds.satisfied hjoint).1, heq⟩
  exact ⟨σ, ⟨hjoint, hrespects, hσ⟩, hrespects⟩

end Twins

end Pairing

end TypeInference

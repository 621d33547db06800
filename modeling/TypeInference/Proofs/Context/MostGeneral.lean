import TypeInference.Context.Basic
import TypeInference.Proofs.Context.Generality

/-!
# The context computes most general unifiers

In every context that is reached by creating variables, recording types and
unifying, a success of unification is a most general unifier, and a failure
means that there is none.
-/

namespace TypeInference

open Ty Solve

namespace Bindings

variable {kinds : List VarKind} {P : Ty → Prop} {b b' : Bindings}

structure Sound (kinds : List VarKind) (P : Ty → Prop) (b : Bindings) : Prop extends
    b.Valid kinds where
  every : ∀ (v : VarId) k, kinds[v]? = some k → (b.resolve (.infer k v)).Every P

theorem sound_empty : empty.Sound [] P := ⟨valid_empty, by simp⟩

theorem Sound.resolve_every (hb : b.Sound kinds P) (hP : IsLocal P) {t : Ty}
    (hkinds : t.WellKinded kinds) (ht : t.Every P) : (b.resolve t).Every P :=
  ht.rewrite_vars hP fun k v h => hb.every v k (hkinds _ h)

theorem Sound.steps (hb : b.Sound kinds P) (hP : IsLocal P) (h : Steps kinds P b b') :
    b'.Sound kinds P :=
  ⟨hb.toValid.steps h, fun v k hv => every_of_steps hP h (hb.every v k hv)⟩

theorem Sound.newVar (hb : b.Sound kinds P) (hP : ∀ k v, P (.infer k v)) (k : VarKind) :
    (b.newVar k).2.Sound (kinds ++ [k]) P := by
  refine ⟨hb.toValid.newVar k, fun v l hv => ?_⟩
  rw [resolve_newVar]
  by_cases hlt : v < kinds.length
  · exact hb.every v l (by rwa [List.getElem?_append_left hlt] at hv)
  · rw [resolve_infer_of_unbound]
    · exact every_leaf (hP l v) rfl
    · by_cases hbound : b.isBound v
      · exact (hlt (hb.count_eq ▸ hb.lt_of_bound v hbound)).elim
      · simpa using hbound

/-- Types over created variables are ready to be unified once they are resolved. -/
theorem Sound.ready (hb : b.Sound kinds P) (hP : IsLocal P) {t u : Ty} (ht : t.WellKinded kinds)
    (hu : u.WellKinded kinds) (hPt : t.Every P) (hPu : u.Every P) :
    Ready kinds P b (b.resolve t) (b.resolve u) :=
  ⟨hb.toValid, hb.toValid.tidy.resolve_resolve t, hb.toValid.tidy.resolve_resolve u,
    resolve_wellKinded hb.toValid ht, resolve_wellKinded hb.toValid hu,
    hb.resolve_every hP ht hPt, hb.resolve_every hP hu hPu⟩

end Bindings

open Bindings

namespace Solve

variable {kinds : List VarKind} {shapes : NodeId → Shape} {P : Ty → Prop} {σ : VarId → Ty}
  {b b' : Bindings} {t u c : Ty} {e : UnifyError}

theorem steps_unify (hP : IsLocal P) (h : Ready kinds P b (b.resolve t) (b.resolve u)) :
    Steps kinds P b (perform (unify t u) b).2 := by
  rw [unify, perform_bind, perform_get]
  refine steps_bind (binds_meet hP _ h) fun c => ?_
  rw [perform_bind, perform_get]
  exact .refl

/-- The meeting behind a success. -/
theorem unify_eq_ok_iff :
    perform (unify t u) b = (.ok c, b') ↔ ∃ r,
      perform (meet (b.free + 1) (b.resolve t) (b.resolve u)) b = (.ok r, b') ∧ b'.resolve r = c := by
  rw [unify, perform_bind, perform_get]
  simp only [perform_bind_eq_ok_iff, perform_get, perform_pure, Prod.mk.injEq, Except.ok.injEq]
  constructor
  · rintro ⟨r, b₁, hmeet, s, b₂, ⟨rfl, rfl⟩, rfl, rfl⟩
    exact ⟨r, hmeet, rfl⟩
  · rintro ⟨r, hmeet, rfl⟩
    exact ⟨r, b', hmeet, b', b', ⟨rfl, rfl⟩, rfl, rfl⟩

theorem resolve_of_unify_eq_ok (h : Ready kinds (IsProper shapes) b (b.resolve t) (b.resolve u))
    (hrun : perform (unify t u) b = (.ok c, b')) : b'.resolve t = c ∧ b'.resolve u = c := by
  have hsteps := steps_unify (isLocal_isProper shapes) h
  rw [hrun] at hsteps
  obtain ⟨r, hmeet, rfl⟩ := unify_eq_ok_iff.1 hrun
  obtain ⟨ht, hu⟩ := agree_meet _ h hmeet
  rw [resolve_of_steps h.valid hsteps] at ht hu
  exact ⟨ht, hu⟩

/-- A substitution that makes both types equal is still satisfied afterwards. -/
theorem succeeds_unify (h : Ready kinds (IsProper shapes) b (b.resolve t) (b.resolve u))
    (hkinds : RespectsKinds kinds σ) (hσ : b.SatisfiedBy σ)
    (heq : t.subst σ = u.subst σ) : Succeeds σ (unify t u) b := by
  obtain ⟨r, b', hmeet, hσ'⟩ := succeeds_meet hkinds (b.free + 1) h (Nat.lt_succ_self _) hσ
    (by rw [hσ, hσ, heq])
  exact ⟨_, b', unify_eq_ok_iff.2 ⟨r, hmeet, rfl⟩, hσ'⟩

/-- What is resolved later mentions variables only that were unbound before. -/
theorem subst_after_resolve (hb : b.Valid kinds) (h : Steps kinds P b b') (t : Ty) :
    (b'.resolve t).subst (b.after σ) = (b'.resolve t).subst σ := by
  rw [subst_after, resolve_of_forall_unbound fun v hv => ?_]
  have hv' := (hb.steps h).unbound_of_hasVar t v hv
  by_cases hbound : b.isBound v
  · simp [isBound_of_steps h hbound] at hv'
  · simpa using hbound

/-- A substitution that makes the resolved types equal is one of the instances of the bindings that
unification leaves. -/
theorem subst_resolve_of_unify_eq_ok
    (h : Ready kinds (IsProper shapes) b (b.resolve t) (b.resolve u))
    (hrun : perform (unify t u) b = (.ok c, b')) (hkinds : RespectsKinds kinds σ)
    (heq : (b.resolve t).subst σ = (b.resolve u).subst σ) (w : Ty) :
    (b.resolve w).subst σ = (b'.resolve w).subst σ := by
  have hsteps := steps_unify (isLocal_isProper shapes) h
  rw [hrun] at hsteps
  obtain ⟨r, b'', hrun', hσ⟩ := succeeds_unify h (respectsKinds_after h.valid hkinds)
    (satisfiedBy_after h.valid σ) (by rw [subst_after, subst_after, heq])
  obtain ⟨-, rfl⟩ : c = r ∧ b' = b'' := by simpa [hrun] using hrun'
  calc (b.resolve w).subst σ = w.subst (b.after σ) := (subst_after b σ w).symm
    _ = (b'.resolve w).subst (b.after σ) := (hσ w).symm
    _ = (b'.resolve w).subst σ := subst_after_resolve h.valid hsteps w

theorem subst_ne_of_unify_eq_error
    (h : Ready kinds (IsProper shapes) b (b.resolve t) (b.resolve u))
    (hrun : perform (unify t u) b = (.error e, b')) (hkinds : RespectsKinds kinds σ) :
    (b.resolve t).subst σ ≠ (b.resolve u).subst σ := by
  intro heq
  obtain ⟨r, b'', hrun', -⟩ := succeeds_unify h (respectsKinds_after h.valid hkinds)
    (satisfiedBy_after h.valid σ) (by rw [subst_after, subst_after, heq])
  simp [hrun] at hrun'

end Solve

/-! ## Reached contexts -/

namespace Context

/-- The contexts that are reached from a fresh one, with the kinds of the variables created on the
way. Struct types of one declaration share its shape, and variables keep their kinds. -/
inductive Reached (shapes : NodeId → Shape) : List VarKind → Context → Prop where
  | fresh (builtins : List Prim) : Reached shapes [] { bare with builtins }
  | newVar {kinds : List VarKind} {c : Context} (h : Reached shapes kinds c) (k : VarKind) :
      Reached shapes (kinds ++ [k]) (c.newVar k).2
  | insert {kinds : List VarKind} {c : Context} (h : Reached shapes kinds c) (id : NodeId) (t : Ty) :
      Reached shapes kinds (c.insert id t)
  | unify {kinds : List VarKind} {c : Context} (h : Reached shapes kinds c) {a b : Ty}
      (ha : a.WellKinded kinds) (hb : b.WellKinded kinds) (hsa : a.WellShaped shapes)
      (hsb : b.WellShaped shapes) : Reached shapes kinds (c.unify a b).2

variable {shapes : NodeId → Shape} {kinds : List VarKind} {c c' : Context} {a b t : Ty}
  {e : UnifyError}

/-- Unifying changes nothing but the bindings. -/
theorem unify_eq_iff {r : Except UnifyError Ty} :
    c.unify a b = (r, c') ↔ perform (Solve.unify a b) c.bindings = (r, c'.bindings) ∧
      c'.types = c.types ∧ c'.builtins = c.builtins := by
  obtain ⟨types, builtins, bindings⟩ := c'
  simp only [unify, perform]
  rcases (Solve.unify a b).run.run c.bindings with ⟨r', b'⟩
  simp only [Prod.mk.injEq, mk.injEq]
  constructor
  · rintro ⟨rfl, rfl, rfl, rfl⟩
    exact ⟨⟨rfl, rfl⟩, rfl, rfl⟩
  · rintro ⟨⟨rfl, rfl⟩, rfl, rfl⟩
    exact ⟨rfl, rfl, rfl, rfl⟩

theorem Reached.sound (h : Reached shapes kinds c) : c.bindings.Sound kinds (HasShape shapes) := by
  induction h with
  | fresh _ => exact sound_empty
  | newVar _ k ih => exact ih.newVar (fun _ _ => trivial) k
  | insert _ _ _ ih => exact ih
  | unify _ ha hb hsa hsb ih =>
      have hP : IsLocal (HasShape shapes) := isLocal_hasShape shapes
      exact ih.steps hP (steps_unify hP (ih.ready hP ha hb hsa hsb))

/-- Types whose resolved forms contain no error are ready for a most general unifier. -/
theorem Reached.ready (h : Reached shapes kinds c) (ha : a.WellKinded kinds)
    (hb : b.WellKinded kinds) (hsa : a.WellShaped shapes) (hsb : b.WellShaped shapes)
    (hea : (c.resolve a).ErrorFree) (heb : (c.resolve b).ErrorFree) :
    Ready kinds (IsProper shapes) c.bindings (c.resolve a) (c.resolve b) := by
  obtain ⟨hvalid, hra, hrb, hka, hkb, hpa, hpb⟩ :=
    h.sound.ready (isLocal_hasShape shapes) ha hb hsa hsb
  exact ⟨hvalid, hra, hrb, hka, hkb, fun n hn => ⟨hpa n hn, hea n hn⟩,
    fun n hn => ⟨hpb n hn, heb n hn⟩⟩

/-- A success of unification makes both types the result, and every substitution that respects the
kinds and makes the resolved types equal factors through the new bindings. -/
theorem unify_isMostGeneral (h : Reached shapes kinds c) (ha : a.WellKinded kinds)
    (hb : b.WellKinded kinds) (hsa : a.WellShaped shapes) (hsb : b.WellShaped shapes)
    (hea : (c.resolve a).ErrorFree) (heb : (c.resolve b).ErrorFree)
    (hrun : c.unify a b = (.ok t, c')) :
    c'.resolve a = t ∧ c'.resolve b = t ∧
      ∀ σ, RespectsKinds kinds σ → (c.resolve a).subst σ = (c.resolve b).subst σ →
        ∃ τ, RespectsKinds kinds τ ∧ ∀ u, (c.resolve u).subst σ = (c'.resolve u).subst τ := by
  have hready := h.ready ha hb hsa hsb hea heb
  obtain ⟨hrun, -, -⟩ := unify_eq_iff.1 hrun
  obtain ⟨hta, htb⟩ := resolve_of_unify_eq_ok hready hrun
  exact ⟨hta, htb, fun σ hσ heq => ⟨σ, hσ, subst_resolve_of_unify_eq_ok hready hrun hσ heq⟩⟩

/-- A variable that occurs twice is bound to what its two counterparts have in common. -/
theorem unify_isMostGeneral_repeated :
    let c := (((bare.newVar .general).2.newVar .integral).2)
    let a := Ty.fn [.infer .general 0, .infer .general 0] .unit
    let b := Ty.fn [.infer .integral 1, .prim .i32] .unit
    let t := Ty.fn [.prim .i32, .prim .i32] .unit
    (c.unify a b).2.resolve a = t ∧ (c.unify a b).2.resolve b = t ∧
      ∀ σ, RespectsKinds [.general, .integral] σ →
        (c.resolve a).subst σ = (c.resolve b).subst σ →
        ∃ τ, RespectsKinds [.general, .integral] τ ∧
          ∀ u, (c.resolve u).subst σ = ((c.unify a b).2.resolve u).subst τ := by
  intro c a b t
  have hreached : Reached (fun _ => ⟨"", .named, [], []⟩) [.general, .integral] c :=
    .newVar (.newVar (.fresh []) .general) .integral
  exact unify_isMostGeneral hreached (by decide) (by decide) (by decide) (by decide) (by decide)
    (by decide) rfl

/-- Unification fails only if no substitution that respects the kinds makes the resolved types
equal. -/
theorem subst_ne_of_unify_fails (h : Reached shapes kinds c) (ha : a.WellKinded kinds)
    (hb : b.WellKinded kinds) (hsa : a.WellShaped shapes) (hsb : b.WellShaped shapes)
    (hea : (c.resolve a).ErrorFree) (heb : (c.resolve b).ErrorFree)
    (hrun : c.unify a b = (.error e, c')) (σ : VarId → Ty) (hσ : RespectsKinds kinds σ) :
    (c.resolve a).subst σ ≠ (c.resolve b).subst σ := by
  obtain ⟨hrun, -, -⟩ := unify_eq_iff.1 hrun
  exact subst_ne_of_unify_eq_error (h.ready ha hb hsa hsb hea heb) hrun hσ

/-- No finite type is both counterparts of a variable when one is a part of the other. -/
theorem subst_ne_of_unify_fails_circular :
    let c := (((bare.newVar .general).2.newVar .general).2)
    let a := Ty.fn [.infer .general 0, .infer .general 0] .unit
    let b := Ty.fn [.infer .general 1, .fn [.infer .general 1] .unit] .unit
    (c.unify a b).1 = .error (.infiniteType 1 (.fn [.infer .general 1] .unit)) ∧
      ∀ σ, RespectsKinds [.general, .general] σ →
        (c.resolve a).subst σ ≠ (c.resolve b).subst σ := by
  intro c a b
  have hreached : Reached (fun _ => ⟨"", .named, [], []⟩) [.general, .general] c :=
    .newVar (.newVar (.fresh []) .general) .general
  exact ⟨rfl, subst_ne_of_unify_fails hreached (by decide) (by decide) (by decide) (by decide)
    (by decide) (by decide) rfl⟩

end Context

end TypeInference

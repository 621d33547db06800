import TypeInference.Proofs.Context.Agreement

/-!
# Solving commits to nothing else

A substitution that respects the kinds and makes two types equal is satisfied
by whatever solving binds for them, and solving does not fail. Every meeting
inside a walk is about a variable that was unbound when the walk began, so the
number of unbound variables bounds their nesting.
-/

namespace TypeInference.Solve

open Ty Bindings

section

variable {kinds : List VarKind} {shapes : NodeId → Shape} {σ : VarId → Ty} {α β : Type}
  {merge : Ty → Ty → Solve Unit}

/-- Whether a run succeeds and leaves bindings that the substitution still satisfies. -/
def Succeeds (σ : VarId → Ty) (x : Solve α) (b : Bindings) : Prop :=
  ∃ a b', perform x b = (.ok a, b') ∧ b'.SatisfiedBy σ

theorem Succeeds.pure (a : α) {b : Bindings} (hσ : b.SatisfiedBy σ) :
    Succeeds σ (Pure.pure a : Solve α) b :=
  ⟨a, b, rfl, hσ⟩

theorem Succeeds.bind {x : Solve α} {f : α → Solve β} {b : Bindings} (hx : Succeeds σ x b)
    (hf : ∀ a b', perform x b = (.ok a, b') → b'.SatisfiedBy σ → Succeeds σ (f a) b') :
    Succeeds σ (x >>= f) b := by
  obtain ⟨a, b', hrun, hσ⟩ := hx
  obtain ⟨c, b'', hrun', hσ'⟩ := hf a b' hrun hσ
  exact ⟨c, b'', by rw [perform_bind_of_ok hrun, hrun'], hσ'⟩

/-- Whether types that the substitution makes equal can be brought together, with fewer variables
unbound than the bound says. -/
def Completes (kinds : List VarKind) (P : Ty → Prop) (σ : VarId → Ty) (bound : Nat)
    (merge : Ty → Ty → Solve Unit) : Prop :=
  ∀ b t u, Ready kinds P b t u → b.free < bound → b.SatisfiedBy σ → t.subst σ = u.subst σ →
    Succeeds σ (merge t u) b

theorem succeeds_bindVar {P : Ty → Prop} {start b : Bindings} (hstart : start.Valid kinds)
    (hsteps : Steps kinds P start b) (hmerge : Completes kinds P σ start.free merge)
    {k : VarKind} {v : VarId} {u : Ty} (hv : kinds[v]? = some k) (hu : u.WellKinded kinds)
    (hunbound : start.isBound v = false) (hPv : (b.resolve (.infer k v)).Every P)
    (hPu : (b.resolve u).Every P) (hσ : b.SatisfiedBy σ) (heq : σ v = u.subst σ) :
    Succeeds σ (bindVar merge k v u) b := by
  have hb := hstart.steps hsteps
  have hvar : (infer k v).WellKinded kinds := every_leaf hv rfl
  have htarget : σ v = (b.resolve u).subst σ := by rw [hσ u, heq]
  refine Succeeds.bind ⟨b, b, rfl, hσ⟩ fun a b' hget _ => ?_
  obtain ⟨rfl, rfl⟩ : b = a ∧ b = b' := by simpa using hget
  by_cases hsame : b.resolve (.infer k v) = b.resolve u
  · simp only [if_pos hsame]
    exact Succeeds.pure () hσ
  · simp only [if_neg hsame]
    by_cases hself : b.resolve (.infer k v) = .infer k v
    · simp only [if_pos hself]
      by_cases hoccurs : (b.resolve u).hasVar v
      · refine (ne_subst_of_hasVar hoccurs (fun l hl => hsame ?_) htarget).elim
        have hl' : kinds[v]? = some l := (hl ▸ resolve_wellKinded hb hu).root
        obtain rfl : k = l := Option.some.inj (hv.symm.trans hl')
        rw [hself, hl]
      · simp only [if_neg hoccurs]
        exact ⟨(), b.assign v (b.resolve u), rfl, hσ.assign htarget⟩
    · simp only [if_neg hself]
      -- A variable that was unbound at the start is bound now, so fewer are unbound.
      have hfree := free_lt_of_steps hstart hsteps hunbound (isBound_of_resolve_ne hself)
      exact hmerge b _ _ ⟨hb, hb.tidy.resolve_resolve _, hb.tidy.resolve_resolve u,
        resolve_wellKinded hb hvar, resolve_wellKinded hb hu, hPv, hPu⟩ hfree hσ
        (by rw [hσ, hσ, subst_infer, heq])

theorem succeeds_walkList {P : Ty → Prop} (hP : IsLocal P) {start : Bindings} {ts us : List Ty}
    (hlen : ts.length = us.length)
    (h : ∀ (i : Nat) t u, ts[i]? = some t → us[i]? = some u → ∀ b : Bindings,
      Steps kinds P start b → (b.resolve t).Every P → (b.resolve u).Every P → b.SatisfiedBy σ →
      Succeeds σ (walk merge t u) b ∧ Steps kinds P b (perform (walk merge t u) b).2)
    {b : Bindings} (hsteps : Steps kinds P start b) (hts : ∀ t ∈ ts, (b.resolve t).Every P)
    (hus : ∀ u ∈ us, (b.resolve u).Every P) (hσ : b.SatisfiedBy σ) :
    Succeeds σ (walkList merge ts us) b := by
  induction ts generalizing us b with
  | nil =>
      cases us with
      | nil =>
          rw [walkList]
          · exact Succeeds.pure () hσ
          · simp
      | cons u us => simp at hlen
  | cons t ts ih =>
      cases us with
      | nil => simp at hlen
      | cons u us =>
          obtain ⟨hfirst, hnext⟩ := h 0 t u rfl rfl b hsteps (hts t List.mem_cons_self)
            (hus u List.mem_cons_self) hσ
          rw [walkList]
          refine hfirst.bind fun _ b' hrun hσ' => ?_
          rw [hrun] at hnext
          exact ih (by simpa using hlen) (fun i t' u' ht hu => h (i + 1) t' u' ht hu)
            (hsteps.trans hnext)
            (fun t' ht => every_of_steps hP hnext (hts t' (List.mem_cons_of_mem _ ht)))
            (fun u' hu => every_of_steps hP hnext (hus u' (List.mem_cons_of_mem _ hu))) hσ'

theorem succeeds_walk {P : Ty → Prop} (hP : IsLocal P) (hne : ∀ t, P t → t ≠ .error)
    {start : Bindings} (hstart : start.Valid kinds) (hbinds : Binds kinds P merge)
    (hmerge : Completes kinds P σ start.free merge) {t u : Ty} (h : Refines t u)
    (ht : t.WellKinded kinds) (hu : u.WellKinded kinds)
    (hunbound : ∀ v, t.hasVar v → start.isBound v = false) {b : Bindings}
    (hsteps : Steps kinds P start b) (hPt : (b.resolve t).Every P) (hPu : (b.resolve u).Every P)
    (hσ : b.SatisfiedBy σ) (heq : t.subst σ = u.subst σ) : Succeeds σ (walk merge t u) b := by
  induction h generalizing b with
  | error => exact (hne _ hPu.root rfl).elim
  | @var k v u hneu haccepts =>
      rw [walk_infer hneu]
      exact succeeds_bindVar hstart hsteps hmerge ht.root hu (hunbound v (infer_hasVar k v)) hPt hPu
        hσ heq
  | @node t u hsettled hhead hparts ih =>
      rw [walk_eq_parts hsettled hhead]
      have hnt := ne_infer_of_isSettled hsettled
      have hnu := ne_infer_of_isSettled ((isSettled_of_head hhead).symm.trans hsettled)
      refine succeeds_walkList hP (length_parts_of_head hhead)
        (fun i p q hp hq b hsteps hPp hPq hσ => ?_) hsteps
        (fun p hp => hPt.part (resolve_part hnt hp)) (fun q hq => hPu.part (resolve_part hnu hq)) hσ
      have hkp := ht.part (List.mem_of_getElem? hp)
      have hkq := hu.part (List.mem_of_getElem? hq)
      refine ⟨ih i p q hp hq hkp hkq (fun v hv => hunbound v ?_) hsteps hPp hPq hσ
        (subst_part hnt hnu heq hp hq), ?_⟩
      · obtain ⟨k, hk⟩ := hasVar_iff.1 hv
        exact hasVar_iff.2 ⟨k, mem_nodes_of_part (List.mem_of_getElem? hp) hk⟩
      · exact binds_walk hP hbinds (hparts i p q hp hq) hkp hkq (hstart.steps hsteps) hPp hPq

/-- A meeting deeper than there are unbound variables succeeds if a substitution makes its two types
equal. -/
theorem succeeds_meet (hkinds : RespectsKinds kinds σ) (depth : Nat) {b : Bindings} {t u : Ty}
    (h : Ready kinds (IsProper shapes) b t u) (hfree : b.free < depth) (hσ : b.SatisfiedBy σ)
    (heq : t.subst σ = u.subst σ) : Succeeds σ (meet depth t u) b := by
  induction depth generalizing b t u with
  | zero => omega
  | succ depth ih =>
      have hP : IsLocal (IsProper shapes) := isLocal_isProper shapes
      have hne : ∀ t, IsProper shapes t → t ≠ .error := fun t ht => ht.2
      obtain ⟨c, hc⟩ := unify_of_subst_eq hkinds h.wellKinded_left h.wellKinded_right
        (h.every_left.mono hne) (h.every_right.mono hne) heq
      obtain ⟨hrt, hru⟩ := refines_of_unify hc
      have hceq := subst_of_unify hc heq
      have hwell := h.wellKinded_left.unify (isLocal_hasKind kinds) h.wellKinded_right hc
      have hPc : (b.resolve c).Every (IsProper shapes) := by
        rw [resolve_of_unify h.valid.tidy h.resolved_left h.resolved_right hc]
        exact h.every_left.unify hP h.every_right hc
      have hPt : (b.resolve t).Every (IsProper shapes) := h.resolved_left.symm ▸ h.every_left
      have hPu : (b.resolve u).Every (IsProper shapes) := h.resolved_right.symm ▸ h.every_right
      have hbinds : Binds kinds (IsProper shapes) fun x y => discard (meet depth x y) :=
        fun _ _ _ hready => steps_bind (binds_meet hP depth hready) fun _ => .refl
      have hmerge : Completes kinds (IsProper shapes) σ b.free fun x y => discard (meet depth x y) := by
        intro b' x y hready hlt hσ' hxy
        obtain ⟨z, b'', hrun, hσ''⟩ := ih hready (by omega) hσ' hxy
        exact ⟨(), b'', perform_discard_eq_ok_iff.2 ⟨z, hrun⟩, hσ''⟩
      rw [meet]
      refine Succeeds.bind ⟨c, b, by rw [perform_ofExcept, hc], hσ⟩ fun c' b' hrun _ => ?_
      obtain ⟨rfl, rfl⟩ : c = c' ∧ b = b' := by simpa [hc] using hrun
      refine (succeeds_walk hP hne h.valid hbinds hmerge hrt h.wellKinded_left hwell
        (fun v hv => h.valid.tidy.unbound_of_resolved h.resolved_left hv) .refl hPt hPc hσ
        hceq.symm).bind fun _ b₁ hleft hσ₁ => ?_
      have hsteps : Steps kinds (IsProper shapes) b b₁ := by
        have := binds_walk hP hbinds hrt h.wellKinded_left hwell h.valid hPt hPc
        rwa [hleft] at this
      refine (succeeds_walk hP hne h.valid hbinds hmerge hru h.wellKinded_right hwell
        (fun v hv => h.valid.tidy.unbound_of_resolved h.resolved_right hv) hsteps
        (every_of_steps hP hsteps hPu) (every_of_steps hP hsteps hPc) hσ₁
        (heq.symm.trans hceq.symm)).bind fun _ b₂ _ hσ₂ => ?_
      exact Succeeds.pure c hσ₂

end

end TypeInference.Solve

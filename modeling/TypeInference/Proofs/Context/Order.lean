import TypeInference.Proofs.Context.Acyclic

/-!
# The order of unifications does not matter

What a list of equations makes equal does not depend on the order in which they
are solved, because every solution of the list is satisfied by whatever is
bound on the way. Nor do the representatives of merged variables depend on it:
each is the oldest variable of the most specific kind.
-/

namespace TypeInference

open Ty

namespace Bindings

variable {kinds : List VarKind} {P : Ty → Prop} {b₁ b₂ : Bindings}

theorem subst_infer_kinds {t : Ty} (ht : t.WellKinded kinds) :
    t.subst (fun v => .infer (kinds[v]?.getD .general) v) = t := by
  refine Eq.trans (rewrite_congr (fun k v hv => ?_) fun _ _ => rfl) (rewrite_id t)
  have hk : kinds[v]? = some k := ht _ (infer_mem_nodes.2 hv)
  show Ty.infer (kinds[v]?.getD .general) v = .infer k v
  rw [hk]
  rfl

def solution (kinds : List VarKind) (b : Bindings) : VarId → Ty :=
  b.after fun v => .infer (kinds[v]?.getD .general) v

theorem subst_solution {b : Bindings} (hb : b.Valid kinds) {t : Ty} (ht : t.WellKinded kinds) :
    t.subst (b.solution kinds) = b.resolve t := by
  rw [solution, subst_after, subst_infer_kinds (resolve_wellKinded hb ht)]

theorem respectsKinds_solution {b : Bindings} (hb : b.Valid kinds) :
    RespectsKinds kinds (b.solution kinds) := by
  apply respectsKinds_after hb
  intro v k hv
  simp only [hv, Option.getD_some]
  exact accepts_infer k v

theorem satisfiedBy_solution {b : Bindings} (hb : b.Valid kinds) :
    b.SatisfiedBy (b.solution kinds) :=
  satisfiedBy_after hb _

/-! ## Bindings that satisfy each other -/

theorem resolve_of_satisfiedBy (h₁ : b₁.Valid kinds) (h₂ : b₂.Valid kinds)
    (h : b₁.SatisfiedBy (b₂.solution kinds)) {t : Ty} (ht : t.WellKinded kinds) :
    b₂.resolve (b₁.resolve t) = b₂.resolve t := by
  calc b₂.resolve (b₁.resolve t) = (b₁.resolve t).subst (b₂.solution kinds) :=
        (subst_solution h₂ (resolve_wellKinded h₁ ht)).symm
    _ = t.subst (b₂.solution kinds) := h t
    _ = b₂.resolve t := subst_solution h₂ ht

/-- A representative on one side stands for itself on the other: it could only have given way to an
older one of its kind. -/
theorem unbound_of_satisfiedBy (h₁ : b₁.Valid kinds) (h₂ : b₂.Valid kinds)
    (h : b₁.SatisfiedBy (b₂.solution kinds)) {v : VarId} {k : VarKind} (hv : kinds[v]? = some k)
    (hunbound : b₂.isBound v = false) : b₁.isBound v = false := by
  have hwell : (infer k v).WellKinded kinds := every_leaf hv rfl
  have hback : b₂.resolve (b₁.resolve (.infer k v)) = .infer k v := by
    rw [resolve_of_satisfiedBy h₁ h₂ h hwell, resolve_infer_of_unbound hunbound]
  have haccepts := h₁.accepts v k hv
  have hwell₁ := h₁.wellKinded v k hv
  apply h₁.tidy.unbound_of_resolve_eq (k := k)
  cases hr : b₁.resolve (.infer k v) with
  | infer l w =>
      rw [hr] at hback haccepts hwell₁
      have hl : l.accepts (.infer k v) := hback ▸ h₂.accepts w l hwell₁.root
      obtain rfl : l = k := accepts_antisymm hl haccepts
      have hle := h₁.eldest v l w hv hr
      have hge := h₂.eldest w l v hwell₁.root hback
      rw [Nat.le_antisymm hle hge]
  | _ =>
      rw [hr] at hback
      simp [resolve] at hback

theorem resolve_eq_of_wellKinded (h₁ : b₁.Valid kinds) (h₂ : b₂.Valid kinds)
    (h₁₂ : b₁.SatisfiedBy (b₂.solution kinds)) (h₂₁ : b₂.SatisfiedBy (b₁.solution kinds)) {t : Ty}
    (ht : t.WellKinded kinds) : b₁.resolve t = b₂.resolve t := by
  have hstays : b₁.resolve (b₂.resolve t) = b₂.resolve t := by
    apply resolve_of_forall_unbound
    intro v hv
    obtain ⟨k, hk⟩ := hasVar_iff.1 hv
    exact unbound_of_satisfiedBy h₁ h₂ h₁₂ (resolve_wellKinded h₂ ht _ hk)
      (h₂.unbound_of_hasVar t v hv)
  rw [← hstays, resolve_of_satisfiedBy h₂ h₁ h₂₁ ht]

/-- Bindings that satisfy each other resolve every type alike. -/
theorem resolve_eq_of_satisfiedBy (h₁ : b₁.Valid kinds) (h₂ : b₂.Valid kinds)
    (h₁₂ : b₁.SatisfiedBy (b₂.solution kinds)) (h₂₁ : b₂.SatisfiedBy (b₁.solution kinds)) (t : Ty) :
    b₁.resolve t = b₂.resolve t := by
  refine rewrite_congr (fun k v _ => ?_) fun _ _ => rfl
  show b₁.resolve (.infer k v) = b₂.resolve (.infer k v)
  by_cases hbound : b₁.isBound v
  · obtain ⟨l, hl⟩ : ∃ l, kinds[v]? = some l := by
      have hlt : v < kinds.length := h₁.count_eq ▸ h₁.lt_of_bound v hbound
      exact ⟨_, List.getElem?_eq_getElem hlt⟩
    have hbound₂ : b₂.isBound v := by
      by_contra hnot
      have := unbound_of_satisfiedBy h₁ h₂ h₁₂ hl (by simpa using hnot)
      simp [hbound] at this
    have heq := resolve_eq_of_wellKinded h₁ h₂ h₁₂ h₂₁ (t := .infer l v) (every_leaf hl rfl)
    rwa [show b₁.resolve (.infer k v) = b₁.resolve (.infer l v) from
        chase_eq_of_bound (isBound_iff.1 hbound) k l,
      show b₂.resolve (.infer k v) = b₂.resolve (.infer l v) from
        chase_eq_of_bound (isBound_iff.1 hbound₂) k l]
  · have hunbound₂ : b₂.isBound v = false := by
      rw [Bool.eq_false_iff]
      intro hbound₂
      have hlt : v < kinds.length := h₂.count_eq ▸ h₂.lt_of_bound v hbound₂
      have := unbound_of_satisfiedBy h₂ h₁ h₂₁ (List.getElem?_eq_getElem hlt) (by simpa using hbound)
      simp [hbound₂] at this
    rw [resolve_infer_of_unbound (by simpa using hbound), resolve_infer_of_unbound hunbound₂]

end Bindings

open Bindings Solve

namespace Context

/-- Unify the pairs one after the other, as long as that succeeds. -/
def unifyAll : Context → List (Ty × Ty) → Option Context
  | c, [] => some c
  | c, (a, b) :: rest =>
      match c.unify a b with
      | (.ok _, c') => unifyAll c' rest
      | (.error _, _) => none

/-- A type over created variables that resolves to a type without errors, in which struct types of
one declaration share its shape. -/
structure Takes (shapes : NodeId → Shape) (kinds : List VarKind) (c : Context) (t : Ty) : Prop where
  wellKinded : t.WellKinded kinds
  wellShaped : (c.resolve t).WellShaped shapes
  errorFree : (c.resolve t).ErrorFree

/-- The same pairs in any order, each as it was or flipped. -/
def Reordered (ps qs : List (Ty × Ty)) : Prop :=
  ∃ rs, ps.Perm rs ∧ List.Forall₂ (fun p q => q = p ∨ q = p.swap) rs qs

variable {shapes : NodeId → Shape} {kinds : List VarKind} {c c' c₁ c₂ : Context}
  {ps qs : List (Ty × Ty)} {a b : Ty} {σ : VarId → Ty}

theorem Takes.proper (h : c.Takes shapes kinds a) : (c.resolve a).Every (IsProper shapes) :=
  fun n hn => ⟨h.wellShaped n hn, h.errorFree n hn⟩

theorem Takes.ready (ha : c.Takes shapes kinds a) (hb : c.Takes shapes kinds b)
    (hc : c.bindings.Valid kinds) :
    Ready kinds (IsProper shapes) c.bindings (c.resolve a) (c.resolve b) :=
  ⟨hc, hc.tidy.resolve_resolve a, hc.tidy.resolve_resolve b, resolve_wellKinded hc ha.wellKinded,
    resolve_wellKinded hc hb.wellKinded, ha.proper, hb.proper⟩

theorem Takes.steps (ha : c.Takes shapes kinds a)
    (h : Steps kinds (IsProper shapes) c.bindings c'.bindings) : c'.Takes shapes kinds a := by
  have hproper := every_of_steps (isLocal_isProper shapes) h ha.proper
  exact ⟨ha.wellKinded, hproper.mono fun _ hn => hn.1, hproper.mono fun _ hn => hn.2⟩

/-- After a success every pair is equal, and what it took was to bind variables. -/
theorem steps_unifyAll (hc : c.bindings.Valid kinds)
    (hps : ∀ p ∈ ps, c.Takes shapes kinds p.1 ∧ c.Takes shapes kinds p.2)
    (hrun : c.unifyAll ps = some c') :
    Steps kinds (IsProper shapes) c.bindings c'.bindings ∧
      ∀ p ∈ ps, c'.resolve p.1 = c'.resolve p.2 := by
  induction ps generalizing c with
  | nil =>
      obtain rfl : c = c' := by simpa [unifyAll] using hrun
      exact ⟨.refl, by simp⟩
  | cons p ps ih =>
      obtain ⟨a, b⟩ := p
      obtain ⟨ha, hb⟩ := hps (a, b) List.mem_cons_self
      have hready := ha.ready hb hc
      cases hfirst : c.unify a b with
      | mk r d =>
          have hperform := (unify_eq_iff.1 hfirst).1
          have hsteps := steps_unify (isLocal_isProper shapes) hready
          rw [hperform] at hsteps
          cases r with
          | error e => simp [unifyAll, hfirst] at hrun
          | ok t =>
              obtain ⟨hat, hbt⟩ := resolve_of_unify_eq_ok hready hperform
              obtain ⟨hrest, heq⟩ := ih (hc.steps hsteps)
                (fun q hq => by
                  obtain ⟨h₁, h₂⟩ := hps q (List.mem_cons_of_mem _ hq)
                  exact ⟨h₁.steps hsteps, h₂.steps hsteps⟩)
                (by simpa [unifyAll, hfirst] using hrun)
              refine ⟨hsteps.trans hrest, fun q hq => ?_⟩
              rcases List.mem_cons.1 hq with rfl | hq
              · exact resolve_eq_of_steps (hc.steps hsteps) hrest (hat.trans hbt.symm)
              · exact heq q hq

/-- A substitution that makes every pair equal is satisfied by what all of them together bind. -/
theorem succeeds_unifyAll (hc : c.bindings.Valid kinds)
    (hps : ∀ p ∈ ps, c.Takes shapes kinds p.1 ∧ c.Takes shapes kinds p.2)
    (hkinds : RespectsKinds kinds σ) (hσ : c.bindings.SatisfiedBy σ)
    (heq : ∀ p ∈ ps, p.1.subst σ = p.2.subst σ) :
    ∃ c', c.unifyAll ps = some c' ∧ c'.bindings.SatisfiedBy σ := by
  induction ps generalizing c with
  | nil => exact ⟨c, rfl, hσ⟩
  | cons p ps ih =>
      obtain ⟨a, b⟩ := p
      obtain ⟨ha, hb⟩ := hps (a, b) List.mem_cons_self
      have hready := ha.ready hb hc
      obtain ⟨t, bs, hperform, hσ'⟩ := succeeds_unify hready hkinds hσ
        (heq (a, b) List.mem_cons_self)
      have hsteps := steps_unify (isLocal_isProper shapes) hready
      rw [hperform] at hsteps
      have hfirst : c.unify a b = (.ok t, { c with bindings := bs }) :=
        unify_eq_iff.2 ⟨hperform, rfl, rfl⟩
      obtain ⟨c', hrest, hσ''⟩ := ih (c := { c with bindings := bs }) (hc.steps hsteps)
        (fun q hq => by
          obtain ⟨h₁, h₂⟩ := hps q (List.mem_cons_of_mem _ hq)
          exact ⟨h₁.steps hsteps, h₂.steps hsteps⟩)
        hσ' fun q hq => heq q (List.mem_cons_of_mem _ hq)
      exact ⟨c', by simp [unifyAll, hfirst, hrest], hσ''⟩

/-- Either list has the pairs of the other, as they are or flipped. -/
theorem Reordered.mem (h : Reordered ps qs) :
    (∀ q ∈ qs, q ∈ ps ∨ q.swap ∈ ps) ∧ ∀ p ∈ ps, p ∈ qs ∨ p.swap ∈ qs := by
  obtain ⟨rs, hperm, hflip⟩ := h
  simp only [hperm.mem_iff]
  clear hperm
  induction hflip with
  | nil => simp
  | @cons r q rs qs hrq _ ih =>
      have hswap : r = q ∨ r = q.swap := by
        rcases hrq with rfl | rfl
        · exact .inl rfl
        · exact .inr r.swap_swap.symm
      constructor
      · intro x hx
        rcases List.mem_cons.1 hx with rfl | hx
        · rcases hswap with rfl | rfl <;> simp
        · exact (ih.1 x hx).imp (List.mem_cons_of_mem _) (List.mem_cons_of_mem _)
      · intro x hx
        rcases List.mem_cons.1 hx with rfl | hx
        · rcases hswap with rfl | rfl <;> simp
        · exact (ih.2 x hx).imp (List.mem_cons_of_mem _) (List.mem_cons_of_mem _)

/-- If all pairs of a list unify, then so do pairs that are among them up to flipping, and what
these bind is satisfied by what the list has bound. -/
theorem unifyAll_of_subset (hc : c.bindings.Valid kinds)
    (hps : ∀ p ∈ ps, c.Takes shapes kinds p.1 ∧ c.Takes shapes kinds p.2)
    (hqs : ∀ q ∈ qs, q ∈ ps ∨ q.swap ∈ ps) (hrun : c.unifyAll ps = some c₁) :
    ∃ c₂, c.unifyAll qs = some c₂ ∧ c₂.bindings.SatisfiedBy (c₁.bindings.solution kinds) ∧
      c₂.bindings.Valid kinds := by
  obtain ⟨hsteps, heq⟩ := steps_unifyAll hc hps hrun
  have hc₁ := hc.steps hsteps
  have hequal : ∀ p ∈ ps, p.1.subst (c₁.bindings.solution kinds) =
      p.2.subst (c₁.bindings.solution kinds) := by
    intro p hp
    obtain ⟨h₁, h₂⟩ := hps p hp
    rw [subst_solution hc₁ h₁.wellKinded, subst_solution hc₁ h₂.wellKinded]
    exact heq p hp
  have htakes : ∀ q ∈ qs, c.Takes shapes kinds q.1 ∧ c.Takes shapes kinds q.2 := fun q hq =>
    (hqs q hq).elim (hps q) fun hq => (hps _ hq).symm
  obtain ⟨c₂, hrun₂, hσ⟩ := succeeds_unifyAll hc htakes (respectsKinds_solution hc₁)
    ((satisfiedBy_solution hc₁).of_steps hc hsteps)
    fun q hq => (hqs q hq).elim (hequal q) fun hq => (hequal _ hq).symm
  exact ⟨c₂, hrun₂, hσ, hc.steps (steps_unifyAll hc htakes hrun₂).1⟩

/-- In whatever order a list of pairs is unified, and whichever way round each pair is, all of them
unify or not, and afterwards every type resolves to the same type. -/
theorem unifyAll_reordered (h : Ran kinds c)
    (hps : ∀ p ∈ ps, c.Takes shapes kinds p.1 ∧ c.Takes shapes kinds p.2)
    (horder : Reordered ps qs) :
    ((∃ c₁, c.unifyAll ps = some c₁) ↔ ∃ c₂, c.unifyAll qs = some c₂) ∧
      ∀ c₁ c₂, c.unifyAll ps = some c₁ → c.unifyAll qs = some c₂ →
        ∀ t, c₁.resolve t = c₂.resolve t := by
  have hc := h.ordered.toValid
  obtain ⟨hqp, hpq⟩ := horder.mem
  have hqs : ∀ q ∈ qs, c.Takes shapes kinds q.1 ∧ c.Takes shapes kinds q.2 := fun q hq =>
    (hqp q hq).elim (hps q) fun hq => (hps _ hq).symm
  constructor
  · constructor
    · intro ⟨c₁, h₁⟩
      obtain ⟨c₂, h₂, -⟩ := unifyAll_of_subset hc hps hqp h₁
      exact ⟨c₂, h₂⟩
    · intro ⟨c₂, h₂⟩
      obtain ⟨c₁, h₁, -⟩ := unifyAll_of_subset hc hqs hpq h₂
      exact ⟨c₁, h₁⟩
  · intro c₁ c₂ h₁ h₂ t
    obtain ⟨d₂, hd₂, h₂₁, hvalid₂⟩ := unifyAll_of_subset hc hps hqp h₁
    obtain ⟨d₁, hd₁, h₁₂, hvalid₁⟩ := unifyAll_of_subset hc hqs hpq h₂
    obtain rfl : c₂ = d₂ := Option.some.inj (h₂.symm.trans hd₂)
    obtain rfl : c₁ = d₁ := Option.some.inj (h₁.symm.trans hd₁)
    exact resolve_eq_of_satisfiedBy hvalid₁ hvalid₂ h₁₂ h₂₁ t

/-- Three variables merge into the older one of the two that are integral. -/
theorem unifyAll_reordered_merged :
    let c := (((bare.newVar .general).2.newVar .integral).2.newVar .integral).2
    let ps : List (Ty × Ty) :=
      [(.infer .general 0, .infer .integral 2), (.infer .integral 1, .infer .integral 2)]
    let qs : List (Ty × Ty) :=
      [(.infer .integral 2, .infer .integral 1), (.infer .general 0, .infer .integral 2)]
    (((∃ c₁, c.unifyAll ps = some c₁) ↔ ∃ c₂, c.unifyAll qs = some c₂) ∧
      ∀ c₁ c₂, c.unifyAll ps = some c₁ → c.unifyAll qs = some c₂ →
        ∀ t, c₁.resolve t = c₂.resolve t) ∧
      (c.unifyAll ps).map (fun c₁ => c₁.resolve (.infer .general 0)) = some (.infer .integral 1) := by
  intro c ps qs
  have hran : Ran [.general, .integral, .integral] c :=
    .newVar (.newVar (.newVar (.new []) .general) .integral) .integral
  have htakes : ∀ p ∈ ps, c.Takes (fun _ => ⟨"", .named, [], []⟩)
      [.general, .integral, .integral] p.1 ∧ c.Takes (fun _ => ⟨"", .named, [], []⟩)
      [.general, .integral, .integral] p.2 := by
    intro p hp
    simp only [ps, List.mem_cons, List.not_mem_nil, or_false] at hp
    rcases hp with rfl | rfl <;>
      exact ⟨⟨by decide, by decide, by decide⟩, ⟨by decide, by decide, by decide⟩⟩
  have horder : Reordered ps qs :=
    ⟨[(.infer .integral 1, .infer .integral 2), (.infer .general 0, .infer .integral 2)],
      List.Perm.swap _ _ _, .cons (.inr rfl) (.cons (.inl rfl) .nil)⟩
  exact ⟨unifyAll_reordered hran htakes horder, rfl⟩

end Context

end TypeInference

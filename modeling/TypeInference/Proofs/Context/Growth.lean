import Mathlib.Data.List.Perm.Subperm
import Mathlib.Logic.Relation
import TypeInference.Context.Bindings
import TypeInference.Proofs.Ty.Subst

/-!
# Growth of bindings

Bindings only grow, one variable at a time: an unbound variable is bound to a
resolved type that does not mention it and that its kind accepts. What every
such step preserves holds of all bindings that solving reaches.
-/

namespace TypeInference.Bindings

open Ty

section

variable {kinds : List VarKind} {P : Ty → Prop} {b b' : Bindings}

theorem chase_of_not_bound {solved : List (VarId × Ty)} {v : VarId}
    (h : ∀ p ∈ solved, p.1 ≠ v) (k : VarKind) : chase solved k v = .infer k v := by
  induction solved with
  | nil =>
      rfl
  | cons p solved ih =>
      obtain ⟨w, t⟩ := p
      have hne : v ≠ w := fun hvw => h (w, t) List.mem_cons_self hvw.symm
      rw [chase, if_neg hne]
      exact ih fun q hq => h q (List.mem_cons_of_mem _ hq)

/-- A bound variable stands for one type, with whatever kind it is read. -/
theorem chase_eq_of_bound {solved : List (VarId × Ty)} {v : VarId}
    (h : v ∈ solved.map Prod.fst) (k l : VarKind) : chase solved k v = chase solved l v := by
  induction solved with
  | nil => simp at h
  | cons p later ih =>
      obtain ⟨w, t⟩ := p
      by_cases hvw : v = w
      · rw [chase, chase, if_pos hvw, if_pos hvw]
      · rw [chase, chase, if_neg hvw, if_neg hvw]
        exact ih (by simpa [hvw] using h)

theorem resolve_infer_of_unbound {v : VarId} (h : b.isBound v = false) (k : VarKind) :
    b.resolve (.infer k v) = .infer k v := by
  refine chase_of_not_bound (fun p hp hpv => ?_) k
  have hbound : b.isBound v = true := List.any_eq_true.2 ⟨p, hp, by simp [hpv]⟩
  simp [hbound] at h

theorem isBound_iff {v : VarId} : b.isBound v = true ↔ v ∈ b.solved.map Prod.fst := by
  simp [isBound]

theorem nodup_assign (hnodup : (b.solved.map Prod.fst).Nodup) {v : VarId} (hv : b.isBound v = false)
    (t : Ty) : ((b.assign v t).solved.map Prod.fst).Nodup := by
  have hnew : v ∉ b.solved.map Prod.fst := fun hmem => by simp [isBound_iff.2 hmem] at hv
  rw [assign, List.map_append, List.nodup_append]
  refine ⟨hnodup, by simp, ?_⟩
  rintro w hw _ hx rfl
  obtain rfl := List.mem_singleton.1 hx
  exact hnew hw

theorem isBound_assign {v w : VarId} {t : Ty} :
    (b.assign v t).isBound w = (b.isBound w || v == w) := by
  simp [isBound, assign]

theorem root_resolve {t : Ty} (h : ∀ k v, t ≠ .infer k v) :
    (b.resolve t).head = t.head ∧ (b.resolve t).shape? = t.shape? ∧
      (b.resolve t).parts = t.parts.map b.resolve :=
  root_rewrite_param h

theorem resolve_part {t p : Ty} (h : ∀ k v, t ≠ .infer k v) (hp : p ∈ t.parts) :
    b.resolve p ∈ (b.resolve t).parts := by
  rw [(root_resolve h).2.2]
  exact List.mem_map_of_mem hp

/-! ## Tidy bindings -/

/-- Whether resolved types mention only variables that are not bound. -/
def Tidy (b : Bindings) : Prop := ∀ t v, (b.resolve t).hasVar v → b.isBound v = false

theorem tidy_empty : empty.Tidy := fun _ _ _ => rfl

theorem resolve_of_forall_unbound {t : Ty} (h : ∀ v, t.hasVar v → b.isBound v = false) :
    b.resolve t = t := by
  refine Eq.trans (rewrite_congr (fun k v hkv => ?_) fun _ _ => rfl) (rewrite_id t)
  exact resolve_infer_of_unbound (h v (hasVar_iff.2 ⟨k, infer_mem_nodes.2 hkv⟩)) k

theorem Tidy.resolve_resolve (hb : b.Tidy) (t : Ty) : b.resolve (b.resolve t) = b.resolve t :=
  resolve_of_forall_unbound (hb t)

theorem Tidy.unbound_of_resolved (hb : b.Tidy) {t : Ty} (ht : b.resolve t = t) {v : VarId}
    (hv : t.hasVar v) : b.isBound v = false :=
  hb t v (ht.symm ▸ hv)

theorem infer_hasVar (k : VarKind) (v : VarId) : (infer k v).hasVar v = true :=
  hasVar_iff.2 ⟨k, self_mem_nodes _⟩

theorem Tidy.unbound_of_resolve_eq (hb : b.Tidy) {k : VarKind} {v : VarId}
    (h : b.resolve (.infer k v) = .infer k v) : b.isBound v = false :=
  hb.unbound_of_resolved h (infer_hasVar k v)

/-- A variable is bound exactly if it does not stand for itself. -/
theorem isBound_of_resolve_ne {k : VarKind} {v : VarId} (h : b.resolve (.infer k v) ≠ .infer k v) :
    b.isBound v = true := by
  by_cases hv : b.isBound v
  · exact hv
  · exact (h (resolve_infer_of_unbound (by simpa using hv) k)).elim

/-! ## The invariant -/

/-- What holds of bindings of variables with these kinds: a resolved type mentions unbound variables
only, and a variable stands for a type of its kind that is not an error and no younger variable of
that kind. -/
structure Valid (kinds : List VarKind) (b : Bindings) : Prop where
  count_eq : b.count = kinds.length
  nodup : (b.solved.map Prod.fst).Nodup
  lt_of_bound : ∀ v, b.isBound v → v < b.count
  unbound_of_hasVar : ∀ t v, (b.resolve t).hasVar v → b.isBound v = false
  accepts : ∀ (v : VarId) k, kinds[v]? = some k → k.accepts (b.resolve (.infer k v))
  ne_error : ∀ (v : VarId) k, kinds[v]? = some k → b.resolve (.infer k v) ≠ .error
  wellKinded : ∀ (v : VarId) k, kinds[v]? = some k → (b.resolve (.infer k v)).WellKinded kinds
  eldest : ∀ (v : VarId) k w, kinds[v]? = some k → b.resolve (.infer k v) = .infer k w → w ≤ v

theorem valid_empty : empty.Valid [] := by
  constructor <;> simp [empty, isBound]

theorem Valid.newVar (hb : b.Valid kinds) (k : VarKind) : (b.newVar k).2.Valid (kinds ++ [k]) := by
  have hnew : ∀ (v : VarId) l, (kinds ++ [k])[v]? = some l →
      kinds[v]? = some l ∨ b.resolve (.infer l v) = .infer l v := by
    intro v l hv
    by_cases hlt : v < kinds.length
    · exact .inl (by rwa [List.getElem?_append_left hlt] at hv)
    · refine .inr (resolve_infer_of_unbound ?_ l)
      by_cases hbound : b.isBound v
      · exact (hlt (hb.count_eq ▸ hb.lt_of_bound v hbound)).elim
      · simpa using hbound
  constructor
  case count_eq => simp [Bindings.newVar, hb.count_eq]
  case nodup => exact hb.nodup
  case lt_of_bound => exact fun v hv => Nat.lt_succ_of_lt (hb.lt_of_bound v hv)
  case unbound_of_hasVar => exact hb.unbound_of_hasVar
  case accepts =>
    intro v l hv
    rcases hnew v l hv with h | h
    · exact hb.accepts v l h
    · rw [resolve_newVar, h]
      exact accepts_infer l v
  case ne_error =>
    intro v l hv
    rcases hnew v l hv with h | h
    · exact hb.ne_error v l h
    · rw [resolve_newVar, h]
      simp
  case wellKinded =>
    intro v l hv
    rcases hnew v l hv with h | h
    · exact wellKinded_append (hb.wellKinded v l h) [k]
    · rw [resolve_newVar, h]
      exact every_leaf hv rfl
  case eldest =>
    intro v l w hv hr
    rcases hnew v l hv with h | h
    · exact hb.eldest v l w h hr
    · rw [resolve_newVar, h] at hr
      cases hr
      exact Nat.le_refl v

theorem Valid.newVars (hb : b.Valid kinds) (n : Nat) :
    (b.newVars n).2.Valid (kinds ++ List.replicate n .general) ∧
      ∀ t ∈ (b.newVars n).1, t.WellKinded (kinds ++ List.replicate n .general) := by
  constructor
  · induction n with
    | zero => simpa [Bindings.newVars] using hb
    | succ n ih =>
        rw [List.replicate_succ', ← List.append_assoc]
        exact ih.newVar .general
  · intro t ht
    obtain ⟨i, hi, rfl⟩ := List.mem_map.1 ht
    refine every_leaf ?_ rfl
    show (kinds ++ List.replicate n .general)[b.count + i]? = some .general
    rw [hb.count_eq, List.getElem?_append_right (Nat.le_add_right _ _),
      Nat.add_sub_cancel_left, List.getElem?_replicate, if_pos (List.mem_range.1 hi)]

theorem Valid.tidy (hb : b.Valid kinds) : b.Tidy := hb.unbound_of_hasVar

theorem resolve_wellKinded (hb : b.Valid kinds) {t : Ty} (ht : t.WellKinded kinds) :
    (b.resolve t).WellKinded kinds :=
  ht.rewrite_vars (isLocal_hasKind kinds) fun k v h => hb.wellKinded v k (ht _ h)

/-- A type that a kind accepts is still accepted when it is resolved. -/
theorem accepts_resolve (hb : b.Valid kinds) {k : VarKind} {t : Ty} (ht : t.WellKinded kinds)
    (h : k.accepts t) : k.accepts (b.resolve t) := by
  cases t with
  | infer l v => exact accepts_trans h (hb.accepts v l ht.root)
  | _ => cases k <;> simp_all [VarKind.accepts, isIntegral, isFloat, resolve]

/-- A type is resolved to no younger variable of a kind than those that it is not younger than. -/
theorem age_resolve (hb : b.Valid kinds) {k : VarKind} {v : VarId} {t : Ty}
    (ht : t.WellKinded kinds) (haccepts : k.accepts t) (hage : ∀ w, t = .infer k w → w ≤ v)
    {w : VarId} (hw : b.resolve t = .infer k w) : w ≤ v := by
  cases t with
  | infer l x =>
      have hl := hb.accepts x l ht.root
      rw [hw] at hl
      obtain rfl : l = k := accepts_antisymm hl haccepts
      exact Nat.le_trans (hb.eldest x l w ht.root hw) (hage x rfl)
  | _ => simp [resolve] at hw

theorem resolve_ne_error (hb : b.Valid kinds) {t : Ty} (ht : t.WellKinded kinds) (h : t ≠ .error) :
    b.resolve t ≠ .error := by
  cases t with
  | infer k v => exact hb.ne_error v k ht.root
  | error => exact (h rfl).elim
  | _ => simp [resolve]

/-! ## Steps -/

/-- One variable is bound to a type whose nodes all have the property `P`. -/
inductive Step (kinds : List VarKind) (P : Ty → Prop) (b : Bindings) : Bindings → Prop where
  | assign {k : VarKind} {v : VarId} {t : Ty} (hkind : kinds[v]? = some k)
      (hunbound : b.isBound v = false) (hresolved : b.resolve t = t)
      (hoccurs : t.hasVar v = false) (haccepts : k.accepts t) (hne : t ≠ .error)
      (hwell : t.WellKinded kinds) (hP : t.Every P) (hage : ∀ w, t = .infer k w → w ≤ v) :
      Step kinds P b (b.assign v t)

abbrev Steps (kinds : List VarKind) (P : Ty → Prop) : Bindings → Bindings → Prop :=
  Relation.ReflTransGen (Step kinds P)

theorem point_ne {v : VarId} {t u : Ty} (hu : u ≠ .error) (ht : t ≠ .error) :
    u.rewrite (point v t) .param ≠ .error := by
  cases u with
  | infer k w =>
      by_cases h : w = v
      · simpa [point, h] using ht
      · simp [point, h]
  | error => exact (hu rfl).elim
  | _ => simp

theorem every_point {v : VarId} {t u : Ty} (hP : IsLocal P) (hu : u.Every P) (ht : t.Every P) :
    (u.rewrite (point v t) .param).Every P := by
  refine hu.rewrite_vars hP fun k w h => ?_
  by_cases hw : w = v
  · rw [point, if_pos hw]
    exact ht
  · rw [point, if_neg hw]
    exact every_leaf (hu _ h) rfl

/-- The variables left after one variable is replaced. -/
theorem hasVar_point {v w : VarId} {t u : Ty} (h : (u.rewrite (point v t) .param).hasVar w) :
    (u.hasVar w ∧ w ≠ v) ∨ t.hasVar w := by
  have hevery : (u.rewrite (point v t) .param).Every fun n =>
      ∀ k x, n = .infer k x → (u.hasVar x ∧ x ≠ v) ∨ t.hasVar x := by
    refine every_rewrite (fun hhead _ h k x hn => ?_) (fun n _ hfix k x hn => ?_)
      (fun k x hx => ?_) fun p _ => every_leaf (by simp) rfl
    · subst hn
      exact h k x (by rename_i t _; cases t <;> simp_all [head])
    · subst hn
      exact hfix.elim
    · by_cases hxv : x = v
      · rw [point, if_pos hxv]
        exact fun n hn l y hy => .inr (hasVar_iff.2 ⟨l, hy ▸ hn⟩)
      · rw [point, if_neg hxv]
        refine every_leaf ?_ rfl
        rintro l y hy
        cases hy
        exact .inl ⟨hasVar_iff.2 ⟨k, hx⟩, hxv⟩
  obtain ⟨k, hk⟩ := hasVar_iff.1 h
  exact hevery _ hk k w rfl

theorem accepts_point {k l : VarKind} {v : VarId} {t u : Ty} (hkind : kinds[v]? = some k)
    (haccepts : k.accepts t) (hu : u.WellKinded kinds) (h : l.accepts u) :
    l.accepts (u.rewrite (point v t) .param) := by
  cases u with
  | infer j x =>
      rw [rewrite_infer, point]
      split
      · rename_i hx
        subst hx
        obtain rfl : j = k := Option.some.inj (hu.root.symm.trans hkind)
        exact accepts_trans h haccepts
      · exact h
  | _ => cases l <;> simp_all [VarKind.accepts, isIntegral, isFloat]

/-- A type that becomes a variable was an older variable of its kind. -/
theorem exists_of_point {k l : VarKind} {v x : VarId} {t u : Ty} (hkind : kinds[v]? = some k)
    (haccepts : k.accepts t) (hage : ∀ w, t = .infer k w → w ≤ v) (hu : u.WellKinded kinds)
    (h : l.accepts u) (hr : u.rewrite (point v t) .param = .infer l x) :
    ∃ y, u = .infer l y ∧ x ≤ y := by
  cases u with
  | infer j y =>
      rw [rewrite_infer, point] at hr
      split at hr
      · rename_i hy
        subst hy hr
        obtain rfl : j = k := Option.some.inj (hu.root.symm.trans hkind)
        -- a variable of another kind would have been more specific than `l` already
        obtain rfl : l = j := accepts_antisymm h haccepts
        exact ⟨y, rfl, hage x rfl⟩
      · exact ⟨x, hr, Nat.le_refl x⟩
  | _ => simp at hr

theorem Valid.step (hb : b.Valid kinds) (h : Step kinds P b b') : b'.Valid kinds := by
  obtain ⟨hkind, hunbound, hresolved, hoccurs, haccepts, hne, hwell, -, hage⟩ := h
  rename_i k v t
  constructor
  case count_eq => exact hb.count_eq
  case nodup => exact nodup_assign hb.nodup hunbound t
  case lt_of_bound =>
    intro w hw
    rw [isBound_assign, Bool.or_eq_true] at hw
    rcases hw with hw | hw
    · exact hb.lt_of_bound w hw
    · obtain rfl : v = w := by simpa using hw
      exact hb.count_eq ▸ (List.getElem?_eq_some_iff.1 hkind).1
  case unbound_of_hasVar =>
    intro u w hw
    rw [resolve_assign] at hw
    rw [isBound_assign, Bool.or_eq_false_iff]
    rcases hasVar_point hw with ⟨hu, hwv⟩ | ht
    · exact ⟨hb.unbound_of_hasVar u w hu, by simpa using Ne.symm hwv⟩
    · refine ⟨hb.tidy.unbound_of_resolved hresolved ht, ?_⟩
      rw [beq_eq_false_iff_ne]
      rintro rfl
      simp [hoccurs] at ht
  case accepts =>
    intro w l hw
    rw [resolve_assign]
    exact accepts_point hkind haccepts (hb.wellKinded w l hw) (hb.accepts w l hw)
  case ne_error =>
    intro w l hw
    rw [resolve_assign]
    exact point_ne (hb.ne_error w l hw) hne
  case wellKinded =>
    intro w l hw
    rw [resolve_assign]
    exact every_point (isLocal_hasKind kinds) (hb.wellKinded w l hw) hwell
  case eldest =>
    intro w l x hw hr
    rw [resolve_assign] at hr
    obtain ⟨y, hy, hle⟩ :=
      exists_of_point hkind haccepts hage (hb.wellKinded w l hw) (hb.accepts w l hw) hr
    exact Nat.le_trans hle (hb.eldest w l y hw hy)

theorem Valid.steps (hb : b.Valid kinds) (h : Steps kinds P b b') : b'.Valid kinds := by
  induction h with
  | refl => exact hb
  | tail _ hstep ih => exact ih.step hstep

/-- Later bindings resolve what earlier ones have resolved. -/
theorem resolve_of_steps (hb : b.Valid kinds) (h : Steps kinds P b b') (t : Ty) :
    b'.resolve (b.resolve t) = b'.resolve t := by
  induction h with
  | refl => exact hb.tidy.resolve_resolve t
  | tail _ hstep ih =>
      obtain ⟨-, -, -, -, -, -, -, -⟩ := hstep
      rw [resolve_assign, resolve_assign, ih]

theorem resolve_eq_of_steps (hb : b.Valid kinds) (h : Steps kinds P b b') {t u : Ty}
    (heq : b.resolve t = b.resolve u) : b'.resolve t = b'.resolve u := by
  rw [← resolve_of_steps hb h t, ← resolve_of_steps hb h u, heq]

theorem every_of_steps (hP : IsLocal P) (h : Steps kinds P b b') {t : Ty}
    (ht : (b.resolve t).Every P) : (b'.resolve t).Every P := by
  induction h with
  | refl => exact ht
  | tail _ hstep ih =>
      obtain ⟨-, -, -, -, -, -, -, hPt⟩ := hstep
      rw [resolve_assign]
      exact every_point hP ih hPt

theorem isBound_of_steps (h : Steps kinds P b b') {v : VarId} (hv : b.isBound v) :
    b'.isBound v := by
  induction h with
  | refl => exact hv
  | tail _ hstep ih =>
      obtain ⟨-, -, -, -, -, -, -, -⟩ := hstep
      simp [isBound_assign, ih]

/-! ## Unbound variables run out -/

theorem length_lt_of_unbound (hb : b.Valid kinds) {v : VarId} (hv : b.isBound v = false)
    (hlt : v < b.count) : b.solved.length < b.count := by
  have hnodup : (v :: b.solved.map Prod.fst).Nodup := by
    refine List.nodup_cons.2 ⟨fun hmem => ?_, hb.nodup⟩
    simp [isBound_iff.2 hmem] at hv
  have hsub : (v :: b.solved.map Prod.fst) ⊆ List.range b.count := by
    intro w hw
    rw [List.mem_range]
    rcases List.mem_cons.1 hw with rfl | hw
    · exact hlt
    · exact hb.lt_of_bound w (isBound_iff.2 hw)
  have hle := (List.subperm_of_subset hnodup hsub).length_le
  simp only [List.length_cons, List.length_map, List.length_range] at hle
  omega

theorem free_lt_of_step (hb : b.Valid kinds) (h : Step kinds P b b') : b'.free < b.free := by
  obtain ⟨hkind, hunbound, -, -, -, -, -, -⟩ := h
  have hlt := length_lt_of_unbound hb hunbound
    (hb.count_eq ▸ (List.getElem?_eq_some_iff.1 hkind).1)
  simp only [free, assign, List.length_append, List.length_singleton]
  omega

theorem free_le_of_steps (hb : b.Valid kinds) (h : Steps kinds P b b') : b'.free ≤ b.free := by
  induction h with
  | refl => exact Nat.le_refl _
  | tail hsteps hstep ih =>
      exact Nat.le_trans (Nat.le_of_lt (free_lt_of_step (hb.steps hsteps) hstep)) ih

/-- Bindings that bind another variable leave fewer unbound. -/
theorem free_lt_of_steps (hb : b.Valid kinds) (h : Steps kinds P b b') {v : VarId}
    (hv : b.isBound v = false) (hv' : b'.isBound v = true) : b'.free < b.free := by
  cases h with
  | refl => simp [hv] at hv'
  | tail hsteps hstep =>
      exact Nat.lt_of_lt_of_le (free_lt_of_step (hb.steps hsteps) hstep) (free_le_of_steps hb hsteps)

/-! ## Substitutions that satisfy bindings -/

/-- Whether a substitution makes every variable equal to what it stands for. -/
def SatisfiedBy (b : Bindings) (σ : VarId → Ty) : Prop :=
  ∀ t, (b.resolve t).subst σ = t.subst σ

variable {σ : VarId → Ty}

theorem subst_point {v : VarId} {t : Ty} (h : σ v = t.subst σ) (u : Ty) :
    (u.rewrite (point v t) .param).subst σ = u.subst σ := by
  rw [subst, rewrite_rewrite]
  refine rewrite_congr (fun k w _ => ?_) fun _ _ => rfl
  by_cases hw : w = v
  · rw [point, if_pos hw, hw]
    exact h.symm
  · rw [point, if_neg hw]
    rfl

theorem SatisfiedBy.assign (hb : b.SatisfiedBy σ) {v : VarId} {t : Ty} (h : σ v = t.subst σ) :
    (b.assign v t).SatisfiedBy σ := by
  intro u
  rw [resolve_assign, subst_point h, hb u]

theorem SatisfiedBy.of_steps (hb : b.Valid kinds) (h : Steps kinds P b b')
    (hσ : b'.SatisfiedBy σ) : b.SatisfiedBy σ := by
  intro t
  rw [← hσ (b.resolve t), resolve_of_steps hb h, hσ t]

/-- What a substitution makes of the types that variables stand for. -/
def after (b : Bindings) (σ : VarId → Ty) (v : VarId) : Ty := (b.resolve (.infer .general v)).subst σ

theorem subst_chase (solved : List (VarId × Ty)) (k l : VarKind) (v : VarId) :
    (chase solved k v).subst σ = (chase solved l v).subst σ := by
  induction solved with
  | nil => rfl
  | cons p solved ih =>
      obtain ⟨w, t⟩ := p
      by_cases h : v = w
      · rw [chase, chase, if_pos h, if_pos h]
      · rw [chase, chase, if_neg h, if_neg h]
        exact ih

theorem subst_after (b : Bindings) (σ : VarId → Ty) (t : Ty) :
    t.subst (b.after σ) = (b.resolve t).subst σ := by
  refine Eq.trans ?_ (rewrite_rewrite (chase b.solved) (fun _ v => σ v) .param .param t).symm
  exact rewrite_congr (fun k v _ => subst_chase b.solved .general k v) fun _ _ => rfl

theorem satisfiedBy_after (hb : b.Valid kinds) (σ : VarId → Ty) : b.SatisfiedBy (b.after σ) := by
  intro t
  rw [subst_after, subst_after, hb.tidy.resolve_resolve]

theorem respectsKinds_after (hb : b.Valid kinds) (hσ : RespectsKinds kinds σ) :
    RespectsKinds kinds (b.after σ) := by
  intro v k hv
  have haccepts := hb.accepts v k hv
  have hwell := hb.wellKinded v k hv
  rw [after, show (b.resolve (.infer .general v)).subst σ = (b.resolve (.infer k v)).subst σ from
    subst_chase b.solved .general k v]
  cases hr : b.resolve (.infer k v) with
  | infer l w =>
      rw [hr] at haccepts hwell
      exact accepts_trans haccepts (hσ w l hwell.root)
  | _ => cases k <;> simp_all [VarKind.accepts, isIntegral, isFloat, subst]

end

end TypeInference.Bindings

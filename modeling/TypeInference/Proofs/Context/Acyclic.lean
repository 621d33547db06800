import TypeInference.Proofs.Context.MostGeneral

/-!
# The table of bindings is well formed

A variable is bound at most once, and its type mentions only variables that are
bound later or not at all. So following bindings ends, and it ends in a type
over unbound variables. Failed unifications leave such a table too.
-/

namespace TypeInference

open Ty

namespace Bindings

def Mentions (b : Bindings) (w v : VarId) : Prop := ∃ t, (v, t) ∈ b.solved ∧ t.hasVar w

/-- What a table of bindings of variables with these kinds has to be. -/
structure WellFormed (kinds : List VarKind) (b : Bindings) : Prop where
  bound_once : (b.solved.map Prod.fst).Nodup
  /-- Following bindings from any variable ends. -/
  terminates : WellFounded b.Mentions
  acyclic : ∀ v, ¬ Relation.TransGen b.Mentions v v
  ne_error : ∀ v, (v, .error) ∉ b.solved
  integral : ∀ v t, (v, t) ∈ b.solved → kinds[v]? = some .integral →
    (∃ p : Prim, t = .prim p ∧ p.isIntegral) ∨
      ∃ w, w ≠ v ∧ kinds[w]? = some .integral ∧ t = .infer .integral w
  float : ∀ v t, (v, t) ∈ b.solved → kinds[v]? = some .float →
    (∃ p : Prim, t = .prim p ∧ p.isFloat) ∨
      ∃ w, w ≠ v ∧ kinds[w]? = some .float ∧ t = .infer .float w
  /-- A bound variable resolves to what the type in its place does. -/
  resolve_bound : ∀ v t, (v, t) ∈ b.solved → ∀ k, b.resolve (.infer k v) = b.resolve t
  resolve_unbound : ∀ v, b.isBound v = false → ∀ k, b.resolve (.infer k v) = .infer k v
  idempotent : ∀ t, b.resolve (b.resolve t) = b.resolve t
  unbound : ∀ t v, (b.resolve t).hasVar v → b.isBound v = false

/-! ## Triangular tables -/

/-- A bound type mentions neither its own variable nor one that was bound before. -/
def Triangular (solved : List (VarId × Ty)) : Prop :=
  solved.Pairwise (fun p q => p.1 ≠ q.1 ∧ q.2.hasVar p.1 = false) ∧
    ∀ p ∈ solved, p.2.hasVar p.1 = false

theorem triangular_cons {p : VarId × Ty} {later : List (VarId × Ty)} :
    Triangular (p :: later) ↔
      p.2.hasVar p.1 = false ∧ (∀ q ∈ later, p.1 ≠ q.1 ∧ q.2.hasVar p.1 = false) ∧
        Triangular later := by
  simp only [Triangular, List.pairwise_cons, List.forall_mem_cons]
  tauto

theorem Triangular.append {solved : List (VarId × Ty)} (h : Triangular solved) {v : VarId} {t : Ty}
    (hv : ∀ p ∈ solved, p.1 ≠ v) (ht : ∀ p ∈ solved, t.hasVar p.1 = false)
    (hoccurs : t.hasVar v = false) : Triangular (solved ++ [(v, t)]) := by
  refine ⟨List.pairwise_append.2 ⟨h.1, List.pairwise_singleton _ _, fun p hp q hq => ?_⟩, ?_⟩
  · obtain rfl := List.mem_singleton.1 hq
    exact ⟨hv p hp, ht p hp⟩
  · intro p hp
    rcases List.mem_append.1 hp with hp | hp
    · exact h.2 p hp
    · obtain rfl := List.mem_singleton.1 hp
      exact hoccurs

/-- How many variables were bound from this one on; none if it is not bound. -/
def rank : List (VarId × Ty) → VarId → Nat
  | [], _ => 0
  | (w, _) :: later, v => if v = w then later.length + 1 else rank later v

theorem rank_le_length (solved : List (VarId × Ty)) (v : VarId) : rank solved v ≤ solved.length := by
  induction solved with
  | nil => exact Nat.le_refl 0
  | cons p later ih =>
      rw [rank, List.length_cons]
      split <;> omega

/-- A bound type mentions variables of lower rank only. -/
theorem rank_lt_of_mentioned {solved : List (VarId × Ty)} (h : Triangular solved) {v w : VarId}
    {t : Ty} (hmem : (v, t) ∈ solved) (hw : t.hasVar w) : rank solved w < rank solved v := by
  induction solved with
  | nil => simp at hmem
  | cons p later ih =>
      obtain ⟨hown, hlater, htri⟩ := triangular_cons.1 h
      have hne : w ≠ p.1 := by
        rintro rfl
        rcases List.mem_cons.1 hmem with rfl | hmem
        · simp [hw] at hown
        · have hoccurs := (hlater _ hmem).2
          simp [hw] at hoccurs
      rw [rank, rank, if_neg hne]
      rcases List.mem_cons.1 hmem with rfl | hmem
      · rw [if_pos rfl]
        exact Nat.lt_succ_of_le (rank_le_length later w)
      · rw [if_neg (hlater _ hmem).1.symm]
        exact ih htri hmem

theorem wellFounded_mentions {b : Bindings} (h : Triangular b.solved) : WellFounded b.Mentions :=
  Subrelation.wf (fun ⟨_, hmem, hw⟩ => rank_lt_of_mentioned h hmem hw)
    (InvImage.wf (rank b.solved) Nat.lt_wfRel.wf)

theorem rank_lt_of_transGen {b : Bindings} (h : Triangular b.solved) {v w : VarId}
    (hw : Relation.TransGen b.Mentions w v) : rank b.solved w < rank b.solved v := by
  induction hw with
  | single hstep =>
      obtain ⟨t, hmem, ht⟩ := hstep
      exact rank_lt_of_mentioned h hmem ht
  | tail _ hstep ih =>
      obtain ⟨t, hmem, ht⟩ := hstep
      exact Nat.lt_trans ih (rank_lt_of_mentioned h hmem ht)

/-- A binding that the type does not mention has no part in resolving it. -/
theorem rewrite_chase_cons {w : VarId} {s t : Ty} {later : List (VarId × Ty)}
    (h : t.hasVar w = false) :
    t.rewrite (chase ((w, s) :: later)) .param = t.rewrite (chase later) .param := by
  refine rewrite_congr (fun k v hv => ?_) fun _ _ => rfl
  have hne : v ≠ w := by
    rintro rfl
    have hvar : t.hasVar v = true := hasVar_iff.2 ⟨k, infer_mem_nodes.2 hv⟩
    simp [h] at hvar
  rw [chase, if_neg hne]

theorem chase_of_mem {solved : List (VarId × Ty)} (h : Triangular solved) {v : VarId} {t : Ty}
    (hmem : (v, t) ∈ solved) (k : VarKind) :
    chase solved k v = t.rewrite (chase solved) .param := by
  induction solved with
  | nil => simp at hmem
  | cons p later ih =>
      obtain ⟨w, s⟩ := p
      obtain ⟨hown, hlater, htri⟩ := triangular_cons.1 h
      rcases List.mem_cons.1 hmem with heq | hmem
      · obtain ⟨rfl, rfl⟩ := Prod.mk.inj heq
        rw [chase, if_pos rfl, rewrite_chase_cons hown]
      · obtain ⟨hne, hoccurs⟩ := hlater _ hmem
        rw [chase, if_neg (Ne.symm hne), rewrite_chase_cons hoccurs, ih htri hmem]

/-! ## Every run keeps the table well formed -/

def KindsFit (kinds : List VarKind) (b : Bindings) : Prop :=
  ∀ v t, (v, t) ∈ b.solved → t ≠ .error ∧ t.WellKinded kinds ∧
    ∃ k, kinds[v]? = some k ∧ k.accepts t

variable {kinds : List VarKind} {P : Ty → Prop} {b b' : Bindings}

theorem triangular_step (hb : b.Valid kinds) (h : Step kinds P b b') (htri : Triangular b.solved) :
    Triangular b'.solved := by
  obtain ⟨-, hunbound, hresolved, hoccurs, -, -, -, -⟩ := h
  rename_i k v t
  have hbound : ∀ p ∈ b.solved, b.isBound p.1 = true := fun p hp =>
    isBound_iff.2 (List.mem_map_of_mem hp)
  refine htri.append (fun p hp => ?_) (fun p hp => ?_) hoccurs
  · rintro rfl
    simp [hbound p hp] at hunbound
  · rw [Bool.eq_false_iff]
    intro hp'
    have hfree := hb.tidy.unbound_of_resolved hresolved hp'
    simp [hbound p hp] at hfree

theorem kindsFit_step (h : Step kinds P b b') (hfit : b.KindsFit kinds) : b'.KindsFit kinds := by
  obtain ⟨hkind, -, -, -, haccepts, hne, hwell, -⟩ := h
  intro w u hmem
  rcases List.mem_append.1 hmem with hmem | hmem
  · exact hfit w u hmem
  · obtain ⟨rfl, rfl⟩ := Prod.mk.inj (List.mem_singleton.1 hmem)
    exact ⟨hne, hwell, _, hkind, haccepts⟩

structure Ordered (kinds : List VarKind) (b : Bindings) : Prop extends b.Valid kinds where
  triangular : Triangular b.solved
  fit : b.KindsFit kinds

theorem ordered_empty : empty.Ordered [] :=
  ⟨valid_empty, by simp [Triangular, empty], by simp [KindsFit, empty]⟩

theorem Ordered.newVar (hb : b.Ordered kinds) (k : VarKind) :
    (b.newVar k).2.Ordered (kinds ++ [k]) := by
  refine ⟨hb.toValid.newVar k, hb.triangular, fun v t hmem => ?_⟩
  obtain ⟨hne, hwell, l, hl, haccepts⟩ := hb.fit v t hmem
  have hlt : v < kinds.length := (List.getElem?_eq_some_iff.1 hl).1
  exact ⟨hne, wellKinded_append hwell [k], l, by rw [List.getElem?_append_left hlt, hl], haccepts⟩

theorem Ordered.steps (hb : b.Ordered kinds) (h : Steps kinds P b b') : b'.Ordered kinds := by
  induction h with
  | refl => exact hb
  | tail _ hstep ih =>
      exact ⟨ih.toValid.step hstep, triangular_step ih.toValid hstep ih.triangular,
        kindsFit_step hstep ih.fit⟩

/-- A variable of a special kind is bound to a primitive of that kind or to another variable of it. -/
theorem Ordered.of_kind (hb : b.Ordered kinds) {v : VarId} {t : Ty} (hmem : (v, t) ∈ b.solved)
    {k : VarKind} (hv : kinds[v]? = some k) (hk : k ≠ .general) :
    (∃ p : Prim, t = .prim p ∧ k.accepts (.prim p)) ∨
      ∃ w, w ≠ v ∧ kinds[w]? = some k ∧ t = .infer k w := by
  obtain ⟨-, hwell, l, hl, haccepts⟩ := hb.fit v t hmem
  obtain rfl : k = l := Option.some.inj (hv.symm.trans hl)
  have hown := hb.triangular.2 _ hmem
  cases t with
  | prim p => exact .inl ⟨p, rfl, haccepts⟩
  | infer l w =>
      obtain rfl : l = k := by cases k <;> cases l <;> simp_all [VarKind.accepts, isIntegral, isFloat]
      refine .inr ⟨w, ?_, hwell.root, rfl⟩
      rintro rfl
      simp [infer_hasVar] at hown
  | _ => cases k <;> simp_all [VarKind.accepts, isIntegral, isFloat]

theorem Ordered.wellFormed (hb : b.Ordered kinds) : b.WellFormed kinds where
  bound_once := hb.nodup
  terminates := wellFounded_mentions hb.triangular
  acyclic := fun _ hv => Nat.lt_irrefl _ (rank_lt_of_transGen hb.triangular hv)
  ne_error := fun v hmem => (hb.fit v _ hmem).1 rfl
  integral := fun _ _ hmem hv => hb.of_kind hmem hv (by decide)
  float := fun _ _ hmem hv => hb.of_kind hmem hv (by decide)
  resolve_bound := fun _ _ hmem k => chase_of_mem hb.triangular hmem k
  resolve_unbound := fun _ hv k => resolve_infer_of_unbound hv k
  idempotent := hb.toValid.tidy.resolve_resolve
  unbound := hb.unbound_of_hasVar

end Bindings

namespace Context

/-- The contexts that are reached from a new one by any run of operations on types over created
variables, each used with its kind. -/
inductive Ran : List VarKind → Context → Prop where
  | new (builtins : List Prim) : Ran [] { bare with builtins }
  | newVar {kinds : List VarKind} {c : Context} (h : Ran kinds c) (k : VarKind) :
      Ran (kinds ++ [k]) (c.newVar k).2
  | insert {kinds : List VarKind} {c : Context} (h : Ran kinds c) (id : NodeId) {t : Ty}
      (ht : t.WellKinded kinds) : Ran kinds (c.insert id t)
  | unify {kinds : List VarKind} {c : Context} (h : Ran kinds c) {a b : Ty}
      (ha : a.WellKinded kinds) (hb : b.WellKinded kinds) : Ran kinds (c.unify a b).2

variable {kinds : List VarKind} {c : Context}

theorem Ran.ordered (h : Ran kinds c) : c.bindings.Ordered kinds := by
  induction h with
  | new _ => exact Bindings.ordered_empty
  | newVar _ k ih => exact ih.newVar k
  | insert _ _ _ ih => exact ih
  | @unify kinds c _ a b ha hb ih =>
      have hP : IsLocal fun _ => True := fun _ _ _ => trivial
      have hall : ∀ t : Ty, t.Every fun _ => True := fun _ _ _ => trivial
      exact ih.steps (Solve.steps_unify (P := fun _ => True) hP
        ⟨ih.toValid, ih.toValid.tidy.resolve_resolve a, ih.toValid.tidy.resolve_resolve b,
          Bindings.resolve_wellKinded ih.toValid ha, Bindings.resolve_wellKinded ih.toValid hb,
          hall _, hall _⟩)

/-- Whatever run of operations led to a context, failed unifications included, its table of
bindings is well formed. -/
theorem Ran.wellFormed_bindings (h : Ran kinds c) : c.bindings.WellFormed kinds :=
  h.ordered.wellFormed

/-- A unification that fails at the second occurrence of a variable leaves the first one bound. -/
theorem Ran.wellFormed_bindings_repeated :
    let c := ((bare.newVar .general).2.newVar .integral).2
    let a := Ty.fn [.infer .general 0, .infer .general 0] .unit
    let b := Ty.fn [.infer .integral 1, .prim .bool] .unit
    (c.unify a b).1 = .error (.mismatch (.infer .integral 1) (.prim .bool)) ∧
      (c.unify a b).2.bindings.solved = [(0, .infer .integral 1)] ∧
      (c.unify a b).2.bindings.WellFormed [.general, .integral] := by
  intro c a b
  have hran : Ran [.general, .integral] c := .newVar (.newVar (.new []) .general) .integral
  have hfailed : Ran [.general, .integral] (c.unify a b).2 := hran.unify (by decide) (by decide)
  exact ⟨rfl, rfl, Ran.wellFormed_bindings hfailed⟩

end Context

end TypeInference

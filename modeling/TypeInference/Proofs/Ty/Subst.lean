import TypeInference.Proofs.Ty.Refines

/-!
# Substitutions

A substitution replaces variables by types. One that respects the kinds of the
variables makes two types equal only if they unify, and it does not tell their
common type from either.
-/

namespace TypeInference

namespace Ty

def subst (σ : VarId → Ty) (t : Ty) : Ty := t.rewrite (fun _ v => σ v) .param

/-- A variable is used with the kind that it was created with. -/
def HasKind (kinds : List VarKind) : Ty → Prop
  | .infer k v => kinds[v]? = some k
  | _ => True

instance (kinds : List VarKind) : DecidablePred (HasKind kinds)
  | .infer k v => inferInstanceAs (Decidable (kinds[v]? = some k))
  | .error | .unit | .prim _ | .param _ | .fn _ _ | .adt _ => inferInstanceAs (Decidable True)

/-- A struct type agrees with its declaration in everything but types. -/
def HasShape (shapes : NodeId → Shape) : Ty → Prop
  | .adt a => a.shape = shapes a.decl
  | _ => True

instance (shapes : NodeId → Shape) : DecidablePred (HasShape shapes)
  | .adt a => inferInstanceAs (Decidable (a.shape = shapes a.decl))
  | .error | .unit | .prim _ | .param _ | .fn _ _ | .infer _ _ => inferInstanceAs (Decidable True)

/-- The `i`-th variable created has the `i`-th kind, and no other variable is used. -/
abbrev WellKinded (kinds : List VarKind) (t : Ty) : Prop := t.Every (HasKind kinds)

/-- Struct types of one declaration share its shape. -/
abbrev WellShaped (shapes : NodeId → Shape) (t : Ty) : Prop := t.Every (HasShape shapes)

abbrev ErrorFree (t : Ty) : Prop := t.Every (· ≠ .error)

theorem isLocal_hasKind (kinds : List VarKind) : IsLocal (HasKind kinds) := by
  intro t u hhead _ h
  cases t <;> cases u <;> simp_all [HasKind, head]

/-- A type over no variables stays as it is, whatever variables are replaced by. -/
theorem rewrite_of_wellKinded_nil {t : Ty} (h : t.WellKinded []) (var : VarKind → VarId → Ty) :
    t.rewrite var .param = t := by
  refine Eq.trans (rewrite_congr (fun k v hkv => ?_) fun _ _ => rfl) (rewrite_id t)
  have hkind : ([] : List VarKind)[v]? = some k := h _ (infer_mem_nodes.2 hkv)
  cases hkind

/-- Creating another variable leaves the earlier ones their kinds. -/
theorem wellKinded_append {kinds : List VarKind} {t : Ty} (h : t.WellKinded kinds)
    (rest : List VarKind) : t.WellKinded (kinds ++ rest) := by
  refine h.mono fun n hn => ?_
  cases n with
  | infer k v =>
      have hv : kinds[v]? = some k := hn
      have hlt := (List.getElem?_eq_some_iff.1 hv).1
      simpa [HasKind, List.getElem?_append_left hlt] using hv
  | _ => trivial

theorem isLocal_hasShape (shapes : NodeId → Shape) : IsLocal (HasShape shapes) := by
  intro t u hhead hshape h
  cases t <;> cases u <;> simp_all [HasShape, head, shape?]

theorem isLocal_ne_error : IsLocal (· ≠ .error) := by
  intro t u hhead _ h
  cases t <;> cases u <;> simp_all [head]

/-- Two struct types with the same root agree in their shapes too, if both have their declaration's. -/
theorem shape_eq_of_head {shapes : NodeId → Shape} {t u : Ty} (ht : t.HasShape shapes)
    (hu : u.HasShape shapes) (hhead : t.head = u.head) : t.shape? = u.shape? := by
  cases t <;> cases u <;> simp_all [HasShape, head, shape?]

end Ty

/-- Integral variables become integer primitives or integral variables, and float variables
likewise. -/
def RespectsKinds (kinds : List VarKind) (σ : VarId → Ty) : Prop :=
  ∀ (v : VarId) (k : VarKind), kinds[v]? = some k → k.accepts (σ v)

namespace Ty

section

variable {σ : VarId → Ty}

@[simp] theorem subst_infer (k : VarKind) (v : VarId) : (infer k v).subst σ = σ v := rfl

theorem root_subst {t : Ty} (h : ∀ k v, t ≠ .infer k v) :
    (t.subst σ).head = t.head ∧ (t.subst σ).shape? = t.shape? ∧
      (t.subst σ).parts = t.parts.map (subst σ) :=
  root_rewrite_param h

theorem ne_infer_of_isSettled {t : Ty} (h : t.isSettled) (k : VarKind) (v : VarId) :
    t ≠ .infer k v := by
  rintro rfl
  simp [isSettled] at h

/-- A type is not equal to a type that it is a proper part of, whatever is substituted. -/
theorem ne_subst_of_hasVar {v : VarId} {t : Ty} (hv : t.hasVar v) (hne : ∀ k, t ≠ .infer k v) :
    σ v ≠ t.subst σ := by
  obtain ⟨k, hk⟩ := hasVar_iff.1 hv
  rcases mem_nodes_iff.1 hk with h | ⟨p, hp, hpk⟩
  · exact (hne k h.symm).elim
  · intro heq
    have hnotvar : ∀ l w, t ≠ .infer l w := by
      rintro l w rfl
      simp [parts] at hp
    have hin : σ v ∈ (p.subst σ).nodes := rewrite_mem_nodes hpk
    have hpart : p.subst σ ∈ (t.subst σ).parts := by
      rw [(root_subst hnotvar).2.2]
      exact List.mem_map_of_mem hp
    have hle := length_nodes_le hin
    have hlt := length_nodes_lt_of_part hpart
    rw [← heq] at hlt
    omega

theorem subst_part {t u : Ty} (ht : ∀ k v, t ≠ .infer k v) (hu : ∀ k v, u ≠ .infer k v)
    (h : t.subst σ = u.subst σ) {i : Nat} {p q : Ty} (hp : t.parts[i]? = some p)
    (hq : u.parts[i]? = some q) : p.subst σ = q.subst σ := by
  have hparts : t.parts.map (subst σ) = u.parts.map (subst σ) := by
    rw [← (root_subst ht).2.2, ← (root_subst hu).2.2, h]
  have hi := congrArg (·[i]?) hparts
  simpa [hp, hq] using hi

theorem head_of_subst_eq {t u : Ty} (ht : ∀ k v, t ≠ .infer k v) (hu : ∀ k v, u ≠ .infer k v)
    (h : t.subst σ = u.subst σ) : t.head = u.head := by
  rw [← (root_subst (σ := σ) ht).1, ← (root_subst (σ := σ) hu).1, h]

/-- A substitution that makes two types equal makes them equal to their common type. -/
theorem subst_of_unify {a b c : Ty} (h : unify a b = .ok c) (heq : a.subst σ = b.subst σ) :
    c.subst σ = a.subst σ := by
  refine unify_induct (motive := fun a b c => a.subst σ = b.subst σ → c.subst σ = a.subst σ)
    ?error ?var ?node h heq
  case error =>
    rintro a b (rfl | rfl) heq
    · rfl
    · exact heq.symm
  case var =>
    rintro a b c _ _ (rfl | rfl) _ _ heq
    · rfl
    · exact heq.symm
  case node =>
    intro a b c hsa hsb hhead hchead hcshape _ hparts heq
    have ha := ne_infer_of_isSettled hsa
    have hb := ne_infer_of_isSettled hsb
    have hc := ne_infer_of_isSettled ((isSettled_of_head hchead).trans hsa)
    refine ext_parts ?_ ?_ ?_
    · rw [(root_subst hc).1, (root_subst ha).1, hchead]
    · rw [(root_subst hc).2.1, (root_subst ha).2.1, hcshape]
    · rw [(root_subst hc).2.2, (root_subst ha).2.2]
      refine List.ext_getElem? fun i => ?_
      simp only [List.getElem?_map]
      cases hr : c.parts[i]? with
      | none =>
          have hlen := length_parts_of_head hchead
          have hnone : a.parts[i]? = none := by
            rw [List.getElem?_eq_none_iff] at hr ⊢
            omega
          rw [hnone]
      | some r =>
          obtain ⟨p, hp⟩ := getElem?_of_head hchead hr
          obtain ⟨q, hq⟩ := getElem?_of_head hhead hp
          rw [hp]
          exact congrArg some (hparts i p q r hp hq hr (subst_part ha hb heq hp hq))

end

/-! ## Completeness -/

section

variable {kinds : List VarKind} {σ : VarId → Ty}

theorem absorb_of_subst_eq {k : VarKind} {v : VarId} {t : Ty} (e : UnifyError)
    (hσ : k.accepts (σ v)) (ht : t.isSettled) (heq : σ v = t.subst σ) :
    absorb k v t e = .ok t := by
  have hne := ne_infer_of_isSettled ht
  refine absorb_eq_ok_iff.2 ⟨?_, ?_, rfl⟩
  · rw [heq] at hσ
    cases k with
    | general => rfl
    | integral => cases t <;> simp_all [VarKind.accepts, subst, isIntegral]
    | float => cases t <;> simp_all [VarKind.accepts, subst, isFloat]
  · by_cases hv : t.hasVar v
    · exact (ne_subst_of_hasVar hv (fun k => hne k v) heq).elim
    · simpa using hv

theorem not_integral_and_float (t : Ty) : ¬ (t.isIntegral ∧ t.isFloat) := by
  rintro ⟨hi, hf⟩
  cases t with
  | infer k v => cases k <;> simp_all [isIntegral, isFloat]
  | prim p => cases p <;> simp_all [isIntegral, isFloat, Prim.isIntegral, Prim.isFloat]
  | _ => simp [isIntegral] at hi

theorem unifyVars_of_subst_eq {k l : VarKind} {v w : VarId} (hv : kinds[v]? = some k)
    (hw : kinds[w]? = some l) (hk : k.accepts (σ v)) (hl : l.accepts (σ w)) (heq : σ v = σ w) :
    ∃ c, unifyVars k v l w = .ok c := by
  unfold unifyVars
  by_cases hkl : k = l
  · exact ⟨_, by rw [if_pos hkl]⟩
  · rw [if_neg hkl]
    have hvw : v ≠ w := by
      rintro rfl
      rw [hv] at hw
      exact hkl (Option.some.inj hw)
    by_cases hgen : k = .general
    · subst hgen
      refine ⟨_, (if_pos rfl).trans (absorb_eq_ok_iff.2 ⟨rfl, ?_, rfl⟩)⟩
      simpa [hasVar, leaves, isVar] using hvw
    · rw [if_neg hgen]
      refine ⟨_, absorb_eq_ok_iff.2 ⟨?_, ?_, rfl⟩⟩
      · have hno := not_integral_and_float (σ w)
        cases k <;> cases l <;> simp_all [VarKind.accepts]
      · simpa [hasVar, leaves, isVar] using hvw.symm

/-- Types without errors unify if some substitution that respects the kinds makes them equal. -/
theorem unify_of_subst_eq (hσ : RespectsKinds kinds σ) {a b : Ty} (ha : a.WellKinded kinds)
    (hb : b.WellKinded kinds) (hea : a.ErrorFree) (heb : b.ErrorFree)
    (heq : a.subst σ = b.subst σ) : ∃ c, unify a b = .ok c := by
  induction a using parts_induct generalizing b with
  | step a ih =>
      rcases isSettled_or a with rfl | ⟨k, v, rfl⟩ | hsa
      · exact (hea.root rfl).elim
      · have hkind : kinds[v]? = some k := ha.root
        rcases isSettled_or b with rfl | ⟨l, w, rfl⟩ | hsb
        · exact (heb.root rfl).elim
        · have hkind' : kinds[w]? = some l := hb.root
          obtain ⟨c, hc⟩ := unifyVars_of_subst_eq hkind hkind' (hσ v k hkind) (hσ w l hkind') heq
          exact ⟨c, by simpa [unify] using hc⟩
        · rw [unify_infer_left hsb]
          exact ⟨b, absorb_of_subst_eq _ (hσ v k hkind) hsb heq⟩
      · rcases isSettled_or b with rfl | ⟨l, w, rfl⟩ | hsb
        · exact (heb.root rfl).elim
        · rw [unify_infer_right hsa]
          exact ⟨a, absorb_of_subst_eq _ (hσ w l hb.root) hsa heq.symm⟩
        · have hna := ne_infer_of_isSettled hsa
          have hnb := ne_infer_of_isSettled hsb
          have hparts : ∃ vs, unifyList a.parts b.parts = .ok vs :=
            unifyList_of_forall fun i p q hp hq => ih p (List.mem_of_getElem? hp)
              (ha.part (List.mem_of_getElem? hp))
              (hb.part (List.mem_of_getElem? hq)) (hea.part (List.mem_of_getElem? hp))
              (heb.part (List.mem_of_getElem? hq)) (subst_part hna hnb heq hp hq)
          obtain ⟨vs, hvs⟩ := hparts
          obtain ⟨c, hc, -⟩ := unify_of_parts hsa (head_of_subst_eq hna hnb heq) hvs
          exact ⟨c, hc⟩

end

end Ty

end TypeInference

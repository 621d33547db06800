import TypeInference.Proofs.Ty.Instance
import TypeInference.Proofs.Ty.Renumber

/-!
# Higher numbers for variables

A type over variables that were created later is the same type with higher
numbers. Which of two variables is the older one stays the same, so unification
and every question about a type do not depend on where the numbers start.
-/

namespace TypeInference

namespace Ty

def shift (n : Nat) (t : Ty) : Ty := t.rewrite (fun k v => .infer k (v + n)) .param

section

variable (n : Nat)

@[simp] theorem shift_error : shift n .error = .error := rfl

@[simp] theorem shift_infer (k : VarKind) (v : VarId) : shift n (.infer k v) = .infer k (v + n) := rfl

@[simp] theorem shift_unit : shift n .unit = .unit := rfl

@[simp] theorem shift_prim (p : Prim) : shift n (.prim p) = .prim p := rfl

@[simp] theorem shift_param (p : Param) : shift n (.param p) = .param p := rfl

@[simp] theorem shift_fn (ps : List Ty) (r : Ty) :
    shift n (.fn ps r) = .fn (ps.map (shift n)) (shift n r) := rewrite_fn _ _ ps r

@[simp] theorem shift_adt (a : Adt Ty) : shift n (.adt a) = .adt (a.map (shift n)) :=
  rewrite_adt _ _ a

/-- The parameters of a shifted type are those of the type, so arguments may be shifted apart. -/
theorem shift_instantiate (a : Adt Ty) (args : List Ty) :
    (a.instantiate args).map (shift n) = (a.map (shift n)).instantiate (args.map (shift n)) :=
  instantiate_rewrite_vars (by simp [leaves]) a args

/-! ## Questions about a shifted type -/

@[simp] theorem isError_shift (t : Ty) : (t.shift n).isError = t.isError :=
  isError_renumber (· + n) t

@[simp] theorem isIntegral_shift (t : Ty) : (t.shift n).isIntegral = t.isIntegral :=
  isIntegral_renumber (· + n) t

@[simp] theorem isFloat_shift (t : Ty) : (t.shift n).isFloat = t.isFloat :=
  isFloat_renumber (· + n) t

@[simp] theorem isNumeric_shift (t : Ty) : (t.shift n).isNumeric = t.isNumeric :=
  isNumeric_renumber (· + n) t

@[simp] theorem isGeneralVar_shift (t : Ty) : (t.shift n).isGeneralVar = t.isGeneralVar :=
  isGeneralVar_renumber (· + n) t

@[simp] theorem isSettled_shift (t : Ty) : (t.shift n).isSettled = t.isSettled := by
  cases t <;> simp [isSettled]

@[simp] theorem accepts_shift (k : VarKind) (t : Ty) : k.accepts (t.shift n) = k.accepts t := by
  cases k <;> simp [VarKind.accepts]

theorem leaves_shift (t : Ty) : (t.shift n).leaves = t.leaves.map (shift n) :=
  leaves_renumber (· + n) t

theorem firstUnresolved?_shift (t : Ty) :
    (t.shift n).firstUnresolved? = t.firstUnresolved?.map (shift n) :=
  firstUnresolved?_renumber (· + n) t

/-- The default of a literal variable does not depend on its number. -/
theorem withDefaults_shift {t : Ty} (h : t.firstUnresolved? = none) (defaults : Defaults) :
    (t.shift n).withDefaults defaults = t.withDefaults defaults :=
  withDefaults_renumber (· + n) h defaults

@[simp] theorem hasVar_shift (t : Ty) (v : VarId) : (t.shift n).hasVar (v + n) = t.hasVar v := by
  rw [hasVar, leaves_shift, List.any_map, hasVar]
  refine congrArg (t.leaves.any) (funext fun l => ?_)
  cases l with
  | infer k w =>
      rw [Bool.eq_iff_iff]
      simp [isVar]
  | _ => simp [isVar]

/-- Shifted types differ where the types do. -/
theorem shift_injective : Function.Injective (shift n) := by
  intro t u h
  have hback : ∀ t : Ty, (t.shift n).rewrite (fun k v => .infer k (v - n)) .param = t := by
    intro t
    rw [shift, rewrite_rewrite]
    refine Eq.trans (rewrite_congr (fun k v _ => ?_) fun _ _ => rfl) (rewrite_id t)
    simp
  rw [← hback t, h, hback u]

@[simp] theorem shift_inj {t u : Ty} : t.shift n = u.shift n ↔ t = u := (shift_injective n).eq_iff

theorem root_shift {t : Ty} (h : t.isSettled) : (t.shift n).head = t.head ∧
    (t.shift n).shape? = t.shape? ∧ (t.shift n).parts = t.parts.map (shift n) :=
  root_rewrite_param fun k v heq => by simp [heq, isSettled] at h

end

/-! ## Unification -/

variable {n : Nat} {a b d : Ty}

theorem absorb_shift_eq_ok_iff {k : VarKind} {v : VarId} {t : Ty} {e e' : UnifyError} :
    absorb k (v + n) (t.shift n) e' = .ok d ↔ ∃ c, absorb k v t e = .ok c ∧ c.shift n = d := by
  simp only [absorb_eq_ok_iff, accepts_shift, hasVar_shift]
  constructor
  · rintro ⟨haccepts, hoccurs, rfl⟩
    exact ⟨t, ⟨haccepts, hoccurs, rfl⟩, rfl⟩
  · rintro ⟨c, ⟨haccepts, hoccurs, rfl⟩, rfl⟩
    exact ⟨haccepts, hoccurs, rfl⟩

theorem unifyVars_shift_eq_ok_iff {k l : VarKind} {v w : VarId} :
    unifyVars k (v + n) l (w + n) = .ok d ↔ ∃ c, unifyVars k v l w = .ok c ∧ c.shift n = d := by
  unfold unifyVars
  split
  · simp [Nat.add_min_add_right]
  · split
    · exact absorb_shift_eq_ok_iff (t := .infer l w)
    · exact absorb_shift_eq_ok_iff (t := .infer k v)

theorem unifyList_shift_eq_ok_iff {ts us ws : List Ty}
    (h : ∀ t ∈ ts, ∀ u d, unify (t.shift n) (u.shift n) = .ok d ↔
      ∃ c, unify t u = .ok c ∧ c.shift n = d) :
    unifyList (ts.map (shift n)) (us.map (shift n)) = .ok ws ↔
      ∃ vs, unifyList ts us = .ok vs ∧ vs.map (shift n) = ws := by
  induction ts generalizing us ws with
  | nil => simp [unifyList]
  | cons t ts ih =>
      cases us with
      | nil => simp [unifyList]
      | cons u us =>
          have htail (ws : List Ty) := @ih us ws fun t' ht => h t' (List.mem_cons_of_mem _ ht)
          simp only [List.map_cons, unifyList_cons_eq_ok_iff, h t List.mem_cons_self u, htail]
          constructor
          · rintro ⟨_, _, ⟨c, hc, rfl⟩, ⟨vs, hvs, rfl⟩, rfl⟩
            exact ⟨c :: vs, ⟨c, vs, hc, hvs, rfl⟩, rfl⟩
          · rintro ⟨_, ⟨c, vs, hc, hvs, rfl⟩, rfl⟩
            exact ⟨_, _, ⟨c, hc, rfl⟩, ⟨vs, hvs, rfl⟩, rfl⟩

/-- Shifted types unify if the types do, and their common type is the shifted one. -/
theorem unify_shift_eq_ok_iff :
    unify (a.shift n) (b.shift n) = .ok d ↔ ∃ c, unify a b = .ok c ∧ c.shift n = d := by
  induction a using parts_induct generalizing b d with
  | step a ih =>
      by_cases herror : a = .error ∨ b = .error
      · have herror' : a.shift n = .error ∨ b.shift n = .error := by
          rcases herror with rfl | rfl <;> simp
        rw [unify_of_error herror, unify_of_error herror']
        simp
      obtain ⟨ha, hb⟩ := not_or.1 herror
      rcases isSettled_or a with rfl | ⟨k, v, rfl⟩ | hsa
      · exact (ha rfl).elim
      · rcases isSettled_or b with rfl | ⟨l, w, rfl⟩ | hsb
        · exact (hb rfl).elim
        · simpa [unify] using unifyVars_shift_eq_ok_iff
        · rw [shift_infer, unify_infer_left (by simpa using hsb), unify_infer_left hsb]
          exact absorb_shift_eq_ok_iff
      · rcases isSettled_or b with rfl | ⟨l, w, rfl⟩ | hsb
        · exact (hb rfl).elim
        · rw [shift_infer, unify_infer_right (by simpa using hsa), unify_infer_right hsa]
          exact absorb_shift_eq_ok_iff
        · obtain ⟨hheada, hshapea, hpartsa⟩ := root_shift n hsa
          obtain ⟨hheadb, -, hpartsb⟩ := root_shift n hsb
          have hlist (ws : List Ty) : unifyList (a.parts.map (shift n)) (b.parts.map (shift n)) = .ok ws ↔
              ∃ vs, unifyList a.parts b.parts = .ok vs ∧ vs.map (shift n) = ws :=
            unifyList_shift_eq_ok_iff fun p hp u d => @ih p hp u d
          constructor
          · intro h
            obtain ⟨hhead, hdhead, hdshape, hd⟩ :=
              parts_of_unify (by simpa using hsa) (by simpa using hsb) h
            rw [hheada, hheadb] at hhead
            rw [hpartsa, hpartsb, hlist] at hd
            obtain ⟨vs, hvs, hmap⟩ := hd
            obtain ⟨c, hc, hchead, hcshape, rfl⟩ := unify_of_parts hsa hhead hvs
            obtain ⟨hc₁, hc₂, hc₃⟩ := root_shift n ((isSettled_of_head hchead).trans hsa)
            refine ⟨c, hc, ext_parts ?_ ?_ ?_⟩
            · rw [hc₁, hchead, hdhead, hheada]
            · rw [hc₂, hcshape, hdshape, hshapea]
            · rw [hc₃, hmap]
          · rintro ⟨c, hc, rfl⟩
            obtain ⟨hhead, hchead, hcshape, hparts⟩ := parts_of_unify hsa hsb hc
            have hmap := (hlist _).2 ⟨_, hparts, rfl⟩
            rw [← hpartsa, ← hpartsb] at hmap
            obtain ⟨d, hd, hdhead, hdshape, hdparts⟩ := unify_of_parts
              (by simpa using hsa) (by rw [hheada, hheadb, hhead]) hmap
            obtain ⟨hc₁, hc₂, hc₃⟩ := root_shift n ((isSettled_of_head hchead).trans hsa)
            rw [hd]
            refine congrArg _ (ext_parts ?_ ?_ ?_)
            · rw [hc₁, hchead, hdhead, hheada]
            · rw [hc₂, hcshape, hdshape, hshapea]
            · rw [hc₃, hdparts]

end Ty

end TypeInference

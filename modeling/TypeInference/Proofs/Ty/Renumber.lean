import TypeInference.Check.Expr
import TypeInference.Proofs.Ty.Defaults
import TypeInference.Proofs.Ty.Subst

/-!
# Numbers of variables

The numbers of variables say which occurrences are the same variable and which
of two variables is the older one. No question about a single type depends on
them otherwise. Two types that are instances of each other differ in nothing
else.
-/

namespace TypeInference

namespace Ty

def renumber (r : VarId → VarId) (t : Ty) : Ty := t.rewrite (fun k v => .infer k (r v)) .param

section

variable (r : VarId → VarId)

@[simp] theorem renumber_error : renumber r .error = .error := rfl

@[simp] theorem renumber_infer (k : VarKind) (v : VarId) :
    renumber r (.infer k v) = .infer k (r v) := rfl

@[simp] theorem renumber_unit : renumber r .unit = .unit := rfl

@[simp] theorem renumber_prim (p : Prim) : renumber r (.prim p) = .prim p := rfl

@[simp] theorem renumber_param (p : Param) : renumber r (.param p) = .param p := rfl

@[simp] theorem renumber_fn (ps : List Ty) (t : Ty) :
    renumber r (.fn ps t) = .fn (ps.map (renumber r)) (renumber r t) := rewrite_fn _ _ ps t

@[simp] theorem renumber_adt (a : Adt Ty) : renumber r (.adt a) = .adt (a.map (renumber r)) :=
  rewrite_adt _ _ a

theorem root_renumber {t : Ty} (h : ∀ k v, t ≠ .infer k v) :
    (t.renumber r).head = t.head ∧ (t.renumber r).shape? = t.shape? ∧
      (t.renumber r).parts = t.parts.map (renumber r) :=
  root_rewrite_param h

/-! ## Questions about a type -/

@[simp] theorem isError_renumber (t : Ty) : (t.renumber r).isError = t.isError := by
  cases t <;> simp [isError]

@[simp] theorem isIntegral_renumber (t : Ty) : (t.renumber r).isIntegral = t.isIntegral := by
  rcases t with _ | ⟨_ | _ | _, _⟩ | _ <;> simp [isIntegral]

@[simp] theorem isFloat_renumber (t : Ty) : (t.renumber r).isFloat = t.isFloat := by
  rcases t with _ | ⟨_ | _ | _, _⟩ | _ <;> simp [isFloat]

@[simp] theorem isNumeric_renumber (t : Ty) : (t.renumber r).isNumeric = t.isNumeric := by
  simp [isNumeric]

@[simp] theorem isGeneralVar_renumber (t : Ty) : (t.renumber r).isGeneralVar = t.isGeneralVar := by
  rcases t with _ | ⟨_ | _ | _, _⟩ | _ <;> simp [isGeneralVar]

theorem supports_renumber (op : UnOp) (t : Ty) :
    op.supports (t.renumber r) = op.supports t := by
  rw [Bool.eq_iff_iff]
  cases t with
  | infer k v => cases op <;> cases k <;> simp [UnOp.supports, isNumeric, isIntegral, isFloat]
  | adt a => cases op <;> simp [UnOp.supports, isNumeric, isIntegral, isFloat]
  | fn ps t => cases op <;> simp [UnOp.supports, isNumeric, isIntegral, isFloat]
  | _ => cases op <;> rfl

theorem leaves_renumber (t : Ty) : (t.renumber r).leaves = t.leaves.map (renumber r) := by
  rw [renumber, leaves_rewrite, List.map_eq_flatMap, List.flatMap_def, List.flatMap_def]
  refine congrArg _ (List.map_congr_left fun l hl => ?_)
  obtain ⟨hfn, hadt⟩ := parts_of_mem_leaves hl
  cases l with
  | fn ps t => exact (hfn ps t rfl).elim
  | adt a => exact (hadt a rfl).elim
  | _ => rfl

theorem firstUnresolved?_renumber (t : Ty) :
    (t.renumber r).firstUnresolved? = t.firstUnresolved?.map (renumber r) := by
  rw [firstUnresolved?, leaves_renumber, List.find?_map]
  refine congrArg (fun f => (t.leaves.find? f).map (renumber r)) (funext fun l => ?_)
  simp [lacksDefault]

/-- The default of a literal variable does not depend on its number. -/
theorem withDefaults_renumber {t : Ty} (h : t.firstUnresolved? = none) (defaults : Defaults) :
    (t.renumber r).withDefaults defaults = t.withDefaults defaults := by
  rw [withDefaults, renumber, rewrite_rewrite, withDefaults]
  refine rewrite_congr (fun k v hkv => ?_) fun _ _ => rfl
  have hdefault := List.find?_eq_none.1 h _ hkv
  cases k with
  | general => simp [lacksDefault, isGeneralVar] at hdefault
  | integral => rfl
  | float => rfl

end

/-! ## Equality up to numbers -/

/-- Whether two types are the same but for the numbers of their variables. -/
def Alike (t u : Ty) : Prop := t.renumber (fun _ => 0) = u.renumber fun _ => 0

namespace Alike

variable {t u : Ty}

theorem isError (h : t.Alike u) : u.isError = t.isError := by
  rw [← isError_renumber (fun _ => 0) u, ← h, isError_renumber]

theorem isNumeric (h : t.Alike u) : u.isNumeric = t.isNumeric := by
  rw [← isNumeric_renumber (fun _ => 0) u, ← h, isNumeric_renumber]

theorem isGeneralVar (h : t.Alike u) : u.isGeneralVar = t.isGeneralVar := by
  rw [← isGeneralVar_renumber (fun _ => 0) u, ← h, isGeneralVar_renumber]

/-- Types that are alike have defaults together, and the same ones. -/
theorem firstUnresolved? (h : t.Alike u) (ht : t.firstUnresolved? = none) :
    u.firstUnresolved? = none := by
  have hu := firstUnresolved?_renumber (fun _ => 0) u
  rw [← h, firstUnresolved?_renumber, ht] at hu
  exact Option.map_eq_none_iff.1 hu.symm

theorem withDefaults (h : t.Alike u) (ht : t.firstUnresolved? = none) (defaults : Defaults) :
    u.withDefaults defaults = t.withDefaults defaults := by
  rw [← withDefaults_renumber (fun _ => 0) ht, h, withDefaults_renumber _ (h.firstUnresolved? ht)]

theorem fn {ps : List Ty} {r : Ty} (h : (Ty.fn ps r).Alike u) :
    ∃ qs s, u = .fn qs s ∧ qs.length = ps.length := by
  cases u with
  | fn qs s =>
      simp only [Alike, renumber_fn, fn.injEq] at h
      exact ⟨qs, s, rfl, by simpa using (congrArg List.length h.1).symm⟩
  | _ => simp [Alike] at h

theorem adt {a : Adt Ty} (h : (Ty.adt a).Alike u) :
    ∃ b, u = .adt b ∧ b.decl = a.decl ∧ b.shape = a.shape := by
  cases u with
  | adt b =>
      simp only [Alike, renumber_adt, adt.injEq] at h
      refine ⟨b, rfl, (congrArg Adt.decl h).symm, ?_⟩
      rw [← Adt.shape_map (renumber fun _ => 0) b, ← h, Adt.shape_map]
  | _ => simp [Alike] at h

end Alike

/-- A substitution makes variables of variables only. -/
theorem exists_infer_of_subst {σ : VarId → Ty} {u : Ty} {k : VarKind} {v : VarId}
    (h : u.subst σ = .infer k v) : ∃ l w, u = .infer l w := by
  cases u with
  | infer l w => exact ⟨l, w, rfl⟩
  | fn ps r => simp [subst] at h
  | adt a => simp [subst] at h
  | _ => cases h

/-- Two types are alike if each comes from the other by a substitution that respects kinds. -/
theorem alike_of_subst {kinds kinds' : List VarKind} {σ τ : VarId → Ty} {t u : Ty}
    (hσ : RespectsKinds kinds' σ) (hτ : RespectsKinds kinds τ) (ht : t.WellKinded kinds)
    (hu : u.WellKinded kinds') (htu : u.subst σ = t) (hut : t.subst τ = u) : t.Alike u := by
  induction t using parts_induct generalizing u with
  | step t ih =>
      by_cases hvar : ∃ k v, t = .infer k v
      · obtain ⟨k, v, rfl⟩ := hvar
        obtain ⟨l, w, rfl⟩ := exists_infer_of_subst htu
        have hkl : k.accepts (.infer l w) := hut ▸ hτ v k ht.root
        have hlk : l.accepts (.infer k v) := htu ▸ hσ w l hu.root
        obtain rfl : k = l := accepts_antisymm hkl hlk
        simp [Alike]
      · have hne : ∀ k v, t ≠ .infer k v := fun k v h => hvar ⟨k, v, h⟩
        have hne' : ∀ k v, u ≠ .infer k v := fun k v h => hvar (exists_infer_of_subst (hut.trans h))
        obtain ⟨hhead, hshape, hparts⟩ := root_subst (σ := τ) hne
        obtain ⟨-, -, hparts'⟩ := root_subst (σ := σ) hne'
        rw [hut] at hhead hshape hparts
        rw [htu, hparts, List.map_map] at hparts'
        obtain ⟨hhead₀, hshape₀, hparts₀⟩ := root_renumber (fun _ => 0) hne
        obtain ⟨hhead₁, hshape₁, hparts₁⟩ := root_renumber (fun _ => 0) hne'
        refine ext_parts (by rw [hhead₀, hhead₁, hhead]) (by rw [hshape₀, hshape₁, hshape]) ?_
        rw [hparts₀, hparts₁, hparts, List.map_map]
        refine List.map_congr_left fun p hp => ?_
        refine ih p hp (ht.part hp) (hu.part (hparts ▸ List.mem_map_of_mem hp)) ?_ rfl
        -- Going there and back changes no part.
        obtain ⟨i, hi⟩ := List.getElem?_of_mem hp
        have hback := congrArg (·[i]?) hparts'
        simpa [hi] using hback.symm

end Ty

end TypeInference

import TypeInference.Ty.Basic

/-!
# Rewriting leaves

One traversal replaces every variable and every parameter of a type.
Resolution, substitution of arguments and defaulting are instances of it, and
they inherit its laws: rewriting composes, and it depends on the leaves only.
-/

namespace TypeInference.Ty

mutual

/-- Replace every variable by `var` and every parameter by `param`. -/
def rewrite (var : VarKind → VarId → Ty) (param : Param → Ty) : Ty → Ty
  | .error => .error
  | .infer k v => var k v
  | .unit => .unit
  | .prim p => .prim p
  | .param p => param p
  | .fn ps r => .fn (rewriteList var param ps) (rewrite var param r)
  | .adt ⟨d, n, k, fs, ps, none⟩ => .adt ⟨d, n, k, rewriteFields var param fs, ps, none⟩
  | .adt ⟨d, n, k, fs, ps, some xs⟩ =>
      .adt ⟨d, n, k, rewriteFields var param fs, ps, some (rewriteList var param xs)⟩

def rewriteList (var : VarKind → VarId → Ty) (param : Param → Ty) : List Ty → List Ty
  | [] => []
  | t :: ts => rewrite var param t :: rewriteList var param ts

def rewriteFields (var : VarKind → VarId → Ty) (param : Param → Ty) :
    List (Field Ty) → List (Field Ty)
  | [] => []
  | ⟨n, t, i⟩ :: fs => ⟨n, rewrite var param t, i⟩ :: rewriteFields var param fs

end

section

variable (var : VarKind → VarId → Ty) (param : Param → Ty)

theorem rewriteList_eq (ts : List Ty) :
    rewriteList var param ts = ts.map (rewrite var param) := by
  induction ts with
  | nil => rfl
  | cons t ts ih => simp [rewriteList, ih]

theorem rewriteFields_eq (fs : List (Field Ty)) :
    rewriteFields var param fs = fs.map (Field.map (rewrite var param)) := by
  induction fs with
  | nil => rfl
  | cons f fs ih => simp [rewriteFields, ih, Field.map]

@[simp] theorem rewrite_error : rewrite var param .error = .error := rfl

@[simp] theorem rewrite_infer (k : VarKind) (v : VarId) :
    rewrite var param (.infer k v) = var k v := rfl

@[simp] theorem rewrite_unit : rewrite var param .unit = .unit := rfl

@[simp] theorem rewrite_prim (p : Prim) : rewrite var param (.prim p) = .prim p := rfl

@[simp] theorem rewrite_param (p : Param) : rewrite var param (.param p) = param p := rfl

@[simp] theorem rewrite_fn (ps : List Ty) (r : Ty) :
    rewrite var param (.fn ps r) = .fn (ps.map (rewrite var param)) (rewrite var param r) := by
  simp [rewrite, rewriteList_eq]

@[simp] theorem rewrite_adt (a : Adt Ty) :
    rewrite var param (.adt a) = .adt (a.map (rewrite var param)) := by
  obtain ⟨d, n, k, fs, ps, args⟩ := a
  cases args <;> simp [rewrite, rewriteList_eq, rewriteFields_eq, Adt.map]

end

theorem rewrite_congr {var var' : VarKind → VarId → Ty} {param param' : Param → Ty} {t : Ty}
    (hvar : ∀ k v, .infer k v ∈ t.leaves → var k v = var' k v)
    (hparam : ∀ p, .param p ∈ t.leaves → param p = param' p) :
    rewrite var param t = rewrite var' param' t := by
  induction t with
  | error | unit | prim p => rfl
  | infer k v => exact hvar k v (by simp [leaves])
  | param p => exact hparam p (by simp [leaves])
  | fn ps r ihp ihr =>
      rw [rewrite_fn, rewrite_fn, ihr fun k v h => hvar k v (by simp [leaves_fn, h])]
      · congr 1
        refine List.map_congr_left fun t ht => ihp t ht ?_ ?_
        · exact fun k v h => hvar k v (by simp only [leaves_fn]; grind)
        · exact fun p h => hparam p (by simp only [leaves_fn]; grind)
      · exact fun p h => hparam p (by simp [leaves_fn, h])
  | adt a ihf iha =>
      obtain ⟨d, n, k, fs, ps, args⟩ := a
      have hf : fs.map (Field.map (rewrite var param)) = fs.map (Field.map (rewrite var' param')) := by
        refine List.map_congr_left fun f hmem => ?_
        rw [Field.map, Field.map, ihf f hmem]
        · exact fun k v h => hvar k v (by simp only [leaves_adt, Adt.parts]; grind)
        · exact fun p h => hparam p (by simp only [leaves_adt, Adt.parts]; grind)
      cases args with
      | none => simp [Adt.map, hf]
      | some xs =>
          have hx : xs.map (rewrite var param) = xs.map (rewrite var' param') := by
            refine List.map_congr_left fun t ht => iha xs rfl t ht ?_ ?_
            · exact fun k v h => hvar k v (by simp only [leaves_adt, Adt.parts]; grind)
            · exact fun p h => hparam p (by simp only [leaves_adt, Adt.parts]; grind)
          simp [Adt.map, hf, hx]

theorem rewrite_rewrite (var var' : VarKind → VarId → Ty) (param param' : Param → Ty) (t : Ty) :
    rewrite var' param' (rewrite var param t) =
      rewrite (fun k v => rewrite var' param' (var k v))
        (fun p => rewrite var' param' (param p)) t := by
  induction t with
  | error | unit | prim p | infer k v | param p => rfl
  | fn ps r ihp ihr => simp [ihr]; exact ihp
  | adt a ihf iha =>
      obtain ⟨d, n, k, fs, ps, args⟩ := a
      have hf : ∀ f ∈ fs, Field.map (rewrite var' param') (Field.map (rewrite var param) f) =
          Field.map (rewrite (fun k v => rewrite var' param' (var k v))
            (fun p => rewrite var' param' (param p))) f := by
        intro f hmem
        simp [Field.map, ihf f hmem]
      cases args with
      | none => simpa [Adt.map] using hf
      | some xs => simpa [Adt.map] using ⟨hf, iha xs rfl⟩

theorem rewrite_id (t : Ty) : rewrite .infer .param t = t := by
  induction t with
  | error | unit | prim p | infer k v | param p => rfl
  | fn ps r ihp ihr =>
      simp only [rewrite_fn, ihr]
      rw [List.map_congr_left ihp, List.map_id']
  | adt a ihf iha =>
      obtain ⟨d, n, k, fs, ps, args⟩ := a
      have hf : fs.map (Field.map (rewrite .infer .param)) = fs := by
        rw [List.map_congr_left (g := id) (fun f hmem => by simp [Field.map, ihf f hmem])]
        simp
      cases args with
      | none => simp [Adt.map, hf]
      | some xs =>
          have hx : xs.map (rewrite .infer .param) = xs := by
            rw [List.map_congr_left (iha xs rfl), List.map_id']
          simp [Adt.map, hf, hx]

theorem leaves_rewrite (var : VarKind → VarId → Ty) (param : Param → Ty) (t : Ty) :
    (rewrite var param t).leaves = t.leaves.flatMap (fun l => (rewrite var param l).leaves) := by
  induction t with
  | error | unit | prim p | infer k v | param p => simp [leaves]
  | fn ps r ihp ihr =>
      simp only [rewrite_fn, leaves_fn, ihr, List.flatMap_append, List.flatMap_map,
        List.flatMap_assoc]
      congr 1
      rw [List.flatMap_def, List.flatMap_def, List.map_congr_left ihp]
  | adt a ihf iha =>
      have hparts : (a.map (rewrite var param)).parts = a.parts.map (rewrite var param) := by
        obtain ⟨d, n, k, fs, ps, args⟩ := a
        cases args <;> simp [Adt.parts, Adt.map, Field.map, Function.comp_def]
      have ih : ∀ t ∈ a.parts, (rewrite var param t).leaves =
          t.leaves.flatMap (fun l => (rewrite var param l).leaves) := by
        intro t ht
        obtain ⟨d, n, k, fs, ps, args⟩ := a
        simp only [Adt.parts, List.mem_append, List.mem_map] at ht
        cases ht with
        | inl h =>
            obtain ⟨f, hf, rfl⟩ := h
            exact ihf f hf
        | inr h =>
            cases args with
            | none => simp at h
            | some xs => exact iha xs rfl t h
      rw [rewrite_adt, leaves_adt, leaves_adt, hparts, List.flatMap_map, List.flatMap_assoc]
      rw [List.flatMap_def, List.flatMap_def, List.map_congr_left ih]

end TypeInference.Ty

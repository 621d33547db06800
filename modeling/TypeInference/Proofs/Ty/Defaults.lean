import TypeInference.Check.Defaults
import TypeInference.Proofs.Ty.Nodes

/-!
# Which types have defaults

The walk that gives defaults looks at the leaves from left to right. It ends at
the first that is an error or a general variable. Without such a leaf it
replaces the literal variables, and nothing else.
-/

namespace TypeInference

def Defaults.prims : Defaults := ⟨.prim .i32, .prim .f32⟩

namespace Ty

/-- A leaf for which there is no default. -/
def lacksDefault (t : Ty) : Bool := t.isError || t.isGeneralVar

def firstUnresolved? (t : Ty) : Option Ty := t.leaves.find? lacksDefault

/-- Why a leaf that lacks a default does. -/
def obstacle (leaf : Ty) : Unresolved := if leaf.isError then .error else .ambiguous

def defaultFor (defaults : Defaults) : VarKind → VarId → Ty
  | .general, v => .infer .general v
  | .integral, _ => defaults.int
  | .float, _ => defaults.float

/-- Every literal variable replaced by its default. -/
def withDefaults (defaults : Defaults) (t : Ty) : Ty := t.rewrite (defaultFor defaults) .param

theorem withDefaults_fn (defaults : Defaults) (ps : List Ty) (r : Ty) :
    (Ty.fn ps r).withDefaults defaults =
      .fn (ps.map (withDefaults defaults)) (r.withDefaults defaults) :=
  rewrite_fn _ _ ps r

theorem withDefaults_adt (defaults : Defaults) (a : Adt Ty) :
    (Ty.adt a).withDefaults defaults = .adt (a.map (withDefaults defaults)) :=
  rewrite_adt _ _ a

/-! ## The walk over the leaves -/

/-- The result of a walk over leaves, unless one of them lacks a default. -/
def resultOf {α : Type} (leaves : List Ty) (result : α) : Except Unresolved α :=
  match leaves.find? lacksDefault with
  | none => .ok result
  | some leaf => .error leaf.obstacle

/-- One walk after the other goes over the leaves of both. -/
theorem resultOf_bind {α β : Type} (leaves : List Ty) (result : α) {rest : List Ty}
    {next : α → Except Unresolved β} {last : β} (h : next result = resultOf rest last) :
    resultOf leaves result >>= next = resultOf (leaves ++ rest) last := by
  unfold resultOf at h ⊢
  rw [List.find?_append]
  cases leaves.find? lacksDefault with
  | none => exact h
  | some leaf => rfl

theorem resultOf_map {α β : Type} (leaves : List Ty) (result : α) (f : α → β) :
    (do return f (← resultOf leaves result)) = resultOf leaves (f result) := by
  unfold resultOf
  cases leaves.find? lacksDefault with
  | none => rfl
  | some leaf => rfl

theorem fallbackList_eq {ts : List Ty}
    (h : ∀ t ∈ ts, t.fallback .prims = resultOf t.leaves (t.withDefaults .prims)) :
    fallbackList .prims ts = resultOf (ts.flatMap leaves) (ts.map (withDefaults .prims)) := by
  induction ts with
  | nil => rfl
  | cons t ts ih =>
      rw [List.forall_mem_cons] at h
      rw [fallbackList, h.1, ih h.2, List.flatMap_cons]
      exact resultOf_bind _ _ (resultOf_map _ _ _)

theorem fallbackFields_eq {fs : List (Field Ty)}
    (h : ∀ f ∈ fs, f.ty.fallback .prims = resultOf f.ty.leaves (f.ty.withDefaults .prims)) :
    fallbackFields .prims fs = resultOf ((fs.map Field.ty).flatMap leaves)
      (fs.map (Field.map (withDefaults .prims))) := by
  induction fs with
  | nil => rfl
  | cons f fs ih =>
      rw [List.forall_mem_cons] at h
      rw [fallbackFields, h.1, ih h.2, List.map_cons, List.flatMap_cons]
      exact resultOf_bind _ _ (resultOf_map _ _ _)

/-- The walk fails at the first leaf that lacks a default. If there is none, it has replaced every
literal variable: the primitive types fit them. -/
theorem fallback_eq (t : Ty) :
    t.fallback .prims = resultOf t.leaves (t.withDefaults .prims) := by
  induction t with
  | error | unit | prim p | param p => rfl
  | infer k v => cases k <;> rfl
  | fn ps r ihp ihr =>
      rw [fallback, fallbackList_eq ihp, ihr, leaves_fn, withDefaults_fn]
      exact resultOf_bind _ _ (resultOf_map _ _ _)
  | adt a ihf iha =>
      rw [leaves_adt, withDefaults_adt]
      obtain ⟨d, n, k, fs, ps, _ | xs⟩ := a
      · rw [fallback, fallbackFields_eq ihf]
        simp only [Adt.parts, Option.getD_none, List.append_nil]
        exact resultOf_map _ _ _
      · rw [fallback, fallbackFields_eq ihf, fallbackList_eq (iha xs rfl)]
        simp only [Adt.parts, Option.getD_some, List.flatMap_append]
        exact resultOf_bind _ _ (resultOf_map _ _ _)

end Ty

namespace Check

variable {t : Ty}

theorem defaultEntry_of_none (h : t.firstUnresolved? = none)
    (problem : Option (NodeId × Unresolved)) (id : NodeId) :
    defaultEntry .prims problem id t = ⟨none, t.withDefaults .prims, false⟩ := by
  rw [Ty.firstUnresolved?] at h
  rw [defaultEntry, Ty.fallback_eq, Ty.resultOf, h]

theorem defaultEntry_of_some {leaf : Ty} (h : t.firstUnresolved? = some leaf)
    (problem : Option (NodeId × Unresolved)) (id : NodeId) :
    defaultEntry .prims problem id t = ⟨some (id, leaf.obstacle), t, true⟩ := by
  rw [Ty.firstUnresolved?] at h
  rw [defaultEntry, Ty.fallback_eq, Ty.resultOf, h]

end Check

end TypeInference

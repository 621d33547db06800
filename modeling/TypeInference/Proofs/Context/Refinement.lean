import TypeInference.Proofs.Context.Closed

/-!
# Inference only refines

No binding is overwritten or taken back, whatever is done to a context later
and whether it succeeds. So a type resolves in the end to what its former
resolution then resolves to, and one without variables is final. The kinds of
variables play no part in this: it is enough that only unbound variables are
bound, and only to types over other unbound variables.
-/

namespace TypeInference

open Ty

namespace Bindings

variable {b b' b'' : Bindings} {t u : Ty}

theorem Tidy.newVar (hb : b.Tidy) (k : VarKind) : (b.newVar k).2.Tidy := hb

/-- Whether the second bindings resolve further what the first ones resolve. -/
structure Refines (b b' : Bindings) : Prop where
  tidy : b'.Tidy
  resolve_resolve : ∀ t, b'.resolve (b.resolve t) = b'.resolve t

theorem Refines.refl (hb : b.Tidy) : b.Refines b := ⟨hb, hb.resolve_resolve⟩

theorem Refines.trans (h : b.Refines b') (h' : b'.Refines b'') : b.Refines b'' := by
  refine ⟨h'.tidy, fun t => ?_⟩
  calc b''.resolve (b.resolve t) = b''.resolve (b'.resolve (b.resolve t)) :=
        (h'.resolve_resolve _).symm
    _ = b''.resolve (b'.resolve t) := by rw [h.resolve_resolve]
    _ = b''.resolve t := h'.resolve_resolve t

/-- To bind a variable to a resolved type without it refines the bindings. -/
theorem refines_assign (hb : b.Tidy) {v : VarId} (hoccurs : (b.resolve u).hasVar v = false) :
    b.Refines (b.assign v (b.resolve u)) := by
  constructor
  case tidy =>
    intro t w hw
    rw [resolve_assign] at hw
    rw [isBound_assign, Bool.or_eq_false_iff, beq_eq_false_iff_ne]
    rcases hasVar_point hw with ⟨ht, hne⟩ | hu
    · exact ⟨hb t w ht, hne.symm⟩
    · refine ⟨hb u w hu, ?_⟩
      rintro rfl
      simp [hoccurs] at hu
  case resolve_resolve =>
    intro t
    rw [resolve_assign, resolve_assign, hb.resolve_resolve]

/-- Whatever the solver binds refines the bindings from which it started. -/
theorem isInvariant_refines (b : Bindings) : IsInvariant (fun _ => True) b.Refines :=
  .of_assign fun h _ hoccurs => h.trans (refines_assign h.tidy hoccurs)

theorem Refines.resolve_eq (h : b.Refines b') (heq : b.resolve t = b.resolve u) :
    b'.resolve t = b'.resolve u := by
  rw [← h.resolve_resolve t, ← h.resolve_resolve u, heq]

/-- A type that is resolved to one without variables stays so. -/
theorem Refines.resolve_final (h : b.Refines b') (ht : ∀ v, (b.resolve t).hasVar v = false) :
    b'.resolve t = b.resolve t := by
  rw [← h.resolve_resolve t]
  exact resolve_of_forall_unbound fun v hv => by simp [ht v] at hv

end Bindings

/-! ## The solver refines -/

namespace Solve

open Bindings

variable {α : Type}

def IsRefining (x : Solve α) : Prop := ∀ b : Bindings, b.Tidy → b.Refines (perform x b).2

theorem isRefining_unify (t u : Ty) : IsRefining (unify t u) := fun b hb =>
  keeps_unify b.isInvariant_refines trivial trivial b (.refl hb)

end Solve

/-! ## Runs of operations -/

namespace Context

inductive Action where
  | newVar (kind : VarKind)
  | insert (id : NodeId) (ty : Ty)
  /-- A unification, whether it succeeds or fails. -/
  | unify (a b : Ty)

def Action.apply : Action → Context → Context
  | .newVar kind, c => (c.newVar kind).2
  | .insert id ty, c => c.insert id ty
  | .unify a b, c => (c.unify a b).2

def after (c : Context) (actions : List Action) : Context :=
  actions.foldl (fun c action => action.apply c) c

variable {c : Context}

theorem refines_apply (action : Action) (hc : c.bindings.Tidy) :
    c.bindings.Refines (action.apply c).bindings := by
  cases action with
  | newVar k =>
      show c.bindings.Refines (c.bindings.newVar k).2
      exact ⟨hc.newVar k, hc.resolve_resolve⟩
  | insert id t => exact .refl hc
  | unify a b => exact Solve.isRefining_unify a b c.bindings hc

theorem refines_after (actions : List Action) (hc : c.bindings.Tidy) :
    c.bindings.Refines (c.after actions).bindings := by
  induction actions generalizing c with
  | nil => exact .refl hc
  | cons action rest ih =>
      have hfirst := refines_apply action hc
      exact hfirst.trans (ih hfirst.tidy)

theorem builtins_after (actions : List Action) : (c.after actions).builtins = c.builtins := by
  induction actions generalizing c with
  | nil => rfl
  | cons action rest ih =>
      have hfirst : (action.apply c).builtins = c.builtins := by cases action <;> rfl
      exact ih.trans hfirst

/-- What is recorded for a node changes only where something else is recorded for it. -/
theorem find?_apply {action : Action} {id : NodeId} (h : ∀ t, action ≠ .insert id t) :
    (action.apply c).types.find? id = c.types.find? id := by
  cases action with
  | newVar k => rfl
  | insert i t =>
      have hne : id ≠ i := fun heq => h t (by rw [heq])
      simp [Action.apply, Context.insert, hne]
  | unify a b => rfl

theorem find?_after {actions : List Action} {id : NodeId} (h : ∀ t, .insert id t ∉ actions) :
    (c.after actions).types.find? id = c.types.find? id := by
  induction actions generalizing c with
  | nil => rfl
  | cons action rest ih =>
      have hfirst : (action.apply c).types.find? id = c.types.find? id :=
        find?_apply fun t heq => h t (heq ▸ List.mem_cons_self)
      exact (ih fun t ht => h t (List.mem_cons_of_mem _ ht)).trans hfirst

/-- Whatever was recorded and done before and is done later, every type resolves in the end to what
its former resolution then resolves to. In particular a type whose resolution has no variables is
final, types that were equal stay equal, and the same holds of the type of every node for which
nothing else is recorded. -/
theorem refined_after (types : NodeTypes) (builtins : List Prim) (before later : List Action) :
    let c := (⟨types, builtins, .empty⟩ : Context).after before
    let c' := c.after later
    (∀ t, c'.resolve t = c'.resolve (c.resolve t)) ∧
      (∀ t, (∀ v, (c.resolve t).hasVar v = false) → c'.resolve t = c.resolve t) ∧
      (∀ t u, c.resolve t = c.resolve u → c'.resolve t = c'.resolve u) ∧
      ∀ id, (∀ t, .insert id t ∉ later) →
        c'.lookup id = (c.lookup id).map c'.resolve ∧
          ∀ t, c.lookup id = some t → (∀ v, t.hasVar v = false) → c'.lookup id = some t := by
  intro c c'
  have hc : c.bindings.Tidy := (refines_after before Bindings.tidy_empty).tidy
  have hrefines : c.bindings.Refines c'.bindings := refines_after later hc
  have hresolve (t : Ty) : c'.resolve (c.resolve t) = c'.resolve t := hrefines.resolve_resolve t
  have hfinal {t : Ty} (ht : ∀ v, (c.resolve t).hasVar v = false) : c'.resolve t = c.resolve t :=
    hrefines.resolve_final ht
  refine ⟨fun t => (hresolve t).symm, fun t => hfinal, fun t u => hrefines.resolve_eq,
    fun id hid => ?_⟩
  have hfind : c'.types.find? id = c.types.find? id := find?_after hid
  constructor
  · rw [lookup, lookup, hfind, Option.map_map]
    congr 1
    exact funext fun t => (hresolve t).symm
  · intro t ht hground
    obtain ⟨u, hu, rfl⟩ := Option.map_eq_some_iff.1 ht
    rw [lookup, hfind, hu, Option.map_some, hfinal hground]

/-- A unification that fails has bound the variable that two nodes have in common. Nothing is recorded
for them afterwards, and both have the type that it was bound to. -/
theorem refined_after_failure :
    let c := bare.after [.newVar .general, .newVar .general, .insert 0 (.infer .general 0),
      .insert 1 (.infer .general 1), .unify (.infer .general 0) (.infer .general 1)]
    let a := Ty.fn [.infer .general 0, .infer .general 1] .unit
    let b := Ty.fn [.prim .i32, .prim .bool] .unit
    let c' := c.after [.unify a b, .insert 2 (.prim .bool), .unify (.infer .general 1) (.prim .i32)]
    (c.unify a b).1 = .error (.mismatch (.prim .i32) (.prim .bool)) ∧
      c'.resolve (.infer .general 0) = c'.resolve (.infer .general 1) ∧
      c'.lookup 0 = (c.lookup 0).map c'.resolve ∧ c'.lookup 1 = (c.lookup 1).map c'.resolve ∧
      c'.lookup 0 = some (.prim .i32) ∧ c'.lookup 1 = some (.prim .i32) := by
  intro c a b c'
  obtain ⟨-, -, hequal, hnodes⟩ := refined_after .empty [] [.newVar .general, .newVar .general,
      .insert 0 (.infer .general 0), .insert 1 (.infer .general 1),
      .unify (.infer .general 0) (.infer .general 1)]
    [.unify a b, .insert 2 (.prim .bool), .unify (.infer .general 1) (.prim .i32)]
  have hother {id : NodeId} (hne : id ≠ 2) (t : Ty) : .insert id t ∉ [.unify a b,
      .insert 2 (.prim .bool), Action.unify (.infer .general 1) (.prim .i32)] := by
    simp [hne]
  exact ⟨rfl, hequal _ _ rfl, (hnodes 0 (hother (by decide))).1, (hnodes 1 (hother (by decide))).1,
    rfl, rfl⟩

end Context

end TypeInference

import TypeInference.Ty.Rewrite

/-!
# Bindings of inference variables

Variables are numbered in order of creation. The bindings form a triangular
substitution, oldest first: a type bound to a variable may mention variables
that are bound later, and resolution applies the later bindings to it.
-/

namespace TypeInference

structure Bindings where
  count : Nat
  solved : List (VarId × Ty)
  deriving Repr

namespace Bindings

def empty : Bindings := ⟨0, []⟩

/-- What a variable stands for under the bindings, read in the order they were made. -/
def chase : List (VarId × Ty) → VarKind → VarId → Ty
  | [], k, v => .infer k v
  | (w, t) :: later, k, v => if v = w then t.rewrite (chase later) .param else chase later k v

def resolve (b : Bindings) (t : Ty) : Ty := t.rewrite (chase b.solved) .param

/-- Bind `v` to `t`, after all earlier bindings. -/
def assign (b : Bindings) (v : VarId) (t : Ty) : Bindings :=
  { b with solved := b.solved ++ [(v, t)] }

def isBound (b : Bindings) (v : VarId) : Bool := b.solved.any (fun p => p.1 == v)

/-- How many of the created variables are not bound. -/
def free (b : Bindings) : Nat := b.count - b.solved.length

/-- The next `n` variables, all general. -/
def newVars (b : Bindings) (n : Nat) : List Ty × Bindings :=
  ((List.range n).map (fun i => .infer .general (b.count + i)), { b with count := b.count + n })

def newVar (b : Bindings) (kind : VarKind) : Ty × Bindings :=
  (.infer kind b.count, { b with count := b.count + 1 })

/-- The substitution of one variable. -/
def point (v : VarId) (t : Ty) (k : VarKind) (w : VarId) : Ty :=
  if w = v then t else .infer k w

theorem chase_append (solved : List (VarId × Ty)) (v : VarId) (t : Ty) (k : VarKind) (w : VarId) :
    chase (solved ++ [(v, t)]) k w = (chase solved k w).rewrite (point v t) .param := by
  induction solved generalizing k w with
  | nil =>
      by_cases h : w = v
      · simpa [chase, h, point] using Ty.rewrite_id t
      · simp [chase, h, point]
  | cons p solved ih =>
      obtain ⟨u, s⟩ := p
      by_cases h : w = u
      · simp only [List.cons_append, chase, h, if_true]
        rw [Ty.rewrite_rewrite]
        exact Ty.rewrite_congr (fun k v _ => ih k v) (fun _ _ => rfl)
      · simp only [List.cons_append, chase, h, if_false]
        exact ih k w

theorem resolve_assign (b : Bindings) (v : VarId) (t u : Ty) :
    (b.assign v t).resolve u = (b.resolve u).rewrite (point v t) .param := by
  simp only [resolve, assign]
  rw [Ty.rewrite_rewrite]
  exact Ty.rewrite_congr (fun k w _ => chase_append b.solved v t k w) (fun _ _ => rfl)

theorem resolve_empty (t : Ty) : empty.resolve t = t := Ty.rewrite_id t

@[simp] theorem resolve_newVar (b : Bindings) (k : VarKind) (t : Ty) :
    (b.newVar k).2.resolve t = b.resolve t := rfl

@[simp] theorem resolve_newVars (b : Bindings) (n : Nat) (t : Ty) :
    (b.newVars n).2.resolve t = b.resolve t := rfl

end Bindings

end TypeInference

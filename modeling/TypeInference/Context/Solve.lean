import TypeInference.Context.Bindings
import TypeInference.Ty.Unify

/-!
# Solving

Two types meet in their common type; then each of them is walked beside it,
and every unbound variable on the way is bound to its counterpart. A variable
that the walk has bound before makes its two counterparts meet in turn. Each
such meeting finds fewer unbound variables than the one around it, so their
number bounds the depth.
-/

namespace TypeInference

/-- A computation that binds variables; what it bound before a failure stays bound. -/
abbrev Solve (α : Type) := ExceptT UnifyError (StateM Bindings) α

namespace Solve

def ofExcept {α : Type} (x : Except UnifyError α) : Solve α := ExceptT.mk (pure x)

/-- Bring a variable together with its counterpart. -/
def bindVar (merge : Ty → Ty → Solve Unit) (k : VarKind) (v : VarId) (counterpart : Ty) :
    Solve Unit := do
  let b ← get
  let current := b.resolve (.infer k v)
  let target := b.resolve counterpart
  if current = target then pure ()
  else if current = .infer k v then
    if target.hasVar v then throw (.infiniteType v target)
    else set (b.assign v target)
  else merge current target

mutual

/-- Bind the variables of the first type to their counterparts in the second. -/
def walk (merge : Ty → Ty → Solve Unit) : Ty → Ty → Solve Unit
  | _, .error => pure ()
  | .infer k v, u => bindVar merge k v u
  | .fn ps r, .fn qs s => do
      walkList merge ps qs
      walk merge r s
  | .adt ⟨_, _, _, fs, _, some xs⟩, .adt ⟨_, _, _, gs, _, some ys⟩ => do
      walkFields merge fs gs
      walkList merge xs ys
  | .adt ⟨_, _, _, fs, _, _⟩, .adt ⟨_, _, _, gs, _, _⟩ => walkFields merge fs gs
  | _, _ => pure ()

def walkList (merge : Ty → Ty → Solve Unit) : List Ty → List Ty → Solve Unit
  | t :: ts, u :: us => do
      walk merge t u
      walkList merge ts us
  | _, _ => pure ()

def walkFields (merge : Ty → Ty → Solve Unit) : List (Field Ty) → List (Field Ty) → Solve Unit
  | ⟨_, t, _⟩ :: fs, ⟨_, u, _⟩ :: gs => do
      walk merge t u
      walkFields merge fs gs
  | _, _ => pure ()

end

/--
Unify two resolved types and bind their variables. The depth is a bound on the
meetings inside this one and is never used up when it is the number of unbound
variables.
-/
def meet : Nat → Ty → Ty → Solve Ty
  | 0, a, b => throw (.mismatch a b)
  | depth + 1, a, b => do
      let unified ← ofExcept (Ty.unify a b)
      walk (fun x y => discard (meet depth x y)) a unified
      walk (fun x y => discard (meet depth x y)) b unified
      return unified

/-- Unify two types under the current bindings; the result is resolved. -/
def unify (a b : Ty) : Solve Ty := do
  let start ← get
  let unified ← meet (start.free + 1) (start.resolve a) (start.resolve b)
  return (← get).resolve unified

end Solve

end TypeInference

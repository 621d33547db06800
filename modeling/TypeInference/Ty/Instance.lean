import TypeInference.Ty.Rewrite

/-!
# Instances of generic structs

Arguments replace parameters by position. An instance keeps its arguments
beside the fields they were substituted into.
-/

namespace TypeInference

/-- A wrong number of generic arguments. -/
structure ArgCount where
  expected : Nat
  found : Nat
  deriving DecidableEq, Repr

namespace Ty

/-- The argument for a parameter; a parameter without one stays as it is. -/
def argFor (args : List Ty) (p : Param) : Ty := args[p.index]?.getD (.param p)

def substitute (args : List Ty) (t : Ty) : Ty := t.rewrite .infer (argFor args)

@[simp] theorem substitute_infer (args : List Ty) (k : VarKind) (v : VarId) :
    substitute args (.infer k v) = .infer k v := rfl

@[simp] theorem substitute_param (args : List Ty) (p : Param) :
    substitute args (.param p) = args[p.index]?.getD (.param p) := rfl

@[simp] theorem substitute_fn (args ps : List Ty) (r : Ty) :
    substitute args (.fn ps r) = .fn (ps.map (substitute args)) (substitute args r) :=
  rewrite_fn _ _ ps r

@[simp] theorem substitute_adt (args : List Ty) (a : Adt Ty) :
    substitute args (.adt a) = .adt (a.map (substitute args)) :=
  rewrite_adt _ _ a

end Ty

namespace Adt

def instantiate (a : Adt Ty) (args : List Ty) : Adt Ty :=
  { a with
    fields := a.fields.map (Field.map (Ty.substitute args))
    args := some args }

/-- Instantiate with written arguments. A struct without parameters takes any list and ignores it. -/
def apply (a : Adt Ty) (args : List Ty) : Except ArgCount (Adt Ty) :=
  if !a.isGeneric then .ok a
  else if args.length ≠ a.params.length then .error ⟨a.params.length, args.length⟩
  else .ok (a.instantiate args)

theorem apply_eq_ok_iff {a b : Adt Ty} {args : List Ty} : a.apply args = .ok b ↔
    a.params = [] ∧ b = a ∨
      a.params ≠ [] ∧ args.length = a.params.length ∧ b = a.instantiate args := by
  unfold apply
  by_cases hparams : a.params = []
  · simp [isGeneric, hparams, @eq_comm _ b]
  · by_cases hlen : args.length = a.params.length <;> simp [isGeneric, hparams, hlen, @eq_comm _ b]

end Adt

end TypeInference

import TypeInference.Check.Session
import TypeInference.Ty.Unify

/-!
# Default types

Literal variables that nothing constrained become `i32` and `f32`. An entry
that holds an error or a general variable cannot be made concrete, and the
first such entry is fatal.
-/

namespace TypeInference

/-- Why there is no default. -/
inductive Unresolved where
  /-- There is an error in the type. -/
  | error
  /-- There is a general variable in the type. -/
  | ambiguous
  deriving DecidableEq, Repr

/-- The types that literal variables get. -/
structure Defaults where
  int : Ty
  float : Ty
  deriving Repr

namespace Ty

mutual

/-- Give every literal variable its default. The walk ends at the first leaf that has none. -/
def fallback (defaults : Defaults) : Ty → Except Unresolved Ty
  | .error => .error .error
  | .infer .general _ => .error .ambiguous
  | .infer .integral v => (unify (.infer .integral v) defaults.int).mapError fun _ => .error
  | .infer .float v => (unify (.infer .float v) defaults.float).mapError fun _ => .error
  | .unit => .ok .unit
  | .prim p => .ok (.prim p)
  | .param p => .ok (.param p)
  | .fn ps r => do
      let params ← fallbackList defaults ps
      let ret ← fallback defaults r
      return .fn params ret
  | .adt ⟨d, n, k, fs, ps, none⟩ => do
      let fields ← fallbackFields defaults fs
      return .adt ⟨d, n, k, fields, ps, none⟩
  | .adt ⟨d, n, k, fs, ps, some xs⟩ => do
      let fields ← fallbackFields defaults fs
      let args ← fallbackList defaults xs
      return .adt ⟨d, n, k, fields, ps, some args⟩

def fallbackList (defaults : Defaults) : List Ty → Except Unresolved (List Ty)
  | [] => .ok []
  | t :: ts => do
      let head ← fallback defaults t
      let tail ← fallbackList defaults ts
      return head :: tail

def fallbackFields (defaults : Defaults) :
    List (Field Ty) → Except Unresolved (List (Field Ty))
  | [] => .ok []
  | ⟨n, t, i⟩ :: fs => do
      let head ← fallback defaults t
      let tail ← fallbackFields defaults fs
      return ⟨n, head, i⟩ :: tail

end

end Ty

namespace Check

/-- Default one entry, or stop at it. -/
def defaultEntry (defaults : Defaults) (_ : Option (NodeId × Unresolved)) (id : NodeId)
    (ty : Ty) : Visit (Option (NodeId × Unresolved)) :=
  match ty.fallback defaults with
  | .ok defaulted => ⟨none, defaulted, false⟩
  | .error reason => ⟨some (id, reason), ty, true⟩

/-- What is reported of an entry without a default. -/
def unresolvedCause (id : NodeId) : Unresolved → Cause
  | .error => .resolutionFailure id
  | .ambiguous => .ambiguousType id

def applyDefaults : Check Unit := do
  let int ← builtin "i32"
  let float ← builtin "f32"
  let s ← get
  let (problem, context) := s.context.sweep (defaultEntry ⟨int, float⟩) none
  set { s with context }
  match problem with
  | none => return ()
  | some (id, reason) => giveUpAll (unresolvedCause id reason) ((s.locations.find? id).getD .origin)

end Check

end TypeInference

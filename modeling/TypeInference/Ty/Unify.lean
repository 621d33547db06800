import TypeInference.Ty.Text

/-!
# Unification of two types

The most specific common type of two types, read position by position, or the
reason why there is none. No table is consulted: a variable that occurs twice
may receive two different counterparts here, and solving reconciles them.
-/

namespace TypeInference

inductive UnifyError where
  | mismatch (expected found : Ty)
  | arityMismatch (expected found : Nat)
  | infiniteType (var : VarId) (ty : Ty)
  deriving DecidableEq, Repr

def UnifyError.message : UnifyError → String
  | .mismatch a b => "expected `" ++ a.text ++ "`, found `" ++ b.text ++ "`"
  | .arityMismatch m n =>
      "expected " ++ toString m ++ " parameters, found " ++ toString n
  | .infiniteType v t => "`?" ++ toString v ++ "` occurs in `" ++ t.text ++ "`"

/-- Whether a variable of this kind may stand for the type. -/
def VarKind.accepts : VarKind → Ty → Bool
  | .general, _ => true
  | .integral, t => t.isIntegral
  | .float, t => t.isFloat

namespace Ty

/-- What a variable becomes when it meets a type that is neither an error nor a variable of its kind. -/
def absorb (k : VarKind) (v : VarId) (t : Ty) (otherwise : UnifyError) : Except UnifyError Ty :=
  if !k.accepts t then .error otherwise
  else if t.hasVar v then .error (.infiniteType v t)
  else .ok t

/-- Two variables of one kind merge into the older one, and a general variable gives way. -/
def unifyVars (k : VarKind) (v : VarId) (l : VarKind) (w : VarId) : Except UnifyError Ty :=
  if k = l then .ok (.infer k (min v w))
  else if k = .general then absorb k v (.infer l w) (.mismatch (.infer k v) (.infer l w))
  else absorb l w (.infer k v) (.mismatch (.infer k v) (.infer l w))

mutual

def unify : Ty → Ty → Except UnifyError Ty
  | .error, _ => .ok .error
  | _, .error => .ok .error
  | .infer k v, .infer l w => unifyVars k v l w
  | .infer k v, b => absorb k v b (.mismatch (.infer k v) b)
  | a, .infer l w => absorb l w a (.mismatch a (.infer l w))
  | .unit, .unit => .ok .unit
  | .prim p, .prim q => if p = q then .ok (.prim p) else .error (.mismatch (.prim p) (.prim q))
  | .param p, .param q =>
      if p = q then .ok (.param p) else .error (.mismatch (.param p) (.param q))
  | .fn ps r, .fn qs s =>
      if ps.length ≠ qs.length then .error (.arityMismatch ps.length qs.length)
      else do
        let params ← unifyList ps qs
        let ret ← unify r s
        return .fn params ret
  | .adt ⟨d, n, k, fs, ps, none⟩, .adt ⟨e, m, l, gs, qs, none⟩ =>
      if d ≠ e ∨ fs.length ≠ gs.length then
        .error (.mismatch (.adt ⟨d, n, k, fs, ps, none⟩) (.adt ⟨e, m, l, gs, qs, none⟩))
      else do
        let fields ← unifyFields fs gs
        return .adt ⟨d, n, k, fields, ps, none⟩
  | .adt ⟨d, n, k, fs, ps, some xs⟩, .adt ⟨e, m, l, gs, qs, some ys⟩ =>
      if d ≠ e ∨ fs.length ≠ gs.length ∨ xs.length ≠ ys.length then
        .error (.mismatch (.adt ⟨d, n, k, fs, ps, some xs⟩) (.adt ⟨e, m, l, gs, qs, some ys⟩))
      else do
        let args ← unifyList xs ys
        let fields ← unifyFields fs gs
        return .adt ⟨d, n, k, fields, ps, some args⟩
  | a, b => .error (.mismatch a b)

/-- Unify position by position, up to the shorter length. -/
def unifyList : List Ty → List Ty → Except UnifyError (List Ty)
  | t :: ts, u :: us => do
      let head ← unify t u
      let tail ← unifyList ts us
      return head :: tail
  | _, _ => .ok []

/-- Unify field types by position; names and positions are those of the first list. -/
def unifyFields : List (Field Ty) → List (Field Ty) → Except UnifyError (List (Field Ty))
  | ⟨n, t, i⟩ :: fs, ⟨_, u, _⟩ :: gs => do
      let head ← unify t u
      let tail ← unifyFields fs gs
      return ⟨n, head, i⟩ :: tail
  | _, _ => .ok []

end

end Ty

end TypeInference

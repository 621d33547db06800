import TypeInference.Check.Expr
import TypeInference.Program.Item

/-!
# Checking items

A function body is checked against the recorded result type of the function,
and a constant's initializer against the recorded type of the constant.
-/

namespace TypeInference

namespace Check

/-- The recorded result type of a function. -/
def returnType (id : NodeId) : Check Ty := do
  match ← lookup id with
  | some (.fn _ ret) => return ret
  | _ => throw (.defect (.missingSignature id))

def constType (id : NodeId) : Check Ty := do
  match ← lookup id with
  | some ty => return ty
  | none => throw (.defect (.missingSignature id))

def requireType (span : Span) (expected found : Ty) : Check Unit := do
  let _ ← unifyAt span expected found

end Check

/-- Where the value of a block stands: at its tail, or else at the block. -/
def Block.valueSpan (b : Block) : Span := (b.tail.map Expr.span).getD b.mark.span

open Walk Check

def Item.check (item : Item) : Walk Item Unit :=
  match item.kind with
  | .struct _ => leaf item (return ())
  | .fn decl =>
      first item (returnType item.id) fun ret =>
      child decl.body.check (fun body => { item with kind := .fn { decl with body } })
        fun body ty =>
      leaf { item with kind := .fn { decl with body } } (requireType body.valueSpan ret ty)
  | .const decl =>
      first item (constType item.id) fun expected =>
      child decl.value.check (fun value => { item with kind := .const { decl with value } })
        fun value ty =>
      leaf { item with kind := .const { decl with value } } (requireType value.span expected ty)

end TypeInference

import TypeInference.Check.Expr
import TypeInference.Program.Item

/-!
# Operators of a program

Every operator in a program, with the nodes that it is applied to. What a check
lets an operator be applied to is more than what the operator is meant for: a
type that is not known yet is given the benefit of the doubt.
-/

namespace TypeInference

inductive Operation where
  | unary (id : NodeId) (op : UnOp) (operand : NodeId)
  | binary (id : NodeId) (op : BinOp) (lhs rhs : NodeId)

def BinOp.isArithmetic (op : BinOp) : Bool := !op.isLazyBoolean && !op.isComparison

namespace Operation

def id : Operation → NodeId
  | unary id _ _ => id
  | binary id _ _ _ => id

/-- The operands that have to have the type of the operation. Comparisons and lazy boolean operators
are not about one type. -/
def operands : Operation → List NodeId
  | unary _ _ operand => [operand]
  | binary _ op lhs rhs => if op.isArithmetic then [lhs, rhs] else []

/-- Whether a check lets the operator be applied to operands of this type. -/
def Allows : Operation → Ty → Prop
  | unary _ op _, t => op.supports t
  | binary _ op _ _, t => op.isArithmetic → t.isError ∨ t.isNumeric ∨ t.isGeneralVar

/-- Whether the operator is meant for operands of this type. -/
def Suits : Operation → Ty → Prop
  | unary _ .neg _, t => ∃ p : Prim, t = .prim p ∧ p.isSigned
  | unary _ .not _, t => t = .prim .bool ∨ ∃ p : Prim, t = .prim p ∧ p.isIntegral
  | binary _ _ _ _, t => ∃ p : Prim, t = .prim p ∧ (p.isIntegral ∨ p.isFloat)

/-- Whether it can be told from the type if the operator suits it, however variables are bound. An
integer that is to be negated may turn out to have no sign. -/
def IsSettledBy : Operation → Ty → Prop
  | _, .infer .general _ => False
  | unary _ .neg _, .infer .integral _ => False
  | _, _ => True

end Operation

mutual

def Expr.operations : Expr → List Operation
  | .lit _ _ => []
  | .path _ _ => []
  | .block _ b => b.operations
  | .struct _ _ _ fields base => Expr.operationsOption base ++ FieldInit.operationsAll fields
  | .field _ base _ => base.operations
  | .tupleIndex _ base _ => base.operations
  | .call _ callee args => callee.operations ++ Expr.operationsAll args
  | .unary m op e => .unary m.id op e.id :: e.operations
  | .binary m op l r => .binary m.id op l.id r.id :: (l.operations ++ r.operations)
  | .assign _ l r => l.operations ++ r.operations
  | .paren _ e => e.operations

def Expr.operationsAll : List Expr → List Operation
  | [] => []
  | e :: es => e.operations ++ Expr.operationsAll es

def Expr.operationsOption : Option Expr → List Operation
  | none => []
  | some e => e.operations

def Block.operations : Block → List Operation
  | .mk _ stmts tail => Stmt.operationsAll stmts ++ Expr.operationsOption tail

def Stmt.operationsAll : List Stmt → List Operation
  | [] => []
  | s :: rest => s.operations ++ Stmt.operationsAll rest

def Stmt.operations : Stmt → List Operation
  | .bind _ _ _ _ init => Expr.operationsOption init
  | .expr _ e => e.operations
  | .semi _ e => e.operations

def FieldInit.operationsAll : List FieldInit → List Operation
  | [] => []
  | f :: rest => f.operations ++ FieldInit.operationsAll rest

def FieldInit.operations : FieldInit → List Operation
  | .named _ _ value => value.operations
  | .index _ _ value => value.operations
  | .short _ _ _ => []

end

theorem FieldInit.operationsAll_eq (fields : List FieldInit) :
    FieldInit.operationsAll fields = fields.flatMap FieldInit.operations := by
  induction fields with
  | nil => rfl
  | cons f rest ih => simp [FieldInit.operationsAll, ih]

def ItemKind.operations : ItemKind → List Operation
  | .struct _ => []
  | .fn decl => decl.body.operations
  | .const decl => decl.value.operations

def Program.operations (p : Program) : List Operation :=
  p.items.flatMap fun item => item.kind.operations

end TypeInference

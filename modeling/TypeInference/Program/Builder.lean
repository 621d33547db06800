import TypeInference.Program.Item
import TypeInference.Source.Locations

/-!
# Building programs

Nodes are made children first. Each takes the next identity and a span of its
own, one byte long, at the offset equal to its identity.
-/

namespace TypeInference

abbrev Builder := StateM Locations

namespace Builder

/-- The mark of the next node. -/
def mark : Builder Mark := do
  let l ← get
  let span : Span := ⟨l.size, l.size + 1⟩
  let (id, l) := l.alloc span
  set l
  return ⟨id, span⟩

@[simp] theorem run_mark (l : Locations) :
    mark.run l = (⟨l.size, ⟨l.size, l.size + 1⟩⟩, (l.alloc ⟨l.size, l.size + 1⟩).2) := rfl

/-! ## Expressions -/

def lit (value : Literal) : Builder Expr := return .lit (← mark) value

def path (p : Path) : Builder Expr := return .path (← mark) p

def field (base : Expr) (name : String) : Builder Expr := return .field (← mark) base name

def tupleIndex (base : Expr) (index : Nat) : Builder Expr :=
  return .tupleIndex (← mark) base index

def call (callee : Expr) (args : List Expr) : Builder Expr := return .call (← mark) callee args

def unary (op : UnOp) (operand : Expr) : Builder Expr := return .unary (← mark) op operand

def binary (op : BinOp) (lhs rhs : Expr) : Builder Expr := return .binary (← mark) op lhs rhs

def assign (lhs rhs : Expr) : Builder Expr := return .assign (← mark) lhs rhs

def paren (inner : Expr) : Builder Expr := return .paren (← mark) inner

def block (stmts : List Stmt) (tail : Option Expr) : Builder Block :=
  return .mk (← mark) stmts tail

/-- A block as an expression: the block is a node of its own. -/
def blockExpr (stmts : List Stmt) (tail : Option Expr) : Builder Expr := do
  let b ← block stmts tail
  return .block (← mark) b

/-- A struct literal. One identity is taken for the span of its path. -/
def struct (p : Path) (fields : List FieldInit) (base : Option Expr) : Builder Expr := do
  let pathMark ← mark
  return .struct (← mark) p pathMark.span fields base

def namedField (name : String) (value : Expr) : Builder FieldInit :=
  return .named (← mark) name value

def indexField (index : Nat) (value : Expr) : Builder FieldInit :=
  return .index (← mark) index value

def shortField (name : String) (res : Option NodeId) : Builder FieldInit :=
  return .short (← mark) name res

/-! ## Statements -/

/-- A binding statement. The binding takes an identity before the statement. -/
def bindStmt (name : String) (ty : Option TypeRef) (init : Option Expr) : Builder Stmt := do
  let binding ← mark
  return .bind (← mark) binding.id name ty init

def exprStmt (e : Expr) : Builder Stmt := return .expr (← mark) e

def semiStmt (e : Expr) : Builder Stmt := return .semi (← mark) e

/-! ## Written types -/

def unitType : Builder TypeRef := return .unit (← mark)

def inferType : Builder TypeRef := return .infer (← mark)

def pathType (name : String) (res : Option TypeRes) (args : List TypeRef) : Builder TypeRef :=
  return .path (← mark) name res args

/-! ## Items -/

def genericParam (name : String) : Builder GenericParam := return ⟨← mark, name⟩

def typedName (name : String) (ty : TypeRef) : Builder TypedName := return ⟨← mark, name, ty⟩

def item (name : String) (kind : ItemKind) : Builder Item := return ⟨← mark, name, kind⟩

end Builder

end TypeInference

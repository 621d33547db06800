import TypeInference.Program.TypeRef

/-!
# Expressions, blocks and statements

Name-resolved trees. Every node carries its mark; a reference carries the
declaration it resolved to, or nothing if it did not resolve.
-/

namespace TypeInference

inductive UnOp where
  | neg | not
  deriving DecidableEq, Repr, Inhabited

def UnOp.text : UnOp → String
  | neg => "-"
  | not => "!"

inductive BinOp where
  | add | sub | mul | div | rem
  | eq | ne | lt | le | gt | ge
  | and | or
  deriving DecidableEq, Repr, Inhabited

namespace BinOp

def all : List BinOp := [add, sub, mul, div, rem, eq, ne, lt, le, gt, ge, and, or]

def text : BinOp → String
  | add => "+"
  | sub => "-"
  | mul => "*"
  | div => "/"
  | rem => "%"
  | eq => "=="
  | ne => "!="
  | lt => "<"
  | le => "<="
  | gt => ">"
  | ge => ">="
  | and => "&&"
  | or => "||"

def isComparison : BinOp → Bool
  | eq | ne | lt | le | gt | ge => true
  | _ => false

def isLazyBoolean : BinOp → Bool
  | and | or => true
  | _ => false

end BinOp

inductive Literal where
  | int (value : Nat) (suffix : Option String)
  /-- A float by its bit pattern. -/
  | float (bits : UInt64) (suffix : Option String)
  | bool (value : Bool)
  | char (value : Char)
  | str (value : String)
  | unit
  deriving DecidableEq, Repr

structure Segment where
  name : String
  args : List TypeRef
  deriving Repr

structure Path where
  segments : List Segment
  res : Option NodeId
  deriving Repr

namespace Path

/-- A path of one segment without arguments. -/
def ident (name : String) (res : Option NodeId) : Path := ⟨[⟨name, []⟩], res⟩

def text (p : Path) : String := "::".intercalate (p.segments.map Segment.name)

/-- The arguments written on the last segment. -/
def args (p : Path) : List TypeRef := (p.segments.getLast?.map Segment.args).getD []

end Path

mutual

inductive Expr where
  | lit (mark : Mark) (value : Literal)
  | path (mark : Mark) (path : Path)
  | block (mark : Mark) (block : Block)
  /-- A struct literal; the fields may be followed by a base to copy the others from. -/
  | struct (mark : Mark) (path : Path) (pathSpan : Span) (fields : List FieldInit)
      (base : Option Expr)
  | field (mark : Mark) (base : Expr) (name : String)
  | tupleIndex (mark : Mark) (base : Expr) (index : Nat)
  | call (mark : Mark) (callee : Expr) (args : List Expr)
  | unary (mark : Mark) (op : UnOp) (operand : Expr)
  | binary (mark : Mark) (op : BinOp) (lhs rhs : Expr)
  | assign (mark : Mark) (lhs rhs : Expr)
  | paren (mark : Mark) (inner : Expr)

inductive Block where
  | mk (mark : Mark) (stmts : List Stmt) (tail : Option Expr)

inductive Stmt where
  | bind (mark : Mark) (binding : NodeId) (name : String) (ty : Option TypeRef)
      (init : Option Expr)
  /-- An expression without a semicolon; at the end of a block it is the block's value. -/
  | expr (mark : Mark) (e : Expr)
  | semi (mark : Mark) (e : Expr)

inductive FieldInit where
  | named (mark : Mark) (name : String) (value : Expr)
  | index (mark : Mark) (index : Nat) (value : Expr)
  /-- A field whose value is the variable of the same name. -/
  | short (mark : Mark) (name : String) (res : Option NodeId)

end

namespace Expr

def mark : Expr → Mark
  | lit m _ => m
  | path m _ => m
  | block m _ => m
  | struct m _ _ _ _ => m
  | field m _ _ => m
  | tupleIndex m _ _ => m
  | call m _ _ => m
  | unary m _ _ => m
  | binary m _ _ _ => m
  | assign m _ _ => m
  | paren m _ => m

def id (e : Expr) : NodeId := e.mark.id

def span (e : Expr) : Span := e.mark.span

end Expr

namespace Block

def mark : Block → Mark
  | mk m _ _ => m

def tail : Block → Option Expr
  | mk _ _ t => t

end Block

namespace Stmt

def mark : Stmt → Mark
  | bind m _ _ _ _ => m
  | expr m _ => m
  | semi m _ => m

/-- Whether the statement is an expression without a semicolon. -/
def isExpr : Stmt → Bool
  | expr _ _ => true
  | _ => false

end Stmt

namespace FieldInit

def mark : FieldInit → Mark
  | named m _ _ => m
  | index m _ _ => m
  | short m _ _ => m

/-- The declared field that is meant; a position is its own name. -/
def fieldName : FieldInit → String
  | named _ name _ => name
  | index _ i _ => toString i
  | short _ name _ => name

end FieldInit

end TypeInference

import TypeInference.Proofs.Program.Ids
import TypeInference.Proofs.Program.Resolutions

/-!
# References of paths

The declarations that the paths in bodies resolved to: those of path
expressions, of the paths of struct literals, and of fields written as the
variable of the same name.
-/

namespace TypeInference

mutual

def Expr.references : Expr → List NodeId
  | .lit _ _ => []
  | .path _ p => p.res.toList
  | .block _ b => b.references
  | .struct _ p _ fields base =>
      p.res.toList ++ (Expr.referencesOption base ++ FieldInit.referencesAll fields)
  | .field _ base _ => base.references
  | .tupleIndex _ base _ => base.references
  | .call _ callee args => callee.references ++ Expr.referencesAll args
  | .unary _ _ e => e.references
  | .binary _ _ l r => l.references ++ r.references
  | .assign _ l r => l.references ++ r.references
  | .paren _ e => e.references

def Expr.referencesAll : List Expr → List NodeId
  | [] => []
  | e :: es => e.references ++ Expr.referencesAll es

def Expr.referencesOption : Option Expr → List NodeId
  | none => []
  | some e => e.references

def Block.references : Block → List NodeId
  | .mk _ stmts tail => Stmt.referencesAll stmts ++ Expr.referencesOption tail

def Stmt.referencesAll : List Stmt → List NodeId
  | [] => []
  | s :: rest => s.references ++ Stmt.referencesAll rest

def Stmt.references : Stmt → List NodeId
  | .bind _ _ _ _ init => Expr.referencesOption init
  | .expr _ e => e.references
  | .semi _ e => e.references

def FieldInit.referencesAll : List FieldInit → List NodeId
  | [] => []
  | f :: rest => f.references ++ FieldInit.referencesAll rest

def FieldInit.references : FieldInit → List NodeId
  | .named _ _ value => value.references
  | .index _ _ value => value.references
  | .short _ _ res => res.toList

end

theorem Expr.referencesAll_eq (es : List Expr) :
    Expr.referencesAll es = es.flatMap Expr.references := by
  induction es with
  | nil => rfl
  | cons e es ih => simp [Expr.referencesAll, ih]

theorem Stmt.referencesAll_eq (stmts : List Stmt) :
    Stmt.referencesAll stmts = stmts.flatMap Stmt.references := by
  induction stmts with
  | nil => rfl
  | cons s rest ih => simp [Stmt.referencesAll, ih]

theorem FieldInit.referencesAll_eq (fields : List FieldInit) :
    FieldInit.referencesAll fields = fields.flatMap FieldInit.references := by
  induction fields with
  | nil => rfl
  | cons f rest ih => simp [FieldInit.referencesAll, ih]

/-! ## Items -/

def ItemKind.references : ItemKind → List NodeId
  | .struct _ => []
  | .fn decl => decl.body.references
  | .const decl => decl.value.references

/-- Whether every path in a body that resolved names an item, or something in its own item such as a
parameter or a binding. -/
def Program.WellScoped (p : Program) : Prop :=
  ∀ item ∈ p.items, ∀ id ∈ item.kind.references, id ∈ p.items.map Item.id ∨ id ∈ item.ids

instance (p : Program) : Decidable p.WellScoped := by
  unfold Program.WellScoped
  infer_instance

end TypeInference

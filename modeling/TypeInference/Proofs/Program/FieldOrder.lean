import TypeInference.Proofs.Program.Induct
import TypeInference.Proofs.Program.References

/-!
# The order of written fields

A struct literal may be written with its fields in another order. The values of
the fields are literals, paths and variables named like the field, so that no
value has parts that are checked on their own.
-/

namespace TypeInference

def Expr.isLeaf : Expr → Bool
  | .lit _ _ => true
  | .path _ _ => true
  | _ => false

namespace FieldInit

def isLeaf : FieldInit → Bool
  | .named _ _ value => value.isLeaf
  | .index _ _ value => value.isLeaf
  | .short _ _ _ => true

/-- Whether no path of either field resolved to a node of the other. -/
def Apart (f g : FieldInit) : Prop :=
  (∀ id ∈ f.references, id ∉ g.ids) ∧ ∀ id ∈ g.references, id ∉ f.ids

instance : DecidableRel Apart := fun _ _ => inferInstanceAs (Decidable (_ ∧ _))

theorem Apart.symm {f g : FieldInit} (h : f.Apart g) : g.Apart f := ⟨h.2, h.1⟩

end FieldInit

/-- For each literal, by its identity, an order for its fields. -/
structure FieldOrder where
  arrange : NodeId → List FieldInit → List FieldInit
  perm : ∀ id fields, (arrange id fields).Perm fields

def FieldOrder.written : FieldOrder := ⟨fun _ fields => fields, fun _ fields => .refl fields⟩

/-! ## Rearranged programs -/

mutual

/-- The expression with the fields of literals in another order, where all values are leaves. -/
def Expr.arranged (o : FieldOrder) : Expr → Expr
  | .lit m l => .lit m l
  | .path m p => .path m p
  | .block m b => .block m (b.arranged o)
  | .struct m p span fields base =>
      .struct m p span
        (if fields.all FieldInit.isLeaf then o.arrange m.id fields
          else FieldInit.arrangedAll o fields)
        (Expr.arrangedOption o base)
  | .field m base name => .field m (base.arranged o) name
  | .tupleIndex m base index => .tupleIndex m (base.arranged o) index
  | .call m callee args => .call m (callee.arranged o) (Expr.arrangedAll o args)
  | .unary m op e => .unary m op (e.arranged o)
  | .binary m op l r => .binary m op (l.arranged o) (r.arranged o)
  | .assign m l r => .assign m (l.arranged o) (r.arranged o)
  | .paren m e => .paren m (e.arranged o)

def Expr.arrangedAll (o : FieldOrder) : List Expr → List Expr
  | [] => []
  | e :: es => e.arranged o :: Expr.arrangedAll o es

def Expr.arrangedOption (o : FieldOrder) : Option Expr → Option Expr
  | none => none
  | some e => some (e.arranged o)

def Block.arranged (o : FieldOrder) : Block → Block
  | .mk m stmts tail => .mk m (Stmt.arrangedAll o stmts) (Expr.arrangedOption o tail)

def Stmt.arrangedAll (o : FieldOrder) : List Stmt → List Stmt
  | [] => []
  | s :: rest => s.arranged o :: Stmt.arrangedAll o rest

def Stmt.arranged (o : FieldOrder) : Stmt → Stmt
  | .bind m binding name ty init => .bind m binding name ty (Expr.arrangedOption o init)
  | .expr m e => .expr m (e.arranged o)
  | .semi m e => .semi m (e.arranged o)

def FieldInit.arrangedAll (o : FieldOrder) : List FieldInit → List FieldInit
  | [] => []
  | f :: rest => f.arranged o :: FieldInit.arrangedAll o rest

def FieldInit.arranged (o : FieldOrder) : FieldInit → FieldInit
  | .named m name value => .named m name (value.arranged o)
  | .index m i value => .index m i (value.arranged o)
  | .short m name res => .short m name res

end

section

variable (o : FieldOrder)

theorem Expr.arrangedAll_eq (es : List Expr) : Expr.arrangedAll o es = es.map (Expr.arranged o) := by
  induction es with
  | nil => rfl
  | cons e es ih => rw [Expr.arrangedAll, ih, List.map_cons]

theorem Expr.arrangedOption_eq (e : Option Expr) :
    Expr.arrangedOption o e = e.map (Expr.arranged o) := by
  cases e <;> rfl

theorem Stmt.arrangedAll_eq (stmts : List Stmt) :
    Stmt.arrangedAll o stmts = stmts.map (Stmt.arranged o) := by
  induction stmts with
  | nil => rfl
  | cons s rest ih => rw [Stmt.arrangedAll, ih, List.map_cons]

theorem FieldInit.arrangedAll_eq (fields : List FieldInit) :
    FieldInit.arrangedAll o fields = fields.map (FieldInit.arranged o) := by
  induction fields with
  | nil => rfl
  | cons f rest ih => rw [FieldInit.arrangedAll, ih, List.map_cons]

@[simp] theorem FieldInit.mark_arranged (f : FieldInit) : (f.arranged o).mark = f.mark := by
  cases f <;> rfl

@[simp] theorem FieldInit.fieldName_arranged (f : FieldInit) :
    (f.arranged o).fieldName = f.fieldName := by
  cases f <;> rfl

end

def ItemKind.arranged (o : FieldOrder) : ItemKind → ItemKind
  | .struct decl => .struct decl
  | .fn decl => .fn { decl with body := decl.body.arranged o }
  | .const decl => .const { decl with value := decl.value.arranged o }

def Item.arranged (o : FieldOrder) (item : Item) : Item := { item with kind := item.kind.arranged o }

def Program.arranged (o : FieldOrder) (p : Program) : Program := ⟨p.items.map (Item.arranged o)⟩

/-! ## The order in which fields are written -/

/-- Lists and options of nodes that stay as they are. -/
theorem map_eq_self {ν : Type} {f : ν → ν} {nodes : List ν} (h : ∀ n ∈ nodes, f n = n) :
    nodes.map f = nodes := (List.map_congr_left h).trans (List.map_id nodes)

theorem option_map_eq_self {ν : Type} {f : ν → ν} {node : Option ν}
    (h : ∀ n, node = some n → f n = n) : node.map f = node := by
  cases node with
  | none => rfl
  | some n => exact congrArg some (h n rfl)

/-- In the order in which fields are written, nodes are what they were. -/
theorem Expr.arranged_written :
    (∀ e : Expr, e.arranged .written = e) ∧ (∀ b : Block, b.arranged .written = b) ∧
    (∀ s : Stmt, s.arranged .written = s) ∧ ∀ f : FieldInit, f.arranged .written = f := by
  apply Expr.induct
  case struct =>
    intro m p span fields base ihfields ihbase
    rw [Expr.arranged, Expr.arrangedOption_eq, option_map_eq_self ihbase, FieldInit.arrangedAll_eq,
      map_eq_self ihfields]
    exact congrArg (Expr.struct m p span · base) (ite_self fields)
  case call =>
    intro m callee args ihcallee ihargs
    rw [Expr.arranged, ihcallee, Expr.arrangedAll_eq, map_eq_self ihargs]
  case mk =>
    intro m stmts tail ihstmts ihtail
    rw [Block.arranged, Stmt.arrangedAll_eq, map_eq_self ihstmts, Expr.arrangedOption_eq,
      option_map_eq_self ihtail]
  case bind =>
    intro m binding name ty init ih
    rw [Stmt.arranged, Expr.arrangedOption_eq, option_map_eq_self ih]
  all_goals simp_all [Expr.arranged, Stmt.arranged, FieldInit.arranged]

theorem Program.arranged_written (p : Program) : p.arranged .written = p := by
  obtain ⟨hexpr, hblock, -⟩ := Expr.arranged_written
  refine congrArg Program.mk (map_eq_self fun item _ => ?_)
  obtain ⟨mark, name, kind⟩ := item
  cases kind with
  | struct decl => rfl
  | fn decl => simp [Item.arranged, ItemKind.arranged, hblock]
  | const decl => simp [Item.arranged, ItemKind.arranged, hexpr]

/-! ## Literals of a program -/

mutual

/-- The struct literals in an expression: their identities and their written fields. -/
def Expr.literals : Expr → List (NodeId × List FieldInit)
  | .lit _ _ => []
  | .path _ _ => []
  | .block _ b => b.literals
  | .struct m _ _ fields base =>
      (m.id, fields) :: (Expr.literalsOption base ++ FieldInit.literalsAll fields)
  | .field _ base _ => base.literals
  | .tupleIndex _ base _ => base.literals
  | .call _ callee args => callee.literals ++ Expr.literalsAll args
  | .unary _ _ e => e.literals
  | .binary _ _ l r => l.literals ++ r.literals
  | .assign _ l r => l.literals ++ r.literals
  | .paren _ e => e.literals

def Expr.literalsAll : List Expr → List (NodeId × List FieldInit)
  | [] => []
  | e :: es => e.literals ++ Expr.literalsAll es

def Expr.literalsOption : Option Expr → List (NodeId × List FieldInit)
  | none => []
  | some e => e.literals

def Block.literals : Block → List (NodeId × List FieldInit)
  | .mk _ stmts tail => Stmt.literalsAll stmts ++ Expr.literalsOption tail

def Stmt.literalsAll : List Stmt → List (NodeId × List FieldInit)
  | [] => []
  | s :: rest => s.literals ++ Stmt.literalsAll rest

def Stmt.literals : Stmt → List (NodeId × List FieldInit)
  | .bind _ _ _ _ init => Expr.literalsOption init
  | .expr _ e => e.literals
  | .semi _ e => e.literals

def FieldInit.literalsAll : List FieldInit → List (NodeId × List FieldInit)
  | [] => []
  | f :: rest => f.literals ++ FieldInit.literalsAll rest

def FieldInit.literals : FieldInit → List (NodeId × List FieldInit)
  | .named _ _ value => value.literals
  | .index _ _ value => value.literals
  | .short _ _ _ => []

end

theorem Expr.literalsAll_eq (es : List Expr) : Expr.literalsAll es = es.flatMap Expr.literals := by
  induction es with
  | nil => rfl
  | cons e es ih => simp [Expr.literalsAll, ih]

theorem Stmt.literalsAll_eq (stmts : List Stmt) :
    Stmt.literalsAll stmts = stmts.flatMap Stmt.literals := by
  induction stmts with
  | nil => rfl
  | cons s rest ih => simp [Stmt.literalsAll, ih]

theorem FieldInit.literalsAll_eq (fields : List FieldInit) :
    FieldInit.literalsAll fields = fields.flatMap FieldInit.literals := by
  induction fields with
  | nil => rfl
  | cons f rest ih => simp [FieldInit.literalsAll, ih]

def ItemKind.literals : ItemKind → List (NodeId × List FieldInit)
  | .struct _ => []
  | .fn decl => decl.body.literals
  | .const decl => decl.value.literals

/-- The struct literals in the bodies of a program. -/
def Program.literals (p : Program) : List (NodeId × List FieldInit) :=
  p.items.flatMap fun item => item.kind.literals

end TypeInference

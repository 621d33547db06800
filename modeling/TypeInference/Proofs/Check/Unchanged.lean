import TypeInference.Check.Program
import TypeInference.Proofs.Check.Fallback

/-!
# Programs without struct literals are not rewritten

A check rewrites a program by putting the fields of struct literals into order.
Where there is no such literal, every walk ends at the node at which it
started, also one that aborts on the way.
-/

namespace TypeInference

open Walk Check

mutual

def Expr.hasStruct : Expr → Bool
  | .lit _ _ => false
  | .path _ _ => false
  | .block _ b => b.hasStruct
  | .struct _ _ _ _ _ => true
  | .field _ base _ => base.hasStruct
  | .tupleIndex _ base _ => base.hasStruct
  | .call _ callee args => callee.hasStruct || Expr.anyStruct args
  | .unary _ _ e => e.hasStruct
  | .binary _ _ l r => l.hasStruct || r.hasStruct
  | .assign _ l r => l.hasStruct || r.hasStruct
  | .paren _ e => e.hasStruct

def Expr.anyStruct : List Expr → Bool
  | [] => false
  | e :: es => e.hasStruct || Expr.anyStruct es

def Block.hasStruct : Block → Bool
  | .mk _ stmts none => Stmt.anyStruct stmts
  | .mk _ stmts (some tail) => Stmt.anyStruct stmts || tail.hasStruct

def Stmt.anyStruct : List Stmt → Bool
  | [] => false
  | s :: rest => s.hasStruct || Stmt.anyStruct rest

def Stmt.hasStruct : Stmt → Bool
  | .bind _ _ _ _ none => false
  | .bind _ _ _ _ (some init) => init.hasStruct
  | .expr _ e => e.hasStruct
  | .semi _ e => e.hasStruct

end

def Item.hasStruct (item : Item) : Bool :=
  match item.kind with
  | .struct _ => false
  | .fn decl => decl.body.hasStruct
  | .const decl => decl.value.hasStruct

namespace Walk

variable {ν μ α β : Type}

/-- Whether a walk ends at this node, also if it aborts. -/
def EndsAt (node : ν) (w : Walk ν α) : Prop := ∀ s, (w s).node = node

theorem endsAt_leaf (node : ν) (x : Check α) : EndsAt node (leaf node x) := fun _ => rfl

theorem endsAt_first {node : ν} {x : Check α} {next : α → Walk ν β}
    (hnext : ∀ a, EndsAt node (next a)) : EndsAt node (first node x next) :=
  gives_first (P := (· = node)) rfl hnext

theorem endsAt_child {inner : μ} {w : Walk μ α} {rebuild : μ → ν} {next : μ → α → Walk ν β}
    (hw : EndsAt inner w) (hnext : ∀ a, EndsAt (rebuild inner) (next inner a)) :
    EndsAt (rebuild inner) (child w rebuild next) := by
  refine gives_child (P := (· = rebuild inner)) (R := (· = inner)) hw
    (fun _ h => congrArg rebuild h) fun n a h => ?_
  subst h
  exact hnext a

theorem endsAt_checkExprs {es : List Expr} (h : ∀ e ∈ es, e.hasStruct = false → EndsAt e e.check)
    (hes : Expr.anyStruct es = false) : EndsAt es (Expr.checkAll es) := by
  induction es with
  | nil =>
      rw [Expr.checkAll]
      exact endsAt_leaf _ _
  | cons e es ih =>
      rw [Expr.anyStruct, Bool.or_eq_false_iff] at hes
      rw [List.forall_mem_cons] at h
      rw [Expr.checkAll]
      exact endsAt_child (h.1 hes.1) fun _ => endsAt_child (ih h.2 hes.2) fun _ => endsAt_leaf _ _

theorem endsAt_checkStmts {stmts : List Stmt} (hasTail : Bool)
    (h : ∀ s ∈ stmts, s.hasStruct = false → EndsAt s s.check)
    (hstmts : Stmt.anyStruct stmts = false) : EndsAt stmts (Stmt.checkAll hasTail stmts) := by
  induction stmts with
  | nil =>
      rw [Stmt.checkAll]
      exact endsAt_leaf _ _
  | cons stmt rest ih =>
      rw [Stmt.anyStruct, Bool.or_eq_false_iff] at hstmts
      rw [List.forall_mem_cons] at h
      rw [Stmt.checkAll]
      refine endsAt_child (h.1 hstmts.1) fun t => ?_
      split
      · exact endsAt_leaf _ _
      · exact endsAt_first fun _ => endsAt_child (ih h.2 hstmts.2) fun _ => endsAt_leaf _ _

end Walk

section

variable {m : Mark}

theorem Expr.endsAt_block {b : Block} (ih : b.hasStruct = false → EndsAt b b.check)
    (h : (block m b).hasStruct = false) : EndsAt (block m b) (block m b).check := by
  rw [Expr.check]
  exact endsAt_child (ih h) fun _ => endsAt_leaf _ _

theorem Expr.endsAt_field {base : Expr} {name : String}
    (ih : base.hasStruct = false → EndsAt base base.check)
    (h : (field m base name).hasStruct = false) :
    EndsAt (field m base name) (field m base name).check := by
  rw [Expr.check]
  exact endsAt_child (ih h) fun _ => endsAt_leaf _ _

theorem Expr.endsAt_tupleIndex {base : Expr} {index : Nat}
    (ih : base.hasStruct = false → EndsAt base base.check)
    (h : (tupleIndex m base index).hasStruct = false) :
    EndsAt (tupleIndex m base index) (tupleIndex m base index).check := by
  rw [Expr.check]
  exact endsAt_child (ih h) fun _ => endsAt_leaf _ _

theorem Expr.endsAt_call {callee : Expr} {args : List Expr}
    (ihcallee : callee.hasStruct = false → EndsAt callee callee.check)
    (ihargs : ∀ e ∈ args, e.hasStruct = false → EndsAt e e.check)
    (h : (call m callee args).hasStruct = false) :
    EndsAt (call m callee args) (call m callee args).check := by
  rw [Expr.hasStruct, Bool.or_eq_false_iff] at h
  rw [Expr.check]
  exact endsAt_child (ihcallee h.1) fun _ => endsAt_child (endsAt_checkExprs ihargs h.2) fun _ =>
    endsAt_leaf _ _

theorem Expr.endsAt_unary {op : UnOp} {e : Expr} (ih : e.hasStruct = false → EndsAt e e.check)
    (h : (unary m op e).hasStruct = false) : EndsAt (unary m op e) (unary m op e).check := by
  rw [Expr.check]
  exact endsAt_child (ih h) fun _ => endsAt_leaf _ _

theorem Expr.endsAt_binary {op : BinOp} {l r : Expr} (ihl : l.hasStruct = false → EndsAt l l.check)
    (ihr : r.hasStruct = false → EndsAt r r.check) (h : (binary m op l r).hasStruct = false) :
    EndsAt (binary m op l r) (binary m op l r).check := by
  rw [Expr.hasStruct, Bool.or_eq_false_iff] at h
  rw [Expr.check]
  exact endsAt_child (ihl h.1) fun _ => endsAt_child (ihr h.2) fun _ => endsAt_leaf _ _

theorem Expr.endsAt_assign {l r : Expr} (ihl : l.hasStruct = false → EndsAt l l.check)
    (ihr : r.hasStruct = false → EndsAt r r.check) (h : (assign m l r).hasStruct = false) :
    EndsAt (assign m l r) (assign m l r).check := by
  rw [Expr.hasStruct, Bool.or_eq_false_iff] at h
  rw [Expr.check]
  exact endsAt_child (ihl h.1) fun _ => endsAt_child (ihr h.2) fun _ => endsAt_leaf _ _

theorem Expr.endsAt_paren {e : Expr} (ih : e.hasStruct = false → EndsAt e e.check)
    (h : (paren m e).hasStruct = false) : EndsAt (paren m e) (paren m e).check := by
  rw [Expr.check]
  exact endsAt_child (ih h) fun _ => endsAt_leaf _ _

theorem Block.endsAt_mk {stmts : List Stmt} {tail : Option Expr}
    (ihstmts : ∀ n ∈ stmts, n.hasStruct = false → EndsAt n n.check)
    (ihtail : ∀ e, tail = some e → e.hasStruct = false → EndsAt e e.check)
    (h : (mk m stmts tail).hasStruct = false) : EndsAt (mk m stmts tail) (mk m stmts tail).check := by
  cases tail with
  | none =>
      rw [Block.check]
      exact endsAt_child (endsAt_checkStmts false ihstmts h) fun _ => endsAt_leaf _ _
  | some e =>
      rw [Block.hasStruct, Bool.or_eq_false_iff] at h
      rw [Block.check]
      exact endsAt_child (endsAt_checkStmts true ihstmts h.1) fun _ =>
        endsAt_child (ihtail e rfl h.2) fun _ => endsAt_leaf _ _

theorem Stmt.endsAt_bind {binding : NodeId} {name : String} {ty : Option TypeRef}
    {init : Option Expr} (ih : ∀ e, init = some e → e.hasStruct = false → EndsAt e e.check)
    (h : (bind m binding name ty init).hasStruct = false) :
    EndsAt (bind m binding name ty init) (bind m binding name ty init).check := by
  cases init with
  | none =>
      rw [Stmt.check]
      exact endsAt_leaf _ _
  | some e =>
      rw [Stmt.check]
      exact endsAt_first fun _ => endsAt_child (ih e rfl h) fun _ => endsAt_leaf _ _

theorem Stmt.endsAt_expr {e : Expr} (ih : e.hasStruct = false → EndsAt e e.check)
    (h : (expr m e).hasStruct = false) : EndsAt (expr m e) (expr m e).check := by
  rw [Stmt.check]
  exact endsAt_child (ih h) fun _ => endsAt_leaf _ _

theorem Stmt.endsAt_semi {e : Expr} (ih : e.hasStruct = false → EndsAt e e.check)
    (h : (semi m e).hasStruct = false) : EndsAt (semi m e) (semi m e).check := by
  rw [Stmt.check]
  exact endsAt_child (ih h) fun _ => endsAt_leaf _ _

end

/-- The check of a node with its children, by induction on programs. -/
theorem Walk.endsAt_check :
    (∀ e : Expr, e.hasStruct = false → EndsAt e e.check) ∧
      (∀ b : Block, b.hasStruct = false → EndsAt b b.check) ∧
      (∀ s : Stmt, s.hasStruct = false → EndsAt s s.check) ∧ ∀ _ : FieldInit, True := by
  have hleaf {e : Expr} {x : Check Ty} (hcheck : e.check = leaf e x) : EndsAt e e.check := by
    rw [hcheck]
    exact endsAt_leaf _ _
  apply Expr.induct
  case lit => exact fun _ _ _ => hleaf (by rw [Expr.check])
  case path => exact fun _ _ _ => hleaf (by rw [Expr.check])
  case block => exact fun _ _ => Expr.endsAt_block
  case struct => exact fun _ _ _ _ _ _ _ h => by simp [Expr.hasStruct] at h
  case field => exact fun _ _ _ => Expr.endsAt_field
  case tupleIndex => exact fun _ _ _ => Expr.endsAt_tupleIndex
  case call => exact fun _ _ _ => Expr.endsAt_call
  case unary => exact fun _ _ _ => Expr.endsAt_unary
  case binary => exact fun _ _ _ _ => Expr.endsAt_binary
  case assign => exact fun _ _ _ => Expr.endsAt_assign
  case paren => exact fun _ _ => Expr.endsAt_paren
  case mk => exact fun _ _ _ => Block.endsAt_mk
  case bind => exact fun _ _ _ _ _ => Stmt.endsAt_bind
  case expr => exact fun _ _ => Stmt.endsAt_expr
  case semi => exact fun _ _ => Stmt.endsAt_semi
  case named => exact fun _ _ _ _ => trivial
  case index => exact fun _ _ _ _ => trivial
  case short => exact fun _ _ _ => trivial

theorem Item.endsAt_check (item : Item) (h : item.hasStruct = false) : EndsAt item item.check := by
  obtain ⟨mark, name, kind⟩ := item
  cases kind with
  | struct decl => exact endsAt_leaf _ _
  | fn decl =>
      exact endsAt_first fun _ => endsAt_child (Walk.endsAt_check.2.1 decl.body h) fun _ => endsAt_leaf _ _
  | const decl =>
      exact endsAt_first fun _ => endsAt_child (Walk.endsAt_check.1 decl.value h) fun _ => endsAt_leaf _ _

namespace Program

variable {p : Program}

theorem checkAll_items {items : List Item} (h : ∀ item ∈ items, item.hasStruct = false)
    (s : Session) : (checkAll items s).1 = items := by
  induction items generalizing s with
  | nil => rfl
  | cons item rest ih =>
      rw [List.forall_mem_cons] at h
      have hitem := item.endsAt_check h.1 s
      rw [checkAll]
      split
      · rename_i heq
        rw [heq] at hitem
        exact congrArg (· :: rest) hitem
      · rename_i heq
        rw [heq] at hitem
        exact congrArg (· :: rest) hitem
      · rename_i heq
        rw [heq] at hitem
        exact congrArg₂ List.cons hitem (ih h.2 _)

/-- A pass leaves a program without struct literals as it is. -/
theorem program_run (h : ∀ item ∈ p.items, item.hasStruct = false) (pass : Pass) (s : Session) :
    (p.run pass s).program = p := by
  cases pass with
  | signatures => rfl
  | bodies => exact congrArg Program.mk (checkAll_items h s)
  | fallback => exact (session_fallbackPass p s).1

theorem program_runAll (h : ∀ item ∈ p.items, item.hasStruct = false) (passes : List Pass)
    (s : Session) : (runAll passes p s).program = p := by
  induction passes generalizing s with
  | nil => rfl
  | cons pass rest ih =>
      have hpass := program_run h pass s
      rw [runAll]
      rcases hrun : p.run pass s with ⟨p', d | u, s'⟩
      · rwa [hrun] at hpass
      · obtain rfl : p' = p := by rwa [hrun] at hpass
        simp only
        split
        · rfl
        · exact ih s'

/-- A check leaves a program without struct literals as it is. -/
theorem program_check (h : ∀ item ∈ p.items, item.hasStruct = false) (locations : Locations)
    (sink : Sink) : (p.check locations sink).program = p :=
  program_runAll h _ _

end Program

end TypeInference

import Mathlib.Data.List.Perm.Basic
import TypeInference.Program.Item

/-!
# Identities of nodes

The identities in a program, each listed once for every node that carries it.
-/

namespace TypeInference

mutual

def TypeRef.ids : TypeRef → List NodeId
  | .unit m => [m.id]
  | .infer m => [m.id]
  | .path m _ _ args => m.id :: TypeRef.idsAll args

def TypeRef.idsAll : List TypeRef → List NodeId
  | [] => []
  | t :: ts => t.ids ++ TypeRef.idsAll ts

end

def TypeRef.idsOption : Option TypeRef → List NodeId
  | none => []
  | some t => t.ids

def Path.ids (p : Path) : List NodeId := p.segments.flatMap fun s => TypeRef.idsAll s.args

mutual

def Expr.ids : Expr → List NodeId
  | .lit m _ => [m.id]
  | .path m p => m.id :: p.ids
  | .block m b => m.id :: b.ids
  | .struct m p _ fields base => m.id :: (p.ids ++ (Expr.idsOption base ++ FieldInit.idsAll fields))
  | .field m base _ => m.id :: base.ids
  | .tupleIndex m base _ => m.id :: base.ids
  | .call m callee args => m.id :: (callee.ids ++ Expr.idsAll args)
  | .unary m _ e => m.id :: e.ids
  | .binary m _ l r => m.id :: (l.ids ++ r.ids)
  | .assign m l r => m.id :: (l.ids ++ r.ids)
  | .paren m e => m.id :: e.ids

def Expr.idsAll : List Expr → List NodeId
  | [] => []
  | e :: es => e.ids ++ Expr.idsAll es

def Expr.idsOption : Option Expr → List NodeId
  | none => []
  | some e => e.ids

def Block.ids : Block → List NodeId
  | .mk m stmts tail => m.id :: (Stmt.idsAll stmts ++ Expr.idsOption tail)

def Stmt.idsAll : List Stmt → List NodeId
  | [] => []
  | s :: rest => s.ids ++ Stmt.idsAll rest

def Stmt.ids : Stmt → List NodeId
  | .bind m binding _ ty init => m.id :: binding :: (TypeRef.idsOption ty ++ Expr.idsOption init)
  | .expr m e => m.id :: e.ids
  | .semi m e => m.id :: e.ids

def FieldInit.idsAll : List FieldInit → List NodeId
  | [] => []
  | f :: rest => f.ids ++ FieldInit.idsAll rest

def FieldInit.ids : FieldInit → List NodeId
  | .named m _ value => m.id :: value.ids
  | .index m _ value => m.id :: value.ids
  | .short m _ _ => [m.id]

end

theorem TypeRef.idsAll_eq (ts : List TypeRef) : TypeRef.idsAll ts = ts.flatMap TypeRef.ids := by
  induction ts with
  | nil => rfl
  | cons t ts ih => simp [TypeRef.idsAll, ih]

theorem TypeRef.ids_subset_idsAll {t : TypeRef} {ts : List TypeRef} (h : t ∈ ts) :
    t.ids ⊆ idsAll ts := by
  intro id hid
  rw [idsAll_eq]
  exact List.mem_flatMap.2 ⟨t, h, hid⟩

theorem Expr.idsAll_eq (es : List Expr) : Expr.idsAll es = es.flatMap Expr.ids := by
  induction es with
  | nil => rfl
  | cons e es ih => simp [Expr.idsAll, ih]

theorem Stmt.idsAll_eq (stmts : List Stmt) : Stmt.idsAll stmts = stmts.flatMap Stmt.ids := by
  induction stmts with
  | nil => rfl
  | cons s rest ih => simp [Stmt.idsAll, ih]

theorem FieldInit.idsAll_eq (fields : List FieldInit) :
    FieldInit.idsAll fields = fields.flatMap FieldInit.ids := by
  induction fields with
  | nil => rfl
  | cons f rest ih => simp [FieldInit.idsAll, ih]

theorem FieldInit.mark_mem_ids (f : FieldInit) : f.mark.id ∈ f.ids := by
  cases f <;> simp [FieldInit.mark, FieldInit.ids]

/-! ## Nodes that are given types -/

mutual

/-- The identities in an expression without those in written types. -/
def Expr.nodeIds : Expr → List NodeId
  | .lit m _ => [m.id]
  | .path m _ => [m.id]
  | .block m b => m.id :: b.nodeIds
  | .struct m _ _ fields base => m.id :: (Expr.nodeIdsOption base ++ FieldInit.nodeIdsAll fields)
  | .field m base _ => m.id :: base.nodeIds
  | .tupleIndex m base _ => m.id :: base.nodeIds
  | .call m callee args => m.id :: (callee.nodeIds ++ Expr.nodeIdsAll args)
  | .unary m _ e => m.id :: e.nodeIds
  | .binary m _ l r => m.id :: (l.nodeIds ++ r.nodeIds)
  | .assign m l r => m.id :: (l.nodeIds ++ r.nodeIds)
  | .paren m e => m.id :: e.nodeIds

def Expr.nodeIdsAll : List Expr → List NodeId
  | [] => []
  | e :: es => e.nodeIds ++ Expr.nodeIdsAll es

def Expr.nodeIdsOption : Option Expr → List NodeId
  | none => []
  | some e => e.nodeIds

def Block.nodeIds : Block → List NodeId
  | .mk m stmts tail => m.id :: (Stmt.nodeIdsAll stmts ++ Expr.nodeIdsOption tail)

def Stmt.nodeIdsAll : List Stmt → List NodeId
  | [] => []
  | s :: rest => s.nodeIds ++ Stmt.nodeIdsAll rest

def Stmt.nodeIds : Stmt → List NodeId
  | .bind m binding _ _ init => m.id :: binding :: Expr.nodeIdsOption init
  | .expr m e => m.id :: e.nodeIds
  | .semi m e => m.id :: e.nodeIds

def FieldInit.nodeIdsAll : List FieldInit → List NodeId
  | [] => []
  | f :: rest => f.nodeIds ++ FieldInit.nodeIdsAll rest

/-- A written or a synthesized field of a literal, and its value. -/
def FieldInit.nodeIds : FieldInit → List NodeId
  | .named m _ value => m.id :: value.nodeIds
  | .index m _ value => m.id :: value.nodeIds
  | .short m _ _ => [m.id]

end

def FieldInit.valueIds : FieldInit → List NodeId
  | .named _ _ value => value.nodeIds
  | .index _ _ value => value.nodeIds
  | .short _ _ _ => []

theorem FieldInit.nodeIds_eq (f : FieldInit) : f.nodeIds = f.mark.id :: f.valueIds := by
  cases f <;> rfl

theorem FieldInit.nodeIdsAll_eq (fields : List FieldInit) :
    FieldInit.nodeIdsAll fields = fields.flatMap FieldInit.nodeIds := by
  induction fields with
  | nil => rfl
  | cons f rest ih => simp [FieldInit.nodeIdsAll, ih]

/-! ## Items -/

def TypedName.ids (x : TypedName) : List NodeId := x.mark.id :: x.ty.ids

def ItemKind.signatureIds : ItemKind → List NodeId
  | .struct decl => decl.generics.map (·.mark.id) ++ decl.fields.flatMap TypedName.ids
  | .fn decl => decl.params.flatMap TypedName.ids ++ TypeRef.idsOption decl.ret
  | .const decl => decl.ty.ids

def ItemKind.bodyIds : ItemKind → List NodeId
  | .struct _ => []
  | .fn decl => decl.body.ids
  | .const decl => decl.value.ids

def Item.signatureIds (item : Item) : List NodeId := item.id :: item.kind.signatureIds

def Item.bodyIds (item : Item) : List NodeId := item.kind.bodyIds

def Item.ids (item : Item) : List NodeId := item.signatureIds ++ item.bodyIds

/-- The generics and fields of a struct, or the parameters of a function. -/
def ItemKind.declaredIds : ItemKind → List NodeId
  | .struct decl => decl.generics.map (·.mark.id) ++ decl.fields.map (·.mark.id)
  | .fn decl => decl.params.map (·.mark.id)
  | .const _ => []

/-- The nodes of the body of a function or of the initializer of a constant. -/
def ItemKind.bodyNodeIds : ItemKind → List NodeId
  | .struct _ => []
  | .fn decl => decl.body.nodeIds
  | .const decl => decl.value.nodeIds

/-- An item with everything in it that is given a type, apart from written types. -/
def Item.nodeIds (item : Item) : List NodeId :=
  item.id :: (item.kind.declaredIds ++ item.kind.bodyNodeIds)

def Program.nodeIds (p : Program) : List NodeId := p.items.flatMap Item.nodeIds

def Program.ids (p : Program) : List NodeId := p.items.flatMap Item.ids

def Program.signatureIds (p : Program) : List NodeId := p.items.flatMap Item.signatureIds

def Program.bodyIds (p : Program) : List NodeId := p.items.flatMap Item.bodyIds

/-- Every identity in a program is in a signature or in a body. -/
theorem Program.ids_perm (p : Program) : p.ids.Perm (p.signatureIds ++ p.bodyIds) :=
  (List.flatMap_append_perm p.items Item.signatureIds Item.bodyIds).symm

end TypeInference

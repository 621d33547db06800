import TypeInference.Proofs.Program.Ids
import TypeInference.Proofs.Program.Induct

/-!
# Nodes of a program

Everything in a program that has an identity, at any depth, in the order of
`Program.ids`. A node that occurs twice is listed twice.
-/

namespace TypeInference

inductive Node where
  | expr (e : Expr)
  | block (b : Block)
  | stmt (s : Stmt)
  /-- A written or a synthesized field of a literal. -/
  | field (f : FieldInit)
  | type (t : TypeRef)
  /-- An item, a generic parameter, a declared field, a parameter or a binding. -/
  | decl (id : NodeId) (name : String)

def Node.id : Node → NodeId
  | .expr e => e.id
  | .block b => b.mark.id
  | .stmt s => s.mark.id
  | .field f => f.mark.id
  | .type t => t.mark.id
  | .decl id _ => id

mutual

def TypeRef.nodes : TypeRef → List Node
  | .unit m => [.type (.unit m)]
  | .infer m => [.type (.infer m)]
  | .path m name res args => .type (.path m name res args) :: TypeRef.nodesAll args

def TypeRef.nodesAll : List TypeRef → List Node
  | [] => []
  | t :: ts => t.nodes ++ TypeRef.nodesAll ts

end

def TypeRef.nodesOption : Option TypeRef → List Node
  | none => []
  | some t => t.nodes

def Path.nodes (p : Path) : List Node := p.segments.flatMap fun s => TypeRef.nodesAll s.args

mutual

def Expr.nodes : Expr → List Node
  | .lit m l => [.expr (.lit m l)]
  | .path m p => .expr (.path m p) :: p.nodes
  | .block m b => .expr (.block m b) :: b.nodes
  | .struct m p span fields base =>
      .expr (.struct m p span fields base) ::
        (p.nodes ++ (Expr.nodesOption base ++ FieldInit.nodesAll fields))
  | .field m base name => .expr (.field m base name) :: base.nodes
  | .tupleIndex m base index => .expr (.tupleIndex m base index) :: base.nodes
  | .call m callee args => .expr (.call m callee args) :: (callee.nodes ++ Expr.nodesAll args)
  | .unary m op e => .expr (.unary m op e) :: e.nodes
  | .binary m op l r => .expr (.binary m op l r) :: (l.nodes ++ r.nodes)
  | .assign m l r => .expr (.assign m l r) :: (l.nodes ++ r.nodes)
  | .paren m e => .expr (.paren m e) :: e.nodes

def Expr.nodesAll : List Expr → List Node
  | [] => []
  | e :: es => e.nodes ++ Expr.nodesAll es

def Expr.nodesOption : Option Expr → List Node
  | none => []
  | some e => e.nodes

def Block.nodes : Block → List Node
  | .mk m stmts tail =>
      .block (.mk m stmts tail) :: (Stmt.nodesAll stmts ++ Expr.nodesOption tail)

def Stmt.nodesAll : List Stmt → List Node
  | [] => []
  | s :: rest => s.nodes ++ Stmt.nodesAll rest

def Stmt.nodes : Stmt → List Node
  | .bind m binding name ty init =>
      .stmt (.bind m binding name ty init) ::
        .decl binding name :: (TypeRef.nodesOption ty ++ Expr.nodesOption init)
  | .expr m e => .stmt (.expr m e) :: e.nodes
  | .semi m e => .stmt (.semi m e) :: e.nodes

def FieldInit.nodesAll : List FieldInit → List Node
  | [] => []
  | f :: rest => f.nodes ++ FieldInit.nodesAll rest

def FieldInit.nodes : FieldInit → List Node
  | .named m name value => .field (.named m name value) :: value.nodes
  | .index m i value => .field (.index m i value) :: value.nodes
  | .short m name res => [.field (.short m name res)]

end

theorem FieldInit.nodesAll_eq (fields : List FieldInit) :
    FieldInit.nodesAll fields = fields.flatMap FieldInit.nodes := by
  induction fields with
  | nil => rfl
  | cons f rest ih => simp [FieldInit.nodesAll, ih]

/-! ## Items -/

def GenericParam.node (x : GenericParam) : Node := .decl x.mark.id x.name

def TypedName.nodes (x : TypedName) : List Node := .decl x.mark.id x.name :: x.ty.nodes

namespace ItemKind

def signatureNodes : ItemKind → List Node
  | .struct decl => decl.generics.map GenericParam.node ++ decl.fields.flatMap TypedName.nodes
  | .fn decl => decl.params.flatMap TypedName.nodes ++ TypeRef.nodesOption decl.ret
  | .const decl => decl.ty.nodes

def bodyNodes : ItemKind → List Node
  | .struct _ => []
  | .fn decl => decl.body.nodes
  | .const decl => decl.value.nodes

end ItemKind

def Item.signatureNodes (item : Item) : List Node :=
  .decl item.id item.name :: item.kind.signatureNodes

def Item.nodes (item : Item) : List Node := item.signatureNodes ++ item.kind.bodyNodes

def Program.nodes (p : Program) : List Node := p.items.flatMap Item.nodes

/-! ## Identities -/

theorem TypeRef.ids_nodes (t : TypeRef) : t.nodes.map Node.id = t.ids := by
  refine @TypeRef.rec (fun t => t.nodes.map Node.id = t.ids)
    (fun ts => (nodesAll ts).map Node.id = idsAll ts) ?unit ?infer ?path ?nil ?cons t
  case unit => exact fun m => rfl
  case infer => exact fun m => rfl
  case path =>
    intro m name res args ih
    rw [nodes, ids, List.map_cons, ih]
    rfl
  case nil => rfl
  case cons =>
    intro t ts ht hts
    rw [nodesAll, idsAll, List.map_append, ht, hts]

theorem TypeRef.ids_nodesAll (ts : List TypeRef) : (nodesAll ts).map Node.id = idsAll ts := by
  induction ts with
  | nil => rfl
  | cons t ts ih => rw [nodesAll, idsAll, List.map_append, t.ids_nodes, ih]

theorem TypeRef.ids_nodesOption (t : Option TypeRef) : (nodesOption t).map Node.id = idsOption t := by
  cases t with
  | none => rfl
  | some t => exact t.ids_nodes

theorem Path.ids_nodes (p : Path) : p.nodes.map Node.id = p.ids := by
  rw [nodes, ids, List.map_flatMap]
  simp only [TypeRef.ids_nodesAll]

section

variable {es : List Expr} {e : Option Expr} {stmts : List Stmt} {fields : List FieldInit}

theorem Expr.ids_nodesAll_of (h : ∀ e ∈ es, e.nodes.map Node.id = e.ids) :
    (nodesAll es).map Node.id = idsAll es := by
  induction es with
  | nil => rfl
  | cons e es ih =>
      rw [List.forall_mem_cons] at h
      rw [nodesAll, idsAll, List.map_append, h.1, ih h.2]

theorem Expr.ids_nodesOption_of (h : ∀ b, e = some b → b.nodes.map Node.id = b.ids) :
    (nodesOption e).map Node.id = idsOption e := by
  cases e with
  | none => rfl
  | some b => exact h b rfl

theorem Stmt.ids_nodesAll_of (h : ∀ s ∈ stmts, s.nodes.map Node.id = s.ids) :
    (nodesAll stmts).map Node.id = idsAll stmts := by
  induction stmts with
  | nil => rfl
  | cons s rest ih =>
      rw [List.forall_mem_cons] at h
      rw [nodesAll, idsAll, List.map_append, h.1, ih h.2]

theorem FieldInit.ids_nodesAll_of (h : ∀ f ∈ fields, f.nodes.map Node.id = f.ids) :
    (nodesAll fields).map Node.id = idsAll fields := by
  induction fields with
  | nil => rfl
  | cons f rest ih =>
      rw [List.forall_mem_cons] at h
      rw [nodesAll, idsAll, List.map_append, h.1, ih h.2]

end

/-- The nodes are listed in the order of their identities. -/
theorem Expr.ids_nodes_all :
    (∀ e : Expr, e.nodes.map Node.id = e.ids) ∧ (∀ b : Block, b.nodes.map Node.id = b.ids) ∧
      (∀ s : Stmt, s.nodes.map Node.id = s.ids) ∧
      ∀ f : FieldInit, f.nodes.map Node.id = f.ids := by
  apply Expr.induct
  case lit => exact fun m l => rfl
  case path => exact fun m p => congrArg (m.id :: ·) p.ids_nodes
  case block => exact fun m b ih => congrArg (m.id :: ·) ih
  case struct =>
    intro m p span fields base ihfields ihbase
    rw [nodes, ids, List.map_cons, List.map_append, List.map_append, p.ids_nodes,
      ids_nodesOption_of ihbase, FieldInit.ids_nodesAll_of ihfields]
    rfl
  case field => exact fun m base name ih => congrArg (m.id :: ·) ih
  case tupleIndex => exact fun m base index ih => congrArg (m.id :: ·) ih
  case call =>
    intro m callee args ihcallee ihargs
    rw [nodes, ids, List.map_cons, List.map_append, ihcallee, ids_nodesAll_of ihargs]
    rfl
  case unary => exact fun m op e ih => congrArg (m.id :: ·) ih
  case binary =>
    intro m op l r ihl ihr
    rw [nodes, ids, List.map_cons, List.map_append, ihl, ihr]
    rfl
  case assign =>
    intro m l r ihl ihr
    rw [nodes, ids, List.map_cons, List.map_append, ihl, ihr]
    rfl
  case paren => exact fun m e ih => congrArg (m.id :: ·) ih
  case mk =>
    intro m stmts tail ihstmts ihtail
    rw [Block.nodes, Block.ids, List.map_cons, List.map_append, Stmt.ids_nodesAll_of ihstmts,
      ids_nodesOption_of ihtail]
    rfl
  case bind =>
    intro m binding name ty init ih
    rw [Stmt.nodes, Stmt.ids, List.map_cons, List.map_cons, List.map_append,
      TypeRef.ids_nodesOption, ids_nodesOption_of ih]
    rfl
  case expr => exact fun m e ih => congrArg (m.id :: ·) ih
  case semi => exact fun m e ih => congrArg (m.id :: ·) ih
  case named => exact fun m name value ih => congrArg (m.id :: ·) ih
  case index => exact fun m i value ih => congrArg (m.id :: ·) ih
  case short => exact fun m name res => rfl

theorem Expr.ids_nodes (e : Expr) : e.nodes.map Node.id = e.ids := ids_nodes_all.1 e

theorem Block.ids_nodes (b : Block) : b.nodes.map Node.id = b.ids := Expr.ids_nodes_all.2.1 b

theorem Stmt.ids_nodes (s : Stmt) : s.nodes.map Node.id = s.ids := Expr.ids_nodes_all.2.2.1 s

theorem FieldInit.ids_nodes (f : FieldInit) : f.nodes.map Node.id = f.ids :=
  Expr.ids_nodes_all.2.2.2 f

theorem Expr.ids_nodesAll (es : List Expr) : (nodesAll es).map Node.id = idsAll es :=
  ids_nodesAll_of fun e _ => e.ids_nodes

theorem Stmt.ids_nodesAll (stmts : List Stmt) : (nodesAll stmts).map Node.id = idsAll stmts :=
  ids_nodesAll_of fun s _ => s.ids_nodes

theorem TypedName.ids_nodes (x : TypedName) : x.nodes.map Node.id = x.ids :=
  congrArg (x.mark.id :: ·) x.ty.ids_nodes

theorem Item.ids_signatureNodes (item : Item) :
    item.signatureNodes.map Node.id = item.signatureIds := by
  refine congrArg (item.id :: ·) ?_
  cases item.kind with
  | struct decl =>
      rw [ItemKind.signatureNodes, ItemKind.signatureIds, List.map_append, List.map_map,
        List.map_flatMap]
      simp only [TypedName.ids_nodes]
      rfl
  | fn decl =>
      rw [ItemKind.signatureNodes, ItemKind.signatureIds, List.map_append, List.map_flatMap,
        TypeRef.ids_nodesOption]
      simp only [TypedName.ids_nodes]
  | const decl => exact decl.ty.ids_nodes

theorem Item.ids_nodes (item : Item) : item.nodes.map Node.id = item.ids := by
  have hbody : item.kind.bodyNodes.map Node.id = item.bodyIds := by
    unfold bodyIds
    cases item.kind with
    | struct decl => rfl
    | fn decl => exact decl.body.ids_nodes
    | const decl => exact decl.value.ids_nodes
  rw [nodes, ids, List.map_append, item.ids_signatureNodes, hbody]

theorem Program.ids_nodes (p : Program) : p.nodes.map Node.id = p.ids := by
  rw [nodes, ids, List.map_flatMap]
  simp only [Item.ids_nodes]

end TypeInference

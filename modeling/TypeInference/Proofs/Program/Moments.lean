import Mathlib.Data.List.Nodup
import Mathlib.Data.List.Perm.Subperm
import TypeInference.Proofs.Program.Ids
import TypeInference.Proofs.Program.Induct

/-!
# Moments of a check

The order in which nodes are evaluated. A node is given its type after
everything in it, so what encloses a place where a check may give up comes after
that place, like everything that is evaluated later.
-/

namespace TypeInference

/-- Something that may happen while a program is checked. -/
inductive Moment where
  /-- The check gives up with an error at the span. -/
  | stop (span : Span)
  /-- The node is given its type. -/
  | record (id : NodeId)
  deriving DecidableEq, Repr

def Moment.recordedIds (ms : List Moment) : List NodeId :=
  ms.filterMap fun
    | .stop _ => none
    | .record id => some id

/-! ## The order of evaluation -/

mutual

/-- A written type is looked up, then its arguments are read, then they are counted. -/
def TypeRef.moments : TypeRef → List Moment
  | .unit m => [.record m.id]
  | .infer m => [.record m.id]
  | .path m _ _ args =>
      .stop m.span :: (TypeRef.momentsAll args ++ [.stop m.span]) ++ [.record m.id]

def TypeRef.momentsAll : List TypeRef → List Moment
  | [] => []
  | t :: ts => t.moments ++ TypeRef.momentsAll ts

end

def TypeRef.momentsOption : Option TypeRef → List Moment
  | none => []
  | some t => t.moments

/-- A path at a span is looked up, then its arguments are read, then they are counted. -/
def Path.moments (span : Span) (p : Path) : List Moment :=
  .stop span :: (TypeRef.momentsAll p.args ++ [.stop span])

mutual

def Expr.moments : Expr → List Moment
  | .lit m _ => [.record m.id]
  | .path m p => p.moments m.span ++ [.record m.id]
  | .block m b => b.moments ++ [.record m.id]
  | .struct m p pathSpan fields base =>
      p.moments pathSpan ++ (Expr.momentsBase base ++ FieldInit.momentsAll fields) ++
        [.record m.id]
  | .field m base _ => base.moments ++ [.record m.id]
  | .tupleIndex m base _ => base.moments ++ [.record m.id]
  | .call m callee args => callee.moments ++ Expr.momentsAll args ++ [.record m.id]
  | .unary m _ e => e.moments ++ [.record m.id]
  | .binary m _ l r => l.moments ++ r.moments ++ [.record m.id]
  | .assign m l r => l.moments ++ r.moments ++ [.record m.id]
  | .paren m e => e.moments ++ [.record m.id]

def Expr.momentsAll : List Expr → List Moment
  | [] => []
  | e :: es => e.moments ++ Expr.momentsAll es

/-- The base of a literal is checked before it is compared with the struct. -/
def Expr.momentsBase : Option Expr → List Moment
  | none => []
  | some base => base.moments ++ [.stop base.span]

def Expr.momentsOption : Option Expr → List Moment
  | none => []
  | some e => e.moments

def Block.moments : Block → List Moment
  | .mk m stmts tail => Stmt.momentsAll stmts ++ Expr.momentsOption tail ++ [.record m.id]

def Stmt.momentsAll : List Stmt → List Moment
  | [] => []
  | s :: rest => s.moments ++ Stmt.momentsAll rest

def Stmt.moments : Stmt → List Moment
  | .bind m binding _ ty init =>
      TypeRef.momentsOption ty ++ Expr.momentsOption init ++ [.record binding] ++ [.record m.id]
  | .expr m e => e.moments ++ [.record m.id]
  | .semi m e => e.moments ++ [.record m.id]

def FieldInit.momentsAll : List FieldInit → List Moment
  | [] => []
  | f :: rest => f.moments ++ FieldInit.momentsAll rest

def FieldInit.moments : FieldInit → List Moment
  | .named m _ value => value.moments ++ [.record m.id]
  | .index m _ value => value.moments ++ [.record m.id]
  | .short m name res => (Path.ident name res).moments m.span ++ [.record m.id]

end

/-! ## Every node has one moment -/

namespace Moment

@[simp] theorem recordedIds_nil : recordedIds [] = [] := rfl

@[simp] theorem recordedIds_stop (span : Span) (ms : List Moment) :
    recordedIds (.stop span :: ms) = recordedIds ms := rfl

@[simp] theorem recordedIds_record (id : NodeId) (ms : List Moment) :
    recordedIds (.record id :: ms) = id :: recordedIds ms := rfl

@[simp] theorem recordedIds_append (ms ms' : List Moment) :
    recordedIds (ms ++ ms') = recordedIds ms ++ recordedIds ms' := List.filterMap_append

theorem mem_recordedIds {ms : List Moment} {id : NodeId} :
    id ∈ recordedIds ms ↔ .record id ∈ ms := by
  induction ms with
  | nil => simp
  | cons m ms ih => cases m <;> simp [ih]

end Moment

open Moment

theorem TypeRef.momentsAll_eq (ts : List TypeRef) : momentsAll ts = ts.flatMap moments := by
  induction ts with
  | nil => rfl
  | cons t ts ih => simp [momentsAll, ih]

theorem Expr.momentsAll_eq (es : List Expr) : momentsAll es = es.flatMap moments := by
  induction es with
  | nil => rfl
  | cons e es ih => simp [momentsAll, ih]

theorem Stmt.momentsAll_eq (stmts : List Stmt) : momentsAll stmts = stmts.flatMap moments := by
  induction stmts with
  | nil => rfl
  | cons s rest ih => simp [momentsAll, ih]

theorem FieldInit.momentsAll_eq (fields : List FieldInit) :
    momentsAll fields = fields.flatMap moments := by
  induction fields with
  | nil => rfl
  | cons f rest ih => simp [momentsAll, ih]

/-- Whether every one of these identities is recorded at most as often as it is listed. -/
def Moment.Within (ms : List Moment) (ids : List NodeId) : Prop := (recordedIds ms).Subperm ids

theorem Moment.within_nil (ids : List NodeId) : Within [] ids := List.nil_subperm

namespace Moment.Within

variable {ν : Type} {ms ms' : List Moment} {ids ids' : List NodeId}

theorem of_recordedIds (h : recordedIds ms = []) : Within ms ids := by
  rw [Within, h]
  exact List.nil_subperm

/-- The last moment of a node, whose identity is listed first. -/
theorem snoc (h : Within ms ids) (id : NodeId) : Within (ms ++ [.record id]) (id :: ids) := by
  rw [Within, recordedIds_append]
  exact (List.perm_append_singleton id _).subperm.trans ((List.subperm_cons id).2 h)

theorem append (h : Within ms ids) (h' : Within ms' ids') : Within (ms ++ ms') (ids ++ ids') := by
  rw [Within, recordedIds_append]
  exact List.Subperm.append h h'

theorem trans (h : Within ms ids) (h' : ids.Subperm ids') : Within ms ids' :=
  List.Subperm.trans h h'

/-- Places where a check may give up do not matter. -/
theorem congr (h : Within ms ids) (heq : recordedIds ms' = recordedIds ms) : Within ms' ids := by
  rwa [Within, heq]

theorem flatMap {moments : ν → List Moment} {idsOf : ν → List NodeId} {l : List ν}
    (h : ∀ x ∈ l, Within (moments x) (idsOf x)) : Within (l.flatMap moments) (l.flatMap idsOf) := by
  induction l with
  | nil => exact within_nil _
  | cons x l ih =>
      rw [List.forall_mem_cons] at h
      exact h.1.append (ih h.2)

/-- Where all identities are distinct, a node that is still to come has not been recorded. -/
theorem disjoint {before after : List Moment} (h : Within (before ++ after) ids)
    (hnodup : ids.Nodup) : List.Disjoint (recordedIds before) (recordedIds after) := by
  rw [Within, recordedIds_append] at h
  have hids : (recordedIds before ++ recordedIds after).Nodup :=
    List.nodup_iff_count_le_one.2 fun id =>
      Nat.le_trans (List.Subperm.count_le h id) (List.nodup_iff_count_le_one.1 hnodup id)
  exact List.disjoint_of_nodup_append hids

end Moment.Within

theorem TypeRef.within_momentsPath {m : Mark} {name : String} {res : Option TypeRes}
    {args : List TypeRef} (ih : ∀ t ∈ args, Within t.moments t.ids) :
    Within (path m name res args).moments (path m name res args).ids := by
  rw [moments, ids, momentsAll_eq, idsAll_eq]
  exact ((Within.flatMap ih).congr (by simp)).snoc m.id

theorem TypeRef.within_moments (t : TypeRef) : Within t.moments t.ids := by
  induction t with
  | unit m => exact (within_nil []).snoc m.id
  | infer m => exact (within_nil []).snoc m.id
  | unresolved _ _ _ ih | builtin _ _ _ ih | adt _ _ _ _ ih | param _ _ _ _ ih =>
      exact within_momentsPath ih

theorem TypeRef.within_momentsOption (t : Option TypeRef) :
    Within (momentsOption t) (idsOption t) := by
  cases t with
  | none => exact .of_recordedIds rfl
  | some t => exact t.within_moments

theorem Path.within_moments (span : Span) (p : Path) : Within (p.moments span) p.ids := by
  have hargs : Within (TypeRef.momentsAll p.args) (TypeRef.idsAll p.args) := by
    rw [TypeRef.momentsAll_eq, TypeRef.idsAll_eq]
    exact .flatMap fun t _ => t.within_moments
  have hids : (TypeRef.idsAll p.args).Sublist p.ids := by
    unfold Path.args
    cases h : p.segments.getLast? with
    | none => exact List.nil_sublist _
    | some segment =>
        exact List.sublist_flatten_of_mem (List.mem_map_of_mem (List.mem_of_getLast? h))
  exact (hargs.trans hids.subperm).congr (by simp [moments])

/-- The check of a tree records a type for every node at most once. -/
theorem Expr.within_moments :
    (∀ e : Expr, Within e.moments e.ids) ∧ (∀ b : Block, Within b.moments b.ids) ∧
      (∀ s : Stmt, Within s.moments s.ids) ∧ ∀ f : FieldInit, Within f.moments f.ids := by
  apply Expr.induct
  case lit => exact fun m l => (within_nil []).snoc m.id
  case path => exact fun m p => (p.within_moments m.span).snoc m.id
  case block => exact fun m b ih => ih.snoc m.id
  case struct =>
    intro m p span fields base ihfields ihbase
    rw [moments, ids, FieldInit.momentsAll_eq, FieldInit.idsAll_eq]
    refine ((p.within_moments span).append (Within.append ?_ (.flatMap ihfields))).snoc m.id
    cases base with
    | none => exact .of_recordedIds rfl
    | some b => exact (ihbase b rfl).congr (by simp [momentsBase])
  case field => exact fun m base name ih => ih.snoc m.id
  case tupleIndex => exact fun m base index ih => ih.snoc m.id
  case call =>
    intro m callee args ihcallee ihargs
    rw [moments, ids, momentsAll_eq, idsAll_eq]
    exact (ihcallee.append (.flatMap ihargs)).snoc m.id
  case unary => exact fun m op e ih => ih.snoc m.id
  case binary => exact fun m op l r ihl ihr => (ihl.append ihr).snoc m.id
  case assign => exact fun m l r ihl ihr => (ihl.append ihr).snoc m.id
  case paren => exact fun m e ih => ih.snoc m.id
  case mk =>
    intro m stmts tail ihstmts ihtail
    rw [Block.moments, Block.ids, Stmt.momentsAll_eq, Stmt.idsAll_eq]
    refine (Within.append (.flatMap ihstmts) ?_).snoc m.id
    cases tail with
    | none => exact .of_recordedIds rfl
    | some e => exact ihtail e rfl
  case bind =>
    intro m binding name ty init ih
    refine ((Within.append (TypeRef.within_momentsOption ty) ?_).snoc binding).snoc m.id
    cases init with
    | none => exact .of_recordedIds rfl
    | some e => exact ih e rfl
  case expr => exact fun m e ih => ih.snoc m.id
  case semi => exact fun m e ih => ih.snoc m.id
  case named => exact fun m name value ih => ih.snoc m.id
  case index => exact fun m i value ih => ih.snoc m.id
  case short =>
    intro m name res
    have hnone : (Path.ident name res).ids = [] := by simp [Path.ident, Path.ids, TypeRef.idsAll]
    exact (hnone ▸ (Path.ident name res).within_moments m.span).snoc m.id

end TypeInference

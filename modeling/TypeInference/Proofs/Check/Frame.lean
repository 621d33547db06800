import TypeInference.Proofs.Check.FromBase

/-!
# The frame of a walk

Walks keep what their computations keep. By induction on programs, the check of
an expression records types under the identities in the expression and under
new ones only.
-/

namespace TypeInference

open Walk Check

namespace Check

variable {ids : List NodeId}

/-! ## Types of compound expressions -/

theorem steady_suffixedType (accepts : Prim → Bool) (suffix : String) (span : Span) :
    Steady ids (suffixedType accepts suffix span) := by
  refine (steady_builtin? suffix).bind fun r => ?_
  split
  · split
    · exact steady_pure _
    · exact steady_reportTyped _ _
  · exact steady_reportTyped _ _

theorem steady_literalType (span : Span) (l : Literal) : Steady ids (literalType span l) := by
  cases l with
  | int value suffix =>
      cases suffix with
      | none => exact steady_newVar _
      | some suffix => exact steady_suffixedType _ _ _
  | float bits suffix =>
      cases suffix with
      | none => exact steady_newVar _
      | some suffix => exact steady_suffixedType _ _ _
  | bool value => exact steady_builtin _
  | char value => exact steady_builtin _
  | str value => exact steady_builtin _
  | unit => exact steady_pure _

theorem steady_fieldType (span : Span) (name : String) (t : Ty) :
    Steady ids (fieldType span name t) := by
  refine (steady_resolve t).bind fun r => ?_
  split
  · exact steady_pure _
  · split
    · exact steady_pure _
    · exact steady_reportTyped _ _
  · exact steady_reportTyped _ _

theorem steady_unifyArgs (ps : List Ty) (args : List (Ty × Span)) :
    Steady ids (unifyArgs ps args) := by
  induction ps generalizing args with
  | nil => exact steady_pure ()
  | cons p ps ih =>
      cases args with
      | nil => exact steady_pure ()
      | cons arg args => exact (steady_unifyAt arg.2 p arg.1).bind fun _ => ih args

theorem steady_callType (span calleeSpan : Span) (t : Ty) (args : List (Ty × Span)) :
    Steady ids (callType span calleeSpan t args) := by
  refine (steady_resolve t).bind fun r => ?_
  split
  · rename_i ps ret
    have hargs : Steady ids (do unifyArgs ps args; return ret) :=
      (steady_unifyArgs ps args).bind fun _ => steady_pure ret
    split
    · exact (steady_report _ span).bind fun _ => hargs
    · exact hargs
  · exact steady_pure _
  · exact steady_reportTyped _ _

theorem steady_unaryType (span : Span) (op : UnOp) (t : Ty) : Steady ids (unaryType span op t) := by
  refine (steady_resolve t).bind fun r => ?_
  split
  · exact steady_pure _
  · exact steady_reportTyped _ _

theorem steady_binaryType (span : Span) (op : BinOp) (l r : Ty × Span) :
    Steady ids (binaryType span op l r) := by
  unfold binaryType
  split
  · exact (steady_builtin _).bind fun t => (steady_unifyAt l.2 t l.1).bind fun _ =>
      (steady_unifyAt r.2 t r.1).bind fun _ => steady_pure t
  · refine (steady_unifyAt r.2 l.1 r.1).bind fun t => ?_
    split
    · exact steady_builtin _
    · refine (steady_resolve t).bind fun u => ?_
      split
      · exact steady_pure _
      · exact steady_reportTyped _ _

theorem steady_bindingType (annotated : Option Ty) (init : Option (Ty × Span)) :
    Steady ids (bindingType annotated init) := by
  rcases annotated with _ | t <;> rcases init with _ | ⟨u, span⟩
  · exact steady_newVar _
  · exact steady_pure _
  · exact steady_pure _
  · exact (steady_unifyAt span t u).bind fun _ => steady_pure _

theorem steady_requireUnit (span : Span) (t : Ty) : Steady ids (requireUnit span t) := by
  refine (steady_unify .unit t).bind fun r => ?_
  cases r with
  | ok u => exact steady_pure ()
  | error e => exact (steady_resolve t).bind fun u => steady_report _ span

end Check

namespace Walk

variable {ν μ α β : Type} {ids : List NodeId}

structure Steady (ids : List NodeId) (w : Walk ν α) : Prop where
  grows : ∀ s : Session, s.Grows ids (w s).session
  explains : ∀ s e, (w s).outcome = .error e → e.Explained (w s).session

theorem steady_leaf {node : ν} {x : Check α} (h : Check.Steady ids x) : Steady ids (leaf node x) :=
  ⟨h.grows, h.explains⟩

theorem steady_first {node : ν} {x : Check α} {next : α → Walk ν β} (hx : Check.Steady ids x)
    (hnext : ∀ a, Steady ids (next a)) : Steady ids (first node x next) := by
  constructor
  case grows =>
    intro s
    have hs := hx.grows s
    rcases first_cases node x next s with ⟨a, s', hrun, heq⟩ | ⟨e, s', hrun, heq⟩
    · rw [hrun] at hs
      rw [heq]
      exact hs.trans ((hnext a).grows s')
    · rw [hrun] at hs
      rw [heq]
      exact hs
  case explains =>
    intro s e
    rcases first_cases node x next s with ⟨a, s', hrun, heq⟩ | ⟨e', s', hrun, heq⟩
    · rw [heq]
      exact (hnext a).explains s' e
    · rw [heq]
      intro he
      obtain rfl : e' = e := by simpa using he
      have hexplained := hx.explains s e' (by rw [hrun])
      rwa [hrun] at hexplained

theorem steady_child {w : Walk μ α} {rebuild : μ → ν} {next : μ → α → Walk ν β}
    (hw : Steady ids w) (hnext : ∀ s a, Steady ids (next (w s).node a)) :
    Steady ids (child w rebuild next) := by
  constructor
  case grows =>
    intro s
    rcases child_cases w rebuild next s with ⟨a, -, heq⟩ | ⟨e, -, heq⟩
    · rw [heq]
      exact (hw.grows s).trans ((hnext s a).grows _)
    · rw [heq]
      exact hw.grows s
  case explains =>
    intro s e
    rcases child_cases w rebuild next s with ⟨a, -, heq⟩ | ⟨e', hrun, heq⟩
    · rw [heq]
      exact (hnext s a).explains _ e
    · rw [heq]
      intro he
      obtain rfl : e' = e := by simpa using he
      exact hw.explains s e' hrun

theorem Steady.mono {ids' : List NodeId} {w : Walk ν α} (h : Steady ids w) (hids : ids ⊆ ids') :
    Steady ids' w :=
  ⟨fun s => (h.grows s).mono hids, h.explains⟩

/-! ## Nodes that are given back -/

section

variable {P : ν → Prop} {R : μ → Prop}

/-- Whether every node that the walk gives back has the property, also if it aborts. -/
def Gives (P : ν → Prop) (w : Walk ν α) : Prop := ∀ s, P (w s).node

theorem gives_true (w : Walk ν α) : Gives (fun _ => True) w := fun _ => trivial

theorem gives_leaf {node : ν} (h : P node) (x : Check α) : Gives P (leaf node x) := fun _ => h

theorem gives_first {node : ν} {x : Check α} {next : α → Walk ν β} (h : P node)
    (hnext : ∀ a, Gives P (next a)) : Gives P (first node x next) := by
  intro s
  rcases first_cases node x next s with ⟨a, s', -, heq⟩ | ⟨e, s', -, heq⟩
  · rw [heq]
    exact hnext a s'
  · rw [heq]
    exact h

theorem gives_child {w : Walk μ α} {rebuild : μ → ν} {next : μ → α → Walk ν β} (hw : Gives R w)
    (hrebuild : ∀ n, R n → P (rebuild n)) (hnext : ∀ n a, R n → Gives P (next n a)) :
    Gives P (child w rebuild next) := by
  intro s
  rcases child_cases w rebuild next s with ⟨a, -, heq⟩ | ⟨e, -, heq⟩
  · rw [heq]
    exact hnext _ a (hw s) _
  · rw [heq]
    exact hrebuild _ (hw s)

end

/-! ## Struct literals -/

theorem steady_orderLiteral (a : Adt Ty) (t : Ty) (slots : Slots) :
    Steady ids (orderLiteral a t slots) := by
  unfold orderLiteral
  split
  · exact steady_leaf (steady_resolve t)
  · exact steady_leaf (steady_defect _)

theorem steady_completeLiteral (a : Adt Ty) (t : Ty) (span : Span) (base : Option Expr)
    (written : List FieldInit) (slots : Slots) :
    Steady ids (completeLiteral a t span base written slots) := by
  unfold completeLiteral
  split
  · exact steady_leaf (steady_pure _)
  · split
    · exact steady_orderLiteral a t slots
    · split
      · exact steady_leaf (steady_reportTyped _ span)
      · exact steady_first (steady_fillFromBase a _ _ slots) fun slots => steady_orderLiteral a t slots

theorem steady_literalBase {base : Option Expr} (a : Adt Ty)
    (h : ∀ b, base = some b → Steady ids b.check) : Steady ids (literalBase a base) := by
  cases base with
  | none => exact steady_leaf (steady_pure _)
  | some b => exact steady_child (h b rfl) fun _ t => steady_leaf (steady_unifyBase a t _)

/-- Checking the value of a field keeps its mark and its name. -/
theorem mark_checkValue (node : FieldInit) (s : Session) :
    (node.checkValue s).node.mark = node.mark ∧
      (node.checkValue s).node.fieldName = node.fieldName := by
  cases node with
  | named m name e =>
      rw [FieldInit.checkValue]
      rcases child_cases e.check (FieldInit.named m name) _ s with ⟨t, -, heq⟩ | ⟨a, -, heq⟩
      · rw [heq]
        exact ⟨rfl, rfl⟩
      · rw [heq]
        exact ⟨rfl, rfl⟩
  | index m i e =>
      rw [FieldInit.checkValue]
      rcases child_cases e.check (FieldInit.index m i) _ s with ⟨t, -, heq⟩ | ⟨a, -, heq⟩
      · rw [heq]
        exact ⟨rfl, rfl⟩
      · rw [heq]
        exact ⟨rfl, rfl⟩
  | short m name res => exact ⟨rfl, rfl⟩

theorem steady_checkField {node : FieldInit} (a : Adt Ty) (slots : Slots)
    (hmark : node.mark.id ∈ ids) (h : Steady ids node.checkValue) :
    Steady ids (node.check a slots) := by
  rw [FieldInit.check_eq]
  refine steady_first (steady_declaredField a slots node) fun r => ?_
  cases r with
  | none => exact steady_leaf (steady_pure _)
  | some f =>
      refine steady_child h fun s t => steady_leaf (steady_acceptField f slots t ?_)
      rw [(mark_checkValue node s).1]
      exact hmark

theorem steady_checkFields {fields : List FieldInit} (a : Adt Ty) (slots : Slots)
    (h : ∀ f ∈ fields, f.mark.id ∈ ids ∧ Steady ids f.checkValue) :
    Steady ids (FieldInit.checkAll a slots fields) := by
  induction fields generalizing slots with
  | nil =>
      rw [FieldInit.checkAll]
      exact steady_leaf (steady_pure _)
  | cons f rest ih =>
      rw [FieldInit.checkAll]
      obtain ⟨hmark, hvalue⟩ := h f List.mem_cons_self
      exact steady_child (steady_checkField a slots hmark hvalue) fun _ slots =>
        steady_child (ih slots fun g hg => h g (List.mem_cons_of_mem _ hg)) fun _ _ =>
          steady_leaf (steady_pure _)

theorem steady_literal {path : Path} {fields : List FieldInit} {base : Option Expr}
    (pathSpan span : Span) (hpath : path.ids ⊆ ids)
    (hfields : ∀ f ∈ fields, f.mark.id ∈ ids ∧ Steady ids f.checkValue)
    (hbase : ∀ b, base = some b → Steady ids b.check) :
    Steady ids (literal path pathSpan span fields base) :=
  steady_first (steady_structOf pathSpan hpath) fun a =>
    steady_child (steady_literalBase a hbase) fun _ t =>
      steady_child (steady_checkFields a _ hfields) fun _ slots =>
        steady_child (steady_completeLiteral a t span _ _ slots) fun _ _ =>
          steady_leaf (steady_pure _)

/-! ## Lists of nodes -/

theorem steady_checkExprs {es : List Expr} (h : ∀ e ∈ es, Steady ids e.check) :
    Steady ids (Expr.checkAll es) := by
  induction es with
  | nil =>
      rw [Expr.checkAll]
      exact steady_leaf (steady_pure _)
  | cons e es ih =>
      rw [Expr.checkAll]
      exact steady_child (h e List.mem_cons_self) fun _ _ =>
        steady_child (ih fun e he => h e (List.mem_cons_of_mem _ he)) fun _ _ =>
          steady_leaf (steady_pure _)

theorem steady_checkStmts {stmts : List Stmt} (hasTail : Bool) (h : ∀ s ∈ stmts, Steady ids s.check) :
    Steady ids (Stmt.checkAll hasTail stmts) := by
  induction stmts with
  | nil =>
      rw [Stmt.checkAll]
      exact steady_leaf (steady_pure _)
  | cons stmt rest ih =>
      rw [Stmt.checkAll]
      refine steady_child (h stmt List.mem_cons_self) fun s t => ?_
      split
      · exact steady_leaf (steady_pure _)
      · exact steady_first (steady_requireUnit _ t) fun _ =>
          steady_child (ih fun s hs => h s (List.mem_cons_of_mem _ hs)) fun _ _ =>
            steady_leaf (steady_pure _)

/-! ## Nodes -/

/-- The type of a node is computed and recorded. -/
theorem steady_typed {node : ν} {x : Check Ty} {id : NodeId} (hid : id ∈ ids)
    (hx : Check.Steady ids x) : Steady ids (leaf node (x >>= recorded id)) :=
  steady_leaf (hx.bind fun t => steady_recorded hid t)

/-- The node of one part, or of a last one. -/
theorem steady_node {w : Walk μ α} {rebuild node : μ → ν} {x : μ → α → Check Ty} {id : NodeId}
    (hid : id ∈ ids) (hw : Steady ids w) (hx : ∀ n a, Check.Steady ids (x n a)) :
    Steady ids (child w rebuild fun n a => leaf (node n) (x n a >>= recorded id)) :=
  steady_child hw fun _ a => steady_typed hid (hx _ a)

end Walk

/-- An assignment is unit once its sides have been unified. -/
theorem Expr.check_assign (m : Mark) (l r : Expr) :
    (Expr.assign m l r).check =
      child l.check (.assign m · r) fun l lt =>
      child r.check (.assign m l ·) fun r rt =>
      leaf (.assign m l r) ((unifyAt r.span lt rt >>= fun _ => pure .unit) >>= recorded m.id) := by
  simp only [Expr.check, bind_assoc, pure_bind]

section

variable {ids : List NodeId} {m : Mark}

theorem Expr.steady_lit {l : Literal} (h : (lit m l).ids ⊆ ids) :
    Walk.Steady ids (lit m l).check := by
  rw [Expr.check]
  exact steady_typed (h List.mem_cons_self) (steady_literalType m.span l)

theorem Expr.steady_path {p : Path} (h : (path m p).ids ⊆ ids) :
    Walk.Steady ids (path m p).check := by
  obtain ⟨hm, hp⟩ := List.cons_subset.1 h
  rw [Expr.check]
  exact steady_typed hm (steady_pathType m.span hp)

theorem Expr.steady_block {b : Block} (ih : b.ids ⊆ ids → Walk.Steady ids b.check)
    (h : (block m b).ids ⊆ ids) : Walk.Steady ids (block m b).check := by
  obtain ⟨hm, hb⟩ := List.cons_subset.1 h
  rw [Expr.check]
  exact steady_node hm (ih hb) fun _ t => steady_pure t

theorem Expr.steady_struct {p : Path} {span : Span} {fields : List FieldInit} {base : Option Expr}
    (ihfields : ∀ f ∈ fields, f.ids ⊆ ids → Walk.Steady ids f.checkValue)
    (ihbase : ∀ b, base = some b → b.ids ⊆ ids → Walk.Steady ids b.check)
    (h : (struct m p span fields base).ids ⊆ ids) :
    Walk.Steady ids (struct m p span fields base).check := by
  simp only [Expr.ids, List.cons_subset, List.append_subset, FieldInit.idsAll_eq] at h
  obtain ⟨hm, hp, hbase, hfields⟩ := h
  rw [Expr.check_struct]
  refine steady_node hm (steady_literal span m.span hp (fun f hf => ?_) fun b hb => ?_) fun _ t =>
    steady_pure t
  · have hsub : f.ids ⊆ ids := fun i hi => hfields (List.mem_flatMap.2 ⟨f, hf, hi⟩)
    exact ⟨hsub f.mark_mem_ids, ihfields f hf hsub⟩
  · subst hb
    exact ihbase b rfl hbase

theorem Expr.steady_field {base : Expr} {name : String}
    (ih : base.ids ⊆ ids → Walk.Steady ids base.check) (h : (field m base name).ids ⊆ ids) :
    Walk.Steady ids (field m base name).check := by
  obtain ⟨hm, hbase⟩ := List.cons_subset.1 h
  rw [Expr.check]
  exact steady_node hm (ih hbase) fun _ t => steady_fieldType m.span name t

theorem Expr.steady_tupleIndex {base : Expr} {index : Nat}
    (ih : base.ids ⊆ ids → Walk.Steady ids base.check) (h : (tupleIndex m base index).ids ⊆ ids) :
    Walk.Steady ids (tupleIndex m base index).check := by
  obtain ⟨hm, hbase⟩ := List.cons_subset.1 h
  rw [Expr.check]
  exact steady_node hm (ih hbase) fun _ t => steady_fieldType m.span _ t

theorem Expr.steady_call {callee : Expr} {args : List Expr}
    (ihcallee : callee.ids ⊆ ids → Walk.Steady ids callee.check)
    (ihargs : ∀ e ∈ args, e.ids ⊆ ids → Walk.Steady ids e.check)
    (h : (call m callee args).ids ⊆ ids) : Walk.Steady ids (call m callee args).check := by
  simp only [Expr.ids, List.cons_subset, List.append_subset, Expr.idsAll_eq] at h
  obtain ⟨hm, hcallee, hargs⟩ := h
  have hall : Walk.Steady ids (Expr.checkAll args) := steady_checkExprs fun e he =>
    ihargs e he fun i hi => hargs (List.mem_flatMap.2 ⟨e, he, hi⟩)
  rw [Expr.check]
  exact steady_child (ihcallee hcallee) fun _ t =>
    steady_node hm hall fun _ _ => steady_callType m.span _ t _

theorem Expr.steady_unary {op : UnOp} {e : Expr} (ih : e.ids ⊆ ids → Walk.Steady ids e.check)
    (h : (unary m op e).ids ⊆ ids) : Walk.Steady ids (unary m op e).check := by
  obtain ⟨hm, he⟩ := List.cons_subset.1 h
  rw [Expr.check]
  exact steady_node hm (ih he) fun _ t => steady_unaryType m.span op t

theorem Expr.steady_binary {op : BinOp} {l r : Expr} (ihl : l.ids ⊆ ids → Walk.Steady ids l.check)
    (ihr : r.ids ⊆ ids → Walk.Steady ids r.check) (h : (binary m op l r).ids ⊆ ids) :
    Walk.Steady ids (binary m op l r).check := by
  simp only [Expr.ids, List.cons_subset, List.append_subset] at h
  obtain ⟨hm, hl, hr⟩ := h
  rw [Expr.check]
  exact steady_child (ihl hl) fun _ _ => steady_node hm (ihr hr) fun _ _ =>
    steady_binaryType m.span op _ _

theorem Expr.steady_assign {l r : Expr} (ihl : l.ids ⊆ ids → Walk.Steady ids l.check)
    (ihr : r.ids ⊆ ids → Walk.Steady ids r.check) (h : (assign m l r).ids ⊆ ids) :
    Walk.Steady ids (assign m l r).check := by
  simp only [Expr.ids, List.cons_subset, List.append_subset] at h
  obtain ⟨hm, hl, hr⟩ := h
  rw [Expr.check_assign]
  exact steady_child (ihl hl) fun _ t => steady_node hm (ihr hr) fun _ u =>
    (steady_unifyAt _ t u).bind fun _ => steady_pure _

theorem Expr.steady_paren {e : Expr} (ih : e.ids ⊆ ids → Walk.Steady ids e.check)
    (h : (paren m e).ids ⊆ ids) : Walk.Steady ids (paren m e).check := by
  obtain ⟨hm, he⟩ := List.cons_subset.1 h
  rw [Expr.check]
  exact steady_node hm (ih he) fun _ t => steady_pure t

theorem Block.steady_mk {stmts : List Stmt} {tail : Option Expr}
    (ihstmts : ∀ s ∈ stmts, s.ids ⊆ ids → Walk.Steady ids s.check)
    (ihtail : ∀ e, tail = some e → e.ids ⊆ ids → Walk.Steady ids e.check)
    (h : (mk m stmts tail).ids ⊆ ids) : Walk.Steady ids (mk m stmts tail).check := by
  simp only [Block.ids, List.cons_subset, List.append_subset, Stmt.idsAll_eq] at h
  obtain ⟨hm, hstmts, htail⟩ := h
  have hall (hasTail : Bool) : Walk.Steady ids (Stmt.checkAll hasTail stmts) :=
    steady_checkStmts hasTail fun s hs =>
      ihstmts s hs fun i hi => hstmts (List.mem_flatMap.2 ⟨s, hs, hi⟩)
  cases tail with
  | none =>
      rw [Block.check]
      exact steady_node hm (hall false) fun _ _ => steady_pure _
  | some e =>
      rw [Block.check]
      exact steady_child (hall true) fun _ _ =>
        steady_node hm (ihtail e rfl htail) fun _ t => steady_pure t

/-- The type of a binding is recorded, and the statement is unit. -/
theorem Check.steady_bound {binding id : NodeId} (hbinding : binding ∈ ids) (hid : id ∈ ids)
    (annotated : Option Ty) (init : Option (Ty × Span)) : Steady ids (do
      record binding (← bindingType annotated init)
      recorded id .unit) :=
  (steady_bindingType annotated init).bind fun t => (steady_record hbinding t).bind fun _ =>
    steady_recorded hid .unit

theorem Stmt.steady_bind {binding : NodeId} {name : String} {ty : Option TypeRef}
    {init : Option Expr} (ih : ∀ e, init = some e → e.ids ⊆ ids → Walk.Steady ids e.check)
    (h : (bind m binding name ty init).ids ⊆ ids) :
    Walk.Steady ids (bind m binding name ty init).check := by
  simp only [Stmt.ids, List.cons_subset, List.append_subset] at h
  obtain ⟨hm, hbinding, hty, hinit⟩ := h
  cases init with
  | none =>
      rw [Stmt.check]
      exact steady_leaf ((steady_readOptional hty).bind fun annotated =>
        steady_bound hbinding hm annotated none)
  | some e =>
      rw [Stmt.check]
      exact steady_first (steady_readOptional hty) fun annotated =>
        steady_child (ih e rfl hinit) fun _ _ => steady_leaf (steady_bound hbinding hm annotated _)

theorem Stmt.steady_expr {e : Expr} (ih : e.ids ⊆ ids → Walk.Steady ids e.check)
    (h : (expr m e).ids ⊆ ids) : Walk.Steady ids (expr m e).check := by
  obtain ⟨hm, he⟩ := List.cons_subset.1 h
  rw [Stmt.check]
  exact steady_node hm (ih he) fun _ t => steady_pure t

theorem Stmt.steady_semi {e : Expr} (ih : e.ids ⊆ ids → Walk.Steady ids e.check)
    (h : (semi m e).ids ⊆ ids) : Walk.Steady ids (semi m e).check := by
  obtain ⟨hm, he⟩ := List.cons_subset.1 h
  rw [Stmt.check]
  exact steady_node hm (ih he) fun _ _ => steady_pure .unit

theorem FieldInit.steady_named {name : String} {e : Expr}
    (ih : e.ids ⊆ ids → Walk.Steady ids e.check) (h : (named m name e).ids ⊆ ids) :
    Walk.Steady ids (named m name e).checkValue :=
  steady_child (ih (List.cons_subset.1 h).2) fun _ _ => steady_leaf (steady_pure _)

theorem FieldInit.steady_index {i : Nat} {e : Expr} (ih : e.ids ⊆ ids → Walk.Steady ids e.check)
    (h : (index m i e).ids ⊆ ids) : Walk.Steady ids (index m i e).checkValue :=
  steady_child (ih (List.cons_subset.1 h).2) fun _ _ => steady_leaf (steady_pure _)

theorem FieldInit.steady_short {name : String} {res : Option NodeId}
    (h : (short m name res).ids ⊆ ids) : Walk.Steady ids (short m name res).checkValue :=
  steady_typed (h List.mem_cons_self)
    (steady_pathType m.span (by simp [Path.ident, Path.ids, TypeRef.idsAll]))

end

/-! ## Programs -/

/-- The check of a node with its children, by induction on programs. -/
theorem Walk.steady_check (ids : List NodeId) :
    (∀ e : Expr, e.ids ⊆ ids → Steady ids e.check) ∧
      (∀ b : Block, b.ids ⊆ ids → Steady ids b.check) ∧
      (∀ s : Stmt, s.ids ⊆ ids → Steady ids s.check) ∧
      ∀ f : FieldInit, f.ids ⊆ ids → Steady ids f.checkValue := by
  apply Expr.induct
  case lit => exact fun _ _ => Expr.steady_lit
  case path => exact fun _ _ => Expr.steady_path
  case block => exact fun _ _ => Expr.steady_block
  case struct => exact fun _ _ _ _ _ => Expr.steady_struct
  case field => exact fun _ _ _ => Expr.steady_field
  case tupleIndex => exact fun _ _ _ => Expr.steady_tupleIndex
  case call => exact fun _ _ _ => Expr.steady_call
  case unary => exact fun _ _ _ => Expr.steady_unary
  case binary => exact fun _ _ _ _ => Expr.steady_binary
  case assign => exact fun _ _ _ => Expr.steady_assign
  case paren => exact fun _ _ => Expr.steady_paren
  case mk => exact fun _ _ _ => Block.steady_mk
  case bind => exact fun _ _ _ _ _ => Stmt.steady_bind
  case expr => exact fun _ _ => Stmt.steady_expr
  case semi => exact fun _ _ => Stmt.steady_semi
  case named => exact fun _ _ _ => FieldInit.steady_named
  case index => exact fun _ _ _ => FieldInit.steady_index
  case short => exact fun _ _ _ => FieldInit.steady_short

theorem Expr.steady (e : Expr) : Walk.Steady e.ids e.check :=
  (Walk.steady_check _).1 e (List.Subset.refl _)

theorem Block.steady (b : Block) : Walk.Steady b.ids b.check :=
  (Walk.steady_check _).2.1 b (List.Subset.refl _)

theorem Stmt.steady (stmt : Stmt) : Walk.Steady stmt.ids stmt.check :=
  (Walk.steady_check _).2.2.1 stmt (List.Subset.refl _)

theorem FieldInit.steady (f : FieldInit) : Walk.Steady f.ids f.checkValue :=
  (Walk.steady_check _).2.2.2 f (List.Subset.refl _)

theorem Expr.steady_checkAll (es : List Expr) : Walk.Steady (Expr.idsAll es) (Expr.checkAll es) :=
  Walk.steady_checkExprs fun e he => e.steady.mono fun i hi => by
    rw [Expr.idsAll_eq]
    exact List.mem_flatMap.2 ⟨e, he, hi⟩

theorem Stmt.steady_checkAll (hasTail : Bool) (stmts : List Stmt) :
    Walk.Steady (Stmt.idsAll stmts) (Stmt.checkAll hasTail stmts) :=
  Walk.steady_checkStmts hasTail fun stmt hstmt => stmt.steady.mono fun i hi => by
    rw [Stmt.idsAll_eq]
    exact List.mem_flatMap.2 ⟨stmt, hstmt, hi⟩

theorem FieldInit.steady_checkAll (a : Adt Ty) (slots : Slots) (fields : List FieldInit) :
    Walk.Steady (FieldInit.idsAll fields) (FieldInit.checkAll a slots fields) := by
  have hsub {f : FieldInit} (hf : f ∈ fields) : f.ids ⊆ FieldInit.idsAll fields := fun i hi => by
    rw [FieldInit.idsAll_eq]
    exact List.mem_flatMap.2 ⟨f, hf, hi⟩
  exact Walk.steady_checkFields a slots fun f hf => ⟨hsub hf f.mark_mem_ids, f.steady.mono (hsub hf)⟩

theorem Walk.steady_base (a : Adt Ty) (base : Option Expr) :
    Steady (Expr.idsOption base) (literalBase a base) :=
  steady_literalBase a fun b hb => by
    subst hb
    exact b.steady

theorem Walk.steady_wholeLiteral (path : Path) (pathSpan span : Span) (fields : List FieldInit)
    (base : Option Expr) : Walk.Steady (path.ids ++ (Expr.idsOption base ++ FieldInit.idsAll fields))
      (literal path pathSpan span fields base) := by
  refine steady_literal pathSpan span (List.subset_append_left _ _) (fun f hf => ?_) fun b hb => ?_
  · have hsub : f.ids ⊆ path.ids ++ (Expr.idsOption base ++ FieldInit.idsAll fields) := by
      intro i hi
      have hmem : i ∈ FieldInit.idsAll fields := by
        rw [FieldInit.idsAll_eq]
        exact List.mem_flatMap.2 ⟨f, hf, hi⟩
      exact List.mem_append_right _ (List.mem_append_right _ hmem)
    exact ⟨hsub f.mark_mem_ids, f.steady.mono hsub⟩
  · subst hb
    exact b.steady.mono fun i hi => List.mem_append_right _ (List.mem_append_left _ hi)

end TypeInference

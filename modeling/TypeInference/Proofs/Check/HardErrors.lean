import TypeInference.Proofs.Check.Traversal

/-!
# Hard errors

The check of an expression goes through the moments of the expression. So hard
errors are told apart from soft ones by how the check ends: it stops exactly if
it has reported a hard error, which is the last one, and what it has recorded by
then belongs to nodes that come before.
-/

namespace TypeInference

open Walk Check Moment

namespace Check

variable {α β : Type}

/-! ## Soft errors -/

theorem quiet_unifyAt (span : Span) (t u : Ty) : Quiet Cause.IsSoft (unifyAt span t u) := by
  refine (quiet_unify t u).bind fun r => ?_
  cases r with
  | ok t => exact quiet_pure t
  | error e => exact quiet_reportTyped (Cause.isSoft_ofUnify e) span

theorem quiet_suffixedType (accepts : Prim → Bool) (suffix : String) (span : Span) :
    Quiet Cause.IsSoft (suffixedType accepts suffix span) := by
  refine (quiet_builtin? suffix).bind fun r => ?_
  split
  · split
    · exact quiet_pure _
    · exact quiet_reportTyped ⟨rfl, rfl⟩ _
  · exact quiet_reportTyped ⟨rfl, rfl⟩ _

theorem quiet_literalType (span : Span) (l : Literal) :
    Quiet Cause.IsSoft (literalType span l) := by
  cases l with
  | int value suffix =>
      cases suffix with
      | none => exact quiet_newVar _
      | some suffix => exact quiet_suffixedType _ _ _
  | float bits suffix =>
      cases suffix with
      | none => exact quiet_newVar _
      | some suffix => exact quiet_suffixedType _ _ _
  | bool value => exact quiet_builtin _
  | char value => exact quiet_builtin _
  | str value => exact quiet_builtin _
  | unit => exact quiet_pure _

theorem quiet_fieldType (span : Span) (name : String) (t : Ty) :
    Quiet Cause.IsSoft (fieldType span name t) := by
  refine (quiet_resolve t).bind fun r => ?_
  split
  · exact quiet_pure _
  · split
    · exact quiet_pure _
    · exact quiet_reportTyped ⟨rfl, rfl⟩ _
  · exact quiet_reportTyped ⟨rfl, rfl⟩ _

theorem quiet_unifyArgs (ps : List Ty) (args : List (Ty × Span)) :
    Quiet Cause.IsSoft (unifyArgs ps args) := by
  induction ps generalizing args with
  | nil => exact quiet_pure ()
  | cons p ps ih =>
      cases args with
      | nil => exact quiet_pure ()
      | cons arg args => exact (quiet_unifyAt arg.2 p arg.1).bind fun _ => ih args

theorem quiet_callType (span calleeSpan : Span) (t : Ty) (args : List (Ty × Span)) :
    Quiet Cause.IsSoft (callType span calleeSpan t args) := by
  refine (quiet_resolve t).bind fun r => ?_
  split
  · rename_i ps ret
    have hargs : Quiet Cause.IsSoft (do unifyArgs ps args; return ret) :=
      (quiet_unifyArgs ps args).bind fun _ => quiet_pure ret
    split
    · exact (quiet_report ⟨rfl, rfl⟩ span).bind fun _ => hargs
    · exact hargs
  · exact quiet_pure _
  · exact quiet_reportTyped ⟨rfl, rfl⟩ _

theorem quiet_unaryType (span : Span) (op : UnOp) (t : Ty) :
    Quiet Cause.IsSoft (unaryType span op t) := by
  refine (quiet_resolve t).bind fun r => ?_
  split
  · exact quiet_pure _
  · exact quiet_reportTyped ⟨rfl, rfl⟩ _

theorem quiet_binaryType (span : Span) (op : BinOp) (l r : Ty × Span) :
    Quiet Cause.IsSoft (binaryType span op l r) := by
  unfold binaryType
  split
  · exact (quiet_builtin _).bind fun t => (quiet_unifyAt l.2 t l.1).bind fun _ =>
      (quiet_unifyAt r.2 t r.1).bind fun _ => quiet_pure t
  · refine (quiet_unifyAt r.2 l.1 r.1).bind fun t => ?_
    split
    · exact quiet_builtin _
    · refine (quiet_resolve t).bind fun u => ?_
      split
      · exact quiet_pure _
      · exact quiet_reportTyped ⟨rfl, rfl⟩ _

theorem quiet_bindingType (annotated : Option Ty) (init : Option (Ty × Span)) :
    Quiet Cause.IsSoft (bindingType annotated init) := by
  rcases annotated with _ | t <;> rcases init with _ | ⟨u, span⟩
  · exact quiet_newVar _
  · exact quiet_pure _
  · exact quiet_pure _
  · exact (quiet_unifyAt span t u).bind fun _ => quiet_pure _

theorem quiet_requireUnit (span : Span) (t : Ty) : Quiet Cause.IsSoft (requireUnit span t) := by
  refine (quiet_unify .unit t).bind fun r => ?_
  cases r with
  | ok u => exact quiet_pure ()
  | error e => exact (quiet_resolve t).bind fun u => quiet_report ⟨rfl, rfl⟩ span

theorem quiet_declaredField (a : Adt Ty) (slots : Slots) (node : FieldInit) :
    Quiet Cause.IsSoft (declaredField a slots node) := by
  unfold declaredField
  split
  · exact (quiet_report ⟨rfl, rfl⟩ _).bind fun _ => quiet_pure none
  · split
    · exact (quiet_report ⟨rfl, rfl⟩ _).bind fun _ => quiet_pure none
    · split
      · exact quiet_pure _
      · exact quiet_defect _

theorem quiet_acceptField (f : Field Ty) (slots : Slots) (node : FieldInit) (t : Ty) :
    Quiet Cause.IsSoft (acceptField f slots node t) := by
  refine (quiet_unify f.ty t).bind fun r => ?_
  cases r with
  | ok u => exact (quiet_record _ u).bind fun _ => quiet_pure _
  | error e => exact (quiet_report (Cause.isSoft_ofUnify e) _).bind fun _ => quiet_pure _

theorem quiet_fillFromBase (a : Adt Ty) (base : Expr) (fs : List (Field Ty)) (slots : Slots) :
    Quiet Cause.IsSoft (fillFromBase a base fs slots) :=
  quiet_of_perform fun s => ⟨_, _, perform_fillFromBase a base fs slots s,
    congrArg Sink.errors (Session.sink_synthesizeAll base.span _ s)⟩

end Check

namespace Walk

variable {ν μ α β : Type} {ms ms' : List Moment}

def Traverses (ms : List Moment) (w : Walk ν α) : Prop :=
  ∀ s : Session, s.Ends Cause.IsSoft ms (w s).outcome (w s).session

theorem traverses_leaf {node : ν} {x : Check α} (h : Check.Traverses Cause.IsSoft ms x) :
    Traverses ms (leaf node x) := h

theorem Traverses.mono {w : Walk ν α} (h : Traverses ms w) (hsub : ms.Sublist ms') :
    Traverses ms' w := fun s => (h s).mono hsub

theorem traverses_first {node : ν} {x : Check α} {next : α → Walk ν β}
    (hx : Check.Traverses Cause.IsSoft ms x) (hnext : ∀ a, Traverses ms' (next a)) :
    Traverses (ms ++ ms') (first node x next) := by
  intro s
  have hs := hx s
  rcases first_cases node x next s with ⟨a, s', hrun, heq⟩ | ⟨e, s', hrun, heq⟩
  · rw [hrun] at hs
    rw [heq]
    exact hs.next (hnext a s')
  · rw [hrun] at hs
    rw [heq]
    exact hs.error ms'

/-- A step without a moment of its own. -/
theorem traverses_first_quiet {node : ν} {x : Check α} {next : α → Walk ν β}
    (hsteady : Check.Steady [] x) (hx : Check.Quiet Cause.IsSoft x)
    (hnext : ∀ a, Traverses ms (next a)) : Traverses ms (first node x next) := by
  have hfirst : Check.Traverses Cause.IsSoft [] x := traverses_of_quiet hsteady hx
  exact traverses_first hfirst hnext

theorem traverses_child {w : Walk μ α} {rebuild : μ → ν} {next : μ → α → Walk ν β}
    (hw : Traverses ms w) (hnext : ∀ s a, Traverses ms' (next (w s).node a)) :
    Traverses (ms ++ ms') (child w rebuild next) := by
  intro s
  have hs := hw s
  rcases child_cases w rebuild next s with ⟨a, hrun, heq⟩ | ⟨e, hrun, heq⟩
  · rw [hrun] at hs
    rw [heq]
    exact hs.next (hnext s a _)
  · rw [hrun] at hs
    rw [heq]
    exact hs.error ms'

/-- The last computation for a node, which records its type. -/
theorem traverses_last {node : ν} {x : Check α} {id : NodeId} (hsteady : Check.Steady [id] x)
    (hx : Check.Quiet Cause.IsSoft x) : Traverses [.record id] (leaf node x) :=
  traverses_of_quiet hsteady hx

theorem traverses_pure (node : ν) (a : α) : Traverses [] (leaf node (return a)) :=
  Check.traverses_pure a

/-! ## Nodes and lists of nodes -/

/-- Expressions are rewritten under their marks. -/
theorem gives_mark (e : Expr) : Gives (fun e' => e'.mark = e.mark) e.check := by
  have hleaf {node : Expr} {x : Check Ty} (h : node.mark = e.mark) :
      Gives (fun e' => e'.mark = e.mark) (leaf node x) := gives_leaf h x
  cases e with
  | lit m l => rw [Expr.check]; exact hleaf rfl
  | path m p => rw [Expr.check]; exact hleaf rfl
  | struct m p span fields base =>
      rw [Expr.check_struct]
      exact gives_child (gives_true _) (fun _ _ => rfl) fun _ _ _ => hleaf rfl
  | call m callee args =>
      rw [Expr.check]
      exact gives_child (gives_true _) (fun _ _ => rfl) fun _ _ _ =>
        gives_child (gives_true _) (fun _ _ => rfl) fun _ _ _ => hleaf rfl
  | binary m op l r =>
      rw [Expr.check]
      exact gives_child (gives_true _) (fun _ _ => rfl) fun _ _ _ =>
        gives_child (gives_true _) (fun _ _ => rfl) fun _ _ _ => hleaf rfl
  | assign m l r =>
      rw [Expr.check]
      exact gives_child (gives_true _) (fun _ _ => rfl) fun _ _ _ =>
        gives_child (gives_true _) (fun _ _ => rfl) fun _ _ _ => hleaf rfl
  | _ =>
      rw [Expr.check]
      exact gives_child (gives_true _) (fun _ _ => rfl) fun _ _ _ => hleaf rfl

theorem traverses_checkExprs {es : List Expr} (h : ∀ e ∈ es, Traverses e.moments e.check) :
    Traverses (Expr.momentsAll es) (Expr.checkAll es) := by
  induction es with
  | nil =>
      rw [Expr.checkAll]
      exact traverses_pure [] []
  | cons e es ih =>
      rw [List.forall_mem_cons] at h
      rw [Expr.checkAll, Expr.momentsAll]
      exact traverses_child h.1 fun _ _ => (traverses_child (ih h.2) fun _ _ =>
        traverses_pure _ _).mono (by simp)

theorem traverses_checkStmts {stmts : List Stmt} (hasTail : Bool)
    (h : ∀ s ∈ stmts, Traverses s.moments s.check) :
    Traverses (Stmt.momentsAll stmts) (Stmt.checkAll hasTail stmts) := by
  induction stmts with
  | nil =>
      rw [Stmt.checkAll]
      exact traverses_pure [] none
  | cons stmt rest ih =>
      rw [List.forall_mem_cons] at h
      rw [Stmt.checkAll, Stmt.momentsAll]
      refine traverses_child h.1 fun s t => ?_
      split
      · exact (traverses_pure _ _).mono (List.nil_sublist _)
      · exact traverses_first_quiet (steady_requireUnit _ t) (quiet_requireUnit _ t) fun _ =>
          (traverses_child (ih h.2) fun _ _ => traverses_pure _ _).mono (by simp)

theorem traverses_checkFields {fields : List FieldInit} {a : Adt Ty}
    (h : ∀ f ∈ fields, ∀ slots, Traverses f.moments (f.check a slots)) (slots : Slots) :
    Traverses (FieldInit.momentsAll fields) (FieldInit.checkAll a slots fields) := by
  induction fields generalizing slots with
  | nil =>
      rw [FieldInit.checkAll]
      exact traverses_pure [] slots
  | cons f rest ih =>
      rw [List.forall_mem_cons] at h
      rw [FieldInit.checkAll, FieldInit.momentsAll]
      exact traverses_child (h.1 slots) fun _ slots => (traverses_child (ih h.2 slots) fun _ _ =>
        traverses_pure _ _).mono (by simp)

/-! ## Struct literals -/

/-- A field that cannot be placed is left alone. -/
theorem traverses_placed {node : FieldInit} (a : Adt Ty) (slots : Slots)
    {next : Option (Field Ty) → Walk FieldInit Slots}
    (hnone : next none = leaf node (return slots.fault))
    (hsome : ∀ f, Traverses ms (next (some f))) :
    Traverses ms (first node (declaredField a slots node) next) := by
  refine traverses_first_quiet (steady_declaredField a slots node)
    (quiet_declaredField a slots node) fun r => ?_
  cases r with
  | none =>
      rw [hnone]
      exact (traverses_pure _ _).mono (List.nil_sublist _)
  | some f => exact hsome f

theorem traverses_acceptField (f : Field Ty) (slots : Slots) (node : FieldInit) (t : Ty) :
    Traverses [.record node.mark.id] (leaf node (acceptField f slots node t)) :=
  traverses_last (steady_acceptField f slots t (List.mem_singleton_self _))
    (quiet_acceptField f slots node t)

theorem traverses_orderLiteral (a : Adt Ty) (t : Ty) (slots : Slots) :
    Traverses [] (orderLiteral a t slots) := by
  unfold orderLiteral
  split
  · exact traverses_of_quiet (steady_resolve t) (quiet_resolve t)
  · exact traverses_of_quiet (steady_defect _) (quiet_defect _)

theorem traverses_completeLiteral (a : Adt Ty) (t : Ty) (span : Span) (base : Option Expr)
    (written : List FieldInit) (slots : Slots) :
    Traverses [] (completeLiteral a t span base written slots) := by
  unfold completeLiteral
  split
  · exact traverses_pure _ _
  · split
    · exact traverses_orderLiteral a t slots
    · split
      · exact traverses_of_quiet (steady_reportTyped _ span) (quiet_reportTyped ⟨rfl, rfl⟩ span)
      · exact traverses_first_quiet (steady_fillFromBase a _ _ slots)
          (quiet_fillFromBase a _ _ slots) fun slots => traverses_orderLiteral a t slots

theorem traverses_literalBase {base : Option Expr} (a : Adt Ty)
    (h : ∀ b, base = some b → Traverses b.moments b.check) :
    Traverses (Expr.momentsBase base) (literalBase a base) := by
  cases base with
  | none => exact traverses_pure none _
  | some b =>
      refine traverses_child (h b rfl) fun s t => ?_
      have hspan : (b.check s).node.span = b.span := congrArg Mark.span (gives_mark b s)
      rw [hspan]
      exact Check.traverses_unifyBase a t b.span

theorem traverses_literal {fields : List FieldInit} {base : Option Expr} (path : Path)
    (pathSpan span : Span)
    (hfields : ∀ f ∈ fields, ∀ a slots, Traverses f.moments (f.check a slots))
    (hbase : ∀ b, base = some b → Traverses b.moments b.check) :
    Traverses (path.moments pathSpan ++ (Expr.momentsBase base ++ FieldInit.momentsAll fields))
      (literal path pathSpan span fields base) := by
  refine traverses_first (traverses_structOf path pathSpan) fun a => ?_
  refine traverses_child (traverses_literalBase a hbase) fun _ t => ?_
  have hall := traverses_checkFields (fun f hf => hfields f hf a) (Slots.empty a.size)
  refine Traverses.mono (traverses_child hall fun _ slots =>
    traverses_child (traverses_completeLiteral a t span _ _ slots) fun _ _ =>
      traverses_pure _ _) ?_
  simp

/-! ## The constructors -/

/-- The type of a node is computed and recorded. -/
theorem traverses_typed {node : ν} {x : Check Ty} {id : NodeId}
    (hsteady : Check.Steady [id] x) (hx : Check.Quiet Cause.IsSoft x) :
    Traverses [.record id] (leaf node (x >>= recorded id)) :=
  traverses_last (hsteady.bind fun t => steady_recorded (List.mem_singleton_self id) t)
    (hx.bind fun t => quiet_recorded id t)

variable {κ : Type} {id : NodeId}

/-- A node that has the type of its part, or a fixed one. -/
theorem traverses_around {w : Walk μ α} {rebuild node : μ → ν} {t : α → Ty}
    (hw : Traverses ms w) :
    Traverses (ms ++ [.record id]) (child w rebuild fun n a => leaf (node n) (recorded id (t a))) :=
  traverses_child hw fun _ a => traverses_leaf (traverses_recorded id (t a))

theorem traverses_node {w : Walk μ α} {rebuild node : μ → ν} {x : μ → α → Check Ty}
    (hw : Traverses ms w) (hsteady : ∀ n a, Check.Steady [id] (x n a))
    (hquiet : ∀ n a, Check.Quiet Cause.IsSoft (x n a)) :
    Traverses (ms ++ [.record id])
      (child w rebuild fun n a => leaf (node n) (x n a >>= recorded id)) :=
  traverses_child hw fun _ a => traverses_typed (hsteady _ a) (hquiet _ a)

theorem traverses_pair {w : Walk μ α} {v : Walk κ β} {rebuild : μ → ν} {rebuild' node : μ → κ → ν}
    {x : μ → α → κ → β → Check Ty} (hw : Traverses ms w) (hv : Traverses ms' v)
    (hsteady : ∀ n a k b, Check.Steady [id] (x n a k b))
    (hquiet : ∀ n a k b, Check.Quiet Cause.IsSoft (x n a k b)) :
    Traverses (ms ++ ms' ++ [.record id]) (child w rebuild fun n a =>
      child v (rebuild' n) fun k b => leaf (node n k) (x n a k b >>= recorded id)) := by
  rw [List.append_assoc]
  exact traverses_child hw fun _ a => traverses_node hv (hsteady _ a) (hquiet _ a)

/-- The value of a field is checked once the field has been placed. -/
theorem traverses_value {node : Expr → FieldInit} {value : Expr} {m : Mark} (a : Adt Ty)
    (slots : Slots) (hmark : ∀ e, (node e).mark = m) (h : Traverses value.moments value.check) :
    Traverses (value.moments ++ [.record m.id])
      (first (node value) (declaredField a slots (node value)) fun
        | none => leaf (node value) (return slots.fault)
        | some f => child value.check node fun value t =>
            leaf (node value) (acceptField f slots (node value) t)) := by
  refine traverses_placed a slots rfl fun f => traverses_child h fun s t => ?_
  rw [← hmark (value.check s).node]
  exact traverses_acceptField f slots _ t

/-- A binding is recorded before its statement. -/
theorem traverses_bindingType (annotated : Option Ty) (init : Option (Ty × Span))
    (binding id : NodeId) : Check.Traverses Cause.IsSoft [.record binding, .record id] (do
      record binding (← bindingType annotated init)
      recorded id .unit) := by
  refine .bind_quiet (steady_bindingType annotated init) (quiet_bindingType annotated init)
    fun t => ?_
  exact (traverses_record binding t).bind fun _ => traverses_recorded id .unit

end Walk

section

variable {m : Mark}

theorem Expr.traverses_lit {l : Literal} : Traverses (lit m l).moments (lit m l).check := by
  rw [Expr.check]
  exact traverses_typed (steady_literalType m.span l) (quiet_literalType m.span l)

theorem Expr.traverses_path {p : Path} : Traverses (path m p).moments (path m p).check := by
  rw [Expr.check]
  exact traverses_leaf ((traverses_pathType m.span p).bind fun t => traverses_recorded m.id t)

theorem Expr.traverses_block {b : Block} (ih : Traverses b.moments b.check) :
    Traverses (block m b).moments (block m b).check := by
  rw [Expr.check]
  exact traverses_around ih

theorem Expr.traverses_struct {p : Path} {span : Span} {fields : List FieldInit} {base : Option Expr}
    (ihfields : ∀ f ∈ fields, ∀ a slots, Traverses f.moments (f.check a slots))
    (ihbase : ∀ b, base = some b → Traverses b.moments b.check) :
    Traverses (struct m p span fields base).moments (struct m p span fields base).check := by
  rw [Expr.check_struct]
  exact traverses_around (traverses_literal p span m.span ihfields ihbase)

theorem Expr.traverses_field {base : Expr} {name : String} (ih : Traverses base.moments base.check) :
    Traverses (field m base name).moments (field m base name).check := by
  rw [Expr.check]
  exact traverses_node ih (fun _ t => steady_fieldType m.span name t) fun _ t =>
    quiet_fieldType m.span name t

theorem Expr.traverses_tupleIndex {base : Expr} {index : Nat}
    (ih : Traverses base.moments base.check) :
    Traverses (tupleIndex m base index).moments (tupleIndex m base index).check := by
  rw [Expr.check]
  exact traverses_node ih (fun _ t => steady_fieldType m.span _ t) fun _ t =>
    quiet_fieldType m.span _ t

theorem Expr.traverses_call {callee : Expr} {args : List Expr}
    (ihcallee : Traverses callee.moments callee.check)
    (ihargs : ∀ e ∈ args, Traverses e.moments e.check) :
    Traverses (call m callee args).moments (call m callee args).check := by
  rw [Expr.check]
  exact traverses_pair ihcallee (traverses_checkExprs ihargs)
    (fun _ t _ _ => steady_callType m.span _ t _) fun _ t _ _ => quiet_callType m.span _ t _

theorem Expr.traverses_unary {op : UnOp} {e : Expr} (ih : Traverses e.moments e.check) :
    Traverses (unary m op e).moments (unary m op e).check := by
  rw [Expr.check]
  exact traverses_node ih (fun _ t => steady_unaryType m.span op t) fun _ t =>
    quiet_unaryType m.span op t

theorem Expr.traverses_binary {op : BinOp} {l r : Expr} (ihl : Traverses l.moments l.check)
    (ihr : Traverses r.moments r.check) :
    Traverses (binary m op l r).moments (binary m op l r).check := by
  rw [Expr.check]
  exact traverses_pair ihl ihr (fun _ _ _ _ => steady_binaryType m.span op _ _) fun _ _ _ _ =>
    quiet_binaryType m.span op _ _

theorem Expr.traverses_assign {l r : Expr} (ihl : Traverses l.moments l.check)
    (ihr : Traverses r.moments r.check) :
    Traverses (assign m l r).moments (assign m l r).check := by
  rw [Expr.check_assign]
  exact traverses_pair ihl ihr
    (fun _ t _ u => (steady_unifyAt _ t u).bind fun _ => steady_pure _) fun _ t _ u =>
      (quiet_unifyAt _ t u).bind fun _ => quiet_pure _

theorem Expr.traverses_paren {e : Expr} (ih : Traverses e.moments e.check) :
    Traverses (paren m e).moments (paren m e).check := by
  rw [Expr.check]
  exact traverses_around ih

theorem Block.traverses_mk {stmts : List Stmt} {tail : Option Expr}
    (ihstmts : ∀ n ∈ stmts, Traverses n.moments n.check)
    (ihtail : ∀ e, tail = some e → Traverses e.moments e.check) :
    Traverses (mk m stmts tail).moments (mk m stmts tail).check := by
  cases tail with
  | none =>
      rw [Block.check, Block.moments, Expr.momentsOption, List.append_nil]
      exact traverses_around (traverses_checkStmts false ihstmts)
  | some e =>
      rw [Block.check, Block.moments, List.append_assoc]
      exact traverses_child (traverses_checkStmts true ihstmts) fun _ _ =>
        traverses_around (ihtail e rfl)

theorem Stmt.traverses_bind {binding : NodeId} {name : String} {ty : Option TypeRef}
    {init : Option Expr} (ih : ∀ e, init = some e → Traverses e.moments e.check) :
    Traverses (bind m binding name ty init).moments (bind m binding name ty init).check := by
  rw [Stmt.moments, List.append_assoc, List.append_assoc]
  cases init with
  | none =>
      rw [Stmt.check]
      exact traverses_leaf ((traverses_readOptional .body ty).bind fun annotated =>
        traverses_bindingType annotated none binding m.id)
  | some e =>
      rw [Stmt.check]
      exact traverses_first (traverses_readOptional .body ty) fun annotated =>
        traverses_child (ih e rfl) fun _ t =>
          traverses_leaf (traverses_bindingType annotated _ binding m.id)

theorem Stmt.traverses_expr {e : Expr} (ih : Traverses e.moments e.check) :
    Traverses (expr m e).moments (expr m e).check := by
  rw [Stmt.check]
  exact traverses_around ih

theorem Stmt.traverses_semi {e : Expr} (ih : Traverses e.moments e.check) :
    Traverses (semi m e).moments (semi m e).check := by
  rw [Stmt.check]
  exact traverses_around ih

variable {a : Adt Ty} {slots : Slots}

theorem FieldInit.traverses_named {name : String} {value : Expr}
    (ih : Traverses value.moments value.check) :
    Traverses (named m name value).moments ((named m name value).check a slots) := by
  rw [FieldInit.check]
  exact traverses_value a slots (fun _ => rfl) ih

theorem FieldInit.traverses_index {i : Nat} {value : Expr}
    (ih : Traverses value.moments value.check) :
    Traverses (index m i value).moments ((index m i value).check a slots) := by
  rw [FieldInit.check]
  exact traverses_value a slots (fun _ => rfl) ih

theorem FieldInit.traverses_short {name : String} {res : Option NodeId} :
    Traverses (short m name res).moments ((short m name res).check a slots) := by
  rw [FieldInit.check]
  refine traverses_placed a slots rfl fun f => traverses_leaf ?_
  -- the variable and the field are one node, which is recorded twice
  refine (traverses_pathType m.span _).bind fun t => ?_
  exact traverses_of_quiet ((steady_record (List.mem_singleton_self m.id) t).bind fun _ =>
    steady_acceptField f slots t (List.mem_singleton_self m.id))
    ((quiet_record m.id t).bind fun _ => quiet_acceptField f slots _ t)

end

theorem Walk.traverses_check :
    (∀ e : Expr, Traverses e.moments e.check) ∧ (∀ b : Block, Traverses b.moments b.check) ∧
      (∀ s : Stmt, Traverses s.moments s.check) ∧
      ∀ f : FieldInit, ∀ a slots, Traverses f.moments (f.check a slots) := by
  apply Expr.induct
  case lit => exact fun _ _ => Expr.traverses_lit
  case path => exact fun _ _ => Expr.traverses_path
  case block => exact fun _ _ => Expr.traverses_block
  case struct => exact fun _ _ _ _ _ => Expr.traverses_struct
  case field => exact fun _ _ _ => Expr.traverses_field
  case tupleIndex => exact fun _ _ _ => Expr.traverses_tupleIndex
  case call => exact fun _ _ _ => Expr.traverses_call
  case unary => exact fun _ _ _ => Expr.traverses_unary
  case binary => exact fun _ _ _ _ => Expr.traverses_binary
  case assign => exact fun _ _ _ => Expr.traverses_assign
  case paren => exact fun _ _ => Expr.traverses_paren
  case mk => exact fun _ _ _ => Block.traverses_mk
  case bind => exact fun _ _ _ _ _ => Stmt.traverses_bind
  case expr => exact fun _ _ => Stmt.traverses_expr
  case semi => exact fun _ _ => Stmt.traverses_semi
  case named => exact fun _ _ _ ih _ _ => FieldInit.traverses_named ih
  case index => exact fun _ _ _ ih _ _ => FieldInit.traverses_index ih
  case short => exact fun _ _ _ _ _ => FieldInit.traverses_short

/-! ## How the check of an expression ends -/

/-- Whether one of these errors has the property, and all the others, which come before it, do
not. -/
def OnlyLast (P : Cause → Bool) (errors : List TypeError) : Prop :=
  ∃ before last, errors = before ++ [last] ∧ P last.cause ∧ ∀ e ∈ before, P e.cause = false

/-- The last moment of an expression is its own. -/
theorem Expr.moments_eq_snoc (e : Expr) : ∃ ms, e.moments = ms ++ [.record e.id] := by
  cases e with
  | lit m l => exact ⟨[], rfl⟩
  | _ => exact ⟨_, rfl⟩

theorem not_onlyLast {P : Cause → Bool} {errors : List TypeError}
    (h : ∀ e ∈ errors, P e.cause = false) : ¬OnlyLast P errors := by
  rintro ⟨before, last, rfl, hlast, -⟩
  rw [h last (by simp)] at hlast
  cases hlast

theorem Cause.stopsProgram_of_stopsItem {c : Cause} (h : c.stopsItem) : c.stopsProgram = false := by
  cases c <;> first | rfl | cases h

theorem onlyLast_append {P : Cause → Bool} {errors : List TypeError} {e : TypeError}
    (h : ∀ x ∈ errors, P x.cause = false) : OnlyLast P (errors ++ [e]) ↔ P e.cause := by
  constructor
  · rintro ⟨before, last, heq, hlast, -⟩
    obtain ⟨-, heq⟩ := List.append_inj' heq rfl
    rwa [(List.cons.inj heq).1]
  · exact fun he => ⟨errors, e, rfl, he, h⟩

section

variable {α : Type} {ms : List Moment} {s s' : Session} {outcome : Except Abort α}

/-- Where fatal errors end the program, the last error says which abort it is. -/
theorem Abort.stopsFor_iff {a : Abort} {e : TypeError} (hstrict : s.sink.policy = .strict)
    (h : a.StopsFor s.sink e) :
    (a = .item ↔ e.cause.stopsItem) ∧ (a = .program ↔ e.cause.stopsProgram) := by
  have hfatal : (s.sink.fatal e).1 = .program := by simp [Sink.fatal, hstrict, Policy.strict]
  rcases h with ⟨rfl, he⟩ | ⟨rfl, he⟩
  · simp [he, Cause.stopsProgram_of_stopsItem he]
  · have hitem : e.cause.stopsItem = false := by
      refine Bool.eq_false_iff.2 fun h => ?_
      rw [Cause.stopsProgram_of_stopsItem h] at he
      cases he
    simp [hfatal, he, hitem]

/-- How a check ends, read off the errors that it has reported. -/
theorem Session.Ends.verdict (h : s.Ends Cause.IsSoft ms outcome s')
    (hstrict : s.sink.policy = .strict) :
    ∃ errors, s.Reports s' errors ∧
      (outcome = .error .item ↔ OnlyLast Cause.stopsItem errors) ∧
      (outcome = .error .program ↔ OnlyLast Cause.stopsProgram errors) ∧
      ((∃ t, outcome = .ok t) → ∀ e ∈ errors, e.cause.IsSoft) ∧
      (outcome = .error .item ∨ outcome = .error .program →
        ∃ before after last, errors.getLast? = some last ∧
          ms = before ++ .stop last.span :: after ∧ s.Grows (recordedIds before) s') := by
  cases h with
  | past errors grows reports isSoft ended =>
      have hne {a : Abort} (ha : ∀ d, a ≠ .defect d) : outcome ≠ .error a := fun h => by
        obtain ⟨d, hd⟩ := ended a h
        exact ha d hd
      have hitem : outcome ≠ .error .item := hne (by simp)
      have hprogram : outcome ≠ .error .program := hne (by simp)
      exact ⟨errors, reports, iff_of_false hitem (not_onlyLast fun e he => (isSoft e he).1),
        iff_of_false hprogram (not_onlyLast fun e he => (isSoft e he).2), fun _ => isSoft,
        fun h => h.elim (fun h => (hitem h).elim) fun h => (hprogram h).elim⟩
  | @stopped a _ before after errors e split grows reports isSoft stops =>
      obtain ⟨hitem, hprogram⟩ := Abort.stopsFor_iff hstrict stops
      refine ⟨errors ++ [e], reports, ?_, ?_, by simp, fun _ =>
        ⟨before, after, e, by simp, split, grows⟩⟩
      · rw [onlyLast_append fun x hx => (isSoft x hx).1, ← hitem, Except.error.injEq]
      · rw [onlyLast_append fun x hx => (isSoft x hx).2, ← hprogram, Except.error.injEq]

end

/--
The check of an expression stops the item exactly if it reports one error of the
kinds that stop an item, as its last one, and stops the program exactly if it
reports one error of the kind that stops a program, as its last one. If it gives
a type, it reports neither. Where it stops, the expression itself, every node
around the place where it stopped, and every node that was still to come have no
new type. Excepted are identities that the check has itself given to nodes made
on the way: there are none in an expression whose nodes all have locations.
-/
theorem stops_for_hard_errors (e : Expr) (hnodup : e.ids.Nodup) (s : Session)
    (hstrict : s.sink.policy = .strict) :
    let run := e.check s
    ∃ errors, s.Reports run.session errors ∧
      (run.outcome = .error .item ↔ OnlyLast Cause.stopsItem errors) ∧
      (run.outcome = .error .program ↔ OnlyLast Cause.stopsProgram errors) ∧
      ((∃ t, run.outcome = .ok t) → ∀ x ∈ errors, x.cause.IsSoft) ∧
      (run.outcome = .error .item ∨ run.outcome = .error .program →
        ∃ before after last, errors.getLast? = some last ∧
          e.moments = before ++ .stop last.span :: after ∧ .record e.id ∈ after ∧
          ∀ id, .record id ∈ after →
            run.session.context.types.find? id = s.context.types.find? id ∨
              s.locations.size ≤ id ∧ id < run.session.locations.size) := by
  intro run
  obtain ⟨errors, hreports, hitem, hprogram, hok, hstopped⟩ :=
    (Walk.traverses_check.1 e s).verdict hstrict
  refine ⟨errors, hreports, hitem, hprogram, hok, fun h => ?_⟩
  obtain ⟨before, after, last, hlast, hsplit, hgrows⟩ := hstopped h
  have hwithin : (recordedIds before).Disjoint (recordedIds (.stop last.span :: after)) :=
    Moment.Within.disjoint (hsplit ▸ Expr.within_moments.1 e) hnodup
  refine ⟨before, after, last, hlast, hsplit, ?_, fun id hid => ?_⟩
  · -- the check stops before the last moment
    obtain ⟨ms, hms⟩ := e.moments_eq_snoc
    rw [hms] at hsplit
    rcases List.eq_nil_or_concat' after with rfl | ⟨after, m, rfl⟩
    · cases (List.append_inj' hsplit rfl).2
    · rw [← List.cons_append, ← List.append_assoc] at hsplit
      rw [← (List.append_inj' hsplit rfl).2]
      simp
  · by_contra hchanged
    rw [not_or] at hchanged
    rcases hgrows.changed id hchanged.1 with hbefore | hnew
    · exact hwithin hbefore (mem_recordedIds.2 (List.mem_cons_of_mem _ hid))
    · exact hchanged.2 hnew

/-- A call whose first argument is not resolved stops the item after its callee, and a literal whose
base is of another type stops the program after its base. -/
theorem stops_for_hard_errors_both :
    let s : Session := ⟨Context.initial.insert 0 (.adt ⟨0, "S", .tuple, [], [], none⟩),
      ⟨Array.replicate 9 ⟨0, 1⟩⟩, .fresh⟩
    let call : Expr := .call ⟨5, ⟨0, 9⟩⟩ (.lit ⟨1, ⟨0, 1⟩⟩ (.bool true))
      [.paren ⟨3, ⟨2, 5⟩⟩ (.path ⟨2, ⟨3, 4⟩⟩ (.ident "x" none)), .lit ⟨4, ⟨6, 7⟩⟩ .unit]
    let literal : Expr := .struct ⟨7, ⟨0, 9⟩⟩ (.ident "S" (some 0)) ⟨0, 1⟩ []
      (some (.lit ⟨6, ⟨5, 9⟩⟩ (.bool true)))
    (call.ids.Nodup ∧ (call.check s).outcome = .error .item ∧
        (call.check s).session.context.contains 1 ∧
        (∀ id ∈ [2, 3, 4, 5], (call.check s).session.context.contains id = false) ∧
        ∃ errors, s.Reports (call.check s).session errors ∧ OnlyLast Cause.stopsItem errors) ∧
      literal.ids.Nodup ∧ (literal.check s).outcome = .error .program ∧
        (literal.check s).session.context.contains 6 ∧
        (literal.check s).session.context.contains 7 = false ∧
        ∃ errors, s.Reports (literal.check s).session errors ∧
          OnlyLast Cause.stopsProgram errors := by
  intro s call literal
  have hcall : call.ids.Nodup := by decide +kernel
  have hliteral : literal.ids.Nodup := by decide +kernel
  have hitem : (call.check s).outcome = .error .item := by decide +kernel
  have hprogram : (literal.check s).outcome = .error .program := by decide +kernel
  obtain ⟨errors, hreports, hstops, -⟩ := stops_for_hard_errors call hcall s rfl
  obtain ⟨errors', hreports', -, hstops', -⟩ := stops_for_hard_errors literal hliteral s rfl
  exact ⟨⟨hcall, hitem, by decide +kernel, by decide +kernel, errors, hreports, hstops.1 hitem⟩,
    hliteral, hprogram, by decide +kernel, by decide +kernel, errors', hreports',
    hstops'.1 hprogram⟩

end TypeInference

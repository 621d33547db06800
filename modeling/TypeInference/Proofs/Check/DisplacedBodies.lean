import TypeInference.Check.Item
import TypeInference.Proofs.Check.DisplacedLiterals

/-!
# Bodies at another place

By induction on programs, the check of a body does the same at another place:
it ends in the same way, with the same types up to the numbers of variables.
-/

namespace TypeInference

open Ty Walk Check

namespace Walk

/-! ## What a check keeps of its node -/

/-- Checking expressions keeps how many there are. -/
theorem gives_checkExprs (es : List Expr) : Gives (·.length = es.length) (Expr.checkAll es) := by
  induction es with
  | nil =>
      rw [Expr.checkAll]
      exact fun _ => rfl
  | cons e es ih =>
      rw [Expr.checkAll]
      refine gives_child (gives_true _) (fun _ _ => rfl) fun e _ _ => ?_
      exact gives_child ih (fun _ h => congrArg (· + 1) h) fun _ _ h _ => congrArg (· + 1) h

/-- Checking a statement keeps whether it is an expression. -/
theorem gives_checkStmt (stmt : Stmt) : Gives (·.isExpr = stmt.isExpr) stmt.check := by
  cases stmt with
  | bind m binding name ty init =>
      cases init with
      | none =>
          rw [Stmt.check]
          exact fun _ => rfl
      | some e =>
          rw [Stmt.check]
          exact gives_first rfl fun _ => gives_child (gives_true _) (fun _ _ => rfl) fun _ _ _ _ => rfl
  | expr m e =>
      rw [Stmt.check]
      exact gives_child (gives_true _) (fun _ _ => rfl) fun _ _ _ _ => rfl
  | semi m e =>
      rw [Stmt.check]
      exact gives_child (gives_true _) (fun _ _ => rfl) fun _ _ _ _ => rfl

/-! ## Lists of nodes -/

variable {P : Place} {kinds : List VarKind}

theorem mirrors_checkExprs {es : List Expr}
    (h : ∀ e ∈ es, ∀ kinds, Mirrors P kinds e.check e.check P.Types) :
    Mirrors P kinds (Expr.checkAll es) (Expr.checkAll es) P.TypesAll := by
  induction es generalizing kinds with
  | nil =>
      rw [Expr.checkAll]
      exact mirrors_leaf (mirrors_pure .nil)
  | cons e es ih =>
      rw [Expr.checkAll]
      refine mirrors_child (h e List.mem_cons_self kinds) fun _ _ kinds₁ _ t t' ht => ?_
      refine mirrors_child (ih fun e he => h e (List.mem_cons_of_mem _ he))
        fun _ _ kinds₂ hk ts ts' hts => ?_
      exact mirrors_leaf (mirrors_pure (.cons (ht.mono hk) hts))

theorem mirrors_checkStmts {stmts : List Stmt} (hasTail : Bool)
    (h : ∀ s ∈ stmts, ∀ kinds, Mirrors P kinds s.check s.check P.Types) :
    Mirrors P kinds (Stmt.checkAll hasTail stmts) (Stmt.checkAll hasTail stmts) fun kinds =>
      Option.Rel (P.Types kinds) := by
  induction stmts generalizing kinds with
  | nil =>
      rw [Stmt.checkAll]
      exact mirrors_leaf (mirrors_pure .none)
  | cons stmt rest ih =>
      rw [Stmt.checkAll]
      refine mirrors_child (h stmt List.mem_cons_self kinds) fun s s' kinds₁ _ t t' ht => ?_
      rw [gives_checkStmt stmt s, gives_checkStmt stmt s']
      split
      · exact mirrors_leaf (mirrors_pure (.some ht))
      · refine mirrors_first (mirrors_requireUnit _ _ ht) fun kinds₂ _ _ _ _ => ?_
        refine mirrors_child (ih fun s hs => h s (List.mem_cons_of_mem _ hs))
          fun _ _ kinds₃ _ value value' hvalue => ?_
        exact mirrors_leaf (mirrors_pure hvalue)

/-! ## Nodes -/

/-- The types of arguments, with the spans of as many nodes. -/
theorem types_zip {ts ts' : List Ty} (h : P.TypesAll kinds ts ts') {spans spans' : List Span}
    (hlen : spans'.length = spans.length) :
    List.Forall₂ (fun x x' => P.Types kinds x.1 x'.1) (ts.zip spans) (ts'.zip spans') := by
  induction h generalizing spans spans' with
  | nil => exact .nil
  | cons h _ ih =>
      cases spans with
      | nil =>
          obtain rfl := List.length_eq_zero_iff.1 hlen
          exact .nil
      | cons span spans =>
          obtain ⟨span', spans', rfl⟩ := List.exists_cons_of_length_eq_add_one hlen
          exact .cons h (ih (Nat.succ.inj hlen))

/-- A node whose parts are checked alike, and then its own type is found and recorded. -/
theorem mirrors_typed {ν : Type} {node node' : ν} {id : NodeId} {x y : Check Ty}
    (h : Check.Mirrors P kinds x y P.Types) (hid : P.inScope id) :
    Mirrors P kinds (leaf node (x >>= recorded id)) (leaf node' (y >>= recorded id)) P.Types :=
  mirrors_leaf (h.bind fun _ _ _ _ ht => mirrors_recorded hid ht)

/-- A node of one part whose type is found by a rule. -/
theorem mirrors_node {μ ν α : Type} {w v : Walk μ α} {rebuild rebuild' node node' : μ → ν} {id : NodeId}
    {x y : μ → α → Check Ty} {R : List VarKind → α → α → Prop} (hid : P.inScope id)
    (hw : Mirrors P kinds w v R)
    (hx : ∀ n n' kinds a a', R kinds a a' → Check.Mirrors P kinds (x n a) (y n' a') P.Types) :
    Mirrors P kinds (child w rebuild fun n a => leaf (node n) (x n a >>= recorded id))
      (child v rebuild' fun n a => leaf (node' n) (y n a >>= recorded id)) P.Types :=
  mirrors_child hw fun _ _ kinds _ a a' h => mirrors_typed (hx _ _ kinds a a' h) hid

/-- Whether the walk of these nodes does the same at every place that admits them. -/
def MirrorsAll {ν : Type} (P : Place) (ids : List NodeId) (resolutions : List TypeRes)
    (references : List NodeId) (w : Walk ν Ty) : Prop :=
  P.Admits ids resolutions references → ∀ kinds, Mirrors P kinds w w P.Types

end Walk

section

variable {P : Place} {m : Mark}

theorem Expr.mirrors_lit {l : Literal} :
    MirrorsAll P (lit m l).ids (lit m l).resolutions (lit m l).references (lit m l).check := by
  intro h kinds
  rw [Expr.check]
  exact mirrors_typed (mirrors_literalType m.span l) h.head

theorem Expr.mirrors_path {p : Path} :
    MirrorsAll P (path m p).ids (path m p).resolutions (path m p).references (path m p).check := by
  intro h kinds
  rw [Expr.check]
  exact mirrors_typed (mirrors_pathType m.span h.references h.tail.args) h.head

theorem Expr.mirrors_block {b : Block} (ih : MirrorsAll P b.ids b.resolutions b.references b.check) :
    MirrorsAll P (block m b).ids (block m b).resolutions (block m b).references (block m b).check := by
  intro h kinds
  rw [Expr.check]
  exact mirrors_node h.head (ih h.tail kinds) fun _ _ _ _ _ ht => mirrors_pure ht

theorem Expr.mirrors_struct {p : Path} {span : Span} {fields : List FieldInit} {base : Option Expr}
    (ihfields : ∀ f ∈ fields, MirrorsAll P f.ids f.resolutions f.references f.checkValue)
    (ihbase : ∀ b, base = some b → MirrorsAll P b.ids b.resolutions b.references b.check) :
    MirrorsAll P (struct m p span fields base).ids (struct m p span fields base).resolutions
      (struct m p span fields base).references (struct m p span fields base).check := by
  intro h kinds
  have hparts := h.tail
  have hrest : P.Admits (Expr.idsOption base ++ FieldInit.idsAll fields)
      (Expr.resolutionsOption base ++ FieldInit.resolutionsAll fields)
      (Expr.referencesOption base ++ FieldInit.referencesAll fields) := hparts.right
  have hfields := hrest.right
  rw [FieldInit.idsAll_eq, FieldInit.resolutionsAll_eq, FieldInit.referencesAll_eq] at hfields
  rw [Expr.check_struct]
  refine mirrors_node h.head (mirrors_literal span m.span hparts.left.references hparts.left.args
    (fun f hf => ?_) fun b hb => ?_) fun _ _ _ _ _ ht => mirrors_pure ht
  · have hfield := hfields.member hf
    exact ⟨hfield.ids _ f.mark_mem_ids, ihfields f hf hfield⟩
  · subst hb
    exact ihbase b rfl hrest.left

theorem Expr.mirrors_field {base : Expr} {name : String}
    (ih : MirrorsAll P base.ids base.resolutions base.references base.check) :
    MirrorsAll P (field m base name).ids (field m base name).resolutions
      (field m base name).references (field m base name).check := by
  intro h kinds
  rw [Expr.check]
  exact mirrors_node h.head (ih h.tail kinds) fun _ _ _ _ _ ht => mirrors_fieldType m.span name ht

theorem Expr.mirrors_tupleIndex {base : Expr} {index : Nat}
    (ih : MirrorsAll P base.ids base.resolutions base.references base.check) :
    MirrorsAll P (tupleIndex m base index).ids (tupleIndex m base index).resolutions
      (tupleIndex m base index).references (tupleIndex m base index).check := by
  intro h kinds
  rw [Expr.check]
  exact mirrors_node h.head (ih h.tail kinds) fun _ _ _ _ _ ht => mirrors_fieldType m.span _ ht

theorem Expr.mirrors_call {callee : Expr} {args : List Expr}
    (ihcallee : MirrorsAll P callee.ids callee.resolutions callee.references callee.check)
    (ihargs : ∀ e ∈ args, MirrorsAll P e.ids e.resolutions e.references e.check) :
    MirrorsAll P (call m callee args).ids (call m callee args).resolutions
      (call m callee args).references (call m callee args).check := by
  intro h kinds
  have hparts := h.tail
  have hargs := hparts.right
  rw [Expr.idsAll_eq, Expr.resolutionsAll_eq, Expr.referencesAll_eq] at hargs
  rw [Expr.check]
  refine mirrors_child (ihcallee hparts.left kinds) fun _ _ kinds₁ _ t t' ht => ?_
  refine mirrors_child (mirrors_checkExprs fun e he => ihargs e he (hargs.member he))
    fun s s' kinds₂ hk ts ts' hts => ?_
  refine mirrors_typed (mirrors_callType m.span _ _ (ht.mono hk) (types_zip hts ?_)) h.head
  rw [List.length_map, List.length_map, gives_checkExprs args s, gives_checkExprs args s']

theorem Expr.mirrors_unary {op : UnOp} {e : Expr}
    (ih : MirrorsAll P e.ids e.resolutions e.references e.check) :
    MirrorsAll P (unary m op e).ids (unary m op e).resolutions (unary m op e).references
      (unary m op e).check := by
  intro h kinds
  rw [Expr.check]
  exact mirrors_node h.head (ih h.tail kinds) fun _ _ _ _ _ ht => mirrors_unaryType m.span op ht

theorem Expr.mirrors_binary {op : BinOp} {l r : Expr}
    (ihl : MirrorsAll P l.ids l.resolutions l.references l.check)
    (ihr : MirrorsAll P r.ids r.resolutions r.references r.check) :
    MirrorsAll P (binary m op l r).ids (binary m op l r).resolutions (binary m op l r).references
      (binary m op l r).check := by
  intro h kinds
  have hparts := h.tail
  rw [Expr.check]
  refine mirrors_child (ihl hparts.left kinds) fun _ _ kinds₁ _ t t' ht => ?_
  refine mirrors_child (ihr hparts.right kinds₁) fun _ _ kinds₂ hk u u' hu => ?_
  exact mirrors_typed (mirrors_binaryType m.span op (ht.mono hk) hu) h.head

theorem Expr.mirrors_assign {l r : Expr}
    (ihl : MirrorsAll P l.ids l.resolutions l.references l.check)
    (ihr : MirrorsAll P r.ids r.resolutions r.references r.check) :
    MirrorsAll P (assign m l r).ids (assign m l r).resolutions (assign m l r).references
      (assign m l r).check := by
  intro h kinds
  have hparts := h.tail
  rw [Expr.check_assign]
  refine mirrors_child (ihl hparts.left kinds) fun _ _ kinds₁ _ t t' ht => ?_
  refine mirrors_child (ihr hparts.right kinds₁) fun _ _ kinds₂ hk u u' hu => ?_
  exact mirrors_typed ((mirrors_unifyAt _ _ (ht.mono hk) hu).bind fun _ _ _ _ _ =>
    mirrors_pure Place.types_unit) h.head

theorem Expr.mirrors_paren {e : Expr}
    (ih : MirrorsAll P e.ids e.resolutions e.references e.check) :
    MirrorsAll P (paren m e).ids (paren m e).resolutions (paren m e).references
      (paren m e).check := by
  intro h kinds
  rw [Expr.check]
  exact mirrors_node h.head (ih h.tail kinds) fun _ _ _ _ _ ht => mirrors_pure ht

theorem Block.mirrors_mk {stmts : List Stmt} {tail : Option Expr}
    (ihstmts : ∀ n ∈ stmts, MirrorsAll P n.ids n.resolutions n.references n.check)
    (ihtail : ∀ e, tail = some e → MirrorsAll P e.ids e.resolutions e.references e.check) :
    MirrorsAll P (mk m stmts tail).ids (mk m stmts tail).resolutions (mk m stmts tail).references
      (mk m stmts tail).check := by
  intro h kinds
  have hparts := h.tail
  have hstmts := hparts.left
  rw [Stmt.idsAll_eq, Stmt.resolutionsAll_eq, Stmt.referencesAll_eq] at hstmts
  have hall (hasTail : Bool) : Walk.Mirrors P kinds (Stmt.checkAll hasTail stmts)
      (Stmt.checkAll hasTail stmts) fun kinds => Option.Rel (P.Types kinds) :=
    mirrors_checkStmts hasTail fun n hn => ihstmts n hn (hstmts.member hn)
  cases tail with
  | none =>
      rw [Block.check]
      refine mirrors_node h.head (hall false) fun _ _ _ value value' hvalue => mirrors_pure ?_
      cases hvalue with
      | none => exact Place.types_unit
      | some ht => exact ht
  | some e =>
      rw [Block.check]
      refine mirrors_child (hall true) fun _ _ kinds₁ _ _ _ _ => ?_
      exact mirrors_node h.head (ihtail e rfl hparts.right kinds₁) fun _ _ _ _ _ ht =>
        mirrors_pure ht

/-- Whatever the type of a binding is, it is recorded, and the statement is unit. -/
theorem Check.mirrors_bound {kinds : List VarKind} {binding id : NodeId} (hbinding : P.inScope binding)
    (hid : P.inScope id) {annotated annotated' : Option Ty} {init init' : Option (Ty × Span)}
    (hannotated : Option.Rel (P.Types kinds) annotated annotated')
    (hinit : Option.Rel (fun i i' => P.Types kinds i.1 i'.1) init init') :
    Mirrors P kinds (do record binding (← bindingType annotated init); recorded id .unit)
      (do record binding (← bindingType annotated' init'); recorded id .unit) P.Types :=
  (mirrors_bindingType hannotated hinit).bind fun _ _ _ _ ht =>
    (mirrors_record hbinding ht).bind fun _ _ _ _ _ => mirrors_recorded hid Place.types_unit

theorem Stmt.mirrors_bind {binding : NodeId} {name : String} {ty : Option TypeRef}
    {init : Option Expr}
    (ih : ∀ e, init = some e → MirrorsAll P e.ids e.resolutions e.references e.check) :
    MirrorsAll P (bind m binding name ty init).ids (bind m binding name ty init).resolutions
      (bind m binding name ty init).references (bind m binding name ty init).check := by
  intro h kinds
  have hparts := h.tail
  have hty : ∀ u, ty = some u → P.AdmitsType u := by
    rintro u rfl
    exact hparts.tail.mono (List.subset_append_left _ _) (List.subset_append_left _ _)
      (List.nil_subset _)
  cases init with
  | none =>
      rw [Stmt.check]
      exact mirrors_leaf ((mirrors_readOptional hty).bind fun _ _ _ _ hr =>
        mirrors_bound hparts.head h.head hr .none)
  | some e =>
      have he : P.Admits e.ids e.resolutions e.references := hparts.tail.mono
        (List.subset_append_right _ _) (List.subset_append_right _ _) (List.Subset.refl _)
      rw [Stmt.check]
      refine mirrors_first (mirrors_readOptional hty) fun kinds₁ _ r r' hr => ?_
      refine mirrors_child (ih e rfl he kinds₁) fun _ _ kinds₂ hk t t' ht => mirrors_leaf ?_
      refine mirrors_bound hparts.head h.head ?_ (.some ht)
      cases hr with
      | none => exact .none
      | some hr => exact .some (hr.mono hk)

theorem Stmt.mirrors_expr {e : Expr} (ih : MirrorsAll P e.ids e.resolutions e.references e.check) :
    MirrorsAll P (expr m e).ids (expr m e).resolutions (expr m e).references (expr m e).check := by
  intro h kinds
  rw [Stmt.check]
  exact mirrors_node h.head (ih h.tail kinds) fun _ _ _ _ _ ht => mirrors_pure ht

theorem Stmt.mirrors_semi {e : Expr} (ih : MirrorsAll P e.ids e.resolutions e.references e.check) :
    MirrorsAll P (semi m e).ids (semi m e).resolutions (semi m e).references (semi m e).check := by
  intro h kinds
  rw [Stmt.check]
  exact mirrors_node h.head (ih h.tail kinds) fun _ _ _ _ _ _ => mirrors_pure Place.types_unit

theorem FieldInit.mirrors_named {name : String} {e : Expr}
    (ih : MirrorsAll P e.ids e.resolutions e.references e.check) :
    MirrorsAll P (named m name e).ids (named m name e).resolutions (named m name e).references
      (named m name e).checkValue :=
  fun h kinds => mirrors_child (ih h.tail kinds) fun _ _ _ _ _ _ ht => mirrors_leaf (mirrors_pure ht)

theorem FieldInit.mirrors_index {i : Nat} {e : Expr}
    (ih : MirrorsAll P e.ids e.resolutions e.references e.check) :
    MirrorsAll P (index m i e).ids (index m i e).resolutions (index m i e).references
      (index m i e).checkValue :=
  fun h kinds => mirrors_child (ih h.tail kinds) fun _ _ _ _ _ _ ht => mirrors_leaf (mirrors_pure ht)

theorem FieldInit.mirrors_short {name : String} {res : Option NodeId} :
    MirrorsAll P (short m name res).ids (short m name res).resolutions (short m name res).references
      (short m name res).checkValue :=
  fun h _ => mirrors_typed (mirrors_pathType m.span h.references (by simp [Path.ident, Path.args]))
    h.head

end

/-! ## Programs -/

/-- A node is checked alike at every place that admits it, by induction on programs. -/
theorem Walk.mirrors_check (P : Place) :
    (∀ e : Expr, MirrorsAll P e.ids e.resolutions e.references e.check) ∧
      (∀ b : Block, MirrorsAll P b.ids b.resolutions b.references b.check) ∧
      (∀ n : Stmt, MirrorsAll P n.ids n.resolutions n.references n.check) ∧
      ∀ f : FieldInit, MirrorsAll P f.ids f.resolutions f.references f.checkValue := by
  apply Expr.induct
  case lit => exact fun _ _ => Expr.mirrors_lit
  case path => exact fun _ _ => Expr.mirrors_path
  case block => exact fun _ _ => Expr.mirrors_block
  case struct => exact fun _ _ _ _ _ => Expr.mirrors_struct
  case field => exact fun _ _ _ => Expr.mirrors_field
  case tupleIndex => exact fun _ _ _ => Expr.mirrors_tupleIndex
  case call => exact fun _ _ _ => Expr.mirrors_call
  case unary => exact fun _ _ _ => Expr.mirrors_unary
  case binary => exact fun _ _ _ _ => Expr.mirrors_binary
  case assign => exact fun _ _ _ => Expr.mirrors_assign
  case paren => exact fun _ _ => Expr.mirrors_paren
  case mk => exact fun _ _ _ => Block.mirrors_mk
  case bind => exact fun _ _ _ _ _ => Stmt.mirrors_bind
  case expr => exact fun _ _ => Stmt.mirrors_expr
  case semi => exact fun _ _ => Stmt.mirrors_semi
  case named => exact fun _ _ _ => FieldInit.mirrors_named
  case index => exact fun _ _ _ => FieldInit.mirrors_index
  case short => exact fun _ _ _ => FieldInit.mirrors_short

/-! ## Items -/

namespace Check

variable {P : Place} {kinds : List VarKind}

/-- A type that is no function is read as one at neither place. -/
theorem mirrors_returnType {id : NodeId} (hid : P.inScope id) :
    Mirrors P kinds (returnType id) (returnType id) P.Types := by
  refine (mirrors_lookup hid).bind fun kinds₁ _ r r' hr => ?_
  obtain ⟨hwell, rfl⟩ := hr
  rcases r with _ | t
  · exact mirrors_throw _
  · cases t with
    | fn ps ret =>
        obtain ⟨heq, -, hret⟩ := Place.types_fn (P := P) ⟨hwell _ rfl, rfl⟩
        rw [Option.map_some, heq]
        exact mirrors_pure (Place.types_ty hret)
    | adt a =>
        rw [Option.map_some, Place.ty_adt]
        exact mirrors_throw _
    | _ => exact mirrors_throw _

theorem mirrors_constType {id : NodeId} (hid : P.inScope id) :
    Mirrors P kinds (constType id) (constType id) P.Types := by
  refine (mirrors_lookup hid).bind fun kinds₁ _ r r' hr => ?_
  obtain ⟨hwell, rfl⟩ := hr
  cases r with
  | none => exact mirrors_throw _
  | some t => exact mirrors_pure (Place.types_ty (hwell t rfl))

theorem mirrors_requireType (span span' : Span) {t t' u u' : Ty} (ht : P.Types kinds t t')
    (hu : P.Types kinds u u') :
    Mirrors P kinds (requireType span t u) (requireType span' t' u') fun _ _ _ => True :=
  (mirrors_unifyAt span span' ht hu).bind fun _ _ _ _ _ => mirrors_pure trivial

end Check

/-- An item is checked alike at every place that admits its body and where it is in scope itself. -/
theorem Item.mirrors_check {P : Place} (item : Item) (hid : P.inScope item.id)
    (hbody : P.Admits item.bodyIds item.kind.bodyResolutions item.kind.references)
    (kinds : List VarKind) : Walk.Mirrors P kinds item.check item.check fun _ _ _ => True := by
  unfold Item.check
  unfold Item.bodyIds at hbody
  cases hkind : item.kind with
  | struct decl => exact mirrors_leaf (mirrors_pure trivial)
  | fn decl =>
      rw [hkind] at hbody
      refine mirrors_first (mirrors_returnType hid) fun kinds₁ _ ret ret' hret => ?_
      refine mirrors_child ((Walk.mirrors_check P).2.1 decl.body hbody kinds₁)
        fun _ _ kinds₂ hk t t' ht => ?_
      exact mirrors_leaf (mirrors_requireType _ _ (hret.mono hk) ht)
  | const decl =>
      rw [hkind] at hbody
      refine mirrors_first (mirrors_constType hid) fun kinds₁ _ u u' hu => ?_
      refine mirrors_child ((Walk.mirrors_check P).1 decl.value hbody kinds₁)
        fun _ _ kinds₂ hk t t' ht => ?_
      exact mirrors_leaf (mirrors_requireType _ _ (hu.mono hk) ht)

end TypeInference

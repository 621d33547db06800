import TypeInference.Proofs.Check.Operators
import TypeInference.Proofs.Check.Soundness
import TypeInference.Proofs.Check.Unchanged

/-!
# What operators are applied to in the end

The operands of an operator end up with the type that was recorded for it, as
the bindings complete it. If that type was known well enough when the operator
was checked, the operator suits it.
-/

namespace TypeInference

open Ty Walk Check

/-! ## Typed operators -/

/-- Whether the operands have the type of the operation. -/
def Operation.Agrees (T : Typing) (o : Operation) : Prop := ∀ id ∈ o.operands, T id = T o.id

variable {T : Typing} {names : Path → Ty → Prop}

theorem agrees_of_allTyped {es : List Expr}
    (h : ∀ e ∈ es, e.Typed T names → ∀ o ∈ e.operations, o.Agrees T)
    (hes : Expr.AllTyped T names es) : ∀ o ∈ Expr.operationsAll es, o.Agrees T := by
  induction es with
  | nil => simp [Expr.operationsAll]
  | cons e es ih =>
      rw [List.forall_mem_cons] at h
      rw [Expr.operationsAll, List.forall_mem_append]
      exact ⟨h.1 hes.1, ih h.2 hes.2⟩

theorem agrees_of_optionTyped {e : Option Expr} {t : Option Ty}
    (h : ∀ b, e = some b → b.Typed T names → ∀ o ∈ b.operations, o.Agrees T)
    (he : Expr.OptionTyped T names t e) : ∀ o ∈ Expr.operationsOption e, o.Agrees T := by
  cases e with
  | none => simp [Expr.operationsOption]
  | some b => exact h b rfl he.1

theorem agrees_of_stmtsTyped {stmts : List Stmt} {hasTail : Bool}
    (h : ∀ s ∈ stmts, s.Typed T names → ∀ o ∈ s.operations, o.Agrees T)
    (hstmts : Stmt.AllTyped T names hasTail stmts) :
    ∀ o ∈ Stmt.operationsAll stmts, o.Agrees T := by
  induction stmts with
  | nil => simp [Stmt.operationsAll]
  | cons s rest ih =>
      rw [List.forall_mem_cons] at h
      rw [Stmt.operationsAll, List.forall_mem_append]
      exact ⟨h.1 hstmts.1, ih h.2 hstmts.2.2⟩

theorem agrees_of_fieldsTyped {fields : List FieldInit} {fs : List (Field Ty)}
    (h : ∀ n ∈ fields, ∀ f, n.TypedAs T names f → ∀ o ∈ n.operations, o.Agrees T)
    (hfields : FieldInit.AllTyped T names fs fields) :
    ∀ o ∈ FieldInit.operationsAll fields, o.Agrees T := by
  induction fields generalizing fs with
  | nil => simp [FieldInit.operationsAll]
  | cons n rest ih =>
      rw [List.forall_mem_cons] at h
      rw [FieldInit.operationsAll, List.forall_mem_append]
      cases fs with
      | nil => exact hfields.elim
      | cons f fs => exact ⟨h.1 f hfields.1, ih h.2 hfields.2⟩

/-- Only arithmetic is about operands of its own type. -/
theorem agrees_of_binaryTyped {m : Mark} {op : BinOp} {l r : Expr}
    (h : (Expr.binary m op l r).Typed T names) : (Operation.binary m.id op l.id r.id).Agrees T := by
  obtain ⟨-, -, hsame, hrule⟩ := h
  intro id hid
  rw [Operation.operands] at hid
  split at hid
  · rename_i harith
    simp only [BinOp.isArithmetic, Bool.and_eq_true, Bool.not_eq_true'] at harith
    rw [if_neg (by simp [harith.1]), if_neg (by simp [harith.2])] at hrule
    simp only [List.mem_cons, List.not_mem_nil, or_false] at hid
    rcases hid with rfl | rfl
    · exact hrule.symm
    · exact (hrule.trans hsame).symm
  · cases hid

/-- In a valid typing operators agree with their operands, by induction on programs. -/
theorem agrees_of_typed :
    (∀ e : Expr, e.Typed T names → ∀ o ∈ e.operations, o.Agrees T) ∧
      (∀ b : Block, b.Typed T names → ∀ o ∈ b.operations, o.Agrees T) ∧
      (∀ s : Stmt, s.Typed T names → ∀ o ∈ s.operations, o.Agrees T) ∧
      ∀ (n : FieldInit) f, n.TypedAs T names f → ∀ o ∈ n.operations, o.Agrees T := by
  apply Expr.induct
  case lit => exact fun m l _ => by simp [Expr.operations]
  case path => exact fun m p _ => by simp [Expr.operations]
  case block => exact fun m b ih h => ih h.1
  case struct =>
    intro m p span fields base ihfields ihbase h
    obtain ⟨a, -, -, hfields, hbase⟩ := h
    rw [Expr.operations, List.forall_mem_append]
    exact ⟨agrees_of_optionTyped ihbase hbase, agrees_of_fieldsTyped ihfields hfields⟩
  case field => exact fun m base name ih h => ih h.1
  case tupleIndex => exact fun m base index ih h => ih h.1
  case call =>
    intro m callee args ihcallee ihargs h
    rw [Expr.operations, List.forall_mem_append]
    exact ⟨ihcallee h.1, agrees_of_allTyped ihargs h.2.1⟩
  case unary =>
    intro m op e ih h
    rw [Expr.operations, List.forall_mem_cons]
    exact ⟨List.forall_mem_singleton.2 h.2.symm, ih h.1⟩
  case binary =>
    intro m op l r ihl ihr h
    rw [Expr.operations, List.forall_mem_cons, List.forall_mem_append]
    exact ⟨agrees_of_binaryTyped h, ihl h.1, ihr h.2.1⟩
  case assign =>
    intro m l r ihl ihr h
    rw [Expr.operations, List.forall_mem_append]
    exact ⟨ihl h.1, ihr h.2.1⟩
  case paren => exact fun m e ih h => ih h.1
  case mk =>
    intro m stmts tail ihstmts ihtail h
    rw [Block.operations, List.forall_mem_append]
    exact ⟨agrees_of_stmtsTyped ihstmts h.1, agrees_of_optionTyped ihtail h.2.1⟩
  case bind => exact fun m binding name ty init ih h => agrees_of_optionTyped ih h.2.2.2
  case expr => exact fun m e ih h => ih h.1
  case semi => exact fun m e ih h => ih h.1
  case named => exact fun m name e ih f h => ih h.1
  case index => exact fun m i e ih f h => ih h.1
  case short => exact fun m name res f _ => by simp [FieldInit.operations]

/-! ## Types that operators allow -/

section

variable {t : Ty} {kinds : List VarKind} {σ : VarId → Ty}

theorem Prim.isSigned_of_isFloat {p : Prim} (h : p.isFloat) : p.isSigned := by
  cases p <;> simp_all [Prim.isFloat, Prim.isSigned]

/-- What is an integer, or only stands for one, becomes one. -/
theorem Ty.exists_integral_subst (hkind : t.HasKind kinds) (hσ : RespectsKinds kinds σ)
    (hconcrete : (t.subst σ).isConcrete) (ht : t.isIntegral) :
    ∃ p : Prim, t.subst σ = .prim p ∧ p.isIntegral := by
  refine isIntegral_of_concrete hconcrete ?_
  cases t with
  | prim p => exact ht
  | infer k v =>
      cases k with
      | integral => exact hσ v .integral hkind
      | _ => simp [isIntegral] at ht
  | _ => simp [isIntegral] at ht

theorem Ty.exists_float_subst (hkind : t.HasKind kinds) (hσ : RespectsKinds kinds σ)
    (hconcrete : (t.subst σ).isConcrete) (ht : t.isFloat) :
    ∃ p : Prim, t.subst σ = .prim p ∧ p.isFloat := by
  refine isFloat_of_concrete hconcrete ?_
  cases t with
  | prim p => exact ht
  | infer k v =>
      cases k with
      | float => exact hσ v .float hkind
      | _ => simp [isFloat] at ht
  | _ => simp [isFloat] at ht

theorem Operation.IsSettledBy.isGeneralVar_eq_false {o : Operation} (h : o.IsSettledBy t) :
    t.isGeneralVar = false := by
  cases t with
  | infer k v =>
      cases k with
      | general => exact h.elim
      | _ => rfl
  | _ => rfl

/-- Beyond what is not known, negation is for numbers with a sign or of a kind to be found out. -/
theorem UnOp.supports_neg (h : neg.supports t) (herror : t ≠ .error) (hvar : t.isGeneralVar = false) :
    (∃ p : Prim, t = .prim p ∧ p.isSigned) ∨ (∃ v, t = .infer .integral v) ∨ t.isFloat := by
  cases t with
  | prim p => exact .inl ⟨p, rfl, h⟩
  | infer k v =>
      cases k with
      | general => cases hvar
      | integral => exact .inr (.inl ⟨v, rfl⟩)
      | float => exact .inr (.inr rfl)
  | error => exact (herror rfl).elim
  | _ => cases h

theorem UnOp.supports_not (h : not.supports t) (herror : t ≠ .error) (hvar : t.isGeneralVar = false) :
    t = .prim .bool ∨ t.isIntegral := by
  unfold supports at h
  split at h
  · exact (herror rfl).elim
  · cases hvar
  all_goals simp_all

/-- What a type that the operator allows becomes, if it is known well enough. -/
theorem Operation.suits_subst {o : Operation} (hallows : o.Allows t) (hsettled : o.IsSettledBy t)
    (hoperands : o.operands ≠ []) (herror : t ≠ .error) (hkind : t.HasKind kinds)
    (hσ : RespectsKinds kinds σ) (hconcrete : (t.subst σ).isConcrete) : o.Suits (t.subst σ) := by
  have hintegral := exists_integral_subst hkind hσ hconcrete
  have hfloat := exists_float_subst hkind hσ hconcrete
  have hvar := hsettled.isGeneralVar_eq_false
  cases o with
  | unary id op operand =>
      cases op with
      | neg =>
          rcases UnOp.supports_neg hallows herror hvar with ⟨p, rfl, hp⟩ | ⟨v, rfl⟩ | hf
          · exact ⟨p, rfl, hp⟩
          · exact hsettled.elim
          · obtain ⟨p, hp, hpfloat⟩ := hfloat hf
            exact ⟨p, hp, p.isSigned_of_isFloat hpfloat⟩
      | not =>
          rcases UnOp.supports_not hallows herror hvar with rfl | hi
          · exact .inl rfl
          · exact .inr (hintegral hi)
  | binary id op lhs rhs =>
      have harith : op.isArithmetic := by
        by_contra h
        simp [operands, h] at hoperands
      rcases hallows harith with h | h | h
      · cases t with
        | error => exact (herror rfl).elim
        | _ => cases h
      · rcases Bool.or_eq_true_iff.1 h with hi | hf
        · obtain ⟨p, hp, hpi⟩ := hintegral hi
          exact ⟨p, hp, .inl hpi⟩
        · obtain ⟨p, hp, hpf⟩ := hfloat hf
          exact ⟨p, hp, .inr hpf⟩
      · cases hvar.symm.trans h

end

/-! ## Programs -/

theorem Item.supports_check {s : Session} (item : Item) (hfresh : s.Fresh item.bodyIds) :
    Walk.Supports s item.check item.bodyIds fun item => item.kind.operations := by
  unfold Item.check
  unfold Item.bodyIds at hfresh ⊢
  cases hkind : item.kind with
  | struct decl =>
      refine supports_leaf (steady_pure ()) ?_
      rw [hkind]
      exact Session.supports_nil _ _
  | fn decl =>
      rw [hkind] at hfresh
      refine supports_first (steady_returnType item.id) fun ret s' hgrows => ?_
      refine supports_child (l := []) (Walk.supports_check.2.1 decl.body s' (hfresh.after hgrows))
        (fun t => steady_leaf (steady_requireType _ ret t)) fun t hbody => ?_
      exact supports_leaf (steady_requireType _ ret t) hbody
  | const decl =>
      rw [hkind] at hfresh
      refine supports_first (steady_constType item.id) fun u s' hgrows => ?_
      refine supports_child (l := []) (Walk.supports_check.1 decl.value s' (hfresh.after hgrows))
        (fun t => steady_leaf (steady_requireType _ u t)) fun t hvalue => ?_
      exact supports_leaf (steady_requireType _ u t) hvalue

namespace Program

/-- Where nothing is reported, the operators of all bodies are supported. -/
theorem supports_checkAll {s : Session} {items : List Item}
    (hfresh : s.Fresh (items.flatMap Item.bodyIds)) (hended : (checkAll items s).2.1 = .ok ())
    (herrors : (checkAll items s).2.2.sink.errors = []) :
    (checkAll items s).2.2.Supports (items.flatMap Item.bodyIds)
      (Program.operations ⟨(checkAll items s).1⟩) := by
  unfold Program.operations
  induction items generalizing s with
  | nil => exact s.supports_nil _
  | cons item rest ih =>
      obtain ⟨hok, heq⟩ := checkAll_cons_of_errors hended herrors
      rw [heq] at hended herrors ⊢
      rw [List.flatMap_cons] at hfresh ⊢
      have hdisjoint := List.disjoint_of_nodup_append hfresh.nodup
      obtain ⟨hfirst, hrest⟩ := hfresh.split
      have hgrows := grows_checkAll rest (item.check s).session
      have hitem := item.supports_check hfirst () hok (hgrows.errors_eq_nil herrors)
      rw [List.flatMap_cons]
      exact (hitem.after hgrows hdisjoint).append
        (ih (hrest _ (item.steady_check.grows s)) hended herrors)

/-- In a valid typing of a program operators agree with their operands. -/
theorem Typed.agrees {p : Program} (h : p.Typed T names) : ∀ o ∈ p.operations, o.Agrees T := by
  intro o ho
  obtain ⟨item, hitem, ho⟩ := List.mem_flatMap.1 ho
  have htyped := h item hitem
  unfold Item.Typed at htyped
  cases hkind : item.kind with
  | struct decl => simp [hkind, ItemKind.operations] at ho
  | fn decl =>
      rw [hkind] at ho htyped
      exact agrees_of_typed.2.1 decl.body htyped.1 o ho
  | const decl =>
      rw [hkind] at ho htyped
      exact agrees_of_typed.1 decl.value htyped.1 o ho

/--
In a lowerable program, an operator whose operands were known well enough when
it was checked suits the types that they have in the end. What was known is the
type that the body pass recorded for the operator.
-/
theorem suits_of_settled {p : Program} {locations : Locations} (hnodup : p.ids.Nodup)
    (hlocated : ∀ id ∈ p.ids, id < locations.size)
    (hok : (p.check locations .fresh).outcome = .ok .lowerable) :
    let c := p.check locations .fresh
    let s := (p.bodyPass (p.signaturePass (.start locations .fresh)).session).session
    ∀ o ∈ c.program.operations, ∃ known, s.context.types.find? o.id = some known ∧
      (o.IsSettledBy known → ∀ id ∈ o.operands, ∃ t, c.typeOf id = some t ∧ o.Suits t) := by
  intro c s
  obtain ⟨d, items, s', hdeclare, herrors₁, hcheck, herrors₂, -, herrors₃, hprogram, hsession⟩ :=
    passes_of_lowerable hok
  have hs : s = s' := by
    show (checkAll p.items (p.declareAll p.items _).2.session).2.2 = s'
    rw [hdeclare, hcheck]
  obtain ⟨kinds₁, hsound₁, hfresh⟩ := sound_signatures hnodup hlocated hdeclare herrors₁
  have hlead := leads_checkAll p.shapes_isIndexed hsound₁ hfresh
  have hsupports := supports_checkAll hfresh
  rw [hcheck] at hlead hsupports
  obtain ⟨kinds₂, hlead, htyped⟩ := hlead rfl herrors₂
  have hagrees := (typed_applyDefaults hlead.sound herrors₃ hprogram hsession htyped).agrees
  obtain ⟨σ, hσ⟩ : ∃ σ, Solution kinds₂ s' c.typeOf σ := by
    have hsolution := solution_applyDefaults hlead.sound herrors₃
    have htypeOf : c.typeOf = (applyDefaults.perform s').2.context.lookup :=
      congrArg (fun s : Session => s.context.lookup) hsession
    rw [htypeOf]
    exact ⟨_, hsolution⟩
  rw [hs]
  intro o ho
  obtain ⟨-, -, known, hknown, hallows⟩ := hsupports rfl herrors₂ o (by rwa [← hprogram])
  have hfine := hlead.sound.types o.id known hknown
  have htype := hσ.types o.id known hknown
  refine ⟨known, hknown, fun hsettled id hid => ⟨_, (hagrees o ho id hid).trans htype, ?_⟩⟩
  exact o.suits_subst hallows hsettled (List.ne_nil_of_mem hid) hfine.proper.root.2
    hfine.wellKinded.root hσ.respects (hσ.concrete o.id _ htype)

/-- A function that negates its argument: what is known of the operand is the type of the argument. -/
theorem suits_of_settled_parameter :
    let operand : Expr := .path ⟨2, ⟨2, 3⟩⟩ (.ident "x" (some 1))
    let p : Program := ⟨[⟨⟨6, ⟨6, 7⟩⟩, "f", .fn ⟨
      [⟨⟨1, ⟨1, 2⟩⟩, "x", .path ⟨0, ⟨0, 1⟩⟩ "i64" (some .builtin) []⟩], none,
        .mk ⟨5, ⟨5, 6⟩⟩ [.semi ⟨4, ⟨4, 5⟩⟩ (.unary ⟨3, ⟨3, 4⟩⟩ .neg operand)] none⟩⟩]⟩
    let locations : Locations := ⟨Array.replicate 7 ⟨0, 1⟩⟩
    let c := p.check locations .fresh
    p.ids.Nodup ∧ (∀ id ∈ p.ids, id < locations.size) ∧ c.outcome = .ok .lowerable ∧
      ∃ t, c.typeOf 2 = some t ∧ (Operation.unary 3 .neg 2).Suits t := by
  intro operand p locations c
  have hnodup : p.ids.Nodup := by decide +kernel
  have hlocated : ∀ id ∈ p.ids, id < locations.size := by decide +kernel
  have hok : c.outcome = .ok .lowerable := by decide +kernel
  have hmem : Operation.unary 3 .neg 2 ∈ c.program.operations := by
    rw [show c.program = p from program_check (by decide +kernel) _ _]
    exact List.mem_cons_self
  have hknown : (p.bodyPass (p.signaturePass (.start locations .fresh)).session).session.context.types.find?
      3 = some (.prim .i64) := by decide +kernel
  obtain ⟨known, hfind, hsuits⟩ := suits_of_settled hnodup hlocated hok _ hmem
  obtain rfl := Option.some.inj (hknown.symm.trans hfind)
  exact ⟨hnodup, hlocated, hok, hsuits trivial 2 (List.mem_singleton_self 2)⟩

/-- The operand of a negation may turn out to be an integer without a sign, when it is known only
later which one it is: `fn f() { let x: u8 = -1; }`. -/
theorem not_suits_of_late_annotation :
    let init : Expr := .unary ⟨2, ⟨2, 3⟩⟩ .neg (.lit ⟨1, ⟨1, 2⟩⟩ (.int 1 none))
    let p : Program := ⟨[⟨⟨6, ⟨6, 7⟩⟩, "f", .fn ⟨[], none, .mk ⟨5, ⟨5, 6⟩⟩
      [.bind ⟨4, ⟨4, 5⟩⟩ 3 "x" (some (.path ⟨0, ⟨0, 1⟩⟩ "u8" (some .builtin) [])) (some init)] none⟩⟩]⟩
    let locations : Locations := ⟨Array.replicate 7 ⟨0, 1⟩⟩
    let c := p.check locations .fresh
    p.ids.Nodup ∧ (∀ id ∈ p.ids, id < locations.size) ∧ c.outcome = .ok .lowerable ∧
      Operation.unary 2 .neg 1 ∈ c.program.operations ∧
      ¬∃ t, c.typeOf 1 = some t ∧ (Operation.unary 2 .neg 1).Suits t := by
  intro init p locations c
  refine ⟨by decide +kernel, by decide +kernel, by decide +kernel, ?_, ?_⟩
  · rw [show c.program = p from program_check (by decide +kernel) _ _]
    exact List.mem_cons_self
  · have htype : c.typeOf 1 = some (.prim .u8) := by decide +kernel
    rintro ⟨t, ht, q, rfl, hsigned⟩
    obtain rfl := Ty.prim.inj (Option.some.inj (htype.symm.trans ht))
    cases hsigned

end Program

end TypeInference

import TypeInference.Proofs.Check.TypedLiteral

/-!
# Checked bodies are typed in every solution

By induction on programs: if the check of fresh nodes succeeds and reports
nothing, every solution of the session that it leaves types the nodes validly,
those that were written and those that were added.
-/

namespace TypeInference

open Ty Walk Check

/-! ## What the check of a node infers -/

def Expr.Infers (shapes : NodeId → Shape) (e : Expr) : Prop :=
  ∀ {kinds s}, s.Sound shapes kinds → s.Fresh e.ids →
    Walk.Derives shapes kinds s e.check (fun kinds _ t => t.Fine shapes kinds) fun n t T σ =>
      T n.id = some (t.subst σ) ∧ n.Typed T (Path.Names T (ParamFree σ))

def Block.Infers (shapes : NodeId → Shape) (b : Block) : Prop :=
  ∀ {kinds s}, s.Sound shapes kinds → s.Fresh b.ids →
    Walk.Derives shapes kinds s b.check (fun kinds _ t => t.Fine shapes kinds) fun n t T σ =>
      T n.mark.id = some (t.subst σ) ∧ n.Typed T (Path.Names T (ParamFree σ))

def Stmt.Infers (shapes : NodeId → Shape) (stmt : Stmt) : Prop :=
  ∀ {kinds s}, s.Sound shapes kinds → s.Fresh stmt.ids →
    Walk.Derives shapes kinds s stmt.check (fun kinds _ t => t.Fine shapes kinds) fun n t T σ =>
      T n.mark.id = some (t.subst σ) ∧ n.Typed T (Path.Names T (ParamFree σ))

/-- The node of a field is typed once it is known which declared field it is for. It has no type yet,
or that of its value. -/
def FieldInit.Infers (shapes : NodeId → Shape) (f : FieldInit) : Prop :=
  ∀ {kinds s}, s.Sound shapes kinds → s.Fresh f.ids →
    Walk.Derives shapes kinds s f.checkValue
      (fun kinds _ t => t.Fine shapes kinds ∧ ∀ u,
        (f.checkValue s).session.context.types.find? f.mark.id = some u → u = t)
      fun n t T σ => ∀ g : Field Ty, g.name = f.fieldName → g.ty = t.subst σ →
        T f.mark.id = some g.ty → n.TypedAs T (Path.Names T (ParamFree σ)) g

variable {shapes : NodeId → Shape} {kinds : List VarKind} {s : Session}

/-! ## Nodes by their parts -/

namespace Walk

variable {ν μ κ α β : Type} {id : NodeId} {ids l : List NodeId} {P₁ : List VarKind → μ → α → Prop}
  {P₂ : List VarKind → κ → β → Prop} {Q₁ : μ → α → Typing → (VarId → Ty) → Prop}
  {Q₂ : κ → β → Typing → (VarId → Ty) → Prop} {Q : ν → Ty → Typing → (VarId → Ty) → Prop}

/-- A node with one part: its rule derives the type that is recorded from what is known of the part. -/
theorem derives_node {w : Walk μ α} {rebuild node : μ → ν} {rule : μ → α → Check Ty}
    {R : μ → α → Ty → Typing → (VarId → Ty) → Prop} (hfresh : s.Fresh (id :: ids))
    (hsteady : Walk.Steady ids w) (hw : s.Fresh ids → Walk.Derives shapes kinds s w P₁ Q₁)
    (hrule : ∀ n a, Check.Steady [] (rule n a))
    (hderives : ∀ {kinds' s' n a}, kinds <+: kinds' → s'.Sound shapes kinds' → P₁ kinds' n a →
      Check.Derives shapes kinds' s' (rule n a) (Fine shapes) (R n a))
    (hQ : ∀ n a t T σ, T id = some (t.subst σ) → Q₁ n a T σ → R n a t T σ → Q (node n) t T σ) :
    Walk.Derives shapes kinds s
      (child w rebuild fun n a => leaf (node n) (rule n a >>= recorded id))
      (fun kinds _ t => t.Fine shapes kinds) Q := by
  obtain ⟨hpart, hid⟩ := hfresh.rotate.split
  refine derives_child (l := [id]) (hw hpart) (fun a => steady_typed (List.mem_singleton_self id)
    ((hrule _ a).mono (List.nil_subset _))) fun kinds' a hlead ha => ?_
  refine derives_leaf (((hderives hlead.prefix_kinds hlead.sound ha).recorded (hrule _ a)
    (hid _ (hsteady.grows s))).imp (fun _ _ h => h) ?_)
  rintro t T σ ⟨ht, hR⟩ hpart
  exact hQ _ a t T σ ht hpart hR

/-- A node with two parts, which are walked from left to right. -/
theorem derives_pair {w : Walk μ α} {v : Walk κ β} {rebuild : μ → ν} {rebuild' node : μ → κ → ν}
    {rule : μ → α → κ → β → Check Ty} {R : μ → α → κ → β → Ty → Typing → (VarId → Ty) → Prop}
    (hfresh : s.Fresh (id :: (ids ++ l))) (hsteady : Walk.Steady ids w)
    (hw : s.Fresh ids → Walk.Derives shapes kinds s w P₁ Q₁)
    (hmono : ∀ {kinds kinds' n a}, kinds <+: kinds' → P₁ kinds n a → P₁ kinds' n a)
    (hlast : Walk.Steady l v)
    (hv : ∀ {kinds s}, s.Sound shapes kinds → s.Fresh l → Walk.Derives shapes kinds s v P₂ Q₂)
    (hrule : ∀ n a k b, Check.Steady [] (rule n a k b))
    (hderives : ∀ {kinds s n a k b}, s.Sound shapes kinds → P₁ kinds n a → P₂ kinds k b →
      Check.Derives shapes kinds s (rule n a k b) (Fine shapes) (R n a k b))
    (hQ : ∀ n a k b t T σ, T id = some (t.subst σ) → Q₁ n a T σ → Q₂ k b T σ → R n a k b t T σ →
      Q (node n k) t T σ) :
    Walk.Derives shapes kinds s (child w rebuild fun n a => child v (rebuild' n) fun k b =>
      leaf (node n k) (rule n a k b >>= recorded id)) (fun kinds _ t => t.Fine shapes kinds) Q := by
  have hsplit := hfresh.rotate
  rw [List.append_assoc] at hsplit
  obtain ⟨hfirst, hrest⟩ := hsplit.split
  have hnode (n : μ) (a : α) : Walk.Steady (l ++ [id]) (child v (rebuild' n) fun k b =>
      leaf (node n k) (rule n a k b >>= recorded id)) :=
    steady_node (by simp) (hlast.mono (List.subset_append_left _ _)) fun k b =>
      (hrule n a k b).mono (List.nil_subset _)
  refine derives_child (hw hfirst) (fun a => hnode _ a) fun kinds' a hlead ha => ?_
  have hfresh' := (hrest _ (hsteady.grows s)).perm (List.perm_append_singleton id l)
  refine derives_node hfresh' hlast (hv hlead.sound) (fun k b => hrule _ a k b)
    (fun hk hs hb => hderives hs (hmono hk ha) hb) ?_
  exact fun k b t T σ ht hsecond hR hfirst => hQ _ a k b t T σ ht hfirst hsecond hR

/-- A node that has the type of its part. -/
theorem derives_around {w : Walk μ Ty} {rebuild node : μ → ν} {Q₁ : μ → Ty → Typing → (VarId → Ty) → Prop}
    (hfresh : s.Fresh (id :: ids)) (hsteady : Walk.Steady ids w)
    (hw : s.Fresh ids → Walk.Derives shapes kinds s w (fun kinds _ t => t.Fine shapes kinds) Q₁)
    (hQ : ∀ n t T σ, T id = some (t.subst σ) → Q₁ n t T σ → Q (node n) t T σ) :
    Walk.Derives shapes kinds s (child w rebuild fun n t => leaf (node n) (recorded id t))
      (fun kinds _ t => t.Fine shapes kinds) Q := by
  refine derives_node (R := fun _ t u _ _ => u = t) hfresh hsteady hw (fun _ t => steady_pure t)
    (fun _ hs ht => derives_pure hs ht fun _ _ _ => rfl) fun n t u T σ hu hpart hut => ?_
  subst hut
  exact hQ n u T σ hu hpart

theorem find?_recorded {x : Check Ty} {t : Ty} (h : ((x >>= recorded id).perform s).1 = .ok t) :
    ((x >>= recorded id).perform s).2.context.types.find? id = some t := by
  obtain ⟨u, -, heq⟩ := perform_bind_of_ok h
  rw [heq] at h ⊢
  obtain rfl : u = t := Except.ok.inj h
  simp [Context.insert]

end Walk

/-! ## Lists of expressions -/

theorem Expr.derives_checkAll {es : List Expr} (ih : ∀ e ∈ es, e.Infers shapes)
    (hs : s.Sound shapes kinds) (hfresh : s.Fresh (Expr.idsAll es)) :
    Walk.Derives shapes kinds s (Expr.checkAll es)
      (fun kinds ns ts => (∀ t ∈ ts, t.Fine shapes kinds) ∧ ts.length = ns.length)
      fun ns ts T σ => Expr.AllTyped T (Path.Names T (ParamFree σ)) ns ∧
        ns.map (fun n => T n.id) = ts.map fun t => some (t.subst σ) := by
  induction es generalizing kinds s with
  | nil =>
      rw [Expr.checkAll]
      exact derives_leaf (derives_pure hs ⟨by simp, rfl⟩ fun _ _ _ => ⟨trivial, rfl⟩)
  | cons e es ihes =>
      rw [Expr.checkAll]
      rw [Expr.idsAll] at hfresh
      obtain ⟨hfirst, hrest⟩ := hfresh.split
      refine derives_child (ih e List.mem_cons_self hs hfirst) (fun _ =>
        steady_child (Expr.steady_checkAll es) fun _ _ => steady_leaf (steady_pure _))
        fun kinds₁ t hlead ht => ?_
      refine derives_child (ihes (fun e' he' => ih e' (List.mem_cons_of_mem _ he')) hlead.sound
        (hrest _ (e.steady.grows s))) (l := []) (fun _ => steady_leaf (steady_pure _))
        fun kinds₂ ts hlead' hts => ?_
      refine derives_leaf (derives_pure hlead'.sound ⟨fun u hu => ?_, ?_⟩ ?_)
      · rcases List.mem_cons.1 hu with rfl | hu
        · exact ht.mono hlead'.prefix_kinds
        · exact hts.1 u hu
      · rw [List.length_cons, List.length_cons, hts.2]
      · rintro T σ - ⟨hall, htys⟩ ⟨hT, htyped⟩
        refine ⟨⟨htyped, hall⟩, ?_⟩
        rw [List.map_cons, List.map_cons, hT, htys]

/-! ## Blocks -/

/-- A statement that is unit does not change the type of the value. -/
theorem Stmt.valueType_cons {T : Typing} {n : Stmt} (ns : List Stmt)
    (h : T n.mark.id = some .unit) : Stmt.valueType T (n :: ns) = Stmt.valueType T ns := by
  cases ns with
  | nil =>
      cases n with
      | expr m e => exact h
      | _ => rfl
  | cons m ns => rw [Stmt.valueType, Stmt.valueType, List.getLast?_cons_cons]

theorem Stmt.derives_checkAll {stmts : List Stmt} (ih : ∀ stmt ∈ stmts, stmt.Infers shapes)
    (hasTail : Bool) (hs : s.Sound shapes kinds) (hfresh : s.Fresh (Stmt.idsAll stmts)) :
    Walk.Derives shapes kinds s (Stmt.checkAll hasTail stmts)
      (fun kinds _ value => ∀ t, value = some t → t.Fine shapes kinds)
      fun ns value T σ => Stmt.AllTyped T (Path.Names T (ParamFree σ)) hasTail ns ∧
        (hasTail = false → Stmt.valueType T ns = some ((value.getD .unit).subst σ)) := by
  induction stmts generalizing kinds s with
  | nil =>
      rw [Stmt.checkAll]
      exact derives_leaf (derives_pure hs (by simp) fun _ _ _ => ⟨trivial, fun _ => rfl⟩)
  | cons stmt rest ihrest =>
      rw [Stmt.checkAll]
      rw [Stmt.idsAll] at hfresh
      obtain ⟨hfirst, hrest⟩ := hfresh.split
      have hsteady := Stmt.steady_checkAll hasTail rest
      refine derives_child (ih stmt List.mem_cons_self hs hfirst) (l := Stmt.idsAll rest) (fun t => ?_)
        fun kinds₁ t hlead ht => ?_
      · split
        · exact steady_leaf (steady_pure _)
        · exact steady_first (steady_requireUnit _ t) fun _ =>
            steady_child hsteady fun _ _ => steady_leaf (steady_pure _)
      · generalize hn : (stmt.check s).node = n
        split
        · rename_i hvalue
          simp only [Bool.and_eq_true, Bool.not_eq_true', List.isEmpty_iff] at hvalue
          obtain ⟨⟨htail, rfl⟩, hexpr⟩ := hvalue
          refine derives_leaf (derives_pure hlead.sound (by simpa using ht) ?_)
          rintro T σ - ⟨hT, htyped⟩
          refine ⟨⟨htyped, .inl ⟨htail, rfl, hexpr⟩, trivial⟩, fun _ => ?_⟩
          cases n with
          | expr m e => exact hT
          | _ => simp [Stmt.isExpr] at hexpr
        · refine derives_first (derives_requireUnit hlead.sound _ ht) (fun _ =>
            steady_child hsteady fun _ _ => steady_leaf (steady_pure _)) fun kinds₂ _ hlead₁ _ => ?_
          have hfresh' := (hrest _ (stmt.steady.grows s)).after
            ((steady_requireUnit n.mark.span t).grows _)
          refine derives_child (ihrest (fun n hn => ih n (List.mem_cons_of_mem _ hn)) hlead₁.sound
            hfresh') (l := []) (fun _ => steady_leaf (steady_pure _)) fun kinds₃ value hlead₂ hvalue => ?_
          refine derives_leaf (derives_pure hlead₂.sound hvalue ?_)
          rintro T σ - ⟨hall, hlast⟩ hunit ⟨hT, htyped⟩
          rw [hunit] at hT
          refine ⟨⟨htyped, .inr hT, hall⟩, fun htail => ?_⟩
          rw [Stmt.valueType_cons _ hT]
          exact hlast htail

/-! ## Bindings -/

/-- The binding and the statement are typed last. -/
theorem Stmt.derives_bind (hs : s.Sound shapes kinds) {m : Mark} {binding : NodeId}
    (hfresh : s.Fresh [binding, m.id]) {annotated : Option Ty} {init : Option (Ty × Span)}
    (hannotated : ∀ t, annotated = some t → t.Fine shapes kinds)
    (hinit : ∀ i, init = some i → i.1.Fine shapes kinds) :
    Check.Derives shapes kinds s
      (do
        record binding (← bindingType annotated init)
        recorded m.id .unit)
      (Fine shapes) fun r T σ => r = .unit ∧ T m.id = some .unit ∧ ∃ t, T binding = some t ∧
        (∀ u, annotated = some u → u.subst σ = t) ∧ ∀ i, init = some i → i.1.subst σ = t := by
  have hsteady (t : Ty) : Check.Steady [binding, m.id]
      (record binding t >>= fun _ => recorded m.id .unit) :=
    (steady_record (by simp) t).bind fun _ => steady_recorded (by simp) .unit
  refine (derives_bindingType hs hannotated hinit).bind hsteady fun kinds₁ t hlead ht => ?_
  obtain ⟨hbinding, hrest⟩ := (hfresh.after ((steady_bindingType annotated init).grows s)).split
    (l := [binding])
  refine (derives_record hlead.sound hbinding ht).bind (l := [m.id])
    (fun _ => steady_recorded (by simp) .unit) fun kinds₂ _ hlead' _ => ?_
  have hm := hrest _ ((steady_record (List.mem_singleton_self binding) t).grows _)
  refine (derives_recorded hlead'.sound hm .unit).imp (fun _ _ h => h) ?_
  rintro r T σ ⟨rfl, hm⟩ hT ⟨hannotated, hinit⟩
  exact ⟨rfl, hm, t.subst σ, hT, hannotated, hinit⟩

/-- The binding has the type of its annotation. -/
theorem Stmt.typed_written {T : Typing} {σ : VarId → Ty} {ty : Option TypeRef}
    {annotated : Option Ty} {r : TypeRef} {t : Ty} (hr : ty = some r)
    (hread : ty.map (fun r => T r.mark.id) = annotated.map fun u => some (u.subst σ))
    (hsame : ∀ u, annotated = some u → u.subst σ = t) : T r.mark.id = some t := by
  subst hr
  obtain ⟨u, hu, hT⟩ := Option.map_eq_some_iff.1 hread.symm
  exact hT.symm.trans (congrArg some (hsame u hu))

theorem Stmt.infers_bind {m : Mark} {binding : NodeId} {name : String} {ty : Option TypeRef}
    {init : Option Expr} (ih : ∀ e, init = some e → e.Infers shapes) :
    (Stmt.bind m binding name ty init).Infers shapes := by
  intro kinds s hs hfresh
  have hperm : (Stmt.bind m binding name ty init).ids.Perm
      (TypeRef.idsOption ty ++ (Expr.idsOption init ++ [binding, m.id])) := by
    rw [Stmt.ids, ← List.append_assoc]
    exact (List.Perm.swap _ _ _).trans (@List.perm_append_comm _ [binding, m.id] _)
  obtain ⟨hty, hrest⟩ := (hfresh.perm hperm).split
  have hread : Check.Steady (TypeRef.idsOption ty) (TypeRef.readOptional .body ty) :=
    steady_readOptional (List.Subset.refl _)
  have hfresh₁ := hrest _ (hread.grows s)
  have hbind (annotated : Option Ty) (init : Option (Ty × Span)) : Check.Steady [binding, m.id]
      (do
        record binding (← bindingType annotated init)
        recorded m.id .unit) :=
    steady_bound (by simp) (by simp) annotated init
  cases init with
  | none =>
      rw [Stmt.check]
      refine derives_leaf ((TypeRef.derives_readOptional hs .body hty).bind
        (fun annotated => hbind annotated none) fun kinds₁ annotated hlead hannotated => ?_)
      refine (Stmt.derives_bind hlead.sound hfresh₁ hannotated (by simp)).imp (fun _ _ h => h) ?_
      rintro r T σ ⟨rfl, hm, t, hT, hsame, -⟩ hread
      refine ⟨hm, hm, by simp [hT], fun r hr => ?_, trivial⟩
      exact hT.trans (typed_written hr hread hsame).symm
  | some e =>
      rw [Stmt.check]
      obtain ⟨he, hlast⟩ := hfresh₁.split (l := e.ids)
      refine derives_first (TypeRef.derives_readOptional hs .body hty) (l := e.ids ++ [binding, m.id])
        (fun annotated => steady_child (e.steady.mono (List.subset_append_left _ _)) fun _ t =>
          steady_leaf ((hbind annotated _).mono (List.subset_append_right _ _)))
        fun kinds₁ annotated hlead hannotated => ?_
      refine derives_child (ih e rfl hlead.sound he) (fun t => steady_leaf (hbind annotated _))
        fun kinds₂ t hlead' ht => ?_
      refine derives_leaf ((Stmt.derives_bind hlead'.sound (hlast _ (e.steady.grows _))
        (fun u hu => (hannotated u hu).mono hlead'.prefix_kinds) fun i hi =>
          Option.some.inj hi ▸ ht).imp (fun _ _ h => h) ?_)
      rintro r T σ ⟨rfl, hm, u, hT, hsame, hinit⟩ ⟨hTe, htyped⟩ hread
      refine ⟨hm, hm, by simp [hT], fun r hr => ?_, htyped, ?_⟩
      · exact hT.trans (typed_written hr hread hsame).symm
      · rw [hTe, hT, hinit _ rfl]

/-! ## Written fields -/

/-- Place a written field, check its value and accept it. -/
theorem FieldInit.derives_check {node : FieldInit} (ih : node.Infers shapes) {a : Adt Ty}
    (slots : Slots) (hs : s.Sound shapes kinds) (ha : (Ty.adt a).Fine shapes kinds)
    (hfresh : s.Fresh node.ids) :
    Walk.Derives shapes kinds s (node.check a slots)
      (fun _ n slots' => n.fieldName ∉ slots.taken ∧ ∃ f, a.field? n.fieldName = some f ∧
        f.index < slots.nodes.length ∧ slots' = slots.accept f n)
      fun n _ T σ => ∀ f, a.field? n.fieldName = some f →
        n.TypedAs T (Path.Names T (ParamFree σ)) (f.map (Ty.subst σ)) := by
  rw [FieldInit.check_eq]
  have haccept (f : Field Ty) (s : Session) (t : Ty) : Walk.Steady node.ids
      (leaf (node.checkValue s).node (acceptField f slots (node.checkValue s).node t)) :=
    steady_leaf (steady_acceptField f slots t (by
      rw [(mark_checkValue node s).1]
      exact node.mark_mem_ids))
  refine derives_first (derives_declaredField hs a slots node) (l := node.ids) (fun r => ?_)
    fun kinds₁ r hlead hr => ?_
  · cases r with
    | none => exact steady_leaf (steady_pure _)
    | some f => exact steady_child node.steady (haccept f)
  · obtain ⟨hnew, f, rfl, hf, hlt⟩ := hr
    have hfresh₁ := hfresh.after ((steady_declaredField a slots node).grows s)
    generalize ((declaredField a slots node).perform s).2 = s₁ at *
    rw [checkPlaced]
    refine derives_child (ih hlead.sound hfresh₁) (haccept f s₁) fun kinds₂ t hlead' ht => ?_
    obtain ⟨hmark, hname⟩ := mark_checkValue node s₁
    obtain ⟨hmem, hfname⟩ := Adt.field?_eq_some hf
    have hffine : f.ty.Fine shapes kinds₂ :=
      (ha.field hmem).mono (hlead.trans hlead').prefix_kinds
    refine derives_leaf ((derives_acceptField hlead'.sound slots hffine ht.1 ?_ ?_).imp ?_ ?_)
    · rw [hmark]
      exact Nat.lt_of_lt_of_le (hfresh₁.located _ node.mark_mem_ids) (node.steady.grows s₁).size_le
    · rw [hmark]
      exact ht.2
    · rintro _ slots' rfl
      rw [hname]
      exact ⟨hnew, f, hf, hlt, rfl⟩
    · rintro slots' T σ ⟨hT, hsame⟩ htyped - g hg
      rw [hname, hf] at hg
      obtain rfl := Option.some.inj hg
      rw [hmark] at hT
      exact htyped _ hfname hsame.symm hT

theorem FieldInit.derives_checkAll {fields before : List FieldInit}
    (ih : ∀ f ∈ fields, f.Infers shapes) {a : Adt Ty} (hindexed : a.IsIndexed) {slots : Slots}
    (hp : slots.Placed a before) (hs : s.Sound shapes kinds) (ha : (Ty.adt a).Fine shapes kinds)
    (hfresh : s.Fresh (FieldInit.idsAll fields)) :
    Walk.Derives shapes kinds s (FieldInit.checkAll a slots fields)
      (fun _ ns slots' => slots'.Placed a (before ++ ns))
      fun ns _ T σ => WrittenTyped T (Path.Names T (ParamFree σ)) a σ ns := by
  induction fields generalizing kinds s slots before with
  | nil =>
      rw [FieldInit.checkAll]
      exact derives_leaf (derives_pure hs (by simpa using hp) fun _ _ _ => by simp [WrittenTyped])
  | cons node rest ihrest =>
      rw [FieldInit.checkAll]
      rw [FieldInit.idsAll] at hfresh
      obtain ⟨hfirst, hlast⟩ := hfresh.split
      have hnode := steady_checkField a slots node.mark_mem_ids node.steady
      refine derives_child (FieldInit.derives_check (ih node List.mem_cons_self) slots hs ha hfirst)
        (fun slots => steady_child (FieldInit.steady_checkAll a slots rest) fun _ _ =>
          steady_leaf (steady_pure _))
        fun kinds₁ slots₁ hlead hslots => ?_
      obtain ⟨hnew, f, hf, hlt, rfl⟩ := hslots
      refine derives_child (ihrest (fun n hn => ih n (List.mem_cons_of_mem _ hn))
        (hp.accept hindexed hnew hf hlt) hlead.sound (ha.mono hlead.prefix_kinds)
        (hlast _ (hnode.grows s))) (l := []) (fun _ => steady_leaf (steady_pure _))
        fun kinds₂ slots₂ hlead' hslots => ?_
      refine derives_leaf (derives_pure hlead'.sound (by simpa using hslots) ?_)
      intro T σ _ hall hfield n hn
      rcases List.mem_cons.1 hn with rfl | hn
      · exact hfield
      · exact hall n hn

/-! ## Struct literals -/

theorem Walk.derives_literalBase {a : Adt Ty} {base : Option Expr}
    (ih : ∀ b, base = some b → b.Infers shapes) (hs : s.Sound shapes kinds)
    (ha : (Ty.adt a).Fine shapes kinds) (hfresh : s.Fresh (Expr.idsOption base)) :
    Walk.Derives shapes kinds s (literalBase a base) (fun kinds _ t => t.Fine shapes kinds)
      fun n t T σ => t.subst σ = (Ty.adt a).subst σ ∧
        Expr.OptionTyped T (Path.Names T (ParamFree σ)) (some ((Ty.adt a).subst σ)) n := by
  cases base with
  | none => exact derives_leaf (derives_pure hs ha fun _ _ _ => ⟨rfl, trivial⟩)
  | some b =>
      refine derives_child (ih b rfl hs hfresh) (l := []) (fun t =>
        steady_leaf (steady_unifyBase a t _)) fun kinds₁ t hlead ht => ?_
      refine derives_leaf ((derives_unifyBase hlead.sound _ (ha.mono hlead.prefix_kinds) ht).imp
        (fun _ _ h => h) ?_)
      rintro r T σ ⟨har, htr⟩ ⟨hT, htyped⟩
      refine ⟨har.symm, htyped, ?_⟩
      rw [hT, htr, har]

theorem Walk.derives_literal (hshapes : ∀ d, (shapes d).IsIndexed) {path : Path}
    (pathSpan span : Span) {fields : List FieldInit} {base : Option Expr}
    (ihfields : ∀ f ∈ fields, f.Infers shapes) (ihbase : ∀ b, base = some b → b.Infers shapes)
    (hs : s.Sound shapes kinds)
    (hfresh : s.Fresh (path.ids ++ (Expr.idsOption base ++ FieldInit.idsAll fields))) :
    Walk.Derives shapes kinds s (literal path pathSpan span fields base)
      (fun kinds _ t => t.Fine shapes kinds) fun n t T σ => ∃ a, t.subst σ = .adt a ∧
        path.Names T (ParamFree σ) (.adt a) ∧
        FieldInit.AllTyped T (Path.Names T (ParamFree σ)) a.fields n.1 ∧
        Expr.OptionTyped T (Path.Names T (ParamFree σ)) (some (.adt a)) n.2 := by
  obtain ⟨hpath, hrest⟩ := hfresh.split
  have hstruct : Check.Steady path.ids (structOf path pathSpan) :=
    steady_structOf pathSpan (List.Subset.refl _)
  obtain ⟨hbase, hrest⟩ := (hrest _ (hstruct.grows s)).split
  have hcomplete (a : Adt Ty) (t : Ty) (b : Option Expr) (ns : List FieldInit) (slots : Slots) :
      Walk.Steady (FieldInit.idsAll fields)
        (child (completeLiteral a t span b ns slots) (·, b) fun fields ty =>
          leaf (fields, b) (return ty)) :=
    steady_child (steady_completeLiteral a t span b ns slots) fun _ _ => steady_leaf (steady_pure _)
  have hfields (a : Adt Ty) (t : Ty) (b : Option Expr) : Walk.Steady (FieldInit.idsAll fields)
      (child (FieldInit.checkAll a (Slots.empty a.size) fields) (·, b) fun fields slots =>
        child (completeLiteral a t span b fields slots) (·, b) fun fields ty =>
          leaf (fields, b) (return ty)) :=
    steady_child (FieldInit.steady_checkAll a _ fields) fun _ slots => hcomplete a t b _ slots
  refine derives_first (derives_structOf hs pathSpan hpath)
    (l := Expr.idsOption base ++ FieldInit.idsAll fields) (fun a =>
      steady_child ((steady_base a base).mono (List.subset_append_left _ _)) fun _ t =>
        (hfields a t _).mono (List.subset_append_right _ _)) fun kinds₁ a hlead₁ ha => ?_
  generalize ((structOf path pathSpan).perform s).2 = s₁ at *
  refine derives_child (derives_literalBase ihbase hlead₁.sound ha hbase)
    (fun t => hfields a t _) fun kinds₂ t hlead₂ ht => ?_
  have hfresh₂ := hrest _ ((steady_base a base).grows s₁)
  generalize literalBase a base s₁ = based at *
  have ha₂ := ha.mono hlead₂.prefix_kinds
  have hindexed : a.IsIndexed := Adt.IsIndexed.of_fine hshapes ha
  refine derives_child (FieldInit.derives_checkAll ihfields hindexed (Slots.placed_empty a)
    hlead₂.sound ha₂ hfresh₂) (fun slots => hcomplete a t _ _ slots) fun kinds₃ slots hlead₃ hp => ?_
  generalize FieldInit.checkAll a (Slots.empty a.size) fields based.session = checked at *
  refine derives_child (derives_completeFields hlead₃.sound (ha₂.mono hlead₃.prefix_kinds) hindexed
    (ht.mono hlead₃.prefix_kinds) span based.node (by simpa using hp)) (l := [])
    (fun _ => steady_leaf (steady_pure _)) fun kinds₄ r hlead₄ hr => ?_
  refine derives_leaf (derives_pure hlead₄.sound hr ?_)
  rintro T σ - ⟨hrt, htyped⟩ hwritten ⟨hta, hbase⟩ hnames
  have hadt : (Ty.adt a).subst σ = .adt (a.map (Ty.subst σ)) := rewrite_adt _ _ a
  refine ⟨a.map (Ty.subst σ), ?_, ?_, htyped _ hwritten hbase, ?_⟩
  · rw [hrt, hta, hadt]
  · rw [← hadt]
    exact hnames
  · rw [← hadt]
    exact hbase

/-! ## Nodes -/

section

variable {m : Mark}

/-- A number has a type of its class, which is a primitive one as soon as it is concrete. -/
theorem Expr.infers_lit {l : Literal} : (lit m l).Infers shapes := by
  intro kinds s hs hfresh
  rw [Expr.check]
  intro t hok herrors
  obtain ⟨kinds', hlead, ht, hT⟩ := (derives_literalType hs m.span l).recorded (l := [])
    (steady_literalType m.span l) hfresh t hok herrors
  refine ⟨kinds', hlead, ht, fun T σ hσ => ?_⟩
  obtain ⟨hid, htype⟩ := hT T σ hσ
  exact ⟨hid, _, hid, htype (hσ.concrete _ _ hid)⟩

theorem Expr.infers_path {p : Path} : (path m p).Infers shapes := by
  intro kinds s hs hfresh
  rw [Expr.check]
  refine derives_leaf (((derives_pathType hs m.span hfresh.tail).recorded
    (steady_pathType m.span (List.Subset.refl _)) hfresh.rotate).imp (fun _ _ h => h) ?_)
  rintro t T σ ⟨hid, hnames⟩
  exact ⟨hid, _, hid, hnames⟩

theorem Expr.infers_block {b : Block} (ih : b.Infers shapes) : (block m b).Infers shapes := by
  intro kinds s hs hfresh
  rw [Expr.check]
  refine derives_around hfresh b.steady (ih hs) ?_
  rintro n t T σ hid ⟨hT, htyped⟩
  exact ⟨hid, htyped, hid.trans hT.symm⟩

theorem Expr.infers_struct (hshapes : ∀ d, (shapes d).IsIndexed) {p : Path} {span : Span}
    {fields : List FieldInit} {base : Option Expr} (ihfields : ∀ f ∈ fields, f.Infers shapes)
    (ihbase : ∀ b, base = some b → b.Infers shapes) :
    (struct m p span fields base).Infers shapes := by
  intro kinds s hs hfresh
  rw [Expr.check_struct]
  refine derives_around hfresh (steady_wholeLiteral p span m.span fields base)
    (derives_literal hshapes span m.span ihfields ihbase hs) ?_
  rintro n t T σ hid ⟨a, hadt, hnames, hall, hbase⟩
  rw [hadt] at hid
  refine ⟨hadt ▸ hid, a, hid, hnames, hall, ?_⟩
  rw [hid]
  exact hbase

/-- A field is looked up in the type of the base, and a position under its numeral. -/
theorem Walk.derives_access {base : Expr} {wrap : Expr → Expr} (name : String) (ih : base.Infers shapes)
    (hs : s.Sound shapes kinds) (hfresh : s.Fresh (m.id :: base.ids)) :
    Walk.Derives shapes kinds s (child base.check wrap fun b t =>
        leaf (wrap b) (fieldType m.span name t >>= recorded m.id))
      (fun kinds _ t => t.Fine shapes kinds) fun n t T σ => ∃ b, n = wrap b ∧
        T m.id = some (t.subst σ) ∧ b.Typed T (Path.Names T (ParamFree σ)) ∧
        ∃ a f, T b.id = some (.adt a) ∧ f ∈ a.fields ∧ f.name = name ∧ T m.id = some f.ty := by
  refine derives_node hfresh base.steady (ih hs) (fun _ t => steady_fieldType m.span name t)
    (fun _ hs ht => derives_fieldType hs m.span name ht) ?_
  rintro b t u T σ hid ⟨hT, htyped⟩ ⟨a, f, hadt, hf, hname, hty⟩
  refine ⟨b, rfl, hid, htyped, a, f, ?_, hf, hname, ?_⟩
  · rw [hT, hadt]
  · rw [hid, hty]

theorem Expr.infers_field {base : Expr} {name : String} (ih : base.Infers shapes) :
    (field m base name).Infers shapes := by
  intro kinds s hs hfresh
  rw [Expr.check]
  refine (derives_access name ih hs hfresh).imp (fun _ _ _ h => h) ?_
  rintro _ t T σ ⟨b, rfl, hid, htyped, hfield⟩
  exact ⟨hid, htyped, hfield⟩

theorem Expr.infers_tupleIndex {base : Expr} {index : Nat} (ih : base.Infers shapes) :
    (tupleIndex m base index).Infers shapes := by
  intro kinds s hs hfresh
  rw [Expr.check]
  refine (derives_access (toString index) ih hs hfresh).imp (fun _ _ _ h => h) ?_
  rintro _ t T σ ⟨b, rfl, hid, htyped, a, f, hadt, hf, hname, hty⟩
  exact ⟨hid, htyped, a, f, hadt, hf, .inl hname, hty⟩

theorem Expr.infers_call {callee : Expr} {args : List Expr} (ihcallee : callee.Infers shapes)
    (ihargs : ∀ e ∈ args, e.Infers shapes) : (call m callee args).Infers shapes := by
  intro kinds s hs hfresh
  rw [Expr.check]
  refine derives_pair hfresh callee.steady (ihcallee hs) (fun hk ht => ht.mono hk)
    (Expr.steady_checkAll args) (Expr.derives_checkAll ihargs)
    (fun _ t _ _ => steady_callType m.span _ t _)
    (fun hs ht hts => derives_callType hs m.span _ ht fun arg harg =>
      hts.1 _ (List.of_mem_zip harg).1) ?_
  rintro f t es ts r T σ hid ⟨hT, htyped⟩ ⟨hargs, htys⟩ hfn
  have hspans : (ts.zip (es.map Expr.span)).map Prod.fst = ts :=
    List.map_fst_zip (by simpa using Nat.le_of_eq (congrArg List.length htys).symm)
  refine ⟨hid, htyped, hargs, ts.map (Ty.subst σ), r.subst σ, ?_, ?_, hid⟩
  · rw [hT, hfn]
    conv_rhs => rw [← hspans, List.map_map]
    rfl
  · rw [htys, List.map_map]
    rfl

theorem Expr.infers_unary {op : UnOp} {e : Expr} (ih : e.Infers shapes) :
    (unary m op e).Infers shapes := by
  intro kinds s hs hfresh
  rw [Expr.check]
  refine derives_node hfresh e.steady (ih hs) (fun _ t => steady_unaryType m.span op t)
    (fun _ hs ht => derives_unaryType hs m.span op ht) ?_
  rintro e t u T σ hid ⟨hT, htyped⟩ hsame
  refine ⟨hid, htyped, ?_⟩
  rw [hid, hsame, hT]

theorem Expr.infers_binary {op : BinOp} {l r : Expr} (ihl : l.Infers shapes)
    (ihr : r.Infers shapes) : (binary m op l r).Infers shapes := by
  intro kinds s hs hfresh
  rw [Expr.check]
  refine derives_pair hfresh l.steady (ihl hs) (fun hk ht => ht.mono hk) r.steady ihr
    (fun _ _ _ _ => steady_binaryType m.span op _ _)
    (fun {_ _ l t r u} hs ht hu => derives_binaryType hs m.span op (l := (t, l.span))
      (r := (u, r.span)) ht hu) ?_
  rintro l t r u v T σ hid ⟨hTl, hltyped⟩ ⟨hTr, hrtyped⟩ ⟨hsame, hrule⟩
  refine ⟨hid, hltyped, hrtyped, ?_, ?_⟩
  · rw [hTl, hTr, hsame]
  · rw [hTl, hid]
    split_ifs at hrule ⊢
    · exact ⟨congrArg some hrule.1, congrArg some hrule.2⟩
    · exact congrArg some hrule
    · exact congrArg some hrule

theorem Expr.infers_assign {l r : Expr} (ihl : l.Infers shapes) (ihr : r.Infers shapes) :
    (assign m l r).Infers shapes := by
  intro kinds s hs hfresh
  rw [Expr.check_assign]
  refine derives_pair (R := fun _ t _ u v _ σ => v = .unit ∧ t.subst σ = u.subst σ) hfresh l.steady
    (ihl hs) (fun hk ht => ht.mono hk) r.steady ihr
    (fun _ t _ u => (steady_unifyAt _ t u).bind fun _ => steady_pure _) (fun hs ht hu => ?_) ?_
  · refine (derives_unifyAt hs _ ht hu).bind (l := []) (fun _ => steady_pure _) fun _ c hlead _ => ?_
    exact derives_pure hlead.sound .unit fun _ _ _ hc => ⟨rfl, hc.1.trans hc.2.symm⟩
  · rintro l t r u _ T σ hid ⟨hTl, hltyped⟩ ⟨hTr, hrtyped⟩ ⟨rfl, hsame⟩
    refine ⟨hid, hltyped, hrtyped, ?_, hid⟩
    rw [hTl, hTr, hsame]

theorem Expr.infers_paren {e : Expr} (ih : e.Infers shapes) : (paren m e).Infers shapes := by
  intro kinds s hs hfresh
  rw [Expr.check]
  refine derives_around hfresh e.steady (ih hs) ?_
  rintro n t T σ hid ⟨hT, htyped⟩
  exact ⟨hid, htyped, hid.trans hT.symm⟩

theorem Block.infers_mk {stmts : List Stmt} {tail : Option Expr}
    (ihstmts : ∀ n ∈ stmts, n.Infers shapes) (ihtail : ∀ e, tail = some e → e.Infers shapes) :
    (mk m stmts tail).Infers shapes := by
  intro kinds s hs hfresh
  cases tail with
  | none =>
      rw [Block.ids, Expr.idsOption, List.append_nil] at hfresh
      rw [Block.check]
      refine derives_node (R := fun _ value u _ _ => u = value.getD .unit) hfresh
        (Stmt.steady_checkAll false stmts) (Stmt.derives_checkAll ihstmts false hs)
        (fun _ _ => steady_pure _) (fun {_ _ _ value} _ hs hvalue => ?_) ?_
      · refine derives_pure hs ?_ fun _ _ _ => rfl
        cases value with
        | none => exact .unit
        | some t => exact hvalue t rfl
      · rintro n value _ T σ hid ⟨htyped, hlast⟩ rfl
        exact ⟨hid, htyped, trivial, fun _ => hid.trans (hlast rfl).symm⟩
  | some e =>
      rw [Block.check]
      refine derives_pair (R := fun _ _ _ t u _ _ => u = t) hfresh (Stmt.steady_checkAll true stmts)
        (Stmt.derives_checkAll ihstmts true hs)
        (fun hk hvalue t ht => (hvalue t ht).mono hk) e.steady (ihtail e rfl)
        (fun _ _ _ _ => steady_pure _) (fun hs _ ht => derives_pure hs ht fun _ _ _ => rfl) ?_
      rintro n _ e t _ T σ hid ⟨hstmts, -⟩ ⟨hT, htyped⟩ rfl
      exact ⟨hid, hstmts, ⟨htyped, hT.trans hid.symm⟩, by simp⟩

theorem Stmt.infers_expr {e : Expr} (ih : e.Infers shapes) : (expr m e).Infers shapes := by
  intro kinds s hs hfresh
  rw [Stmt.check]
  refine derives_around hfresh e.steady (ih hs) ?_
  rintro n t T σ hid ⟨hT, htyped⟩
  exact ⟨hid, htyped, hid.trans hT.symm⟩

theorem Stmt.infers_semi {e : Expr} (ih : e.Infers shapes) : (semi m e).Infers shapes := by
  intro kinds s hs hfresh
  rw [Stmt.check]
  refine derives_node (R := fun _ _ u _ _ => u = .unit) hfresh e.steady (ih hs)
    (fun _ _ => steady_pure .unit) (fun _ hs _ => derives_pure hs .unit fun _ _ _ => rfl) ?_
  rintro n t _ T σ hid ⟨-, htyped⟩ rfl
  exact ⟨hid, htyped, hid⟩

/-- A field with a value of its own gets its type when it is accepted, and has none before. -/
theorem FieldInit.infers_value (f : FieldInit) {e : Expr} (wrap : Expr → FieldInit)
    (hcheck : f.checkValue = child e.check wrap fun e t => leaf (wrap e) (return t))
    (hids : f.ids = f.mark.id :: e.ids) (ih : e.Infers shapes)
    (htyped : ∀ {k : Expr} {T : Typing} {names} {g : Field Ty}, g.name = f.fieldName →
      T f.mark.id = some g.ty → T k.id = some g.ty → k.Typed T names → (wrap k).TypedAs T names g) :
    f.Infers shapes := by
  intro kinds s hs hfresh
  rw [hids] at hfresh
  obtain ⟨he, hm⟩ := hfresh.rotate.split
  have hsteady : Walk.Steady e.ids f.checkValue := by
    rw [hcheck]
    exact steady_child e.steady fun _ _ => steady_leaf (steady_pure _)
  have habsent := (hm _ (hsteady.grows s)).absent f.mark.id (by simp)
  rw [hcheck] at habsent ⊢
  refine derives_child (ih hs he) (l := []) (fun _ => steady_leaf (steady_pure _))
    fun kinds₁ t hlead ht => ?_
  refine derives_leaf (derives_pure hlead.sound ⟨ht, fun u hu => ?_⟩ ?_)
  · cases habsent.symm.trans hu
  · rintro T σ - ⟨hT, hvalue⟩ g hname hty hid
    exact htyped hname hid (hT.trans (congrArg some hty.symm)) hvalue

theorem FieldInit.infers_named {name : String} {e : Expr} (ih : e.Infers shapes) :
    (named m name e).Infers shapes :=
  infers_value (.named m name e) (.named m name) rfl rfl ih fun hname hid hT hvalue =>
    ⟨hvalue, hname, hid, hT⟩

theorem FieldInit.infers_index {i : Nat} {e : Expr} (ih : e.Infers shapes) :
    (index m i e).Infers shapes :=
  infers_value (.index m i e) (.index m i) rfl rfl ih fun hname hid hT hvalue =>
    ⟨hvalue, .inl hname, hid, hT⟩

/-- The node of a variable named like the field has its type before it is accepted. -/
theorem FieldInit.infers_short {name : String} {res : Option NodeId} :
    (short m name res).Infers shapes := by
  intro kinds s hs hfresh
  have hids : (Path.ident name res).ids = [] := rfl
  have hpath : s.Fresh (Path.ident name res).ids := hids ▸ (hfresh.split (l := [])).1
  have hsteady : Check.Steady [] (pathType m.span (.ident name res)) :=
    steady_pathType m.span (hids ▸ List.Subset.refl _)
  intro t hok herrors
  obtain ⟨kinds', hlead, ht, hT⟩ :=
    (derives_pathType hs m.span hpath).recorded hsteady hfresh t hok herrors
  refine ⟨kinds', hlead, ⟨ht, fun u hu => ?_⟩, fun T σ hσ g hname hty hid => ?_⟩
  · exact Option.some.inj (hu.symm.trans (find?_recorded hok))
  · exact ⟨hname, hty ▸ (hT T σ hσ).2, hid⟩

end

/-! ## Programs -/

/-- What the check of a node with its children infers, by induction on programs. -/
theorem infers_all (hshapes : ∀ d, (shapes d).IsIndexed) :
    (∀ e : Expr, e.Infers shapes) ∧ (∀ b : Block, b.Infers shapes) ∧
      (∀ stmt : Stmt, stmt.Infers shapes) ∧ ∀ f : FieldInit, f.Infers shapes := by
  apply Expr.induct
  case lit => exact fun _ _ => Expr.infers_lit
  case path => exact fun _ _ => Expr.infers_path
  case block => exact fun _ _ => Expr.infers_block
  case struct => exact fun _ _ _ _ _ => Expr.infers_struct hshapes
  case field => exact fun _ _ _ => Expr.infers_field
  case tupleIndex => exact fun _ _ _ => Expr.infers_tupleIndex
  case call => exact fun _ _ _ => Expr.infers_call
  case unary => exact fun _ _ _ => Expr.infers_unary
  case binary => exact fun _ _ _ _ => Expr.infers_binary
  case assign => exact fun _ _ _ => Expr.infers_assign
  case paren => exact fun _ _ => Expr.infers_paren
  case mk => exact fun _ _ _ => Block.infers_mk
  case bind => exact fun _ _ _ _ _ => Stmt.infers_bind
  case expr => exact fun _ _ => Stmt.infers_expr
  case semi => exact fun _ _ => Stmt.infers_semi
  case named => exact fun _ _ _ => FieldInit.infers_named
  case index => exact fun _ _ _ => FieldInit.infers_index
  case short => exact fun _ _ _ => FieldInit.infers_short

end TypeInference

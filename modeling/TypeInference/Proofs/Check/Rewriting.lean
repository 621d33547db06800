import TypeInference.Proofs.Check.Copies
import TypeInference.Proofs.Check.Frame
import TypeInference.Proofs.Check.Passes

/-!
# Rewriting a program

By induction on programs, the check of a node gives back a rewritten node: what
shares an identity is equal, and what has a new identity was copied from a base.
So does the check of an item, and the pass over the bodies of a program.
-/

namespace TypeInference

open Walk Check

variable {l : Locations} {ids ids₁ ids₂ : List NodeId}

/-- Whether the locations that there are stay, whatever the outcome. -/
def Check.KeepsLocations {α : Type} (x : Check α) : Prop :=
  ∀ s : Session, s.locations.Within (x.perform s).2.locations

theorem Check.keepsLocations_pure {α : Type} (a : α) : (pure a : Check α).KeepsLocations :=
  fun s => .refl s.locations

theorem Check.Steady.keepsLocations {α : Type} {x : Check α} (h : Steady ids x) :
    x.KeepsLocations :=
  fun s => (h.grows s).located

/-- The type of a node is computed and recorded. -/
theorem Check.keepsLocations_recorded {i : NodeId} {x : Check Ty} (h : Steady [i] x) :
    (do recorded i (← x) : Check Ty).KeepsLocations :=
  (h.bind fun t => steady_recorded (List.mem_singleton_self i) t).keepsLocations

/-! ## Walks -/

namespace Walk

variable {ν μ κ α β γ : Type} {s : Session}

/-- Whether a run of the walk gives back rewritten nodes. -/
def RewritesAt (l : Locations) (ids : List NodeId) (nodes : ν → List Node) (w : Walk ν α)
    (s : Session) : Prop :=
  Rewritten l (w s).session.locations ids (nodes (w s).node)

/-- Whether the walk rewrites a node with these identities, if they are distinct and located. -/
def Rewrites (ids : List NodeId) (nodes : ν → List Node) (w : Walk ν α) : Prop :=
  ∀ s, ids.Nodup → (∀ i ∈ ids, i < s.locations.size) → RewritesAt s.locations ids nodes w s

variable {nodes : ν → List Node} {nodes₁ : μ → List Node} {nodes₂ : κ → List Node}

theorem rewritesAt_leaf {node : ν} {x : Check α} (h : Rewritten l s.locations ids (nodes node))
    (hx : x.KeepsLocations) : RewritesAt l ids nodes (leaf node x) s :=
  h.later (hx s)

theorem rewritesAt_first {node : ν} {x : Check α} {next : α → Walk ν β}
    (h : Rewritten l s.locations ids (nodes node)) (hx : x.KeepsLocations)
    (hnext : ∀ a s', s.locations.Within s'.locations → RewritesAt l ids nodes (next a) s') :
    RewritesAt l ids nodes (first node x next) s := by
  have hwithin := hx s
  unfold RewritesAt
  rcases first_cases node x next s with ⟨a, s', hrun, heq⟩ | ⟨e, s', hrun, heq⟩
  · rw [hrun] at hwithin
    rw [heq]
    exact hnext a s' hwithin
  · rw [hrun] at hwithin
    rw [heq]
    exact h.later hwithin

theorem rewritesAt_child {w : Walk μ α} {rebuild : μ → ν} {next : μ → α → Walk ν β}
    (h : Rewritten l (w s).session.locations ids (nodes (rebuild (w s).node)))
    (hnext : ∀ a, (w s).outcome = .ok a →
      RewritesAt l ids nodes (next (w s).node a) (w s).session) :
    RewritesAt l ids nodes (child w rebuild next) s := by
  unfold RewritesAt
  rcases child_cases w rebuild next s with ⟨a, hrun, heq⟩ | ⟨e, -, heq⟩
  · rw [heq]
    exact hnext a hrun
  · rw [heq]
    exact h

theorem rewrites_leaf {node : ν} {x : Check α} (hnode : (nodes node).map Node.id = ids)
    (hx : x.KeepsLocations) : Rewrites ids nodes (leaf node x) :=
  fun _ hnodup hlt => rewritesAt_leaf (.original hnode hnodup hlt) hx

theorem rewrites_first {node : ν} {x : Check α} {next : α → Walk ν β}
    (hnode : (nodes node).map Node.id = ids) (hx : x.KeepsLocations)
    (hnext : ∀ a, Rewrites ids nodes (next a)) :
    Rewrites ids nodes (first node x next) := by
  intro s hnodup hlt
  refine rewritesAt_first (.original hnode hnodup hlt) hx fun a s' hwithin => ?_
  exact (hnext a s' hnodup (hwithin.forall_lt hlt)).earlier hwithin hlt

/-- A walk over one child. Other nodes come before those of the child. -/
theorem rewrites_child {w : Walk μ α} {rebuild : μ → ν} {x : μ → α → Check β}
    (before : μ → List Node) (hw : Rewrites ids₁ nodes₁ w)
    (hnodes : ∀ n, nodes (rebuild n) = before n ++ nodes₁ n)
    (hids : ∀ n, (before n).map Node.id ++ ids₁ = ids) (hx : ∀ n a, (x n a).KeepsLocations) :
    Rewrites ids nodes (child w rebuild fun n a => leaf (rebuild n) (x n a)) := by
  intro s hnodup hlt
  have h : Rewritten s.locations (w s).session.locations ids (nodes (rebuild (w s).node)) := by
    have hsplit := hids (w s).node
    subst hsplit
    rw [hnodes]
    exact (hw s hnodup.of_append_right (List.forall_mem_append.1 hlt).2).precede _ hnodup hlt
  exact rewritesAt_child h fun a _ => rewritesAt_leaf h (hx _ a)

/-- A walk over two children, one after the other. -/
theorem rewrites_children {w : Walk μ α} {v : μ → α → Walk κ β} {rebuild : μ → κ → ν} {unwalked : κ}
    {x : μ → κ → α → β → Check γ} (before : μ → κ → List Node) (hw : Rewrites ids₁ nodes₁ w)
    (hv : ∀ n a, Rewrites ids₂ nodes₂ (v n a)) (hunwalked : (nodes₂ unwalked).map Node.id = ids₂)
    (hnodes : ∀ n k, nodes (rebuild n k) = before n k ++ (nodes₁ n ++ nodes₂ k))
    (hids : ∀ n k, (before n k).map Node.id ++ (ids₁ ++ ids₂) = ids)
    (hx : ∀ n k a b, (x n k a b).KeepsLocations) :
    Rewrites ids nodes (child w (rebuild · unwalked) fun n a =>
      child (v n a) (rebuild n) fun k b => leaf (rebuild n k) (x n k a b)) := by
  intro s hnodup hlt
  -- The second child may still be as it was, or be rewritten.
  have hboth {k : κ} {l' : Locations} (h : Rewritten (w s).session.locations l' ids₂ (nodes₂ k)) :
      Rewritten s.locations l' ids (nodes (rebuild (w s).node k)) := by
    rw [← hids (w s).node k] at hnodup hlt ⊢
    have hlt' := (List.forall_mem_append.1 hlt).2
    have hfirst := hw s hnodup.of_append_right.of_append_left (List.forall_mem_append.1 hlt').1
    rw [hnodes]
    exact (hfirst.append h hnodup.of_append_right hlt').precede _ hnodup hlt
  rw [← hids (w s).node unwalked] at hnodup hlt
  have hnodup' := hnodup.of_append_right
  obtain ⟨hlt₁, hlt₂⟩ := List.forall_mem_append.1 (List.forall_mem_append.1 hlt).2
  have hlt₂' := (hw s hnodup'.of_append_left hlt₁).within.forall_lt hlt₂
  refine rewritesAt_child (hboth (.original hunwalked hnodup'.of_append_right hlt₂')) fun a _ => ?_
  have hsecond := hboth (hv (w s).node a (w s).session hnodup'.of_append_right hlt₂')
  exact rewritesAt_child hsecond fun b _ => rewritesAt_leaf hsecond (hx _ _ a b)

/-! ## Written fields -/

theorem rewrites_checkField (a : Adt Ty) (slots : Slots) {node : FieldInit}
    (h : Rewrites node.ids FieldInit.nodes node.checkValue) :
    Rewrites node.ids FieldInit.nodes (node.check a slots) := by
  rw [FieldInit.check_eq]
  refine rewrites_first node.ids_nodes
    (steady_declaredField a slots node : Check.Steady [] _).keepsLocations fun r => ?_
  cases r with
  | none => exact rewrites_leaf node.ids_nodes (keepsLocations_pure _)
  | some f =>
      rw [FieldInit.checkPlaced]
      refine rewrites_child (fun _ => []) h (fun _ => rfl) (fun _ => rfl) fun n t => ?_
      exact (steady_acceptField f slots t (List.mem_singleton_self n.mark.id)).keepsLocations

theorem fieldsRewritten_checkAll (a : Adt Ty) {fields : List FieldInit} (slots : Slots)
    (h : ∀ f ∈ fields, Rewrites f.ids FieldInit.nodes f.checkValue)
    (hnodup : (FieldInit.idsAll fields).Nodup)
    (hlt : ∀ i ∈ FieldInit.idsAll fields, i < s.locations.size) :
    FieldsRewritten s.locations (FieldInit.checkAll a slots fields s).session.locations
      (FieldInit.idsAll fields) (FieldInit.checkAll a slots fields s).node := by
  induction fields generalizing slots s with
  | nil =>
      rw [FieldInit.checkAll]
      exact .nil _
  | cons f rest ih =>
      rw [List.forall_mem_cons] at h
      rw [FieldInit.checkAll]
      rw [FieldInit.idsAll] at hnodup hlt ⊢
      obtain ⟨hlt₁, hlt₂⟩ := List.forall_mem_append.1 hlt
      have hfirst := rewrites_checkField a slots h.1 s hnodup.of_append_left hlt₁
      have hlt₂' := hfirst.within.forall_lt hlt₂
      rcases child_cases (f.check a slots) (· :: rest) _ s with ⟨slots', -, heq⟩ | ⟨e, -, heq⟩
      · rw [heq]
        have hrest := ih slots' h.2 hnodup.of_append_right hlt₂'
        have hboth := FieldsRewritten.cons hfirst hrest hnodup hlt
        rcases child_cases (FieldInit.checkAll a slots' rest) _ _ (f.check a slots s).session with
          ⟨b, -, heq'⟩ | ⟨e, -, heq'⟩
        · rw [heq']
          exact hboth
        · rw [heq']
          exact hboth
      · rw [heq]
        exact .cons hfirst (.original hnodup.of_append_right hlt₂') hnodup hlt

/-- A field goes into its slot as it has been rewritten, or it does not. -/
theorem holds_acceptField {f : Field Ty} {slots slots' : Slots} {fields : List FieldInit} {t : Ty}
    (hslots : slots.Holds (· ∈ fields)) (node : FieldInit)
    (hok : ((acceptField f slots node t).perform s).1 = .ok slots') :
    slots'.Holds (· ∈ fields ++ [node]) := by
  rw [acceptField, perform_bind, perform_unify] at hok
  cases hunify : (s.context.unify f.ty t).1 with
  | ok u =>
      simp only [hunify, perform_bind, perform_record, perform_pure, Except.ok.injEq] at hok
      subst hok
      exact hslots.fill_append node f.index
  | error e =>
      simp only [hunify, perform_bind, perform_report, perform_pure, Except.ok.injEq] at hok
      subst hok
      exact hslots.imp fun _ => List.mem_append_left _

theorem holds_checkField {a : Adt Ty} {slots slots' : Slots} {fields : List FieldInit}
    (hslots : slots.Holds (· ∈ fields)) (node : FieldInit)
    (hok : (node.check a slots s).outcome = .ok slots') :
    slots'.Holds (· ∈ fields ++ [(node.check a slots s).node]) := by
  rw [FieldInit.check_eq] at hok ⊢
  rcases first_cases node (declaredField a slots node) (node.checkPlaced slots) s with
    ⟨r, s', -, heq⟩ | ⟨e, s', -, heq⟩
  · rw [heq] at hok ⊢
    cases r with
    | none =>
        obtain rfl : slots.fault = slots' := Except.ok.inj hok
        exact hslots.imp fun _ => List.mem_append_left _
    | some f =>
        rw [FieldInit.checkPlaced] at hok ⊢
        rcases child_cases node.checkValue id (fun node t => leaf node (acceptField f slots node t)) s'
          with ⟨t, -, heq'⟩ | ⟨e, -, heq'⟩
        · rw [heq'] at hok ⊢
          exact holds_acceptField hslots _ hok
        · rw [heq'] at hok
          cases hok
  · rw [heq] at hok
    cases hok

theorem holds_checkFields {a : Adt Ty} {slots slots' : Slots} {fields written : List FieldInit}
    (hslots : slots.Holds (· ∈ fields))
    (hok : (FieldInit.checkAll a slots written s).outcome = .ok slots') :
    slots'.Holds (· ∈ fields ++ (FieldInit.checkAll a slots written s).node) := by
  induction written generalizing slots fields s with
  | nil =>
      rw [FieldInit.checkAll] at hok ⊢
      obtain rfl : slots = slots' := Except.ok.inj hok
      exact hslots.imp fun _ => List.mem_append_left _
  | cons node rest ih =>
      rw [FieldInit.checkAll] at hok ⊢
      rcases child_cases (node.check a slots) (· :: rest) _ s with ⟨slots₁, hnode, heq⟩ | ⟨e, -, heq⟩
      · rw [heq] at hok ⊢
        have hfirst := holds_checkField hslots node hnode
        rcases child_cases (FieldInit.checkAll a slots₁ rest) _ _ (node.check a slots s).session with
          ⟨slots₂, hrest, heq'⟩ | ⟨e, -, heq'⟩
        · rw [heq'] at hok ⊢
          obtain rfl : slots₂ = slots' := Except.ok.inj hok
          have hall := ih hfirst hrest
          rwa [List.append_assoc] at hall
        · rw [heq'] at hok
          cases hok
      · rw [heq] at hok
        cases hok

/-! ## Literals -/

theorem rewrites_literalBase {base : Option Expr} (a : Adt Ty)
    (h : ∀ b, base = some b → Rewrites b.ids Expr.nodes b.check) :
    Rewrites (Expr.idsOption base) Expr.nodesOption (literalBase a base) := by
  cases base with
  | none => exact rewrites_leaf rfl (keepsLocations_pure _)
  | some b =>
      rw [literalBase]
      refine rewrites_child (fun _ => []) (h b rfl) (fun _ => rfl) (fun _ => rfl) fun b t => ?_
      exact (steady_unifyBase a t b.span : Check.Steady [] _).keepsLocations

theorem kept_orderLiteral (a : Adt Ty) (t : Ty) {slots : Slots} {fields : List FieldInit}
    (hslots : slots.Holds (· ∈ fields)) (s : Session) :
    (orderLiteral a t slots s).node ⊆ fields ∧
      (orderLiteral a t slots s).session.locations = s.locations := by
  unfold orderLiteral
  cases hkept : slots.inOrder with
  | ok kept => exact ⟨hslots.of_inOrder hkept, rfl⟩
  | error i => exact ⟨List.nil_subset _, rfl⟩

/-- What completes a literal keeps the written fields or what is in the slots, which are then filled
from the base. -/
theorem filled_completeLiteral (a : Adt Ty) (t : Ty) (span : Span) (base : Option Expr)
    {written : List FieldInit} {slots : Slots} (hslots : slots.Holds (· ∈ written)) (s : Session) :
    ∃ filled, FilledFrom s.locations (completeLiteral a t span base written slots s).session.locations
        base filled ∧
      (completeLiteral a t span base written slots s).node ⊆ written ++ filled := by
  have hnone {l' : Locations} (hl : l' = s.locations) : FilledFrom s.locations l' base [] :=
    .nil (hl ▸ .refl _) base
  unfold completeLiteral
  split
  · exact ⟨[], hnone rfl, List.subset_append_left _ _⟩
  · split
    · obtain ⟨hkept, hl⟩ := kept_orderLiteral a t hslots s
      exact ⟨[], hnone hl, List.Subset.trans hkept (List.subset_append_left _ _)⟩
    · cases base with
      | none => exact ⟨[], hnone rfl, List.subset_append_left _ _⟩
      | some b =>
          obtain ⟨filled, hfilled, hfrom⟩ := s.filled_synthesizeAll a b (slots.untaken a) hslots
          obtain ⟨hkept, hl⟩ := kept_orderLiteral a t hfrom
            (s.synthesizeAll b.span ((slots.untaken a).map Field.ty))
          simp only
          rw [first_of_ok (perform_fillFromBase a b (slots.untaken a) slots s), hl]
          exact ⟨filled, hfilled, hkept⟩

theorem rewrites_literal {m : Mark} {path : Path} {pathSpan : Span} {fields : List FieldInit}
    {base : Option Expr} (hbase : ∀ b, base = some b → Rewrites b.ids Expr.nodes b.check)
    (hfields : ∀ f ∈ fields, Rewrites f.ids FieldInit.nodes f.checkValue) :
    Rewrites (Expr.struct m path pathSpan fields base).ids
      (fun parts => (Expr.struct m path pathSpan parts.1 parts.2).nodes)
      (literal path pathSpan m.span fields base) := by
  unfold literal
  refine rewrites_first (Expr.ids_nodes _)
    (steady_structOf pathSpan (List.Subset.refl path.ids)).keepsLocations fun a s hnodup hlt => ?_
  have hsplit : (Expr.struct m path pathSpan fields base).ids =
      m.id :: path.ids ++ (Expr.idsOption base ++ FieldInit.idsAll fields) := rfl
  have hnodup' := (hsplit ▸ hnodup).of_append_right
  obtain ⟨hlt₁, hlt₂⟩ :=
    List.forall_mem_append.1 (List.forall_mem_append.1 (hsplit ▸ hlt)).2
  have hfirst := rewrites_literalBase a hbase s hnodup'.of_append_left hlt₁
  have hlt₂' := hfirst.within.forall_lt hlt₂
  refine rewritesAt_child (.literal hnodup hlt hfirst
    (.original hnodup'.of_append_right hlt₂') (.nil (.refl _) _) (List.subset_append_left _ _))
    fun literalTy _ => ?_
  -- The base is not walked again, so whatever is copied from it stays equal to it.
  have hsecond := fieldsRewritten_checkAll a (Slots.empty a.size) hfields
    hnodup'.of_append_right hlt₂'
  refine rewritesAt_child (.literal hnodup hlt hfirst hsecond (.nil (.refl _) _)
    (List.subset_append_left _ _)) fun slots hok => ?_
  obtain ⟨filled, hfilled, hkept⟩ := filled_completeLiteral a literalTy m.span
    (literalBase a base s).node (holds_checkFields (Slots.holds_empty (· ∈ []) a.size) hok) _
  have hall := Rewritten.literal hnodup hlt hfirst hsecond hfilled hkept
  exact rewritesAt_child hall fun t _ => rewritesAt_leaf hall (keepsLocations_pure t)

/-! ## Lists of nodes -/

theorem rewrites_checkExprs {es : List Expr} (h : ∀ e ∈ es, Rewrites e.ids Expr.nodes e.check) :
    Rewrites (Expr.idsAll es) Expr.nodesAll (Expr.checkAll es) := by
  induction es with
  | nil =>
      rw [Expr.checkAll]
      exact rewrites_leaf rfl (keepsLocations_pure _)
  | cons e es ih =>
      rw [List.forall_mem_cons] at h
      rw [Expr.checkAll]
      exact rewrites_children (fun _ _ => []) h.1 (fun _ _ => ih h.2) (Expr.ids_nodesAll es)
        (fun _ _ => rfl) (fun _ _ => rfl) fun _ _ _ _ => keepsLocations_pure _

/-- After the first statement, the others are walked, unless the first one is the value. -/
theorem checkAll_cons (hasTail : Bool) (stmt : Stmt) (rest : List Stmt) :
    Stmt.checkAll hasTail (stmt :: rest) =
      child stmt.check (· :: rest) fun stmt ty =>
      child (if !hasTail && rest.isEmpty && stmt.isExpr then leaf rest (return some ty)
        else first rest (requireUnit stmt.mark.span ty) fun _ => Stmt.checkAll hasTail rest)
        (stmt :: ·) fun rest value => leaf (stmt :: rest) (return value) := by
  rw [Stmt.checkAll]
  congr 1
  funext stmt ty
  split
  · rw [child_leaf, first_pure]
  · rw [child_first]

theorem rewrites_checkStmts {stmts : List Stmt} (hasTail : Bool)
    (h : ∀ s ∈ stmts, Rewrites s.ids Stmt.nodes s.check) :
    Rewrites (Stmt.idsAll stmts) Stmt.nodesAll (Stmt.checkAll hasTail stmts) := by
  induction stmts with
  | nil =>
      rw [Stmt.checkAll]
      exact rewrites_leaf rfl (keepsLocations_pure _)
  | cons stmt rest ih =>
      rw [List.forall_mem_cons] at h
      have hrest := Stmt.ids_nodesAll rest
      rw [checkAll_cons]
      refine rewrites_children (fun _ _ => []) h.1 (fun n t => ?_) hrest (fun _ _ => rfl)
        (fun _ _ => rfl) fun _ _ _ _ => keepsLocations_pure _
      split
      · exact rewrites_leaf hrest (keepsLocations_pure _)
      · exact rewrites_first hrest (steady_requireUnit _ t : Check.Steady [] _).keepsLocations
          fun _ => ih h.2

/-! ## Nodes -/

/-- A node that comes before its one part and is recorded after it. -/
theorem rewrites_node {w : Walk μ α} {rebuild : μ → ν} {x : μ → α → Check Ty} {id : NodeId}
    (own : μ → Node) (hw : Rewrites ids₁ nodes₁ w)
    (hnodes : ∀ n, nodes (rebuild n) = own n :: nodes₁ n) (hid : ∀ n, (own n).id = id)
    (hx : ∀ n a, Check.Steady [id] (x n a)) :
    Rewrites (id :: ids₁) nodes (child w rebuild fun n a => leaf (rebuild n) (x n a >>= recorded id)) :=
  rewrites_child (fun n => [own n]) hw hnodes (fun n => by simp [hid n]) fun n a =>
    keepsLocations_recorded (hx n a)

/-- A node that comes before its two parts and is recorded after them. -/
theorem rewrites_pair {w : Walk μ α} {v : μ → α → Walk κ β} {rebuild : μ → κ → ν} {unwalked : κ}
    {x : μ → α → κ → β → Check Ty} {id : NodeId} (own : μ → κ → Node) (hw : Rewrites ids₁ nodes₁ w)
    (hv : ∀ n a, Rewrites ids₂ nodes₂ (v n a)) (hunwalked : (nodes₂ unwalked).map Node.id = ids₂)
    (hnodes : ∀ n k, nodes (rebuild n k) = own n k :: (nodes₁ n ++ nodes₂ k))
    (hid : ∀ n k, (own n k).id = id) (hx : ∀ n a k b, Check.Steady [id] (x n a k b)) :
    Rewrites (id :: (ids₁ ++ ids₂)) nodes (child w (rebuild · unwalked) fun n a =>
      child (v n a) (rebuild n) fun k b => leaf (rebuild n k) (x n a k b >>= recorded id)) :=
  rewrites_children (fun n k => [own n k]) hw hv hunwalked hnodes (fun n k => by simp [hid n k])
    fun n k a b => keepsLocations_recorded (hx n a k b)

end Walk

section

variable {m : Mark}

theorem Expr.rewrites_lit {l : Literal} : Rewrites (lit m l).ids Expr.nodes (lit m l).check := by
  rw [Expr.check]
  exact rewrites_leaf rfl (keepsLocations_recorded (steady_literalType m.span l))

theorem Expr.rewrites_path {p : Path} : Rewrites (path m p).ids Expr.nodes (path m p).check := by
  rw [Expr.check]
  have htype := steady_pathType m.span (List.subset_cons_self m.id p.ids)
  exact rewrites_leaf (Expr.ids_nodes _)
    (htype.bind fun t => steady_recorded List.mem_cons_self t).keepsLocations

theorem Expr.rewrites_block {b : Block} (ih : Rewrites b.ids Block.nodes b.check) :
    Rewrites (block m b).ids Expr.nodes (block m b).check := by
  rw [Expr.check]
  exact rewrites_node (fun b => .expr (.block m b)) ih (fun _ => rfl) (fun _ => rfl) fun _ t =>
    steady_pure t

/-- The literal itself is counted with its parts. -/
theorem Expr.rewrites_struct {p : Path} {span : Span} {fields : List FieldInit} {base : Option Expr}
    (ihfields : ∀ f ∈ fields, Rewrites f.ids FieldInit.nodes f.checkValue)
    (ihbase : ∀ b, base = some b → Rewrites b.ids Expr.nodes b.check) :
    Rewrites (struct m p span fields base).ids Expr.nodes (struct m p span fields base).check := by
  rw [Expr.check_struct]
  exact rewrites_child (fun _ => []) (rewrites_literal ihbase ihfields) (fun _ => rfl) (fun _ => rfl)
    fun _ t => keepsLocations_recorded (steady_pure t)

theorem Expr.rewrites_field {base : Expr} {name : String} (ih : Rewrites base.ids Expr.nodes base.check) :
    Rewrites (field m base name).ids Expr.nodes (field m base name).check := by
  rw [Expr.check]
  exact rewrites_node (fun b => .expr (.field m b name)) ih (fun _ => rfl) (fun _ => rfl) fun _ t =>
    steady_fieldType m.span name t

theorem Expr.rewrites_tupleIndex {base : Expr} {index : Nat}
    (ih : Rewrites base.ids Expr.nodes base.check) :
    Rewrites (tupleIndex m base index).ids Expr.nodes (tupleIndex m base index).check := by
  rw [Expr.check]
  exact rewrites_node (fun b => .expr (.tupleIndex m b index)) ih (fun _ => rfl) (fun _ => rfl)
    fun _ t => steady_fieldType m.span _ t

theorem Expr.rewrites_call {callee : Expr} {args : List Expr}
    (ihcallee : Rewrites callee.ids Expr.nodes callee.check)
    (ihargs : ∀ e ∈ args, Rewrites e.ids Expr.nodes e.check) :
    Rewrites (call m callee args).ids Expr.nodes (call m callee args).check := by
  rw [Expr.check]
  exact rewrites_pair (fun f es => .expr (.call m f es)) ihcallee (fun _ _ => rewrites_checkExprs ihargs)
    (Expr.ids_nodesAll args) (fun _ _ => rfl) (fun _ _ => rfl) fun _ t _ _ =>
      steady_callType m.span _ t _

theorem Expr.rewrites_unary {op : UnOp} {e : Expr} (ih : Rewrites e.ids Expr.nodes e.check) :
    Rewrites (unary m op e).ids Expr.nodes (unary m op e).check := by
  rw [Expr.check]
  exact rewrites_node (fun e => .expr (.unary m op e)) ih (fun _ => rfl) (fun _ => rfl) fun _ t =>
    steady_unaryType m.span op t

theorem Expr.rewrites_binary {op : BinOp} {l r : Expr} (ihl : Rewrites l.ids Expr.nodes l.check)
    (ihr : Rewrites r.ids Expr.nodes r.check) :
    Rewrites (binary m op l r).ids Expr.nodes (binary m op l r).check := by
  rw [Expr.check]
  exact rewrites_pair (fun l r => .expr (.binary m op l r)) ihl (fun _ _ => ihr) r.ids_nodes
    (fun _ _ => rfl) (fun _ _ => rfl) fun _ _ _ _ => steady_binaryType m.span op _ _

theorem Expr.rewrites_assign {l r : Expr} (ihl : Rewrites l.ids Expr.nodes l.check)
    (ihr : Rewrites r.ids Expr.nodes r.check) :
    Rewrites (assign m l r).ids Expr.nodes (assign m l r).check := by
  rw [Expr.check_assign]
  exact rewrites_pair (fun l r => .expr (.assign m l r)) ihl (fun _ _ => ihr) r.ids_nodes
    (fun _ _ => rfl) (fun _ _ => rfl) fun _ t _ u =>
      (steady_unifyAt _ t u).bind fun _ => steady_pure _

theorem Expr.rewrites_paren {e : Expr} (ih : Rewrites e.ids Expr.nodes e.check) :
    Rewrites (paren m e).ids Expr.nodes (paren m e).check := by
  rw [Expr.check]
  exact rewrites_node (fun e => .expr (.paren m e)) ih (fun _ => rfl) (fun _ => rfl) fun _ t =>
    steady_pure t

theorem Block.rewrites_mk {stmts : List Stmt} {tail : Option Expr}
    (ihstmts : ∀ n ∈ stmts, Rewrites n.ids Stmt.nodes n.check)
    (ihtail : ∀ e, tail = some e → Rewrites e.ids Expr.nodes e.check) :
    Rewrites (mk m stmts tail).ids Block.nodes (mk m stmts tail).check := by
  cases tail with
  | none =>
      rw [Block.check, Block.ids, Expr.idsOption, List.append_nil]
      exact rewrites_node (fun stmts => .block (.mk m stmts none)) (rewrites_checkStmts false ihstmts)
        (fun _ => by simp [Block.nodes, Expr.nodesOption]) (fun _ => rfl) fun _ _ => steady_pure _
  | some e =>
      rw [Block.check]
      exact rewrites_pair (fun stmts e => .block (.mk m stmts (some e)))
        (rewrites_checkStmts true ihstmts) (fun _ _ => ihtail e rfl) e.ids_nodes (fun _ _ => rfl)
        (fun _ _ => rfl) fun _ _ _ t => steady_pure t

theorem Stmt.rewrites_bind {binding : NodeId} {name : String} {ty : Option TypeRef}
    {init : Option Expr} (ih : ∀ e, init = some e → Rewrites e.ids Expr.nodes e.check) :
    Rewrites (bind m binding name ty init).ids Stmt.nodes (bind m binding name ty init).check := by
  have hbound (annotated : Option Ty) (init : Option (Ty × Span)) : Check.KeepsLocations (do
      record binding (← bindingType annotated init)
      recorded m.id .unit) :=
    (steady_bound (List.mem_cons_self (l := [m.id])) (by simp) annotated init).keepsLocations
  have hread : (TypeRef.readOptional .body ty).KeepsLocations :=
    (steady_readOptional (List.Subset.refl _)).keepsLocations
  cases init with
  | none =>
      rw [Stmt.check, leaf_bind]
      exact rewrites_first (Stmt.ids_nodes _) hread fun annotated =>
        rewrites_leaf (Stmt.ids_nodes _) (hbound annotated none)
  | some e =>
      rw [Stmt.check]
      refine rewrites_first (Stmt.ids_nodes _) hread fun annotated => ?_
      refine rewrites_child (fun e => .stmt (.bind m binding name ty (some e)) ::
        .decl binding name :: TypeRef.nodesOption ty) (ih e rfl) (fun _ => rfl) (fun e => ?_)
        fun _ _ => hbound annotated _
      simp [Stmt.ids, Expr.idsOption, Node.id, Stmt.mark, TypeRef.ids_nodesOption]

theorem Stmt.rewrites_expr {e : Expr} (ih : Rewrites e.ids Expr.nodes e.check) :
    Rewrites (expr m e).ids Stmt.nodes (expr m e).check := by
  rw [Stmt.check]
  exact rewrites_node (fun e => .stmt (.expr m e)) ih (fun _ => rfl) (fun _ => rfl) fun _ t =>
    steady_pure t

theorem Stmt.rewrites_semi {e : Expr} (ih : Rewrites e.ids Expr.nodes e.check) :
    Rewrites (semi m e).ids Stmt.nodes (semi m e).check := by
  rw [Stmt.check]
  exact rewrites_child (fun e => [.stmt (.semi m e)]) ih (fun _ => rfl) (fun _ => rfl) fun _ _ =>
    (steady_recorded List.mem_cons_self .unit : Check.Steady [m.id] _).keepsLocations

theorem FieldInit.rewrites_named {name : String} {e : Expr} (ih : Rewrites e.ids Expr.nodes e.check) :
    Rewrites (named m name e).ids FieldInit.nodes (named m name e).checkValue :=
  rewrites_child (fun e => [.field (.named m name e)]) ih (fun _ => rfl) (fun _ => rfl) fun _ _ =>
    keepsLocations_pure _

theorem FieldInit.rewrites_index {i : Nat} {e : Expr} (ih : Rewrites e.ids Expr.nodes e.check) :
    Rewrites (index m i e).ids FieldInit.nodes (index m i e).checkValue :=
  rewrites_child (fun e => [.field (.index m i e)]) ih (fun _ => rfl) (fun _ => rfl) fun _ _ =>
    keepsLocations_pure _

theorem FieldInit.rewrites_short {name : String} {res : Option NodeId} :
    Rewrites (short m name res).ids FieldInit.nodes (short m name res).checkValue := by
  have hids : (Path.ident name res).ids ⊆ [m.id] := by simp [Path.ident, Path.ids, TypeRef.idsAll]
  exact rewrites_leaf rfl (keepsLocations_recorded (steady_pathType m.span hids))

end

/-! ## Programs -/

namespace Walk

theorem rewrites_all :
    (∀ e : Expr, Rewrites e.ids Expr.nodes e.check) ∧
      (∀ b : Block, Rewrites b.ids Block.nodes b.check) ∧
      (∀ n : Stmt, Rewrites n.ids Stmt.nodes n.check) ∧
      ∀ f : FieldInit, Rewrites f.ids FieldInit.nodes f.checkValue := by
  apply Expr.induct
  case lit => exact fun _ _ => Expr.rewrites_lit
  case path => exact fun _ _ => Expr.rewrites_path
  case block => exact fun _ _ => Expr.rewrites_block
  case struct => exact fun _ _ _ _ _ => Expr.rewrites_struct
  case field => exact fun _ _ _ => Expr.rewrites_field
  case tupleIndex => exact fun _ _ _ => Expr.rewrites_tupleIndex
  case call => exact fun _ _ _ => Expr.rewrites_call
  case unary => exact fun _ _ _ => Expr.rewrites_unary
  case binary => exact fun _ _ _ _ => Expr.rewrites_binary
  case assign => exact fun _ _ _ => Expr.rewrites_assign
  case paren => exact fun _ _ => Expr.rewrites_paren
  case mk => exact fun _ _ _ => Block.rewrites_mk
  case bind => exact fun _ _ _ _ _ => Stmt.rewrites_bind
  case expr => exact fun _ _ => Stmt.rewrites_expr
  case semi => exact fun _ _ => Stmt.rewrites_semi
  case named => exact fun _ _ _ => FieldInit.rewrites_named
  case index => exact fun _ _ _ => FieldInit.rewrites_index
  case short => exact fun _ _ _ => FieldInit.rewrites_short

theorem rewrites_item (item : Item) : Rewrites item.ids Item.nodes item.check := by
  obtain ⟨m, name, kind⟩ := item
  have hids (kind : ItemKind) : (Item.mk m name kind).signatureNodes.map Node.id ++ kind.bodyIds =
      (Item.mk m name kind).ids := by
    rw [Item.ids_signatureNodes]
    rfl
  unfold Item.check
  cases kind with
  | struct decl => exact rewrites_leaf (Item.ids_nodes _) (keepsLocations_pure ())
  | fn decl =>
      refine rewrites_first (Item.ids_nodes _) (steady_returnType m.id).keepsLocations fun ret => ?_
      exact rewrites_child (fun body => (Item.mk m name (.fn { decl with body })).signatureNodes)
        (rewrites_all.2.1 decl.body) (fun _ => rfl) (fun _ => hids (.fn decl)) fun _ t =>
          (steady_requireType _ ret t : Check.Steady [] _).keepsLocations
  | const decl =>
      refine rewrites_first (Item.ids_nodes _) (steady_constType m.id).keepsLocations fun t => ?_
      exact rewrites_child (fun value => (Item.mk m name (.const { decl with value })).signatureNodes)
        (rewrites_all.1 decl.value) (fun _ => rfl) (fun _ => hids (.const decl)) fun _ u =>
          (steady_requireType _ t u : Check.Steady [] _).keepsLocations

end Walk

/-! ## The pass over bodies -/

namespace Program

theorem rewritten_checkAll {items : List Item} {s : Session} (hnodup : (items.flatMap Item.ids).Nodup)
    (hlt : ∀ i ∈ items.flatMap Item.ids, i < s.locations.size) :
    Rewritten s.locations (checkAll items s).2.2.locations (items.flatMap Item.ids)
      ((checkAll items s).1.flatMap Item.nodes) := by
  induction items generalizing s with
  | nil => exact .original rfl hnodup hlt
  | cons item rest ih =>
      rw [List.flatMap_cons] at hnodup hlt ⊢
      obtain ⟨hlt₁, hlt₂⟩ := List.forall_mem_append.1 hlt
      have hfirst := Walk.rewrites_item item s hnodup.of_append_left hlt₁
      have hlt₂' := hfirst.within.forall_lt hlt₂
      have hunwalked := hfirst.append
        (.original (Program.mk rest).ids_nodes hnodup.of_append_right hlt₂') hnodup hlt
      have hrest := hfirst.append (ih hnodup.of_append_right hlt₂') hnodup hlt
      rw [checkAll]
      split
      · rename_i hrun
        rw [hrun] at hunwalked
        exact hunwalked
      · rename_i hrun
        rw [hrun] at hunwalked
        exact hunwalked
      · rename_i hrun
        rw [hrun] at hrest
        exact hrest

/-- Only copies share an identity: in a program whose bodies have been checked, with whatever
outcome, nodes with one identity are equal, locations are kept, and what has a new identity is a field
that a literal filled from its base, or the access in it. -/
theorem copies_bodyPass (p : Program) (s : Session) (hnodup : p.ids.Nodup)
    (hlocated : ∀ id ∈ p.ids, id < s.locations.size) :
    (∀ n ∈ (p.bodyPass s).program.nodes, ∀ m ∈ (p.bodyPass s).program.nodes, n.id = m.id → n = m) ∧
      (∀ id < s.locations.size,
        (p.bodyPass s).session.locations.find? id = s.locations.find? id) ∧
      ∀ n ∈ (p.bodyPass s).program.nodes, s.locations.size ≤ n.id →
        n.IsCopyIn (p.bodyPass s).program.nodes (p.bodyPass s).session.locations := by
  have h : Rewritten s.locations (p.bodyPass s).session.locations p.ids (p.bodyPass s).program.nodes :=
    rewritten_checkAll hnodup hlocated
  exact ⟨h.coherent, fun _ hid => h.within.find?_eq hid, h.copied⟩

/-- The program `struct S { x: i32, y: i32, z: i32 }` with
`fn f(b: S) { S { x: 1, ..S { x: 2, ..b } }; }`. -/
def nestedUpdate : Program :=
  let int (id : NodeId) : TypeRef := .path ⟨id, ⟨id, id + 1⟩⟩ "i32" (some .builtin) []
  let literal (id value : Nat) (base : Expr) : Expr := .struct ⟨id, ⟨id, id + 1⟩⟩ (.ident "S" (some 6))
    ⟨id, id + 1⟩ [.named ⟨id - 1, ⟨id - 1, id⟩⟩ "x" (.lit ⟨id - 2, ⟨id - 2, id - 1⟩⟩ (.int value none))]
    (some base)
  ⟨[⟨⟨6, ⟨6, 7⟩⟩, "S", .struct ⟨.named, [], [⟨⟨1, ⟨1, 2⟩⟩, "x", int 0⟩, ⟨⟨3, ⟨3, 4⟩⟩, "y", int 2⟩,
      ⟨⟨5, ⟨5, 6⟩⟩, "z", int 4⟩]⟩⟩,
    ⟨⟨18, ⟨18, 19⟩⟩, "f", .fn ⟨[⟨⟨8, ⟨8, 9⟩⟩, "b", .path ⟨7, ⟨7, 8⟩⟩ "S" (some (.adt 6)) []⟩], none,
      .mk ⟨17, ⟨17, 18⟩⟩ [.semi ⟨16, ⟨16, 17⟩⟩
        (literal 15 1 (literal 12 2 (.path ⟨9, ⟨9, 10⟩⟩ (.ident "b" (some 8)))))] none⟩⟩]⟩

/-- The session that the signatures of that program leave. -/
def nestedUpdateDeclared : Session :=
  (nestedUpdate.signaturePass (.start ⟨Array.replicate 19 ⟨0, 1⟩⟩ .fresh)).session

/-- The inner literal takes four identities for its fields `y` and `z`, and so does the outer one. Its
two fields have copies of the inner literal, each with the four identities of the inner one. -/
theorem copies_bodyPass_nested :
    let q := nestedUpdate.bodyPass nestedUpdateDeclared
    nestedUpdate.ids.Nodup ∧ (∀ id ∈ nestedUpdate.ids, id < nestedUpdateDeclared.locations.size) ∧
      (q.program.nodes.map Node.id).filter (nestedUpdateDeclared.locations.size ≤ ·) =
        [20, 19, 22, 21, 24, 23, 20, 19, 22, 21, 26, 25, 20, 19, 22, 21] ∧
      (∀ n ∈ q.program.nodes, ∀ m ∈ q.program.nodes, n.id = m.id → n = m) ∧
      (∀ id < nestedUpdateDeclared.locations.size,
        q.session.locations.find? id = nestedUpdateDeclared.locations.find? id) ∧
      ∀ n ∈ q.program.nodes, nestedUpdateDeclared.locations.size ≤ n.id →
        n.IsCopyIn q.program.nodes q.session.locations := by
  have hnodup : nestedUpdate.ids.Nodup := by decide +kernel
  have hlocated : ∀ id ∈ nestedUpdate.ids, id < nestedUpdateDeclared.locations.size := by
    decide +kernel
  exact ⟨hnodup, hlocated, by decide +kernel,
    copies_bodyPass nestedUpdate nestedUpdateDeclared hnodup hlocated⟩

end Program

end TypeInference

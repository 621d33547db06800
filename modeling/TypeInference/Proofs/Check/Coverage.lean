import TypeInference.Check.Item
import TypeInference.Proofs.Check.Frame

/-!
# Every node of a body gets a type

A walk that succeeds and reports nothing has recorded a type for every node of
the tree that it gives back. The fields of a literal are the nodes in its
slots: each was written and accepted, or made from the base.
-/

namespace TypeInference

open Walk Check

def Session.Has (s : Session) (l : List NodeId) : Prop := ∀ id ∈ l, s.context.contains id

namespace Session

variable {s s' : Session} {ids l l' : List NodeId} {id : NodeId}

theorem has_nil (s : Session) : s.Has [] := by simp [Has]

theorem has_cons : s.Has (id :: l) ↔ s.context.contains id ∧ s.Has l := by
  simp [Has]

theorem has_append : s.Has (l ++ l') ↔ s.Has l ∧ s.Has l' := by
  simp only [Has, List.mem_append]
  constructor
  · exact fun h => ⟨fun i hi => h i (.inl hi), fun i hi => h i (.inr hi)⟩
  · exact fun h i hi => hi.elim (h.1 i) (h.2 i)

/-- A node that has a type keeps having one. -/
theorem Has.after (h : s.Has l) (hgrows : s.Grows ids s') : s'.Has l :=
  fun id hid => hgrows.retained id (h id hid)

theorem has_insert (s : Session) (id : NodeId) (t : Ty) :
    ({ s with context := s.context.insert id t } : Session).Has [id] := by
  simp [Has]

end Session

/-! ## Walks that cover their nodes -/

namespace Walk

/-- Whether a walk that succeeds and reports nothing leaves types for these nodes of its result. -/
def Covers {ν α : Type} (s : Session) (w : Walk ν α) (nodes : ν → α → List NodeId) : Prop :=
  ∀ a, (w s).outcome = .ok a → (w s).session.sink.errors = [] →
    (w s).session.Has (nodes (w s).node a)

variable {ν μ α β : Type} {s : Session} {ids l : List NodeId} {nodes : ν → β → List NodeId}

theorem covers_leaf {node : ν} {x : Check β} (hx : Check.Steady l x)
    (h : ∀ b, s.Has (nodes node b)) : Covers s (leaf node x) nodes :=
  fun b _ _ => (h b).after (hx.grows s)

/-- A walk that ends by recording the type of its node. -/
theorem covers_recorded {node : ν} {x : Check Ty} {id : NodeId} {inner : List NodeId}
    {nodes : ν → Ty → List NodeId} (hx : Check.Steady l x) (hinner : s.Has inner)
    (hnodes : ∀ t, nodes node t = id :: inner) :
    Covers s (leaf node (x >>= recorded id)) nodes := by
  intro t hok _
  rw [leaf_outcome, perform_bind] at hok
  rw [leaf_node, leaf_session, perform_bind, hnodes]
  have hgrows := hx.grows s
  rcases hrun : x.perform s with ⟨e | u, s'⟩
  · simp [hrun] at hok
  · rw [hrun] at hgrows
    have hinsert : s'.Grows [id] { s' with context := s'.context.insert id u } :=
      grows_insert (List.mem_singleton_self id) s' u
    apply Session.has_cons.2
    constructor
    · exact s'.has_insert id u id (List.mem_singleton_self id)
    · exact (hinner.after hgrows).after hinsert

theorem covers_first {node : ν} {x : Check α} {next : α → Walk ν β} (hx : Check.Steady l x)
    (hnext : ∀ a s', x.perform s = (.ok a, s') → s.Grows l s' → Covers s' (next a) nodes) :
    Covers s (first node x next) nodes := by
  intro b hok herrors
  have hgrows := hx.grows s
  rcases first_cases node x next s with ⟨a, s', hrun, heq⟩ | ⟨e, s', -, heq⟩
  · rw [heq] at hok herrors ⊢
    rw [hrun] at hgrows
    exact hnext a s' hrun hgrows b hok herrors
  · rw [heq] at hok
    cases hok

theorem covers_child {w : Walk μ α} {rebuild : μ → ν} {next : μ → α → Walk ν β}
    {inner : μ → α → List NodeId} (hw : Covers s w inner) (hsteady : Steady ids w)
    (hrest : ∀ a, Steady l (next (w s).node a))
    (hnext : ∀ a, s.Grows ids (w s).session → (w s).session.Has (inner (w s).node a) →
      Covers (w s).session (next (w s).node a) nodes) :
    Covers s (child w rebuild next) nodes := by
  intro b hok herrors
  rcases child_cases w rebuild next s with ⟨a, hrun, heq⟩ | ⟨e, -, heq⟩
  · rw [heq] at hok herrors ⊢
    have hnil := ((hrest a).grows _).errors_eq_nil herrors
    exact hnext a (hsteady.grows s) (hw a hrun hnil) b hok herrors
  · rw [heq] at hok
    cases hok

/-- A walk that visits a child and then records the type of its node; `l` are nodes that had types
before. -/
theorem covers_node {w : Walk μ α} {rebuild node : μ → ν} {x : μ → α → Check Ty} {id : NodeId}
    {inner : μ → List NodeId} {nodes : ν → List NodeId} (hl : s.Has l)
    (hw : Covers s w fun n _ => inner n) (hsteady : Steady ids w)
    (hx : ∀ n a, Check.Steady [id] (x n a)) (hnodes : ∀ n, nodes (node n) = id :: (l ++ inner n)) :
    Covers s (child w rebuild fun n a => leaf (node n) (x n a >>= recorded id))
      fun n _ => nodes n := by
  refine covers_child (l := [id]) hw hsteady (fun a => steady_leaf ((hx _ a).bind fun t =>
    steady_recorded (List.mem_singleton_self id) t)) fun a hgrows hinner => ?_
  exact covers_recorded (hx _ a) (Session.has_append.2 ⟨hl.after hgrows, hinner⟩) fun _ => hnodes _

/-- A walk that visits two children and then records the type of its node. -/
theorem covers_pair {κ : Type} {w : Walk μ α} {v : Walk κ β} {rebuild : μ → ν} {rebuild' node : μ → κ → ν}
    {x : μ → α → κ → β → Check Ty} {id : NodeId} {inner : μ → List NodeId} {last : κ → List NodeId}
    {nodes : ν → List NodeId} (hw : Covers s w fun n _ => inner n) (hsteady : Steady ids w)
    (hv : ∀ s, Covers s v fun n _ => last n) (hlast : Steady l v)
    (hx : ∀ n a k b, Check.Steady [id] (x n a k b))
    (hnodes : ∀ n k, nodes (node n k) = id :: (inner n ++ last k)) :
    Covers s (child w rebuild fun n a => child v (rebuild' n) fun k b =>
      leaf (node n k) (x n a k b >>= recorded id)) fun n _ => nodes n := by
  have hrecorded (n : μ) (a : α) (k : κ) (b : β) :
      Steady (id :: l) (leaf (node n k) (x n a k b >>= recorded id)) :=
    (steady_typed (List.mem_singleton_self id) (hx n a k b)).mono (by simp)
  refine covers_child (l := id :: l) hw hsteady (fun a => ?_) fun a _ hinner => ?_
  · exact steady_child (hlast.mono (List.subset_cons_self _ _)) fun _ b => hrecorded _ a _ b
  · exact covers_node hinner (hv _) hlast (fun k b => hx _ a k b) fun k => hnodes _ k

/-- A statement that ends by recording the type of its binding, and its own. -/
theorem covers_bound {node : Stmt} {x : Check Ty} {binding id : NodeId} {inner : List NodeId}
    (hx : Check.Steady l x) (hinner : s.Has inner) (hnodes : node.nodeIds = id :: binding :: inner) :
    Covers s (leaf node (x >>= fun t => record binding t >>= fun _ => recorded id .unit))
      fun n _ => n.nodeIds := by
  intro t hok _
  simp only [leaf_outcome, perform_bind] at hok
  simp only [leaf_node, leaf_session, perform_bind, hnodes]
  have hgrows := hx.grows s
  rcases hrun : x.perform s with ⟨e | u, s'⟩
  · simp [hrun] at hok
  · rw [hrun] at hgrows
    have hbinding : s'.Grows [binding] { s' with context := s'.context.insert binding u } :=
      grows_insert (List.mem_singleton_self binding) s' u
    have hbound : ({ s' with context := s'.context.insert binding u } : Session).Has
        (binding :: inner) :=
      Session.has_cons.2 ⟨s'.has_insert binding u binding (List.mem_singleton_self binding),
        (hinner.after hgrows).after hbinding⟩
    apply Session.has_cons.2
    constructor
    · exact Session.has_insert _ id .unit id (List.mem_singleton_self id)
    · exact hbound.after (grows_insert (List.mem_singleton_self id) _ .unit)

end Walk

/-! ## Struct literals -/

namespace Slots

def Typed (s : Session) (slots : Slots) : Prop := ∀ node, some node ∈ slots.nodes → s.Has node.nodeIds

variable {s s' : Session} {ids : List NodeId} {slots : Slots}

theorem typed_empty (s : Session) (size : Nat) : (empty size).Typed s := holds_empty _ size

theorem Typed.after (h : slots.Typed s) (hgrows : s.Grows ids s') : slots.Typed s' :=
  fun node hnode => (h node hnode).after hgrows

theorem Typed.fill (h : slots.Typed s) {node : FieldInit} (hnode : s.Has node.nodeIds) (i : Nat) :
    (slots.fill i node).Typed s :=
  Holds.fill h hnode i

theorem Typed.has_of_inOrder (h : slots.Typed s) {fields : List FieldInit}
    (hfields : slots.inOrder = .ok fields) : s.Has (FieldInit.nodeIdsAll fields) := by
  rw [FieldInit.nodeIdsAll_eq]
  intro id hid
  obtain ⟨node, hnode, hid⟩ := List.mem_flatMap.1 hid
  exact Holds.of_inOrder h hfields node hnode id hid

end Slots

namespace Walk

variable {s : Session} {ids l : List NodeId}

/-- The nodes made from the base are the new ones, over copies of the base. -/
theorem typed_fillFromBase (a : Adt Ty) {base : Expr} (fs : List (Field Ty)) {slots : Slots}
    (hslots : slots.Typed s) (hbase : s.Has base.nodeIds) {slots' : Slots} {s' : Session}
    (hrun : (fillFromBase a base fs slots).perform s = (.ok slots', s')) : slots'.Typed s' := by
  induction fs generalizing slots s with
  | nil =>
      obtain ⟨rfl, rfl⟩ : slots = slots' ∧ s = s' := by simpa [fillFromBase] using hrun
      exact hslots
  | cons f fs ih =>
      rw [fillFromBase, perform_bind, perform_fieldFromBase] at hrun
      have hgrows := Session.grows_synthesize [] s base.span f.ty
      have hbase' := hbase.after hgrows
      obtain ⟨haccess, hfield⟩ := Session.typed_synthesize s base.span f.ty
      have hnew : (s.synthesize base.span f.ty).Has [s.locations.size, s.locations.size + 1] := by
        simp [Session.Has, Context.contains, NodeTypes.contains, haccess, hfield]
      refine ih ((hslots.after hgrows).fill ?_ f.index) hbase' hrun
      rw [Session.has_cons, Session.has_cons] at hnew
      unfold Field.fromBase
      split
      · exact Session.has_cons.2 ⟨hnew.2.1, Session.has_cons.2 ⟨hnew.1, hbase'⟩⟩
      · exact Session.has_cons.2 ⟨hnew.2.1, Session.has_cons.2 ⟨hnew.1, hbase'⟩⟩

theorem covers_orderLiteral (a : Adt Ty) (t : Ty) {slots : Slots} (hslots : slots.Typed s) :
    Covers s (orderLiteral a t slots) fun fields _ => FieldInit.nodeIdsAll fields := by
  unfold orderLiteral
  split
  · rename_i fields hfields
    exact covers_leaf (l := []) (steady_resolve t) fun _ => hslots.has_of_inOrder hfields
  · exact covers_leaf (l := []) (steady_defect _) fun _ => s.has_nil

theorem covers_completeLiteral (a : Adt Ty) (t : Ty) (span : Span) {base : Option Expr}
    {written : List FieldInit} {slots : Slots} (hslots : slots.Typed s)
    (hbase : s.Has (Expr.nodeIdsOption base)) (hwritten : s.Has (FieldInit.nodeIdsAll written)) :
    Covers s (completeLiteral a t span base written slots)
      fun fields _ => FieldInit.nodeIdsAll fields := by
  unfold completeLiteral
  split
  · exact covers_leaf (l := []) (steady_pure _) fun _ => hwritten
  · split
    · exact covers_orderLiteral a t hslots
    · split
      · exact covers_leaf (l := []) (steady_reportTyped _ span) fun _ => hwritten
      · refine covers_first (l := []) (steady_fillFromBase a _ _ slots) fun slots' s' hrun _ => ?_
        exact covers_orderLiteral a t (typed_fillFromBase a _ hslots hbase hrun)

theorem covers_literalBase {base : Option Expr} (a : Adt Ty)
    (h : ∀ b, base = some b → Covers s b.check fun b _ => b.nodeIds) :
    Covers s (literalBase a base) fun base _ => Expr.nodeIdsOption base := by
  cases base with
  | none => exact covers_leaf (l := []) (steady_pure _) fun _ => s.has_nil
  | some b =>
      refine covers_child (l := []) (h b rfl) b.steady (fun t => steady_leaf (steady_unifyBase a t _))
        fun t _ hb => ?_
      exact covers_leaf (l := []) (steady_unifyBase a t _) fun _ => hb

/-- An accepted field is recorded, and its slot holds it. -/
theorem covers_acceptField (f : Field Ty) {slots slots' : Slots} {node : FieldInit} (t : Ty)
    {s' : Session} (hslots : slots.Typed s) (hvalue : s.Has node.valueIds)
    (hrun : (acceptField f slots node t).perform s = (.ok slots', s'))
    (herrors : s'.sink.errors = []) : slots'.Typed s' ∧ s'.Has node.nodeIds := by
  have hunify := (steady_unify f.ty t : Check.Steady [] _).grows s
  rw [acceptField, perform_bind] at hrun
  rw [perform_unify] at hunify hrun
  simp only at hunify hrun
  generalize ({ s with context := (s.context.unify f.ty t).2 } : Session) = s₁ at hunify hrun
  cases hresult : (s.context.unify f.ty t).1 with
  | error e =>
      rw [hresult, perform_bind, perform_report] at hrun
      obtain rfl := (Prod.mk.inj hrun).2
      simp at herrors
  | ok u =>
      rw [hresult, perform_bind, perform_record] at hrun
      obtain ⟨rfl, rfl⟩ : slots.accept f node = slots' ∧ _ = s' := by simpa using hrun
      have hinsert : s₁.Grows [node.mark.id] { s₁ with context := s₁.context.insert node.mark.id u } :=
        grows_insert (List.mem_singleton_self _) s₁ u
      have hnode : ({ s₁ with context := s₁.context.insert node.mark.id u } : Session).Has
          node.nodeIds := by
        rw [FieldInit.nodeIds_eq]
        apply Session.has_cons.2
        constructor
        · exact s₁.has_insert _ u _ (List.mem_singleton_self _)
        · exact (hvalue.after hunify).after hinsert
      exact ⟨((hslots.after hunify).after hinsert).fill hnode f.index, hnode⟩

/-- What the check of written fields leaves: types for the fields, and slots that are typed. -/
def CoversFields {ν : Type} (s : Session) (w : Walk ν Slots) (nodes : ν → List NodeId) : Prop :=
  ∀ slots, (w s).outcome = .ok slots → (w s).session.sink.errors = [] →
    slots.Typed (w s).session ∧ (w s).session.Has (nodes (w s).node)

/-- A written field without a place has been reported. -/
theorem errors_of_declaredField {a : Adt Ty} {slots : Slots} {node : FieldInit} {s' : Session}
    (hrun : (declaredField a slots node).perform s = (.ok none, s')) : s'.sink.errors ≠ [] := by
  unfold declaredField at hrun
  split at hrun
  · rw [perform_bind, perform_report] at hrun
    obtain rfl := (Prod.mk.inj hrun).2
    simp
  · split at hrun
    · rw [perform_bind, perform_report] at hrun
      obtain rfl := (Prod.mk.inj hrun).2
      simp
    · split at hrun
      · simp at hrun
      · simp at hrun

theorem covers_checkField {node : FieldInit} (a : Adt Ty) {slots : Slots} (hslots : slots.Typed s)
    (hvalue : ∀ s, Covers s node.checkValue fun node _ => node.valueIds) :
    CoversFields s (node.check a slots) FieldInit.nodeIds := by
  intro slots' hok herrors
  rw [FieldInit.check_eq] at hok herrors ⊢
  have hgrows := (steady_declaredField a slots node : Check.Steady [] _).grows s
  rcases first_cases node (declaredField a slots node) (node.checkPlaced slots) s with
    ⟨r, s₁, hrun, heq⟩ | ⟨e, s₁, -, heq⟩
  · rw [heq] at hok herrors ⊢
    rw [hrun] at hgrows
    cases r with
    | none =>
        exact (errors_of_declaredField hrun herrors).elim
    | some f =>
        rw [FieldInit.checkPlaced] at hok herrors ⊢
        have hslots₁ := hslots.after hgrows
        rcases child_cases node.checkValue id
          (fun node t => leaf node (acceptField f slots node t)) s₁ with
          ⟨t, hvalueok, heq⟩ | ⟨e, -, heq⟩
        · rw [heq] at hok herrors ⊢
          have hnil := ((steady_acceptField f slots t
            (List.mem_singleton_self (node.checkValue s₁).node.mark.id)).grows _).errors_eq_nil herrors
          exact covers_acceptField f t (hslots₁.after (node.steady.grows s₁))
            (hvalue s₁ t hvalueok hnil) (Prod.ext hok rfl) herrors
        · rw [heq] at hok
          cases hok
  · rw [heq] at hok
    cases hok

theorem covers_checkFields {fields : List FieldInit} (a : Adt Ty) {slots : Slots}
    (hslots : slots.Typed s)
    (h : ∀ f ∈ fields, ∀ s, Covers s f.checkValue fun node _ => node.valueIds) :
    CoversFields s (FieldInit.checkAll a slots fields) FieldInit.nodeIdsAll := by
  induction fields generalizing slots s with
  | nil =>
      intro slots' hok _
      rw [FieldInit.checkAll] at hok ⊢
      obtain rfl : slots = slots' := Except.ok.inj hok
      exact ⟨hslots, s.has_nil⟩
  | cons f rest ih =>
      intro slots' hok herrors
      rw [FieldInit.checkAll] at hok herrors ⊢
      rw [List.forall_mem_cons] at h
      rcases child_cases (f.check a slots) (· :: rest) _ s with ⟨slots₁, hfirst, heq⟩ | ⟨e, -, heq⟩
      · rw [heq] at hok herrors ⊢
        generalize hs₁ : (f.check a slots s).session = s₁ at hok herrors ⊢
        generalize hn₁ : (f.check a slots s).node = n₁ at hok herrors ⊢
        rcases child_cases (FieldInit.checkAll a slots₁ rest) (n₁ :: ·) _ s₁ with
          ⟨slots₂, hsecond, heq⟩ | ⟨e, -, heq⟩
        · rw [heq] at hok herrors ⊢
          have hgrows := (FieldInit.steady_checkAll a slots₁ rest).grows s₁
          have hnil : s₁.sink.errors = [] := hgrows.errors_eq_nil herrors
          obtain ⟨hslots₁, hfield⟩ := covers_checkField a hslots h.1 slots₁ hfirst
            (hs₁.symm ▸ hnil)
          rw [hs₁] at hslots₁ hfield
          obtain ⟨hslots₂, hfields⟩ := ih hslots₁ h.2 slots₂ hsecond herrors
          obtain rfl : slots₂ = slots' := Except.ok.inj hok
          refine ⟨hslots₂, Session.has_append.2 ⟨?_, hfields⟩⟩
          rw [← hn₁]
          exact hfield.after hgrows
        · rw [heq] at hok
          cases hok
      · rw [heq] at hok
        cases hok

theorem covers_literal (path : Path) {fields : List FieldInit} {base : Option Expr}
    (pathSpan span : Span)
    (hfields : ∀ f ∈ fields, ∀ s, Covers s f.checkValue fun node _ => node.valueIds)
    (hbase : ∀ b, base = some b → ∀ s, Covers s b.check fun b _ => b.nodeIds) :
    Covers s (literal path pathSpan span fields base) fun parts _ =>
      Expr.nodeIdsOption parts.2 ++ FieldInit.nodeIdsAll parts.1 := by
  refine covers_first (steady_structOf pathSpan (List.Subset.refl path.ids)) fun a s₁ _ _ => ?_
  refine covers_child (l := FieldInit.idsAll fields) (covers_literalBase a fun b hb => hbase b hb s₁)
    (steady_base a base) (fun t => ?_) fun t _ hb => ?_
  · exact steady_child (FieldInit.steady_checkAll a _ fields) fun _ slots =>
      steady_child (steady_completeLiteral a t span _ _ slots) fun _ _ => steady_leaf (steady_pure _)
  generalize (literalBase a base s₁).session = s₂ at *
  generalize (literalBase a base s₁).node = base' at *
  have hcovers := covers_checkFields a (Slots.typed_empty s₂ a.size) hfields
  intro u hok herrors
  rcases child_cases (FieldInit.checkAll a (Slots.empty a.size) fields) (·, base') _ s₂ with
    ⟨slots, hslots, heq⟩ | ⟨e, -, heq⟩
  · rw [heq] at hok herrors ⊢
    have hgrows := (FieldInit.steady_checkAll a (Slots.empty a.size) fields).grows s₂
    generalize hs₃ : (FieldInit.checkAll a (Slots.empty a.size) fields s₂).session = s₃ at *
    generalize hn₃ : (FieldInit.checkAll a (Slots.empty a.size) fields s₂).node = fields' at *
    have hcomplete : Steady [] (completeLiteral a t span base' fields' slots) :=
      steady_completeLiteral a t span base' fields' slots
    have hlast : Steady [] (child (completeLiteral a t span base' fields' slots) (·, base')
        fun fields ty => leaf (fields, base') (pure ty)) :=
      steady_child hcomplete fun _ _ => steady_leaf (steady_pure _)
    have hnil := (hlast.grows s₃).errors_eq_nil herrors
    obtain ⟨htyped, hwritten⟩ := hcovers slots hslots (by rw [hs₃]; exact hnil)
    rw [hs₃] at htyped hwritten
    rw [hn₃] at hwritten
    have hcovers : Covers s₃ (child (completeLiteral a t span base' fields' slots) (·, base')
        fun fields ty => leaf (fields, base') (pure ty)) fun parts _ =>
        Expr.nodeIdsOption parts.2 ++ FieldInit.nodeIdsAll parts.1 :=
      covers_child (l := []) (covers_completeLiteral a t span htyped (hb.after hgrows) hwritten)
      hcomplete
      (fun _ => steady_leaf (steady_pure _)) fun v hgrows' hfields' =>
        covers_leaf (l := []) (steady_pure _) fun _ =>
          Session.has_append.2 ⟨(hb.after hgrows).after hgrows', hfields'⟩
    exact hcovers u hok herrors
  · rw [heq] at hok
    cases hok

/-! ## Lists of nodes -/

theorem covers_checkExprs {es : List Expr}
    (h : ∀ e ∈ es, ∀ s, Covers s e.check fun e _ => e.nodeIds) :
    Covers s (Expr.checkAll es) fun es _ => Expr.nodeIdsAll es := by
  induction es generalizing s with
  | nil =>
      rw [Expr.checkAll]
      exact covers_leaf (l := []) (steady_pure _) fun _ => s.has_nil
  | cons e es ih =>
      rw [Expr.checkAll]
      rw [List.forall_mem_cons] at h
      have hrest := Expr.steady_checkAll es
      refine covers_child (h.1 s) e.steady
        (fun _ => steady_child hrest fun _ _ => steady_leaf (steady_pure _)) fun t _ he => ?_
      refine covers_child (l := []) (ih h.2) hrest
        (fun _ => steady_leaf (steady_pure _)) fun ts hgrows hes => ?_
      exact covers_leaf (l := []) (steady_pure _) fun _ =>
        Session.has_append.2 ⟨he.after hgrows, hes⟩

theorem covers_checkStmts {stmts : List Stmt} (hasTail : Bool)
    (h : ∀ stmt ∈ stmts, ∀ s, Covers s stmt.check fun n _ => n.nodeIds) :
    Covers s (Stmt.checkAll hasTail stmts) fun stmts _ => Stmt.nodeIdsAll stmts := by
  induction stmts generalizing s with
  | nil =>
      rw [Stmt.checkAll]
      exact covers_leaf (l := []) (steady_pure _) fun _ => s.has_nil
  | cons stmt rest ih =>
      rw [Stmt.checkAll]
      rw [List.forall_mem_cons] at h
      have hrest := Stmt.steady_checkAll hasTail rest
      refine covers_child (l := Stmt.idsAll rest) (h.1 s) stmt.steady (fun t => ?_)
        fun t _ hstmt => ?_
      · split
        · exact steady_leaf (steady_pure _)
        · exact steady_first (steady_requireUnit _ t) fun _ =>
            steady_child hrest fun _ _ => steady_leaf (steady_pure _)
      split
      · rename_i hlast
        have hnil : rest = [] := by simp at hlast; exact hlast.1.2
        subst hnil
        exact covers_leaf (l := []) (steady_pure _) fun _ =>
          Session.has_append.2 ⟨hstmt, Session.has_nil _⟩
      · refine covers_first (l := []) (steady_requireUnit _ t) fun _ s' _ hgrows => ?_
        refine covers_child (l := []) (ih h.2) hrest (fun _ => steady_leaf (steady_pure _))
          fun v hgrows' hrest' => ?_
        exact covers_leaf (l := []) (steady_pure _) fun _ =>
          Session.has_append.2 ⟨(hstmt.after hgrows).after hgrows', hrest'⟩

/-- The value of a written field that is an expression of its own. -/
theorem covers_value {e : Expr} {wrap : Expr → FieldInit} (ih : ∀ s, Covers s e.check fun e _ => e.nodeIds)
    (hwrap : ∀ e, (wrap e).valueIds = e.nodeIds) :
    Covers s (child e.check wrap fun e t => leaf (wrap e) (return t)) fun f _ => f.valueIds := by
  refine covers_child (l := []) (ih s) e.steady (fun _ => steady_leaf (steady_pure _)) fun t _ he => ?_
  exact covers_leaf (l := []) (steady_pure t) fun _ => (hwrap _).symm ▸ he

end Walk

/-! ## Nodes -/

section

variable {s : Session} {m : Mark}

theorem Expr.covers_lit {l : Literal} : Walk.Covers s (lit m l).check fun e _ => e.nodeIds := by
  rw [Expr.check]
  exact covers_recorded (l := []) (steady_literalType m.span l) s.has_nil fun _ => rfl

theorem Expr.covers_path {p : Path} : Walk.Covers s (path m p).check fun e _ => e.nodeIds := by
  rw [Expr.check]
  exact covers_recorded (steady_pathType m.span (List.Subset.refl p.ids)) s.has_nil fun _ => rfl

theorem Expr.covers_block {b : Block} (ih : ∀ s, Walk.Covers s b.check fun b _ => b.nodeIds) :
    Walk.Covers s (block m b).check fun e _ => e.nodeIds := by
  rw [Expr.check]
  exact covers_node s.has_nil (ih s) b.steady (fun _ t => steady_pure t) fun _ => rfl

theorem Expr.covers_struct {p : Path} {span : Span} {fields : List FieldInit} {base : Option Expr}
    (ihfields : ∀ f ∈ fields, ∀ s, Walk.Covers s f.checkValue fun f _ => f.valueIds)
    (ihbase : ∀ b, base = some b → ∀ s, Walk.Covers s b.check fun b _ => b.nodeIds) :
    Walk.Covers s (struct m p span fields base).check fun e _ => e.nodeIds := by
  rw [Expr.check_struct]
  have hliteral := covers_literal (s := s) p span m.span ihfields ihbase
  exact covers_node s.has_nil hliteral (steady_wholeLiteral p span m.span fields base)
    (fun _ t => steady_pure t) fun _ => rfl

theorem Expr.covers_field {base : Expr} {name : String}
    (ih : ∀ s, Walk.Covers s base.check fun e _ => e.nodeIds) :
    Walk.Covers s (field m base name).check fun e _ => e.nodeIds := by
  rw [Expr.check]
  exact covers_node s.has_nil (ih s) base.steady (fun _ t => steady_fieldType m.span name t)
    fun _ => rfl

theorem Expr.covers_tupleIndex {base : Expr} {index : Nat}
    (ih : ∀ s, Walk.Covers s base.check fun e _ => e.nodeIds) :
    Walk.Covers s (tupleIndex m base index).check fun e _ => e.nodeIds := by
  rw [Expr.check]
  exact covers_node s.has_nil (ih s) base.steady (fun _ t => steady_fieldType m.span _ t)
    fun _ => rfl

theorem Expr.covers_call {callee : Expr} {args : List Expr}
    (ihcallee : ∀ s, Walk.Covers s callee.check fun e _ => e.nodeIds)
    (ihargs : ∀ e ∈ args, ∀ s, Walk.Covers s e.check fun e _ => e.nodeIds) :
    Walk.Covers s (call m callee args).check fun e _ => e.nodeIds := by
  rw [Expr.check]
  exact covers_pair (ihcallee s) callee.steady (fun _ => covers_checkExprs ihargs)
    (Expr.steady_checkAll args) (fun _ t _ _ => steady_callType m.span _ t _) fun _ _ => rfl

theorem Expr.covers_unary {op : UnOp} {e : Expr}
    (ih : ∀ s, Walk.Covers s e.check fun e _ => e.nodeIds) :
    Walk.Covers s (unary m op e).check fun e _ => e.nodeIds := by
  rw [Expr.check]
  exact covers_node s.has_nil (ih s) e.steady (fun _ t => steady_unaryType m.span op t) fun _ => rfl

theorem Expr.covers_binary {op : BinOp} {l r : Expr}
    (ihl : ∀ s, Walk.Covers s l.check fun e _ => e.nodeIds)
    (ihr : ∀ s, Walk.Covers s r.check fun e _ => e.nodeIds) :
    Walk.Covers s (binary m op l r).check fun e _ => e.nodeIds := by
  rw [Expr.check]
  exact covers_pair (ihl s) l.steady ihr r.steady
    (fun _ _ _ _ => steady_binaryType m.span op _ _) fun _ _ => rfl

theorem Expr.covers_assign {l r : Expr} (ihl : ∀ s, Walk.Covers s l.check fun e _ => e.nodeIds)
    (ihr : ∀ s, Walk.Covers s r.check fun e _ => e.nodeIds) :
    Walk.Covers s (assign m l r).check fun e _ => e.nodeIds := by
  rw [Expr.check_assign]
  exact covers_pair (ihl s) l.steady ihr r.steady
    (fun _ t _ u => (steady_unifyAt _ t u).bind fun _ => steady_pure _) fun _ _ => rfl

theorem Expr.covers_paren {e : Expr} (ih : ∀ s, Walk.Covers s e.check fun e _ => e.nodeIds) :
    Walk.Covers s (paren m e).check fun e _ => e.nodeIds := by
  rw [Expr.check]
  exact covers_node s.has_nil (ih s) e.steady (fun _ t => steady_pure t) fun _ => rfl

theorem Block.covers_mk {stmts : List Stmt} {tail : Option Expr}
    (ihstmts : ∀ n ∈ stmts, ∀ s, Walk.Covers s n.check fun n _ => n.nodeIds)
    (ihtail : ∀ e, tail = some e → ∀ s, Walk.Covers s e.check fun e _ => e.nodeIds) :
    Walk.Covers s (mk m stmts tail).check fun b _ => b.nodeIds := by
  have hcovers (hasTail : Bool) : Walk.Covers s (Stmt.checkAll hasTail stmts)
      fun stmts _ => Stmt.nodeIdsAll stmts :=
    covers_checkStmts hasTail ihstmts
  cases tail with
  | none =>
      rw [Block.check]
      exact covers_node s.has_nil (hcovers false) (Stmt.steady_checkAll false stmts)
        (fun _ t => steady_pure _) fun n => by simp [Block.nodeIds, Expr.nodeIdsOption]
  | some e =>
      rw [Block.check]
      exact covers_pair (hcovers true) (Stmt.steady_checkAll true stmts) (ihtail e rfl) e.steady
        (fun _ _ _ t => steady_pure t) fun _ _ => rfl

theorem Stmt.covers_bind {binding : NodeId} {name : String} {ty : Option TypeRef}
    {init : Option Expr} (ih : ∀ e, init = some e → ∀ s, Walk.Covers s e.check fun e _ => e.nodeIds) :
    Walk.Covers s (bind m binding name ty init).check fun n _ => n.nodeIds := by
  have hty : Check.Steady (TypeRef.idsOption ty) (TypeRef.readOptional .body ty) :=
    steady_readOptional (List.Subset.refl _)
  cases init with
  | none =>
      rw [Stmt.check, leaf_bind]
      exact covers_first hty fun annotated s' _ _ =>
        covers_bound (l := []) (steady_bindingType annotated none) s'.has_nil rfl
  | some e =>
      rw [Stmt.check]
      refine covers_first hty fun annotated s' _ _ => ?_
      refine covers_child (l := [binding, m.id]) (ih e rfl s') e.steady (fun t => ?_) fun t _ he => ?_
      · exact steady_leaf (steady_bound (by simp) (by simp) annotated _)
      · exact covers_bound (l := []) (steady_bindingType annotated _) he rfl

theorem Stmt.covers_expr {e : Expr} (ih : ∀ s, Walk.Covers s e.check fun e _ => e.nodeIds) :
    Walk.Covers s (expr m e).check fun n _ => n.nodeIds := by
  rw [Stmt.check]
  exact covers_node s.has_nil (ih s) e.steady (fun _ t => steady_pure t) fun _ => rfl

theorem Stmt.covers_semi {e : Expr} (ih : ∀ s, Walk.Covers s e.check fun e _ => e.nodeIds) :
    Walk.Covers s (semi m e).check fun n _ => n.nodeIds := by
  rw [Stmt.check]
  have hnodes (e : Expr) : (Stmt.semi m e).nodeIds = m.id :: ([] ++ e.nodeIds) := rfl
  exact covers_node s.has_nil (ih s) e.steady (fun _ _ => steady_pure .unit) hnodes

/-- A variable named like the field is a path, whose type is the first one of the node. -/
theorem FieldInit.covers_short {name : String} {res : Option NodeId} :
    Walk.Covers s (short m name res).checkValue fun f _ => f.valueIds :=
  covers_leaf ((steady_pathType m.span (List.subset_cons_self m.id _)).bind fun t =>
    steady_recorded List.mem_cons_self t) fun _ => s.has_nil

end

/-! ## Programs -/

/-- The check of a node records types for it and for all nodes in it, by induction on programs. -/
theorem Walk.covers_check :
    (∀ (e : Expr) s, Covers s e.check fun e _ => e.nodeIds) ∧
      (∀ (b : Block) s, Covers s b.check fun b _ => b.nodeIds) ∧
      (∀ (stmt : Stmt) s, Covers s stmt.check fun stmt _ => stmt.nodeIds) ∧
      ∀ (f : FieldInit) s, Covers s f.checkValue fun f _ => f.valueIds := by
  apply Expr.induct
  case lit => exact fun _ _ _ => Expr.covers_lit
  case path => exact fun _ _ _ => Expr.covers_path
  case block => exact fun _ _ ih _ => Expr.covers_block ih
  case struct => exact fun _ _ _ _ _ ihfields ihbase _ => Expr.covers_struct ihfields ihbase
  case field => exact fun _ _ _ ih _ => Expr.covers_field ih
  case tupleIndex => exact fun _ _ _ ih _ => Expr.covers_tupleIndex ih
  case call => exact fun _ _ _ ihcallee ihargs _ => Expr.covers_call ihcallee ihargs
  case unary => exact fun _ _ _ ih _ => Expr.covers_unary ih
  case binary => exact fun _ _ _ _ ihl ihr _ => Expr.covers_binary ihl ihr
  case assign => exact fun _ _ _ ihl ihr _ => Expr.covers_assign ihl ihr
  case paren => exact fun _ _ ih _ => Expr.covers_paren ih
  case mk => exact fun _ _ _ ihstmts ihtail _ => Block.covers_mk ihstmts ihtail
  case bind => exact fun _ _ _ _ _ ih _ => Stmt.covers_bind ih
  case expr => exact fun _ _ ih _ => Stmt.covers_expr ih
  case semi => exact fun _ _ ih _ => Stmt.covers_semi ih
  case named => exact fun _ _ _ ih _ => covers_value ih fun _ => rfl
  case index => exact fun _ _ _ ih _ => covers_value ih fun _ => rfl
  case short => exact fun _ _ _ _ => FieldInit.covers_short

end TypeInference

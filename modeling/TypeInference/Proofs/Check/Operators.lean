import Mathlib.Data.List.Nodup
import TypeInference.Proofs.Check.Coverage
import TypeInference.Proofs.Check.Reading
import TypeInference.Proofs.Program.Operations

/-!
# Operators are checked against their operands

A walk that succeeds and reports nothing has recorded for every operator, under
its own node, the type that its operands had at that point, and it is one that
the operator allows. Nodes are distinct, so what was recorded for an operator
stays as it is.
-/

namespace TypeInference

open Walk Check

/-- Whether the operators have their nodes among these, with types that they allow. -/
def Session.Supports (s : Session) (ids : List NodeId) (ops : List Operation) : Prop :=
  ∀ o ∈ ops, o.id ∈ ids ∧ o.id < s.locations.size ∧
    ∃ t, s.context.types.find? o.id = some t ∧ o.Allows t

namespace Session

variable {s s' : Session} {ids ids' : List NodeId} {ops ops' : List Operation}

theorem supports_nil (s : Session) (ids : List NodeId) : s.Supports ids [] := by simp [Supports]

theorem Supports.mono (h : s.Supports ids ops) (hids : ids ⊆ ids') : s.Supports ids' ops :=
  fun o ho => ⟨hids (h o ho).1, (h o ho).2⟩

theorem Supports.append (h : s.Supports ids ops) (h' : s.Supports ids' ops') :
    s.Supports (ids ++ ids') (ops ++ ops') := by
  intro o ho
  rcases List.mem_append.1 ho with ho | ho
  · exact h.mono (List.subset_append_left _ _) o ho
  · exact h'.mono (List.subset_append_right _ _) o ho

/-- The check of other nodes leaves the operators alone. -/
theorem Supports.after {l : List NodeId} (h : s.Supports ids ops) (hgrows : s.Grows l s')
    (hdisjoint : ids.Disjoint l) : s'.Supports ids ops := by
  intro o ho
  obtain ⟨hid, hlt, t, ht, hallows⟩ := h o ho
  refine ⟨hid, Nat.lt_of_lt_of_le hlt hgrows.size_le, t, ?_, hallows⟩
  rw [hgrows.kept o.id (hdisjoint hid) hlt, ht]

end Session

/-! ## Types of operators -/

namespace Check

variable {α β : Type} {Q : β → Prop}

def Ensures (x : Check β) (Q : β → Prop) : Prop :=
  ∀ s b, (x.perform s).1 = .ok b → (x.perform s).2.sink.errors = [] → Q b

theorem ensures_pure {b : β} (h : Q b) : Ensures (pure b) Q := by
  intro s c hok _
  rwa [← Except.ok.inj hok]

theorem ensures_of_last {x : Check α} {f : α → Check β} (hf : ∀ a, Ensures (f a) Q) :
    Ensures (x >>= f) Q := by
  intro s b hok herrors
  obtain ⟨a, -, heq⟩ := perform_bind_of_ok hok
  rw [heq] at hok herrors
  exact hf a _ b hok herrors

theorem ensures_reportTyped {Q : Ty → Prop} (cause : Cause) (span : Span) :
    Ensures (reportTyped cause span) Q :=
  fun s _ _ herrors => by simp at herrors

theorem ensures_unaryType (span : Span) (op : UnOp) (t : Ty) :
    Ensures (unaryType span op t) fun u => op.supports u := by
  refine ensures_of_last fun u => ?_
  split
  · rename_i hsupports
    exact ensures_pure hsupports
  · exact ensures_reportTyped _ span

theorem ensures_binaryType (span : Span) (op : BinOp) (l r : Ty × Span) (id lhs rhs : NodeId) :
    Ensures (binaryType span op l r) (Operation.binary id op lhs rhs).Allows := by
  unfold binaryType
  split
  · rename_i hlazy
    exact fun _ _ _ _ h => by simp [BinOp.isArithmetic, hlazy] at h
  · refine ensures_of_last fun t => ?_
    split
    · rename_i hcompare
      exact fun _ _ _ _ h => by simp [BinOp.isArithmetic, hcompare] at h
    · refine ensures_of_last fun u => ?_
      split
      · rename_i hallowed
        simp only [Bool.or_eq_true, or_assoc] at hallowed
        exact ensures_pure fun _ => hallowed
      · exact ensures_reportTyped _ span

theorem ensures_acceptField (f : Field Ty) (slots : Slots) (node : FieldInit) (t : Ty) :
    Ensures (acceptField f slots node t) (· = slots.accept f node) := by
  refine ensures_of_last fun r => ?_
  cases r with
  | ok u => exact ensures_of_last fun _ => ensures_pure rfl
  | error e =>
      intro s _ _ herrors
      simp only at herrors
      rw [perform_bind, perform_report] at herrors
      simp at herrors

end Check

/-! ## Walks -/

namespace Walk

/-- Whether a walk that succeeds and reports nothing supports the operators of its result. -/
def Supports {ν α : Type} (s : Session) (w : Walk ν α) (ids : List NodeId)
    (ops : ν → List Operation) : Prop :=
  ∀ a, (w s).outcome = .ok a → (w s).session.sink.errors = [] →
    (w s).session.Supports ids (ops (w s).node)

variable {ν μ α β : Type} {s : Session} {ids l : List NodeId} {ops : ν → List Operation}

theorem supports_last {node : ν} {x : Check β} (hx : Check.Steady l x) (hdisjoint : ids.Disjoint l)
    (h : s.Supports ids (ops node)) : Supports s (leaf node x) ids ops :=
  fun _ _ _ => h.after (hx.grows s) hdisjoint

theorem supports_leaf {node : ν} {x : Check β} (hx : Check.Steady [] x)
    (h : s.Supports ids (ops node)) : Supports s (leaf node x) ids ops :=
  supports_last hx (List.disjoint_nil_right ids) h

theorem supports_first {node : ν} {x : Check α} {next : α → Walk ν β} (hx : Check.Steady l x)
    (hnext : ∀ a s', s.Grows l s' → Supports s' (next a) ids ops) :
    Supports s (first node x next) ids ops := by
  intro b hok herrors
  have hgrows := hx.grows s
  rcases first_cases node x next s with ⟨a, s', hrun, heq⟩ | ⟨e, s', -, heq⟩
  · rw [heq] at hok herrors ⊢
    rw [hrun] at hgrows
    exact hnext a s' hgrows b hok herrors
  · rw [heq] at hok
    cases hok

theorem supports_child {w : Walk μ α} {rebuild : μ → ν} {next : μ → α → Walk ν β}
    {inner : List NodeId} {innerOps : μ → List Operation} (hw : Supports s w inner innerOps)
    (hrest : ∀ a, Steady l (next (w s).node a))
    (hnext : ∀ a, (w s).session.Supports inner (innerOps (w s).node) →
      Supports (w s).session (next (w s).node a) ids ops) :
    Supports s (child w rebuild next) ids ops := by
  intro b hok herrors
  rcases child_cases w rebuild next s with ⟨a, hrun, heq⟩ | ⟨e, -, heq⟩
  · rw [heq] at hok herrors ⊢
    have hnil := ((hrest a).grows _).errors_eq_nil herrors
    exact hnext a (hw a hrun hnil) b hok herrors
  · rw [heq] at hok
    cases hok

/-- A walk that ends by recording the type of its node, which may be an operator itself. -/
theorem supports_recorded {node : ν} {x : Check Ty} {id : NodeId} {before own : List Operation}
    (hbefore : s.Supports ids before) (hx : Check.Steady [id] x) (hnodup : id ∉ ids)
    (hid : id < s.locations.size)
    (hown : Check.Ensures x fun t => ∀ o ∈ own, o.id = id ∧ o.Allows t)
    (hops : ops node = own ++ before) :
    Supports s (leaf node (x >>= recorded id)) (id :: ids) ops := by
  intro t hok herrors
  rw [leaf_outcome] at hok
  rw [leaf_session] at herrors ⊢
  have hgrows := hx.grows s
  obtain ⟨u, hu, heq⟩ := perform_bind_of_ok hok
  rw [heq] at herrors ⊢
  obtain ⟨s', hs'⟩ : ∃ s', (x.perform s).2 = s' := ⟨_, rfl⟩
  have hown := hown s u hu herrors
  rw [hs'] at hgrows ⊢
  have hinsert : s'.Grows [id] { s' with context := s'.context.insert id u } :=
    grows_insert (List.mem_singleton_self id) s' u
  rw [leaf_node, hops]
  intro o ho
  rcases List.mem_append.1 ho with ho | ho
  · obtain ⟨rfl, hallows⟩ := hown o ho
    exact ⟨List.mem_cons_self, Nat.lt_of_lt_of_le hid hgrows.size_le, u, by simp [Context.insert],
      hallows⟩
  · have hdisjoint : ids.Disjoint [id] := List.disjoint_singleton.2 hnodup
    have hkept := (hbefore.after hgrows hdisjoint).after hinsert hdisjoint
    exact hkept.mono (List.subset_cons_self id ids) o ho

/-- A walk that visits a child and then records the type of its node; `before` are operators that
were checked before. -/
theorem supports_node {w : Walk μ α} {rebuild node : μ → ν} {x : μ → α → Check Ty} {id : NodeId}
    {before : List Operation} {inner : μ → List Operation} (own : μ → List Operation)
    (hbefore : s.Supports l before) (hw : Supports s w ids inner) (hsteady : Steady ids w)
    (hx : ∀ n a, Check.Steady [id] (x n a)) (hnodup : (id :: (l ++ ids)).Nodup)
    (hid : id < s.locations.size)
    (hown : ∀ n a, Check.Ensures (x n a) fun t => ∀ o ∈ own n, o.id = id ∧ o.Allows t)
    (hops : ∀ n, ops (node n) = own n ++ (before ++ inner n)) :
    Supports s (child w rebuild fun n a => leaf (node n) (x n a >>= recorded id))
      (id :: (l ++ ids)) ops := by
  obtain ⟨hnew, hnodup⟩ := List.nodup_cons.1 hnodup
  refine supports_child (l := [id]) hw (fun a => steady_leaf ((hx _ a).bind fun t =>
    steady_recorded (List.mem_singleton_self id) t)) fun a hinner => ?_
  have hgrows := hsteady.grows s
  have hkept := hbefore.after hgrows (List.disjoint_of_nodup_append hnodup)
  exact supports_recorded (hkept.append hinner) (hx _ a) hnew
    (Nat.lt_of_lt_of_le hid hgrows.size_le) (hown _ a) (hops _)

/-- A node that is no operator itself. -/
theorem ensures_nil (id : NodeId) (x : Check Ty) :
    Check.Ensures x fun t => ∀ o ∈ ([] : List Operation), o.id = id ∧ o.Allows t :=
  fun _ _ _ _ => by simp

/-- A walk that visits its one child and then records the type of its node, which is no operator. -/
theorem supports_parent {w : Walk μ α} {rebuild node : μ → ν} {x : μ → α → Check Ty} {id : NodeId}
    {inner : μ → List Operation} (hfresh : s.Fresh (id :: ids)) (hw : Supports s w ids inner)
    (hsteady : Steady ids w) (hx : ∀ n a, Check.Steady [id] (x n a))
    (hops : ∀ n, ops (node n) = inner n) :
    Supports s (child w rebuild fun n a => leaf (node n) (x n a >>= recorded id)) (id :: ids) ops :=
  supports_node (l := []) (fun _ => []) (s.supports_nil []) hw hsteady hx hfresh.nodup
    (hfresh.located id List.mem_cons_self) (fun n a => ensures_nil id (x n a)) hops

/-- Whether the walk of fresh nodes supports the operators among them. -/
def SupportsFresh (w : Walk ν α) (ids : List NodeId) (ops : ν → List Operation) : Prop :=
  ∀ s : Session, s.Fresh ids → Supports s w ids ops

/-- A walk that visits two children and then records the type of its node. -/
theorem supports_pair {κ : Type} {w : Walk μ α} {v : Walk κ β} {rebuild : μ → ν} {rebuild' node : μ → κ → ν}
    {x : μ → α → κ → β → Check Ty} {id : NodeId} {inner : μ → List Operation}
    {last : κ → List Operation} (own : μ → κ → List Operation) (hfresh : s.Fresh (id :: (ids ++ l)))
    (hw : SupportsFresh w ids inner) (hsteady : Steady ids w) (hv : SupportsFresh v l last)
    (hlast : Steady l v) (hx : ∀ n a k b, Check.Steady [id] (x n a k b))
    (hown : ∀ n a k b, Check.Ensures (x n a k b) fun t => ∀ o ∈ own n k, o.id = id ∧ o.Allows t)
    (hops : ∀ n k, ops (node n k) = own n k ++ (inner n ++ last k)) :
    Supports s (child w rebuild fun n a => child v (rebuild' n) fun k b =>
      leaf (node n k) (x n a k b >>= recorded id)) (id :: (ids ++ l)) ops := by
  obtain ⟨hfirst, hrest⟩ := hfresh.tail.split
  have hgrows := hsteady.grows s
  refine supports_child (l := id :: l) (hw s hfirst) (fun a => ?_) fun a hinner => ?_
  · exact steady_child (hlast.mono (List.subset_cons_self _ _)) fun _ b =>
      (steady_typed (List.mem_singleton_self id) (hx _ a _ b)).mono (by simp)
  · exact supports_node (own _) hinner (hv _ (hrest _ hgrows)) hlast (fun k b => hx _ a k b)
      hfresh.nodup (Nat.lt_of_lt_of_le (hfresh.located _ List.mem_cons_self) hgrows.size_le)
      (fun k b => hown _ a k b) fun k => hops _ k

end Walk

/-! ## Struct literals -/

namespace Slots

def Supported (s : Session) (ids : List NodeId) (slots : Slots) : Prop :=
  ∀ node, some node ∈ slots.nodes → s.Supports ids node.operations

variable {s s' : Session} {ids ids' l : List NodeId} {slots : Slots}

theorem supported_empty (s : Session) (ids : List NodeId) (size : Nat) :
    (empty size).Supported s ids :=
  holds_empty _ size

theorem Supported.mono (h : slots.Supported s ids) (hids : ids ⊆ ids') : slots.Supported s ids' :=
  fun node hnode => (h node hnode).mono hids

theorem Supported.after (h : slots.Supported s ids) (hgrows : s.Grows l s')
    (hdisjoint : ids.Disjoint l) : slots.Supported s' ids :=
  fun node hnode => (h node hnode).after hgrows hdisjoint

theorem Supported.fill (h : slots.Supported s ids) {node : FieldInit}
    (hnode : s.Supports ids node.operations) (i : Nat) : (slots.fill i node).Supported s ids :=
  Holds.fill h hnode i

theorem Supported.supports_of_inOrder (h : slots.Supported s ids) {fields : List FieldInit}
    (hfields : slots.inOrder = .ok fields) : s.Supports ids (FieldInit.operationsAll fields) := by
  rw [FieldInit.operationsAll_eq]
  intro o ho
  obtain ⟨node, hnode, ho⟩ := List.mem_flatMap.1 ho
  exact Holds.of_inOrder h hfields node hnode o ho

/-- A node made from the base has the operators of the base. -/
theorem Supported.fillFrom (h : slots.Supported s ids) {a : Adt Ty} {base : Expr}
    (hbase : s.Supports ids base.operations) (id : NodeId) (fs : List (Field Ty)) :
    (slots.fillFrom a base id fs).Supported s ids := by
  induction fs generalizing id slots with
  | nil => exact h
  | cons f fs ih =>
      refine ih (h.fill ?_ f.index) (id + 2)
      unfold Field.fromBase
      split <;> exact hbase

end Slots

namespace Walk

variable {s : Session} {ids l : List NodeId}

theorem supports_orderLiteral (a : Adt Ty) (t : Ty) {slots : Slots} (h : slots.Supported s ids) :
    Supports s (orderLiteral a t slots) ids FieldInit.operationsAll := by
  unfold orderLiteral
  split
  · rename_i fields hfields
    exact supports_leaf (steady_resolve t) (h.supports_of_inOrder hfields)
  · exact supports_leaf (steady_defect _) (s.supports_nil ids)

theorem supports_completeLiteral (a : Adt Ty) (t : Ty) (span : Span) {base : Option Expr}
    {written : List FieldInit} {slots : Slots} (hslots : slots.Supported s ids)
    (hbase : s.Supports ids (Expr.operationsOption base))
    (hwritten : s.Supports ids (FieldInit.operationsAll written)) :
    Supports s (completeLiteral a t span base written slots) ids FieldInit.operationsAll := by
  unfold completeLiteral
  split
  · exact supports_leaf (steady_pure _) hwritten
  · split
    · exact supports_orderLiteral a t hslots
    · split
      · exact supports_leaf (steady_reportTyped _ span) hwritten
      · rename_i b
        intro u hok herrors
        have hgrows := (steady_fillFromBase a b (slots.untaken a) slots : Check.Steady [] _).grows s
        have hdisjoint := List.disjoint_nil_right ids
        rw [first_of_ok (perform_fillFromBase a b _ slots s)] at hok herrors ⊢
        rw [perform_fillFromBase] at hgrows
        exact supports_orderLiteral a t ((hslots.after hgrows hdisjoint).fillFrom
          (hbase.after hgrows hdisjoint) _ _) u hok herrors

theorem supports_literalBase {base : Option Expr} (a : Adt Ty)
    (h : ∀ b, base = some b → Supports s b.check ids Expr.operations) :
    Supports s (literalBase a base) ids Expr.operationsOption := by
  cases base with
  | none => exact supports_leaf (steady_pure _) (s.supports_nil ids)
  | some b =>
      exact supports_child (l := []) (h b rfl) (fun t => steady_leaf (steady_unifyBase a t _))
        fun t hb => supports_leaf (steady_unifyBase a t _) hb

/-- What the check of written fields leaves: support for the operators in the fields, and in the
slots also for those that were checked before. -/
def SupportsFields {ν : Type} (s : Session) (w : Walk ν Slots) (left ids : List NodeId)
    (ops : ν → List Operation) : Prop :=
  ∀ slots, (w s).outcome = .ok slots → (w s).session.sink.errors = [] →
    slots.Supported (w s).session (left ++ ids) ∧ (w s).session.Supports ids (ops (w s).node)

/-- An accepted field keeps its operators, and its slot holds it. -/
theorem supports_acceptField (f : Field Ty) {slots slots' : Slots} {node : FieldInit} (t : Ty)
    {left : List NodeId} (hslots : slots.Supported s left) (hnode : s.Supports ids node.operations)
    (hmark : node.mark.id ∉ left ++ ids)
    (hok : ((acceptField f slots node t).perform s).1 = .ok slots')
    (herrors : ((acceptField f slots node t).perform s).2.sink.errors = []) :
    slots'.Supported ((acceptField f slots node t).perform s).2 (left ++ ids) ∧
      ((acceptField f slots node t).perform s).2.Supports ids node.operations := by
  have hgrows := (steady_acceptField f slots t (List.mem_singleton_self node.mark.id)).grows s
  simp only [List.mem_append, not_or] at hmark
  have hnode' := hnode.after hgrows (List.disjoint_singleton.2 hmark.2)
  have hslots' := hslots.after hgrows (List.disjoint_singleton.2 hmark.1)
  rw [ensures_acceptField f slots node t s slots' hok herrors]
  exact ⟨(hslots'.mono (List.subset_append_left _ _)).fill
    (hnode'.mono (List.subset_append_right _ _)) f.index, hnode'⟩

/-- What is asked of the check of a value: support for its operators, which are not at the node of the
field. -/
def SupportsValue (f : FieldInit) : Prop :=
  ∀ s : Session, s.Fresh f.ids → Supports s f.checkValue f.ids.tail FieldInit.operations

theorem supports_checkField {node : FieldInit} (a : Adt Ty) {slots : Slots} {left : List NodeId}
    (hslots : slots.Supported s left) (hfresh : s.Fresh node.ids) (hdisjoint : left.Disjoint node.ids)
    (hvalue : SupportsValue node) :
    SupportsFields s (node.check a slots) left node.ids FieldInit.operations := by
  intro slots' hok herrors
  rw [FieldInit.check_eq] at hok herrors ⊢
  have hgrows := (steady_declaredField a slots node : Check.Steady [] _).grows s
  have hids : node.ids = node.mark.id :: node.ids.tail := by cases node <;> rfl
  have htail : node.ids.tail ⊆ node.ids := (List.tail_sublist node.ids).subset
  have hnew : node.mark.id ∉ left ++ node.ids.tail := by
    have hnodup := hfresh.nodup
    rw [hids, List.nodup_cons] at hnodup
    rw [List.mem_append, not_or]
    exact ⟨fun hleft => hdisjoint hleft node.mark_mem_ids, hnodup.1⟩
  rcases first_cases node (declaredField a slots node) (node.checkPlaced slots) s with
    ⟨r, s₁, hrun, heq⟩ | ⟨e, s₁, -, heq⟩
  · rw [heq] at hok herrors ⊢
    rw [hrun] at hgrows
    cases r with
    | none => exact (errors_of_declaredField hrun herrors).elim
    | some f =>
        rw [FieldInit.checkPlaced] at hok herrors ⊢
        have hslots₁ := hslots.after hgrows (List.disjoint_nil_right left)
        have hslots₂ := hslots₁.after (node.steady.grows s₁) hdisjoint
        rcases child_cases node.checkValue id
          (fun node t => leaf node (acceptField f slots node t)) s₁ with
          ⟨t, hvalueok, heq⟩ | ⟨e, -, heq⟩
        · rw [heq] at hok herrors ⊢
          have hnil := ((steady_acceptField f slots t
            (List.mem_singleton_self (node.checkValue s₁).node.mark.id)).grows _).errors_eq_nil herrors
          have hops := hvalue s₁ (hfresh.after hgrows) t hvalueok hnil
          rw [← (mark_checkValue node s₁).1] at hnew
          obtain ⟨hslots₃, hnode⟩ := supports_acceptField f t hslots₂ hops hnew hok herrors
          exact ⟨hslots₃.mono ((List.tail_sublist node.ids).append_left left).subset, hnode.mono htail⟩
        · rw [heq] at hok
          cases hok
  · rw [heq] at hok
    cases hok

theorem supports_checkFields {fields : List FieldInit} (a : Adt Ty) {slots : Slots}
    {left : List NodeId} (hslots : slots.Supported s left)
    (hfresh : s.Fresh (FieldInit.idsAll fields)) (hdisjoint : left.Disjoint (FieldInit.idsAll fields))
    (h : ∀ f ∈ fields, SupportsValue f) :
    SupportsFields s (FieldInit.checkAll a slots fields) left (FieldInit.idsAll fields)
      FieldInit.operationsAll := by
  induction fields generalizing left slots s with
  | nil =>
      intro slots' hok _
      rw [FieldInit.checkAll] at hok ⊢
      obtain rfl : slots = slots' := Except.ok.inj hok
      exact ⟨hslots.mono (List.subset_append_left _ _), s.supports_nil _⟩
  | cons f rest ih =>
      intro slots' hok herrors
      rw [FieldInit.checkAll] at hok herrors ⊢
      rw [FieldInit.idsAll] at hfresh hdisjoint ⊢
      rw [List.forall_mem_cons] at h
      rw [List.disjoint_append_right] at hdisjoint
      have hapart := List.disjoint_of_nodup_append hfresh.nodup
      obtain ⟨hfirst, hrest⟩ := hfresh.split
      have hgrows := (steady_checkField a slots f.mark_mem_ids f.steady).grows s
      rcases child_cases (f.check a slots) (· :: rest) _ s with ⟨slots₁, hok₁, heq⟩ | ⟨e, -, heq⟩
      · rw [heq] at hok herrors ⊢
        have hfield := supports_checkField a hslots hfirst hdisjoint.1 h.1 slots₁ hok₁
        have hfresh₁ := hrest _ hgrows
        generalize (f.check a slots s).session = s₁ at *
        generalize (f.check a slots s).node = n₁ at *
        rcases child_cases (FieldInit.checkAll a slots₁ rest) (n₁ :: ·) _ s₁ with
          ⟨slots₂, hok₂, heq⟩ | ⟨e, -, heq⟩
        · rw [heq] at hok herrors ⊢
          have hgrows₁ := (FieldInit.steady_checkAll a slots₁ rest).grows s₁
          obtain ⟨hslots₁, hops₁⟩ := hfield (hgrows₁.errors_eq_nil herrors)
          obtain ⟨hslots₂, hops₂⟩ := ih hslots₁ hfresh₁
            (List.disjoint_append_left.2 ⟨hdisjoint.2, hapart⟩) h.2 slots₂ hok₂ herrors
          obtain rfl : slots₂ = slots' := Except.ok.inj hok
          rw [List.append_assoc] at hslots₂
          exact ⟨hslots₂, (hops₁.after hgrows₁ hapart).append hops₂⟩
        · rw [heq] at hok
          cases hok
      · rw [heq] at hok
        cases hok

/-- When the fields have been completed, the operators in the literal are those in its base and in its
fields. -/
theorem supports_completed (a : Adt Ty) (t : Ty) (span : Span) {base : Option Expr}
    {written : List FieldInit} {slots : Slots} (hslots : slots.Supported s ids)
    (hbase : s.Supports ids (Expr.operationsOption base))
    (hwritten : s.Supports ids (FieldInit.operationsAll written)) :
    Supports s (child (completeLiteral a t span base written slots) (·, base)
      fun fields ty => leaf (fields, base) (pure ty)) ids
      fun parts => Expr.operationsOption parts.2 ++ FieldInit.operationsAll parts.1 := by
  refine supports_child (l := []) (supports_completeLiteral a t span hslots hbase hwritten)
    (fun _ => steady_leaf (steady_pure _)) fun v hfields => supports_leaf (steady_pure _) ?_
  have hgrows : s.Grows [] (completeLiteral a t span base written slots s).session :=
    (steady_completeLiteral a t span base written slots).grows s
  intro o ho
  rcases List.mem_append.1 ho with ho | ho
  · exact hbase.after hgrows (List.disjoint_nil_right _) o ho
  · exact hfields o ho

/-- The fields of a literal are checked after its base. -/
theorem supports_afterBase {fields : List FieldInit} (a : Adt Ty) (t : Ty) (span : Span)
    {base : Option Expr} (hbase : s.Supports l (Expr.operationsOption base))
    (hfresh : s.Fresh (FieldInit.idsAll fields)) (hapart : l.Disjoint (FieldInit.idsAll fields))
    (hfields : ∀ f ∈ fields, SupportsValue f) :
    Supports s (child (FieldInit.checkAll a (Slots.empty a.size) fields) (·, base) fun fields slots =>
      child (completeLiteral a t span base fields slots) (·, base) fun fields ty =>
        leaf (fields, base) (pure ty)) (l ++ FieldInit.idsAll fields)
      fun parts => Expr.operationsOption parts.2 ++ FieldInit.operationsAll parts.1 := by
  have hchecked := supports_checkFields a (Slots.supported_empty s l a.size) hfresh hapart hfields
  have hgrows := (FieldInit.steady_checkAll a (Slots.empty a.size) fields).grows s
  intro u hok herrors
  rcases child_cases (FieldInit.checkAll a (Slots.empty a.size) fields) (·, base) _ s with
    ⟨slots, hslots, heq⟩ | ⟨e, -, heq⟩
  · rw [heq] at hok herrors ⊢
    have hlast := hchecked slots hslots
    generalize (FieldInit.checkAll a (Slots.empty a.size) fields s).session = s₁ at *
    generalize (FieldInit.checkAll a (Slots.empty a.size) fields s).node = fields' at *
    have hsteady : Steady [] (child (completeLiteral a t span base fields' slots) (·, base)
        fun fields ty => leaf (fields, base) (pure ty)) :=
      steady_child (steady_completeLiteral a t span base fields' slots) fun _ _ =>
        steady_leaf (steady_pure _)
    obtain ⟨hsupported, hwritten⟩ := hlast ((hsteady.grows s₁).errors_eq_nil herrors)
    exact supports_completed a t span hsupported
      ((hbase.after hgrows hapart).mono (List.subset_append_left _ _))
      (hwritten.mono (List.subset_append_right _ _)) u hok herrors
  · rw [heq] at hok
    cases hok

theorem supports_literal {path : Path} {fields : List FieldInit} {base : Option Expr}
    (pathSpan span : Span)
    (hfresh : s.Fresh (path.ids ++ (Expr.idsOption base ++ FieldInit.idsAll fields)))
    (hfields : ∀ f ∈ fields, SupportsValue f)
    (hbase : ∀ b, base = some b → SupportsFresh b.check b.ids Expr.operations) :
    Supports s (literal path pathSpan span fields base)
      (path.ids ++ (Expr.idsOption base ++ FieldInit.idsAll fields))
      fun parts => Expr.operationsOption parts.2 ++ FieldInit.operationsAll parts.1 := by
  obtain ⟨-, hrest⟩ := hfresh.split
  refine supports_first (steady_structOf pathSpan (List.Subset.refl path.ids)) fun a s₁ hgrows => ?_
  have hfresh₁ := hrest s₁ hgrows
  have hapart := List.disjoint_of_nodup_append hfresh₁.nodup
  obtain ⟨hfreshBase, hrest⟩ := hfresh₁.split
  have hsupports : Supports s₁ (literalBase a base) (Expr.idsOption base) Expr.operationsOption :=
    supports_literalBase a fun b hb => by
      subst hb
      exact hbase b rfl s₁ hfreshBase
  refine supports_child (l := FieldInit.idsAll fields) hsupports (fun t => ?_) fun t hops => ?_
  · exact steady_child (FieldInit.steady_checkAll a _ fields) fun _ slots =>
      steady_child (steady_completeLiteral a t span _ _ slots) fun _ _ => steady_leaf (steady_pure _)
  · have hrest := supports_afterBase a t span hops (hrest _ ((steady_base a base).grows s₁)) hapart hfields
    exact fun u hok herrors => (hrest u hok herrors).mono (List.subset_append_right _ _)

/-! ## Lists of nodes -/

theorem supports_checkExprs {es : List Expr}
    (h : ∀ e ∈ es, SupportsFresh e.check e.ids Expr.operations) :
    SupportsFresh (Expr.checkAll es) (Expr.idsAll es) Expr.operationsAll := by
  induction es with
  | nil =>
      intro s _
      rw [Expr.checkAll]
      exact supports_leaf (steady_pure _) (s.supports_nil _)
  | cons e es ih =>
      intro s hfresh
      rw [Expr.checkAll]
      rw [Expr.idsAll] at hfresh ⊢
      rw [List.forall_mem_cons] at h
      have hdisjoint := List.disjoint_of_nodup_append hfresh.nodup
      obtain ⟨hfirst, hrest⟩ := hfresh.split
      have hsteady := Expr.steady_checkAll es
      refine supports_child (h.1 s hfirst) (fun _ => steady_child hsteady fun _ _ =>
        steady_leaf (steady_pure _)) fun t he => ?_
      refine supports_child (l := []) (ih h.2 _ (hrest _ (e.steady.grows s)))
        (fun _ => steady_leaf (steady_pure _)) fun ts hes => supports_leaf (steady_pure _) ?_
      exact (he.after (hsteady.grows _) hdisjoint).append hes

theorem supports_checkStmts {stmts : List Stmt} (hasTail : Bool)
    (h : ∀ stmt ∈ stmts, SupportsFresh stmt.check stmt.ids Stmt.operations) :
    SupportsFresh (Stmt.checkAll hasTail stmts) (Stmt.idsAll stmts) Stmt.operationsAll := by
  induction stmts with
  | nil =>
      intro s _
      rw [Stmt.checkAll]
      exact supports_leaf (steady_pure _) (s.supports_nil _)
  | cons stmt rest ih =>
      intro s hfresh
      rw [Stmt.checkAll]
      rw [Stmt.idsAll] at hfresh ⊢
      rw [List.forall_mem_cons] at h
      have hdisjoint := List.disjoint_of_nodup_append hfresh.nodup
      obtain ⟨hfirst, hrest⟩ := hfresh.split
      have hsteady := Stmt.steady_checkAll hasTail rest
      refine supports_child (l := Stmt.idsAll rest) (h.1 s hfirst) (fun t => ?_) fun t hstmt => ?_
      · split
        · exact steady_leaf (steady_pure _)
        · exact steady_first (steady_requireUnit _ t) fun _ => steady_child hsteady fun _ _ =>
            steady_leaf (steady_pure _)
      have hfresh₁ := hrest _ (stmt.steady.grows s)
      split
      · rename_i hlast
        simp only [Bool.and_eq_true, List.isEmpty_iff] at hlast
        obtain rfl := hlast.1.2
        exact supports_leaf (steady_pure _) (hstmt.append (Session.supports_nil _ _))
      · refine supports_first (l := []) (steady_requireUnit _ t) fun _ s' hgrows => ?_
        refine supports_child (l := []) (ih h.2 s' (hfresh₁.after hgrows))
          (fun _ => steady_leaf (steady_pure _)) fun v hstmts => supports_leaf (steady_pure _) ?_
        exact ((hstmt.after hgrows (List.disjoint_nil_right _)).after (hsteady.grows s')
          hdisjoint).append hstmts

/-- The value of a written field that is an expression of its own. -/
theorem supports_value {e : Expr} {id : NodeId} {wrap : Expr → FieldInit}
    (ih : SupportsFresh e.check e.ids Expr.operations)
    (hwrap : ∀ e, (wrap e).operations = e.operations) (hfresh : s.Fresh (id :: e.ids)) :
    Supports s (child e.check wrap fun e t => leaf (wrap e) (return t)) e.ids FieldInit.operations :=
  supports_child (l := []) (ih s hfresh.tail) (fun _ => steady_leaf (steady_pure _))
    fun t he => supports_leaf (steady_pure t) ((hwrap _).symm ▸ he)

end Walk

/-! ## Nodes -/

section

variable {m : Mark}

theorem Expr.supports_block {b : Block} (ih : SupportsFresh b.check b.ids Block.operations) :
    SupportsFresh (block m b).check (block m b).ids Expr.operations := by
  intro s hfresh
  rw [Expr.check]
  exact supports_parent hfresh (ih s hfresh.tail) b.steady (fun _ t => steady_pure t) fun _ => rfl

theorem Expr.supports_struct {p : Path} {span : Span} {fields : List FieldInit} {base : Option Expr}
    (ihfields : ∀ f ∈ fields, SupportsValue f)
    (ihbase : ∀ b, base = some b → SupportsFresh b.check b.ids Expr.operations) :
    SupportsFresh (struct m p span fields base).check (struct m p span fields base).ids
      Expr.operations := by
  intro s hfresh
  rw [Expr.check_struct]
  exact supports_parent hfresh (supports_literal span m.span hfresh.tail ihfields ihbase)
    (steady_wholeLiteral p span m.span fields base) (fun _ t => steady_pure t) fun _ => rfl

theorem Expr.supports_field {base : Expr} {name : String}
    (ih : SupportsFresh base.check base.ids Expr.operations) :
    SupportsFresh (field m base name).check (field m base name).ids Expr.operations := by
  intro s hfresh
  rw [Expr.check]
  exact supports_parent hfresh (ih s hfresh.tail) base.steady
    (fun _ t => steady_fieldType m.span name t) fun _ => rfl

theorem Expr.supports_tupleIndex {base : Expr} {index : Nat}
    (ih : SupportsFresh base.check base.ids Expr.operations) :
    SupportsFresh (tupleIndex m base index).check (tupleIndex m base index).ids Expr.operations := by
  intro s hfresh
  rw [Expr.check]
  exact supports_parent hfresh (ih s hfresh.tail) base.steady
    (fun _ t => steady_fieldType m.span _ t) fun _ => rfl

theorem Expr.supports_call {callee : Expr} {args : List Expr}
    (ihcallee : SupportsFresh callee.check callee.ids Expr.operations)
    (ihargs : ∀ e ∈ args, SupportsFresh e.check e.ids Expr.operations) :
    SupportsFresh (call m callee args).check (call m callee args).ids Expr.operations := by
  intro s hfresh
  rw [Expr.check]
  exact supports_pair (fun _ _ => []) hfresh ihcallee callee.steady (supports_checkExprs ihargs)
    (Expr.steady_checkAll args) (fun _ t _ _ => steady_callType m.span _ t _)
    (fun _ _ _ _ => ensures_nil _ _) fun _ _ => rfl

theorem Expr.supports_unary {op : UnOp} {e : Expr}
    (ih : SupportsFresh e.check e.ids Expr.operations) :
    SupportsFresh (unary m op e).check (unary m op e).ids Expr.operations := by
  intro s hfresh
  rw [Expr.check]
  refine supports_node (l := []) (fun n => [.unary m.id op n.id]) (s.supports_nil [])
    (ih s hfresh.tail) e.steady (fun _ t => steady_unaryType m.span op t) hfresh.nodup
    (hfresh.located _ List.mem_cons_self) (fun n t s u hok herrors => ?_) fun _ => rfl
  have hsupports := ensures_unaryType m.span op t s u hok herrors
  exact List.forall_mem_singleton.2 ⟨rfl, hsupports⟩

theorem Expr.supports_binary {op : BinOp} {l r : Expr}
    (ihl : SupportsFresh l.check l.ids Expr.operations)
    (ihr : SupportsFresh r.check r.ids Expr.operations) :
    SupportsFresh (binary m op l r).check (binary m op l r).ids Expr.operations := by
  intro s hfresh
  rw [Expr.check]
  refine supports_pair (fun l r => [.binary m.id op l.id r.id]) hfresh ihl l.steady ihr r.steady
    (fun _ _ _ _ => steady_binaryType m.span op _ _) (fun l t r u s v hok herrors => ?_) fun _ _ => rfl
  have hallows := ensures_binaryType m.span op _ _ m.id l.id r.id s v hok herrors
  exact List.forall_mem_singleton.2 ⟨rfl, hallows⟩

theorem Expr.supports_assign {l r : Expr} (ihl : SupportsFresh l.check l.ids Expr.operations)
    (ihr : SupportsFresh r.check r.ids Expr.operations) :
    SupportsFresh (assign m l r).check (assign m l r).ids Expr.operations := by
  intro s hfresh
  rw [Expr.check_assign]
  exact supports_pair (fun _ _ => []) hfresh ihl l.steady ihr r.steady
    (fun _ t _ u => (steady_unifyAt _ t u).bind fun _ => steady_pure _)
    (fun _ _ _ _ => ensures_nil _ _) fun _ _ => rfl

theorem Expr.supports_paren {e : Expr} (ih : SupportsFresh e.check e.ids Expr.operations) :
    SupportsFresh (paren m e).check (paren m e).ids Expr.operations := by
  intro s hfresh
  rw [Expr.check]
  exact supports_parent hfresh (ih s hfresh.tail) e.steady (fun _ t => steady_pure t) fun _ => rfl

theorem Block.supports_mk {stmts : List Stmt} {tail : Option Expr}
    (ihstmts : ∀ n ∈ stmts, SupportsFresh n.check n.ids Stmt.operations)
    (ihtail : ∀ e, tail = some e → SupportsFresh e.check e.ids Expr.operations) :
    SupportsFresh (mk m stmts tail).check (mk m stmts tail).ids Block.operations := by
  intro s hfresh
  have hall (hasTail : Bool) := supports_checkStmts hasTail ihstmts
  cases tail with
  | none =>
      rw [Block.check]
      rw [Block.ids, Expr.idsOption, List.append_nil] at hfresh ⊢
      exact supports_parent hfresh (hall false s hfresh.tail) (Stmt.steady_checkAll false stmts)
        (fun _ t => steady_pure _) fun n => List.append_nil _
  | some e =>
      rw [Block.check]
      exact supports_pair (fun _ _ => []) hfresh (hall true) (Stmt.steady_checkAll true stmts)
        (ihtail e rfl) e.steady (fun _ _ _ t => steady_pure t) (fun _ _ _ _ => ensures_nil _ _)
        fun _ _ => rfl

/-- The binding and the statement are no operators, so the initializer keeps its support. -/
theorem Stmt.supports_bind {binding : NodeId} {name : String} {ty : Option TypeRef}
    {init : Option Expr}
    (ih : ∀ e, init = some e → SupportsFresh e.check e.ids Expr.operations) :
    SupportsFresh (bind m binding name ty init).check (bind m binding name ty init).ids
      Stmt.operations := by
  intro s hfresh
  cases init with
  | none => exact fun _ _ _ => Session.supports_nil _ _
  | some e =>
      obtain ⟨-, hrest⟩ := hfresh.tail.tail.split
      have hids : (Stmt.bind m binding name ty (some e)).ids =
          [m.id, binding] ++ (TypeRef.idsOption ty ++ e.ids) := rfl
      have hsub : e.ids ⊆ (Stmt.bind m binding name ty (some e)).ids := fun i hi => by
        rw [hids]
        exact List.mem_append_right _ (List.mem_append_right _ hi)
      have hdisjoint : e.ids.Disjoint [binding, m.id] := by
        have hapart := List.disjoint_of_nodup_append (hids ▸ hfresh.nodup)
        intro i hi hlast
        refine hapart ?_ (List.mem_append_right _ hi)
        simpa [or_comm] using hlast
      have hbound (annotated : Option Ty) (init : Option (Ty × Span)) :
          Check.Steady [binding, m.id] (do
            record binding (← bindingType annotated init)
            recorded m.id .unit) :=
        steady_bound (by simp) (by simp) annotated init
      rw [Stmt.check]
      refine supports_first (steady_readOptional (List.Subset.refl _)) fun annotated s' hgrows => ?_
      refine supports_child (ih e rfl s' (hrest s' hgrows))
        (fun t => steady_leaf (hbound annotated _)) fun t he => ?_
      exact fun _ _ _ => (he.after ((hbound annotated _).grows _) hdisjoint).mono hsub

theorem Stmt.supports_expr {e : Expr} (ih : SupportsFresh e.check e.ids Expr.operations) :
    SupportsFresh (expr m e).check (expr m e).ids Stmt.operations := by
  intro s hfresh
  rw [Stmt.check]
  exact supports_parent hfresh (ih s hfresh.tail) e.steady (fun _ t => steady_pure t) fun _ => rfl

theorem Stmt.supports_semi {e : Expr} (ih : SupportsFresh e.check e.ids Expr.operations) :
    SupportsFresh (semi m e).check (semi m e).ids Stmt.operations := by
  intro s hfresh
  rw [Stmt.check]
  have hops (e : Expr) : (Stmt.semi m e).operations = e.operations := rfl
  exact supports_parent hfresh (ih s hfresh.tail) e.steady (fun _ _ => steady_pure .unit) hops

end

/-! ## Programs -/

/-- The check of fresh nodes supports the operators among them, by induction on programs. -/
theorem Walk.supports_check :
    (∀ e : Expr, SupportsFresh e.check e.ids Expr.operations) ∧
      (∀ b : Block, SupportsFresh b.check b.ids Block.operations) ∧
      (∀ stmt : Stmt, SupportsFresh stmt.check stmt.ids Stmt.operations) ∧
      ∀ f : FieldInit, SupportsValue f := by
  apply Expr.induct
  case lit => exact fun _ _ _ _ _ _ _ => Session.supports_nil _ _
  case path => exact fun _ _ _ _ _ _ _ => Session.supports_nil _ _
  case block => exact fun _ _ => Expr.supports_block
  case struct => exact fun _ _ _ _ _ => Expr.supports_struct
  case field => exact fun _ _ _ => Expr.supports_field
  case tupleIndex => exact fun _ _ _ => Expr.supports_tupleIndex
  case call => exact fun _ _ _ => Expr.supports_call
  case unary => exact fun _ _ _ => Expr.supports_unary
  case binary => exact fun _ _ _ _ => Expr.supports_binary
  case assign => exact fun _ _ _ => Expr.supports_assign
  case paren => exact fun _ _ => Expr.supports_paren
  case mk => exact fun _ _ _ => Block.supports_mk
  case bind => exact fun _ _ _ _ _ => Stmt.supports_bind
  case expr => exact fun _ _ => Stmt.supports_expr
  case semi => exact fun _ _ => Stmt.supports_semi
  case named => exact fun _ _ _ ih _ => supports_value ih fun _ => rfl
  case index => exact fun _ _ _ ih _ => supports_value ih fun _ => rfl
  case short => exact fun _ _ _ _ _ _ _ _ => Session.supports_nil _ _

end TypeInference

import TypeInference.Check.Expr

/-!
# The parts of a struct literal

A literal is checked in phases: its path, its base, its written fields one by
one, and what completes it. A written field is placed, its value is checked,
and it is accepted.
-/

namespace TypeInference

open Walk Check

namespace Walk

variable {ν μ κ α β γ : Type}

/-! ## Laws of walks -/

theorem child_child (w : Walk κ α) (inner : κ → μ) (next : κ → α → Walk μ β) (outer : μ → ν)
    (after : μ → β → Walk ν γ) :
    child (child w inner next) outer after =
      child w (outer ∘ inner) fun k a => child (next k a) outer after := by
  funext s
  rcases h : w s with ⟨k, e | a, s'⟩ <;> simp [child, h]

theorem child_first (node : μ) (x : Check α) (next : α → Walk μ β) (outer : μ → ν)
    (after : μ → β → Walk ν γ) :
    child (first node x next) outer after =
      first (outer node) x fun a => child (next a) outer after := by
  funext s
  rcases h : x.perform s with ⟨e | a, s'⟩ <;> simp [child, first, h]

theorem child_leaf (node : μ) (x : Check α) (outer : μ → ν) (after : μ → α → Walk ν β) :
    child (leaf node x) outer after = first (outer node) x (after node) := by
  funext s
  rcases h : x.perform s with ⟨e | a, s'⟩ <;> simp [child, leaf, first, h]

theorem leaf_bind (node : ν) (x : Check α) (f : α → Check β) :
    leaf node (x >>= f) = first node x fun a => leaf node (f a) := by
  funext s
  rcases h : x.perform s with ⟨e | a, s'⟩ <;> simp [leaf, first, h, perform_bind]

@[simp] theorem first_pure (node : ν) (a : α) (next : α → Walk ν β) :
    first node (pure a) next = next a := rfl

theorem first_cases (node : ν) (x : Check α) (next : α → Walk ν β) (s : Session) :
    (∃ a s', x.perform s = (.ok a, s') ∧ first node x next s = next a s') ∨
      ∃ e s', x.perform s = (.error e, s') ∧ first node x next s = ⟨node, .error e, s'⟩ := by
  rcases h : x.perform s with ⟨e | a, s'⟩
  · exact .inr ⟨e, s', rfl, first_of_error h node next⟩
  · exact .inl ⟨a, s', rfl, first_of_ok h node next⟩

theorem child_cases (w : Walk μ α) (rebuild : μ → ν) (next : μ → α → Walk ν β) (s : Session) :
    (∃ a, (w s).outcome = .ok a ∧ child w rebuild next s = next (w s).node a (w s).session) ∨
      ∃ e, (w s).outcome = .error e ∧
        child w rebuild next s = ⟨rebuild (w s).node, .error e, (w s).session⟩ := by
  cases h : (w s).outcome with
  | error e => exact .inr ⟨e, rfl, child_of_error h rebuild next⟩
  | ok a => exact .inl ⟨a, rfl, child_of_ok h rebuild next⟩

end Walk

namespace FieldInit

/-- Check the value of a written field. A variable named like the field is checked as a path. -/
def checkValue : FieldInit → Walk FieldInit Ty
  | .named m name value =>
      child (Expr.check value) (.named m name) fun value ty => leaf (.named m name value) (return ty)
  | .index m i value =>
      child (Expr.check value) (.index m i) fun value ty => leaf (.index m i value) (return ty)
  | .short m name res =>
      leaf (.short m name res) do recorded m.id (← pathType m.span (.ident name res))

/-- Check a written field that has been placed, or leave one alone that could not be. -/
def checkPlaced (slots : Slots) (node : FieldInit) : Option (Field Ty) → Walk FieldInit Slots
  | none => leaf node (return slots.fault)
  | some f => child node.checkValue id fun node ty => leaf node (acceptField f slots node ty)

theorem check_eq (a : Adt Ty) (slots : Slots) (node : FieldInit) :
    node.check a slots = first node (declaredField a slots node) (node.checkPlaced slots) := by
  cases node with
  | named m name value =>
      rw [FieldInit.check]
      congr 1
      funext r
      cases r with
      | none => rfl
      | some f =>
          simp only [checkPlaced, checkValue, child_child, child_leaf, first_pure]
          rfl
  | index m i value =>
      rw [FieldInit.check]
      congr 1
      funext r
      cases r with
      | none => rfl
      | some f =>
          simp only [checkPlaced, checkValue, child_child, child_leaf, first_pure]
          rfl
  | short m name res =>
      rw [FieldInit.check]
      congr 1
      funext r
      cases r with
      | none => rfl
      | some f =>
          simp only [checkPlaced, checkValue, leaf_bind, recorded, child_first, child_leaf, first_pure]
          rfl

end FieldInit

/-! ## What is in the slots -/

namespace Slots

def Holds (P : FieldInit → Prop) (slots : Slots) : Prop :=
  ∀ node, some node ∈ slots.nodes → P node

variable {P Q : FieldInit → Prop} {slots : Slots}

theorem holds_empty (P : FieldInit → Prop) (size : Nat) : (empty size).Holds P := by
  intro node hnode
  simp [empty] at hnode

theorem Holds.imp (h : slots.Holds P) (hPQ : ∀ node, P node → Q node) : slots.Holds Q :=
  fun node hnode => hPQ node (h node hnode)

theorem Holds.fill (h : slots.Holds P) {node : FieldInit} (hnode : P node) (i : Nat) :
    (slots.fill i node).Holds P := by
  intro n hn
  rcases List.mem_or_eq_of_mem_set hn with hn | hn
  · exact h n hn
  · rw [Option.some.inj hn]
    exact hnode

theorem Holds.of_inOrder (h : slots.Holds P) {fields : List FieldInit}
    (hfields : slots.inOrder = .ok fields) : ∀ f ∈ fields, P f := by
  rw [inOrder_eq_ok_iff] at hfields
  exact fun f hf => h f (hfields ▸ List.mem_map_of_mem hf)

end Slots

/-! ## The literal as a whole -/

namespace Walk

/-- Check the base of a literal, if there is one, and unify it with the struct. -/
def literalBase (a : Adt Ty) : Option Expr → Walk (Option Expr) Ty
  | none => leaf none (return .adt a)
  | some base =>
      child (Expr.check base) some fun base ty => leaf (some base) (unifyBase a ty base.span)

/-- Check a literal and rewrite its fields and its base. The type of the literal is not recorded. -/
def literal (path : Path) (pathSpan span : Span) (fields : List FieldInit) (base : Option Expr) :
    Walk (List FieldInit × Option Expr) Ty :=
  first (fields, base) (structOf path pathSpan) fun a =>
  child (literalBase a base) (fields, ·) fun base literalTy =>
  child (FieldInit.checkAll a (Slots.empty a.size) fields) (·, base) fun fields slots =>
  child (completeLiteral a literalTy span base fields slots) (·, base) fun fields ty =>
  leaf (fields, base) (return ty)

end Walk

theorem Expr.check_struct (m : Mark) (path : Path) (pathSpan : Span) (fields : List FieldInit)
    (base : Option Expr) :
    (Expr.struct m path pathSpan fields base).check =
      child (literal path pathSpan m.span fields base)
        (fun parts => .struct m path pathSpan parts.1 parts.2) fun parts ty =>
      leaf (.struct m path pathSpan parts.1 parts.2) (recorded m.id ty) := by
  cases base with
  | none =>
      rw [Expr.check, literal, child_first]
      simp only [literalBase, child_leaf, first_pure, child_child]
      rfl
  | some base =>
      rw [Expr.check, literal, child_first]
      simp only [literalBase, child_child, child_first, child_leaf, first_pure]
      rfl

end TypeInference

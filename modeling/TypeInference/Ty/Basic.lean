import TypeInference.Source.Span
import TypeInference.Ty.Prim

/-!
# Types

Types are first-order terms over inference variables and declared parameters.
A struct type carries its field types beside its arguments. The leaves of a
type, read from left to right, decide every occurrence question about it.
-/

namespace TypeInference

abbrev VarId := Nat

/-- What an inference variable may stand for. -/
inductive VarKind where
  | general | integral | float
  deriving DecidableEq, Repr, Inhabited

/-- A declared generic parameter, by its position in the declaration. -/
structure Param where
  index : Nat
  name : String
  deriving DecidableEq, Repr, Inhabited

inductive StructKind where
  | named | tuple
  deriving DecidableEq, Repr, Inhabited

/-- A declared field; a positional field is named by its position. -/
structure Field (τ : Type) where
  name : String
  ty : τ
  index : Nat
  deriving DecidableEq, Repr

/--
A struct type. The declaration itself and a struct without parameters have no
arguments.
-/
structure Adt (τ : Type) where
  decl : NodeId
  name : String
  kind : StructKind
  fields : List (Field τ)
  params : List Param
  args : Option (List τ)
  deriving DecidableEq, Repr

inductive Ty where
  | error
  | infer (kind : VarKind) (var : VarId)
  | unit
  | prim (p : Prim)
  | param (p : Param)
  | fn (params : List Ty) (ret : Ty)
  | adt (a : Adt Ty)
  deriving Repr, Inhabited

def Field.map {α β : Type} (f : α → β) (x : Field α) : Field β :=
  ⟨x.name, f x.ty, x.index⟩

def Adt.map {α β : Type} (f : α → β) (a : Adt α) : Adt β :=
  ⟨a.decl, a.name, a.kind, a.fields.map (Field.map f), a.params, a.args.map (List.map f)⟩

namespace Adt

variable {τ : Type}

/-- The first field of that name. -/
def field? (a : Adt τ) (name : String) : Option (Field τ) :=
  a.fields.find? (fun f => f.name == name)

def size (a : Adt τ) : Nat := a.fields.length

def isGeneric (a : Adt τ) : Bool := !a.params.isEmpty

/-- Whether this is the declaration of a generic struct, not yet an instance of it. -/
def isUninstantiated (a : Adt τ) : Bool := a.isGeneric && a.args.isNone

/-- The component types: the fields, then the arguments. -/
def parts (a : Adt τ) : List τ := a.fields.map Field.ty ++ a.args.getD []

end Adt

namespace Ty

/-! ## Induction -/

@[elab_as_elim, induction_eliminator]
theorem induct {motive : Ty → Prop}
    (error : motive .error)
    (infer : ∀ k v, motive (.infer k v))
    (unit : motive .unit)
    (prim : ∀ p, motive (.prim p))
    (param : ∀ p, motive (.param p))
    (fn : ∀ params ret, (∀ p ∈ params, motive p) → motive ret → motive (.fn params ret))
    (adt : ∀ a : Adt Ty, (∀ f ∈ a.fields, motive f.ty) →
      (∀ args, a.args = some args → ∀ t ∈ args, motive t) → motive (.adt a))
    (t : Ty) : motive t := by
  refine @Ty.rec motive (fun l => ∀ p ∈ l, motive p)
    (fun a => (∀ f ∈ a.fields, motive f.ty) ∧
      (∀ args, a.args = some args → ∀ t ∈ args, motive t))
    (fun l => ∀ f ∈ l, motive f.ty)
    (fun o => ∀ args, o = some args → ∀ t ∈ args, motive t)
    (fun f => motive f.ty)
    error infer unit prim param fn (fun a h => adt a h.1 h.2) ?_ ?_ ?_ ?_ ?_ ?_ ?_ ?_ t
  all_goals simp_all

/-! ## Equality -/

mutual

def beq : Ty → Ty → Bool
  | .error, .error => true
  | .infer k v, .infer l w => k == l && v == w
  | .unit, .unit => true
  | .prim p, .prim q => p == q
  | .param p, .param q => p == q
  | .fn ps r, .fn qs s => beqList ps qs && beq r s
  | .adt ⟨d, n, k, fs, ps, none⟩, .adt ⟨e, m, l, gs, qs, none⟩ =>
      d == e && n == m && k == l && ps == qs && beqFields fs gs
  | .adt ⟨d, n, k, fs, ps, some xs⟩, .adt ⟨e, m, l, gs, qs, some ys⟩ =>
      d == e && n == m && k == l && ps == qs && beqFields fs gs && beqList xs ys
  | _, _ => false

def beqList : List Ty → List Ty → Bool
  | [], [] => true
  | t :: ts, u :: us => beq t u && beqList ts us
  | _, _ => false

def beqFields : List (Field Ty) → List (Field Ty) → Bool
  | [], [] => true
  | ⟨n, t, i⟩ :: fs, ⟨m, u, j⟩ :: gs => n == m && i == j && beq t u && beqFields fs gs
  | _, _ => false

end

theorem beqList_eq_true {ts us : List Ty} (ih : ∀ t ∈ ts, ∀ u, beq t u = true ↔ t = u) :
    beqList ts us = true ↔ ts = us := by
  induction ts generalizing us with
  | nil =>
      cases us <;> simp [beqList]
  | cons t ts iht =>
      cases us with
      | nil => simp [beqList]
      | cons u us =>
          simp [beqList, ih t, iht fun x hx => ih x (List.mem_cons_of_mem _ hx)]

theorem beqFields_eq_true {fs gs : List (Field Ty)}
    (ih : ∀ f ∈ fs, ∀ u, beq f.ty u = true ↔ f.ty = u) :
    beqFields fs gs = true ↔ fs = gs := by
  induction fs generalizing gs with
  | nil =>
      cases gs <;> simp [beqFields]
  | cons f fs ihf =>
      cases gs with
      | nil => simp [beqFields]
      | cons g gs =>
          obtain ⟨n, t, i⟩ := f
          obtain ⟨m, u, j⟩ := g
          have ht : ∀ u, beq t u = true ↔ t = u := ih ⟨n, t, i⟩ (by simp)
          simp [beqFields, ht, ihf fun x hx => ih x (List.mem_cons_of_mem _ hx)]
          grind

theorem beq_eq_true (t u : Ty) : beq t u = true ↔ t = u := by
  induction t generalizing u with
  | error => cases u <;> simp [beq]
  | infer k v => cases u <;> simp [beq]
  | unit => cases u <;> simp [beq]
  | prim p => cases u <;> simp [beq]
  | param p => cases u <;> simp [beq]
  | fn ps r ihp ihr =>
      cases u <;> simp [beq, beqList_eq_true ihp, ihr]
  | adt a ihf iha =>
      obtain ⟨d, n, k, fs, ps, args⟩ := a
      cases u with
      | adt b =>
          obtain ⟨e, m, l, gs, qs, brgs⟩ := b
          cases args with
          | none =>
              cases brgs with
              | none =>
                  simp [beq, beqFields_eq_true ihf]
                  grind
              | some ys => simp [beq]
          | some xs =>
              cases brgs with
              | none => simp [beq]
              | some ys =>
                  simp [beq, beqFields_eq_true ihf, beqList_eq_true (iha xs rfl)]
                  grind
      | _ => cases args <;> simp [beq]

instance : DecidableEq Ty := fun t u => decidable_of_iff (beq t u = true) (beq_eq_true t u)

/-! ## Leaves -/

mutual

/-- The subterms without parts, from left to right: parameters before the result, fields before
arguments. -/
def leaves : Ty → List Ty
  | .fn ps r => leavesList ps ++ leaves r
  | .adt ⟨_, _, _, fs, _, none⟩ => leavesFields fs
  | .adt ⟨_, _, _, fs, _, some xs⟩ => leavesFields fs ++ leavesList xs
  | t => [t]

def leavesList : List Ty → List Ty
  | [] => []
  | t :: ts => leaves t ++ leavesList ts

def leavesFields : List (Field Ty) → List Ty
  | [] => []
  | ⟨_, t, _⟩ :: fs => leaves t ++ leavesFields fs

end

theorem leavesList_eq (ts : List Ty) : leavesList ts = ts.flatMap leaves := by
  induction ts with
  | nil => rfl
  | cons t ts ih => simp [leavesList, ih]

theorem leavesFields_eq (fs : List (Field Ty)) :
    leavesFields fs = (fs.map Field.ty).flatMap leaves := by
  induction fs with
  | nil => rfl
  | cons f fs ih => simp [leavesFields, ih]

theorem leaves_fn (ps : List Ty) (r : Ty) : leaves (.fn ps r) = ps.flatMap leaves ++ leaves r := by
  simp [leaves, leavesList_eq]

theorem leaves_adt (a : Adt Ty) : leaves (.adt a) = a.parts.flatMap leaves := by
  obtain ⟨d, n, k, fs, ps, args⟩ := a
  cases args <;> simp [leaves, leavesList_eq, leavesFields_eq, Adt.parts]

/-! ## Questions about a type -/

def isError : Ty → Bool
  | .error => true
  | _ => false

def isUnit : Ty → Bool
  | .unit => true
  | _ => false

/-- An integer primitive, or a variable that only takes one. -/
def isIntegral : Ty → Bool
  | .prim p => p.isIntegral
  | .infer .integral _ => true
  | _ => false

/-- A float primitive, or a variable that only takes one. -/
def isFloat : Ty → Bool
  | .prim p => p.isFloat
  | .infer .float _ => true
  | _ => false

def isNumeric (t : Ty) : Bool := t.isIntegral || t.isFloat

def isGeneralVar : Ty → Bool
  | .infer .general _ => true
  | _ => false

/-- Whether a leaf is the variable `v`, of whatever kind. -/
def isVar (v : VarId) : Ty → Bool
  | .infer _ w => v == w
  | _ => false

def hasVar (t : Ty) (v : VarId) : Bool := t.leaves.any (isVar v)

/-- Neither a variable nor an error. -/
def isSettled : Ty → Bool
  | .error | .infer _ _ => false
  | _ => true

def isConcrete (t : Ty) : Bool := t.leaves.all isSettled

end Ty

end TypeInference

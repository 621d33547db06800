import TypeInference.Check.Program
import TypeInference.Proofs.Ty.Subst

/-!
# Typings

A typing gives a type to every node of a body. Whether it is a valid one is a
matter of each node and its children: nothing is inferred here.
-/

namespace TypeInference

abbrev Typing := NodeId → Option Ty

/-! ## Literals and paths -/

/-- Without a suffix a number has some primitive type of its class; with one, the type it names. -/
def Literal.HasType : Literal → Ty → Prop
  | .int _ none, t => ∃ p : Prim, t = .prim p ∧ p.isIntegral
  | .float _ none, t => ∃ p : Prim, t = .prim p ∧ p.isFloat
  | .int _ (some suffix), t => ∃ p : Prim, t = .prim p ∧ p.name = suffix ∧ (p.isIntegral ∨ p.isFloat)
  | .float _ (some suffix), t => ∃ p : Prim, t = .prim p ∧ p.name = suffix ∧ p.isFloat
  | .bool _, t => t = .prim .bool
  | .char _, t => t = .prim .char
  | .str _, t => t = .prim .str
  | .unit, t => t = .unit

/--
Whether `a` comes from the generic struct `g` by giving arguments to it: both
come from what was known of the struct at one time. If `exact` holds, `a` is the
instance of `g` itself.
-/
structure Adt.IsInstance (exact : Prop) (g : Adt Ty) (args : List Ty) (a : Adt Ty) : Prop where
  length_eq : args.length = g.params.length
  common : ∃ (d : Adt Ty) (σ : VarId → Ty) (written : List Ty), (Ty.adt d).subst σ = .adt g ∧
    written.map (Ty.subst σ) = args ∧ (Ty.adt (d.instantiate written)).subst σ = .adt a
  exact_eq : exact → a = g.instantiate args

/-- Whether a path may have a type: that of what it names or, for a generic struct, the type of an
instance, with the arguments that are written on the path if there are any. -/
def Path.Names (T : Typing) (exact : Prop) (p : Path) (t : Ty) : Prop :=
  ∃ res, p.res = some res ∧ (T res = some t ∨ ∃ g args a, T res = some (.adt g) ∧
    g.isUninstantiated ∧ t = .adt a ∧ g.IsInstance exact args a ∧
    (p.args ≠ [] → p.args.map (fun r => T r.mark.id) = args.map some))

/-! ## Expressions -/

/-- The type of the value of a block without a tail. -/
def Stmt.valueType (T : Typing) (stmts : List Stmt) : Option Ty :=
  match stmts.getLast? with
  | some (.expr m _) => T m.id
  | _ => some .unit

section

variable (T : Typing) (names : Path → Ty → Prop)

mutual

/-- Whether the typing is valid at an expression and at every node inside it. -/
def Expr.Typed : Expr → Prop
  | .lit m l => ∃ t, T m.id = some t ∧ l.HasType t
  | .path m p => ∃ t, T m.id = some t ∧ names p t
  | .block m b => b.Typed ∧ T m.id = T b.mark.id
  | .struct m p _ fields base =>
      ∃ a, T m.id = some (.adt a) ∧ names p (.adt a) ∧ FieldInit.AllTyped a.fields fields ∧
        Expr.OptionTyped (T m.id) base
  | .field m base name =>
      base.Typed ∧ ∃ a f, T base.id = some (.adt a) ∧ f ∈ a.fields ∧ f.name = name ∧
        T m.id = some f.ty
  | .tupleIndex m base index =>
      base.Typed ∧ ∃ a f, T base.id = some (.adt a) ∧ f ∈ a.fields ∧
        (f.name = toString index ∨ f.index = index) ∧ T m.id = some f.ty
  | .call m callee args =>
      callee.Typed ∧ Expr.AllTyped args ∧ ∃ ps r, T callee.id = some (.fn ps r) ∧
        args.map (fun e => T e.id) = ps.map some ∧ T m.id = some r
  | .unary m _ e => e.Typed ∧ T m.id = T e.id
  | .binary m op l r =>
      l.Typed ∧ r.Typed ∧ T l.id = T r.id ∧
        if op.isLazyBoolean then T l.id = some (.prim .bool) ∧ T m.id = some (.prim .bool)
        else if op.isComparison then T m.id = some (.prim .bool)
        else T m.id = T l.id
  | .assign m l r => l.Typed ∧ r.Typed ∧ T l.id = T r.id ∧ T m.id = some .unit
  | .paren m e => e.Typed ∧ T m.id = T e.id

def Expr.AllTyped : List Expr → Prop
  | [] => True
  | e :: es => e.Typed ∧ Expr.AllTyped es

/-- Whether an expression, if there is one, is typed and has the type. -/
def Expr.OptionTyped (t : Option Ty) : Option Expr → Prop
  | none => True
  | some e => e.Typed ∧ T e.id = t

/-- A block has the type of its tail or of a final expression statement, or else it is unit. -/
def Block.Typed : Block → Prop
  | .mk m stmts tail =>
      Stmt.AllTyped tail.isSome stmts ∧ Expr.OptionTyped (T m.id) tail ∧
        (tail.isNone → T m.id = Stmt.valueType T stmts)

/-- Every statement that is not the value of its block is unit. -/
def Stmt.AllTyped (hasTail : Bool) : List Stmt → Prop
  | [] => True
  | s :: rest =>
      s.Typed ∧ ((hasTail = false ∧ rest = [] ∧ s.isExpr) ∨ T s.mark.id = some .unit) ∧
        Stmt.AllTyped hasTail rest

def Stmt.Typed : Stmt → Prop
  | .bind m binding _ ty init =>
      T m.id = some .unit ∧ (T binding).isSome ∧ (∀ r, ty = some r → T binding = T r.mark.id) ∧
        Expr.OptionTyped (T binding) init
  | .expr m e => e.Typed ∧ T m.id = T e.id
  | .semi m e => e.Typed ∧ T m.id = some .unit

/-- One field node for each declared field, in order. -/
def FieldInit.AllTyped : List (Field Ty) → List FieldInit → Prop
  | [], [] => True
  | f :: fs, n :: ns => n.TypedAs f ∧ FieldInit.AllTyped fs ns
  | _, _ => False

/-- Whether a field node initializes the declared field with a value of its type. -/
def FieldInit.TypedAs (f : Field Ty) : FieldInit → Prop
  | .named m name value =>
      value.Typed ∧ f.name = name ∧ T m.id = some f.ty ∧ T value.id = some f.ty
  | .index m index value =>
      value.Typed ∧ (f.name = toString index ∨ f.index = index) ∧ T m.id = some f.ty ∧
        T value.id = some f.ty
  | .short m name res => f.name = name ∧ names (.ident name res) f.ty ∧ T m.id = some f.ty

end

/-! ## Programs -/

/-- A body has the result type that is recorded for its function, an initializer the type of its
constant. -/
def Item.Typed (item : Item) : Prop :=
  match item.kind with
  | .struct _ => True
  | .fn decl => decl.body.Typed T names ∧ ∃ ps r, T item.id = some (.fn ps r) ∧
      T decl.body.mark.id = some r
  | .const decl => decl.value.Typed T names ∧ T decl.value.id = T item.id

def Program.Typed (p : Program) : Prop := ∀ item ∈ p.items, item.Typed T names

end

end TypeInference

import TypeInference.Check.StructLiteral

/-!
# Checking expressions

Every expression gets a type, recorded under its identity before the walk
leaves it. A soft error is reported and gives the error type; after a hard one
the walk aborts.
-/

namespace TypeInference

namespace UnOp

/-- Whether the operator may be applied. An error or an unknown type is given the benefit of the
doubt. -/
def supports : UnOp → Ty → Bool
  | _, .error => true
  | _, .infer .general _ => true
  | neg, .prim p => p.isSigned
  | neg, t => t.isNumeric
  | not, t => t == .prim .bool || t.isIntegral

end UnOp

namespace Check

/-! ## Leaves -/

def suffixedType (accepts : Prim → Bool) (suffix : String) (span : Span) : Check Ty := do
  match ← builtin? suffix with
  | some (.prim p) =>
      if accepts p then return .prim p else reportTyped (.invalidLiteralSuffix suffix) span
  | _ => reportTyped (.invalidLiteralSuffix suffix) span

/-- An integer may be written with a float suffix, but not the other way round. -/
def literalType (span : Span) : Literal → Check Ty
  | .int _ none => newVar .integral
  | .float _ none => newVar .float
  | .int _ (some suffix) => suffixedType (fun p => p.isIntegral || p.isFloat) suffix span
  | .float _ (some suffix) => suffixedType Prim.isFloat suffix span
  | .bool _ => builtin "bool"
  | .char _ => builtin "char"
  | .str _ => builtin "str"
  | .unit => return .unit

/-- The type of what a path names; a generic struct is instantiated. -/
def pathType (span : Span) (path : Path) : Check Ty :=
  match path.res with
  | none => giveUp (.unresolvedPath path.text) span
  | some res => do
      match ← lookup res with
      | some (.adt a) =>
          if a.isUninstantiated then return .adt (← a.instanceIn path.args span)
          else return .adt a
      | some ty => return ty
      | none => giveUp (.untypedDeclaration path.text) span

/-! ## Compound expressions -/

def fieldType (span : Span) (name : String) (baseTy : Ty) : Check Ty := do
  match ← resolve baseTy with
  | .error => return .error
  | .adt a =>
      match a.field? name with
      | some f => return f.ty
      | none => reportTyped (.noSuchField (.adt a) name) span
  | ty => reportTyped (.noSuchField ty name) span

/-- Unify each parameter with its argument, at the argument. -/
def unifyArgs : List Ty → List (Ty × Span) → Check Unit
  | p :: ps, (ty, span) :: args => do
      let _ ← unifyAt span p ty
      unifyArgs ps args
  | _, _ => return ()

def callType (span calleeSpan : Span) (calleeTy : Ty) (args : List (Ty × Span)) : Check Ty := do
  match ← resolve calleeTy with
  | .fn params ret =>
      if params.length ≠ args.length then
        report (.arityMismatch params.length args.length) span
      unifyArgs params args
      return ret
  | .error => return .error
  | ty => reportTyped (.notAFunction ty) calleeSpan

def unaryType (span : Span) (op : UnOp) (operandTy : Ty) : Check Ty := do
  let ty ← resolve operandTy
  if op.supports ty then return ty else reportTyped (.invalidOperand op.text ty) span

/-- Both operands have one type. A comparison or a lazy boolean operation is a boolean, and
arithmetic has the type of its operands, which has to be numeric. -/
def binaryType (span : Span) (op : BinOp) (lhs rhs : Ty × Span) : Check Ty := do
  if op.isLazyBoolean then
    let bool ← builtin "bool"
    let _ ← unifyAt lhs.2 bool lhs.1
    let _ ← unifyAt rhs.2 bool rhs.1
    return bool
  else
    let operand ← unifyAt rhs.2 lhs.1 rhs.1
    if op.isComparison then builtin "bool"
    else
      let ty ← resolve operand
      if ty.isError || ty.isNumeric || ty.isGeneralVar then return ty
      else reportTyped (.invalidOperand op.text ty) span

/-! ## Statements -/

/-- The type of a binding. If the initializer does not fit, the annotation stands. -/
def bindingType : Option Ty → Option (Ty × Span) → Check Ty
  | some annotated, some (ty, span) => do
      let unified ← unifyAt span annotated ty
      return if unified.isError then annotated else unified
  | some annotated, none => return annotated
  | none, some (ty, _) => return ty
  | none, none => newVar .general

/-- A statement that is not the value of its block has to be unit. -/
def requireUnit (span : Span) (ty : Ty) : Check Unit := do
  match ← unify .unit ty with
  | .ok _ => return ()
  | .error _ => report (.nonUnitStatement (← resolve ty)) span

end Check

open Walk Check

mutual

/-- Check an expression and record its type. -/
def Expr.check : Expr → Walk Expr Ty
  | .lit m l => leaf (.lit m l) do recorded m.id (← literalType m.span l)
  | .path m p => leaf (.path m p) do recorded m.id (← pathType m.span p)
  | .block m b =>
      child (Block.check b) (.block m) fun b ty => leaf (.block m b) (recorded m.id ty)
  | .struct m p pathSpan fields none =>
      first (.struct m p pathSpan fields none) (structOf p pathSpan) fun a =>
      child (FieldInit.checkAll a (Slots.empty a.size) fields) (.struct m p pathSpan · none)
        fun fields slots =>
      child (completeLiteral a (.adt a) m.span none fields slots) (.struct m p pathSpan · none)
        fun fields ty =>
      leaf (.struct m p pathSpan fields none) (recorded m.id ty)
  | .struct m p pathSpan fields (some base) =>
      first (.struct m p pathSpan fields (some base)) (structOf p pathSpan) fun a =>
      child (Expr.check base) (.struct m p pathSpan fields <| some ·) fun base baseTy =>
      first (.struct m p pathSpan fields (some base)) (unifyBase a baseTy base.span)
        fun literalTy =>
      child (FieldInit.checkAll a (Slots.empty a.size) fields) (.struct m p pathSpan · (some base))
        fun fields slots =>
      child (completeLiteral a literalTy m.span (some base) fields slots)
        (.struct m p pathSpan · (some base)) fun fields ty =>
      leaf (.struct m p pathSpan fields (some base)) (recorded m.id ty)
  | .field m base name =>
      child (Expr.check base) (.field m · name) fun base ty =>
      leaf (.field m base name) do recorded m.id (← fieldType m.span name ty)
  | .tupleIndex m base index =>
      child (Expr.check base) (.tupleIndex m · index) fun base ty =>
      leaf (.tupleIndex m base index) do recorded m.id (← fieldType m.span (toString index) ty)
  | .call m callee args =>
      child (Expr.check callee) (.call m · args) fun callee calleeTy =>
      child (Expr.checkAll args) (.call m callee ·) fun args tys =>
      leaf (.call m callee args) do
        recorded m.id (← callType m.span callee.span calleeTy (tys.zip (args.map Expr.span)))
  | .unary m op e =>
      child (Expr.check e) (.unary m op ·) fun e ty =>
      leaf (.unary m op e) do recorded m.id (← unaryType m.span op ty)
  | .binary m op l r =>
      child (Expr.check l) (.binary m op · r) fun l lt =>
      child (Expr.check r) (.binary m op l ·) fun r rt =>
      leaf (.binary m op l r) do
        recorded m.id (← binaryType m.span op (lt, l.span) (rt, r.span))
  | .assign m l r =>
      child (Expr.check l) (.assign m · r) fun l lt =>
      child (Expr.check r) (.assign m l ·) fun r rt =>
      leaf (.assign m l r) do
        let _ ← unifyAt r.span lt rt
        recorded m.id .unit
  | .paren m e =>
      child (Expr.check e) (.paren m ·) fun e ty => leaf (.paren m e) (recorded m.id ty)

/-- Check expressions from left to right. -/
def Expr.checkAll : List Expr → Walk (List Expr) (List Ty)
  | [] => leaf [] (return [])
  | e :: es =>
      child (Expr.check e) (· :: es) fun e ty =>
      child (Expr.checkAll es) (e :: ·) fun es tys =>
      leaf (e :: es) (return ty :: tys)

/-- Check the statements of a block, then its tail. -/
def Block.check : Block → Walk Block Ty
  | .mk m stmts none =>
      child (Stmt.checkAll false stmts) (.mk m · none) fun stmts value =>
      leaf (.mk m stmts none) (recorded m.id (value.getD .unit))
  | .mk m stmts (some tail) =>
      child (Stmt.checkAll true stmts) (.mk m · (some tail)) fun stmts _ =>
      child (Expr.check tail) (.mk m stmts <| some ·) fun tail ty =>
      leaf (.mk m stmts (some tail)) (recorded m.id ty)

/-- Check statements in order; without a tail, a final expression statement is the value. -/
def Stmt.checkAll (hasTail : Bool) : List Stmt → Walk (List Stmt) (Option Ty)
  | [] => leaf [] (return none)
  | stmt :: rest =>
      child (Stmt.check stmt) (· :: rest) fun stmt ty =>
        if !hasTail && rest.isEmpty && stmt.isExpr then leaf (stmt :: rest) (return some ty)
        else
          first (stmt :: rest) (requireUnit stmt.mark.span ty) fun _ =>
          child (Stmt.checkAll hasTail rest) (stmt :: ·) fun rest value =>
          leaf (stmt :: rest) (return value)

def Stmt.check : Stmt → Walk Stmt Ty
  | .bind m binding name ty none =>
      leaf (.bind m binding name ty none) do
        let annotated ← TypeRef.readOptional .body ty
        record binding (← bindingType annotated none)
        recorded m.id .unit
  | .bind m binding name ty (some init) =>
      first (.bind m binding name ty (some init)) (TypeRef.readOptional .body ty) fun annotated =>
      child (Expr.check init) (.bind m binding name ty <| some ·) fun init initTy =>
      leaf (.bind m binding name ty (some init)) do
        record binding (← bindingType annotated (some (initTy, init.span)))
        recorded m.id .unit
  | .expr m e => child (Expr.check e) (.expr m) fun e ty => leaf (.expr m e) (recorded m.id ty)
  | .semi m e => child (Expr.check e) (.semi m) fun e _ => leaf (.semi m e) (recorded m.id .unit)

/-- Check the written fields of a literal in source order. -/
def FieldInit.checkAll (a : Adt Ty) : Slots → List FieldInit → Walk (List FieldInit) Slots
  | slots, [] => leaf [] (return slots)
  | slots, node :: rest =>
      child (FieldInit.check a slots node) (· :: rest) fun node slots =>
      child (FieldInit.checkAll a slots rest) (node :: ·) fun rest slots =>
      leaf (node :: rest) (return slots)

/-- Check one written field; a variable named like the field is checked as a path. -/
def FieldInit.check (a : Adt Ty) (slots : Slots) : FieldInit → Walk FieldInit Slots
  | .named m name value =>
      first (.named m name value) (declaredField a slots (.named m name value)) fun
      | none => leaf (.named m name value) (return slots.fault)
      | some f =>
          child (Expr.check value) (.named m name) fun value ty =>
          leaf (.named m name value) (acceptField f slots (.named m name value) ty)
  | .index m index value =>
      first (.index m index value) (declaredField a slots (.index m index value)) fun
      | none => leaf (.index m index value) (return slots.fault)
      | some f =>
          child (Expr.check value) (.index m index) fun value ty =>
          leaf (.index m index value) (acceptField f slots (.index m index value) ty)
  | .short m name res =>
      first (.short m name res) (declaredField a slots (.short m name res)) fun
      | none => leaf (.short m name res) (return slots.fault)
      | some f =>
          leaf (.short m name res) do
            let ty ← pathType m.span (.ident name res)
            record m.id ty
            acceptField f slots (.short m name res) ty

end

end TypeInference

import TypeInference.Check.Declaration
import TypeInference.Proofs.Program.Resolutions
import TypeInference.Proofs.Program.Visited

/-!
# References that are looked up

The references in a program that a check has to follow: every path in a body,
and every written type that is read. Arguments on a path are read if they are
written on its last segment and the path names a generic struct. Other arguments
take no part in a check, and neither do those of builtin types and parameters.
-/

namespace TypeInference

inductive Reference where
  | value (res : Option NodeId)
  | type (res : Option TypeRes)
  deriving DecidableEq, Repr

def Reference.isResolved : Reference → Bool
  | value res => res.isSome
  | type res => res.isSome

/-- The references of the types that are read when this one is. -/
def TypeRef.lookups (t : TypeRef) : List Reference :=
  t.visited.filterMap fun
    | .path _ _ res _ => some (.type res)
    | _ => none

mutual

/-- All references in a written type, those in arguments nothing reads included. -/
def TypeRef.references : TypeRef → List Reference
  | .path _ _ res args => .type res :: TypeRef.referencesAll args
  | _ => []

def TypeRef.referencesAll : List TypeRef → List Reference
  | [] => []
  | t :: ts => t.references ++ TypeRef.referencesAll ts

end

/-- The struct items that declare parameters. -/
def Program.isGeneric (p : Program) (id : NodeId) : Bool :=
  match p.struct? id with
  | some (_, decl) => !decl.generics.isEmpty
  | none => false

section

variable (generic : NodeId → Bool)

def Path.lookups (p : Path) : List Reference :=
  .value p.res :: if p.res.any generic then p.args.flatMap TypeRef.lookups else []

mutual

def Expr.lookups : Expr → List Reference
  | .lit _ _ => []
  | .path _ p => p.lookups generic
  | .block _ b => b.lookups
  | .struct _ p _ fields base =>
      p.lookups generic ++ (Expr.lookupsOption base ++ FieldInit.lookupsAll fields)
  | .field _ base _ => base.lookups
  | .tupleIndex _ base _ => base.lookups
  | .call _ callee args => callee.lookups ++ Expr.lookupsAll args
  | .unary _ _ e => e.lookups
  | .binary _ _ l r => l.lookups ++ r.lookups
  | .assign _ l r => l.lookups ++ r.lookups
  | .paren _ e => e.lookups

def Expr.lookupsAll : List Expr → List Reference
  | [] => []
  | e :: es => e.lookups ++ Expr.lookupsAll es

def Expr.lookupsOption : Option Expr → List Reference
  | none => []
  | some e => e.lookups

def Block.lookups : Block → List Reference
  | .mk _ stmts tail => Stmt.lookupsAll stmts ++ Expr.lookupsOption tail

def Stmt.lookupsAll : List Stmt → List Reference
  | [] => []
  | s :: rest => s.lookups ++ Stmt.lookupsAll rest

def Stmt.lookups : Stmt → List Reference
  | .bind _ _ _ ty init => ty.toList.flatMap TypeRef.lookups ++ Expr.lookupsOption init
  | .expr _ e => e.lookups
  | .semi _ e => e.lookups

def FieldInit.lookupsAll : List FieldInit → List Reference
  | [] => []
  | f :: rest => f.lookups ++ FieldInit.lookupsAll rest

/-- A field written as a variable is looked up as a path. -/
def FieldInit.lookups : FieldInit → List Reference
  | .named _ _ value => value.lookups
  | .index _ _ value => value.lookups
  | .short _ _ res => [.value res]

end

def ItemKind.bodyLookups : ItemKind → List Reference
  | .struct _ => []
  | .fn decl => decl.body.lookups generic
  | .const decl => decl.value.lookups generic

end

def ItemKind.signatureLookups (kind : ItemKind) : List Reference :=
  kind.signatureTypes.flatMap TypeRef.lookups

/-- All references that the check of a program has to follow. -/
def Program.lookups (p : Program) : List Reference :=
  p.items.flatMap fun item =>
    item.kind.signatureLookups ++ item.kind.bodyLookups p.isGeneric

abbrev Reference.Resolve (refs : List Reference) : Prop := ∀ r ∈ refs, r.isResolved

theorem Reference.resolve_nil : Resolve [] := by simp [Resolve]

theorem Reference.Resolve.append {l l' : List Reference} (h : Resolve l) (h' : Resolve l') :
    Resolve (l ++ l') := List.forall_mem_append.2 ⟨h, h'⟩

theorem TypeRef.lookups_adt (m : Mark) (name : String) (id : NodeId) (args : List TypeRef) :
    lookups (.path m name (some (.adt id)) args) =
      .type (some (.adt id)) :: args.flatMap lookups := by
  rw [lookups, visited_adt, List.filterMap_cons, List.filterMap_flatMap]
  rfl

end TypeInference

import TypeInference.Source.Span
import TypeInference.Ty.Unify

/-!
# Type errors

A type error is a cause at a span. Its code, message, label and help line are
functions of the cause.
-/

namespace TypeInference

inductive Cause where
  | mismatch (expected found : Ty)
  | arityMismatch (expected found : Nat)
  | infiniteType (ty : Ty)
  | unresolvedPath (name : String)
  | untypedDeclaration (name : String)
  | notAStruct (name : String) (found : Ty)
  | genericArgCount (name : String) (expected found : Nat)
  | recursiveType (name : String)
  | notAFunction (ty : Ty)
  | noSuchField (ty : Ty) (field : String)
  | invalidOperand (op : String) (ty : Ty)
  | invalidLiteralSuffix (suffix : String)
  | unknownField (struct field : String)
  | duplicateField (field : String)
  | missingFields (struct : String) (missing : List String)
  | incompatibleBase (expected found : Ty)
  | nonUnitStatement (found : Ty)
  | resolutionFailure (id : NodeId)
  | ambiguousType (id : NodeId)
  deriving DecidableEq, Repr

structure TypeError where
  cause : Cause
  span : Span
  deriving DecidableEq, Repr

namespace Cause

/-- A failed unification as a cause; the variable of an infinite type is not named. -/
def ofUnify : UnifyError → Cause
  | .mismatch a b => .mismatch a b
  | .arityMismatch m n => .arityMismatch m n
  | .infiniteType _ t => .infiniteType t

def code : Cause → String
  | mismatch .. => "E0001"
  | infiniteType .. => "E0002"
  | arityMismatch .. => "E0003"
  | unresolvedPath .. => "E0004"
  | notAFunction .. => "E0005"
  | untypedDeclaration .. => "E0006"
  | notAStruct .. => "E0007"
  | genericArgCount .. => "E0008"
  | unknownField .. => "E0009"
  | noSuchField .. => "E0009"
  | duplicateField .. => "E0010"
  | missingFields .. => "E0011"
  | incompatibleBase .. => "E0012"
  | nonUnitStatement .. => "E0013"
  | invalidOperand .. => "E0014"
  | invalidLiteralSuffix .. => "E0015"
  | recursiveType .. => "E0016"
  | resolutionFailure .. => "E0017"
  | ambiguousType .. => "E0018"

def quoted (text : String) : String := "`" ++ text ++ "`"

def expectedFound (expected found : Ty) : String :=
  "expected " ++ quoted expected.text ++ ", found " ++ quoted found.text

def message : Cause → String
  | mismatch a b => "type mismatch: " ++ expectedFound a b
  | arityMismatch m n =>
      "arity mismatch: expected " ++ toString m ++ " arguments, found " ++ toString n
  | infiniteType t => "infinite type: a variable occurs in " ++ quoted t.text
  | unresolvedPath name => "failed to resolve " ++ quoted name
  | untypedDeclaration name => "consider giving this a type: " ++ quoted name
  | notAStruct name t => "expected a struct type, " ++ quoted name ++ " is " ++ quoted t.text
  | genericArgCount name m n =>
      quoted name ++ " expects " ++ toString m ++ " generic arguments, found " ++ toString n
  | recursiveType name => "recursive type " ++ quoted name ++ " has infinite size"
  | notAFunction t => quoted t.text ++ " is not a function"
  | noSuchField t field => "type " ++ quoted t.text ++ " has no field " ++ quoted field
  | invalidOperand op t => "cannot apply " ++ quoted op ++ " to " ++ quoted t.text
  | invalidLiteralSuffix suffix => "invalid suffix " ++ quoted suffix ++ " for number literal"
  | unknownField struct field =>
      "unknown field " ++ quoted field ++ " on struct " ++ quoted struct
  | duplicateField field => "field " ++ quoted field ++ " used more than once"
  | missingFields struct missing =>
      "constructor of " ++ quoted struct ++ " is missing fields: " ++ Ty.commaSeparated missing
  | incompatibleBase a b =>
      "incompatible types for base struct reference: " ++ expectedFound a b
  | nonUnitStatement t => "expected `()`, found " ++ quoted t.text
  | resolutionFailure id => "failure in type resolution for " ++ toString id
  | ambiguousType id =>
      "unable to determine type: please give this a type: " ++ toString id

/-- What the label at the span says. -/
def label : Cause → String
  | mismatch a b => expectedFound a b
  | arityMismatch m _ => "expected " ++ toString m ++ " argument(s)"
  | infiniteType _ => "recursive type here"
  | unresolvedPath _ => "not found in this scope"
  | untypedDeclaration _ => "type unknown here"
  | notAStruct _ t => "this is " ++ quoted t.text
  | genericArgCount _ m _ => "expected " ++ toString m ++ " generic argument(s)"
  | recursiveType _ => "recursive without indirection"
  | notAFunction t => "has type " ++ quoted t.text
  | noSuchField _ field => "unknown field " ++ quoted field
  | invalidOperand _ t => "has type " ++ quoted t.text
  | invalidLiteralSuffix _ => "invalid suffix"
  | unknownField struct _ => quoted struct ++ " does not have this field"
  | duplicateField _ => "used more than once"
  | missingFields _ missing => "missing " ++ Ty.commaSeparated missing
  | incompatibleBase a b => expectedFound a b
  | nonUnitStatement t => "has type " ++ quoted t.text
  | resolutionFailure _ => "type could not be resolved"
  | ambiguousType _ => "cannot infer type"

/-- A hint, where the fix is obvious. -/
def help? : Cause → Option String
  | arityMismatch m n =>
      some (if n < m then "missing " ++ toString (m - n) ++ " argument(s)"
        else toString (n - m) ++ " extra argument(s)")
  | infiniteType _ => some "a value cannot have a type that refers to itself"
  | missingFields .. => some "add the missing fields or use `..base` to copy them"
  | nonUnitStatement _ => some "add `;` to discard the value"
  | ambiguousType _ => some "add a type annotation"
  | _ => none

end Cause

def TypeError.message (e : TypeError) : String := e.cause.message

end TypeInference

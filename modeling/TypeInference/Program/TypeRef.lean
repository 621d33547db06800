import TypeInference.Source.Span

/-!
# Written types

A type as it is written in a program, with the declaration that its name
resolved to, if it did.
-/

namespace TypeInference

/-- What a type name resolved to. -/
inductive TypeRes where
  | builtin
  | adt (decl : NodeId)
  | param (decl : NodeId)
  deriving DecidableEq, Repr

inductive TypeRef where
  | unit (mark : Mark)
  | infer (mark : Mark)
  | path (mark : Mark) (name : String) (res : Option TypeRes) (args : List TypeRef)
  deriving Repr, Inhabited

namespace TypeRef

def mark : TypeRef → Mark
  | .unit m => m
  | .infer m => m
  | .path m _ _ _ => m

mutual

/-- The structs named anywhere in a written type, from left to right, the outer ones first. -/
def structs : TypeRef → List NodeId
  | .path _ _ (some (.adt id)) args => id :: structsOfAll args
  | .path _ _ _ args => structsOfAll args
  | _ => []

def structsOfAll : List TypeRef → List NodeId
  | [] => []
  | t :: ts => structs t ++ structsOfAll ts

end

end TypeRef

end TypeInference

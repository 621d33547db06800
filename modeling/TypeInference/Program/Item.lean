import TypeInference.Program.Expr
import TypeInference.Ty.Basic

/-!
# Items

A program is a list of struct, function and constant declarations.
-/

namespace TypeInference

structure GenericParam where
  mark : Mark
  name : String
  deriving Repr

/-- A name declared with its type: a struct field or a function parameter. -/
structure TypedName where
  mark : Mark
  name : String
  ty : TypeRef
  deriving Repr

structure StructDecl where
  kind : StructKind
  generics : List GenericParam
  fields : List TypedName
  deriving Repr

structure FnDecl where
  params : List TypedName
  ret : Option TypeRef
  body : Block

structure ConstDecl where
  ty : TypeRef
  value : Expr

inductive ItemKind where
  | struct (decl : StructDecl)
  | fn (decl : FnDecl)
  | const (decl : ConstDecl)

structure Item where
  mark : Mark
  name : String
  kind : ItemKind

def Item.id (item : Item) : NodeId := item.mark.id

structure Program where
  items : List Item

end TypeInference

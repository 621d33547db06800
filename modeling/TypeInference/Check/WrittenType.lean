import TypeInference.Check.Session
import TypeInference.Program.TypeRef

/-!
# Reading written types

A written type becomes a type, recorded under its own identity. In a signature
a generic struct needs all its arguments. In a body they may be left out and
are inferred.
-/

namespace TypeInference

/-- Where a written type stands. -/
inductive Position where
  | signature
  | body
  deriving DecidableEq, Repr

open Check

/-- Instantiate with arguments that have been read. -/
def Adt.withArgs (a : Adt Ty) (args : List Ty) (span : Span) : Check (Adt Ty) :=
  match a.apply args with
  | .ok b => pure b
  | .error e => giveUp (.genericArgCount a.name e.expected e.found) span

namespace TypeRef

mutual

def read (position : Position) : TypeRef → Check Ty
  | .unit m => recorded m.id .unit
  | .infer m => do recorded m.id (← newVar .general)
  | .path m name none _ => giveUp (.unresolvedPath name) m.span
  | .path m name (some .builtin) _ => do
      match ← builtin? name with
      | some ty => recorded m.id ty
      | none => giveUp (.unresolvedPath name) m.span
  | .path m name (some (.param id)) _ => do
      match ← lookup id with
      | some ty => recorded m.id ty
      | none => giveUp (.untypedDeclaration name) m.span
  | .path m name (some (.adt id)) args => do
      match ← lookup id with
      | some (.adt a) =>
          if args.isEmpty && position == .body then recorded m.id (.adt (← freshInstance a))
          else
            let tys ← readAll position args
            recorded m.id (.adt (← a.withArgs tys m.span))
      | some ty => giveUp (.notAStruct name ty) m.span
      | none => giveUp (.untypedDeclaration name) m.span

/-- Read types from left to right. -/
def readAll (position : Position) : List TypeRef → Check (List Ty)
  | [] => return []
  | t :: ts => do
      let ty ← read position t
      let tys ← readAll position ts
      return ty :: tys

end

def readOptional (position : Position) : Option TypeRef → Check (Option Ty)
  | none => return none
  | some t => return some (← t.read position)

end TypeRef

/-- A generic struct where a body uses it: with the written arguments, or with fresh variables if
none are written. -/
def Adt.instanceIn (a : Adt Ty) (args : List TypeRef) (span : Span) : Check (Adt Ty) :=
  if args.isEmpty then freshInstance a
  else do
    let tys ← TypeRef.readAll .body args
    a.withArgs tys span

end TypeInference

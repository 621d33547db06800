import TypeInference.Check.WrittenType
import TypeInference.Program.Item

/-!
# Declarations

The type of every item, read from its declaration without looking at bodies. A
struct is declared when a written type first names it, so items may come in any
order. A struct that cannot be declared is reported once, and whatever names it
later fails silently.
-/

namespace TypeInference

/-- A session together with the structs that could not be declared. -/
structure Declaring where
  session : Session
  failed : List NodeId

abbrev Declare (α : Type) := ExceptT Abort (StateM Declaring) α

def Declaring.start (s : Session) : Declaring := ⟨s, []⟩

namespace Declare

variable {α : Type}

def perform (x : Declare α) (d : Declaring) : Except Abort α × Declaring := x.run.run d

def ofCheck (x : Check α) : Declare α := ExceptT.mk fun d =>
  let (outcome, session) := x.perform d.session
  (outcome, { d with session })

def markFailed (id : NodeId) : Declare Unit :=
  modify fun d => { d with failed := id :: d.failed }

/-- Remember the struct if its declaration fails. -/
def noting (id : NodeId) (x : Declare Unit) : Declare Unit := ExceptT.mk do
  match ← x.run with
  | .ok _ => return .ok ()
  | .error e => (do markFailed id; throw e : Declare Unit).run

/-- Read a written type after the structs it names have been declared. -/
def read (demand : NodeId → Declare Unit) (t : TypeRef) : Declare Ty := do
  t.structs.forM demand
  ofCheck (t.read .signature)

/-- Read the types of declared names in order, and record them. -/
def readNames (demand : NodeId → Declare Unit) : List TypedName → Declare (List Ty)
  | [] => return []
  | x :: xs => do
      let ty ← read demand x.ty
      ofCheck (Check.record x.mark.id ty)
      let tys ← readNames demand xs
      return ty :: tys

/-- The parameters that a list of generics declares. -/
def params (generics : List GenericParam) : List Param :=
  generics.mapIdx fun index g => ⟨index, g.name⟩

def recordParams : List (GenericParam × Param) → Declare Unit
  | [] => return ()
  | (g, p) :: rest => do
      ofCheck (Check.record g.mark.id (.param p))
      recordParams rest

/-- The fields that a list of names declares with the types that were read for them. -/
def fields (xs : List TypedName) (tys : List Ty) : List (Field Ty) :=
  (xs.zip tys).mapIdx fun index (x, ty) => ⟨x.name, ty, index⟩

def struct (demand : NodeId → Declare Unit) (item : Item) (decl : StructDecl) : Declare Unit := do
  recordParams (decl.generics.zip (params decl.generics))
  let tys ← readNames demand decl.fields
  ofCheck (Check.record item.id
    (.adt ⟨item.id, item.name, decl.kind, fields decl.fields tys, params decl.generics, none⟩))

def fn (demand : NodeId → Declare Unit) (item : Item) (decl : FnDecl) : Declare Unit := do
  let params ← readNames demand decl.params
  let ret ←
    match decl.ret with
    | some t => read demand t
    | none => pure .unit
  ofCheck (Check.record item.id (.fn params ret))

def const (demand : NodeId → Declare Unit) (item : Item) (decl : ConstDecl) : Declare Unit := do
  let ty ← read demand decl.ty
  ofCheck (Check.record item.id ty)

/--
Declare the struct `id` if that is still to be done. One that failed before
fails again. `path` holds the structs whose declaration is underway, so one
that is on it contains itself.
-/
def unlessKnown (structs : NodeId → Option (Item × StructDecl)) (path : List NodeId)
    (id : NodeId) (declare : Item → StructDecl → Declare Unit) : Declare Unit := do
  let d ← get
  if d.failed.contains id then throw .item
  else
    match structs id with
    | none => return ()
    | some (item, decl) =>
        if path.contains id then do
          ofCheck (Check.report (.recursiveType item.name) item.mark.span)
          markFailed id
          throw .item
        else if d.session.context.contains id then return ()
        else noting id (declare item decl)

/--
Declare the struct `id` and, before it, the structs that its fields name. The
depth bounds the number of structs that are not on the path.
-/
def demand (structs : NodeId → Option (Item × StructDecl)) :
    Nat → List NodeId → NodeId → Declare Unit
  | 0, path, id => unlessKnown structs path id fun _ _ => return ()
  | depth + 1, path, id =>
      unlessKnown structs path id (struct (demand structs depth (id :: path)))

end Declare

namespace Program

def structs (p : Program) : List (Item × StructDecl) :=
  p.items.filterMap fun item =>
    match item.kind with
    | .struct decl => some (item, decl)
    | _ => none

/-- The struct with that identity; of several, the last. -/
def struct? (p : Program) (id : NodeId) : Option (Item × StructDecl) :=
  p.structs.reverse.find? fun s => s.1.id == id

def demand (p : Program) (id : NodeId) : Declare Unit :=
  Declare.demand p.struct? p.structs.length [] id

/-- Record the type of one item. -/
def declare (p : Program) (item : Item) : Declare Unit :=
  match item.kind with
  | .struct _ => p.demand item.id
  | .fn decl => Declare.fn p.demand item decl
  | .const decl => Declare.const p.demand item decl

end Program

end TypeInference

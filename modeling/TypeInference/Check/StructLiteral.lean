import TypeInference.Check.Walk
import TypeInference.Check.WrittenType
import TypeInference.Program.Expr

/-!
# Struct literals

A literal has one slot for each declared field. Written fields are placed by
name. If there is a base, every other slot is filled with an access to the same
field of the base. The slots, read in order, are the literal's fields in
declaration order.
-/

namespace TypeInference

/-- What is known about a literal while its written fields are checked. -/
structure Slots where
  /-- The names of the fields that were accepted. -/
  taken : List String
  /-- For each declared field, the node that initializes it. -/
  nodes : List (Option FieldInit)
  /-- Whether a field was duplicated, unknown, or of another type. -/
  isFaulty : Bool

namespace Slots

def empty (size : Nat) : Slots := ⟨[], List.replicate size none, false⟩

def fill (s : Slots) (index : Nat) (node : FieldInit) : Slots :=
  { s with nodes := s.nodes.set index (some node) }

/-- Accept a written field. -/
def accept (s : Slots) (f : Field Ty) (node : FieldInit) : Slots :=
  { s.fill f.index node with taken := node.fieldName :: s.taken }

def fault (s : Slots) : Slots := { s with isFaulty := true }

/-- The declared fields that were not accepted, in declaration order. -/
def untaken (s : Slots) (a : Adt Ty) : List (Field Ty) :=
  a.fields.filter fun f => !s.taken.contains f.name

/-- Read slots in order, the first one being slot `index`. An empty slot is given by its number. -/
def readFrom : Nat → List (Option FieldInit) → Except Nat (List FieldInit)
  | _, [] => .ok []
  | index, none :: _ => .error index
  | index, some node :: rest => (readFrom (index + 1) rest).map (node :: ·)

/-- All nodes in declaration order, or the first slot that is empty. -/
def inOrder (s : Slots) : Except Nat (List FieldInit) := readFrom 0 s.nodes

theorem readFrom_eq_ok_iff {index : Nat} {nodes : List (Option FieldInit)}
    {fields : List FieldInit} :
    readFrom index nodes = .ok fields ↔ nodes = fields.map some := by
  induction nodes generalizing index fields with
  | nil => cases fields <;> simp [readFrom]
  | cons node rest ih =>
      cases node with
      | none => cases fields <;> simp [readFrom]
      | some node =>
          have hrest (ns : List FieldInit) := @ih (index + 1) ns
          cases h : readFrom (index + 1) rest with
          | error i =>
              have hne (ns : List FieldInit) : rest ≠ ns.map some := by
                intro he
                rw [(hrest ns).2 he] at h
                cases h
              cases fields <;> simp [readFrom, h, Except.map, hne]
          | ok ns =>
              obtain rfl := (hrest ns).1 h
              cases fields <;> simp [readFrom, h, Except.map, List.map_inj_right]

theorem inOrder_eq_ok_iff {s : Slots} {fields : List FieldInit} :
    s.inOrder = .ok fields ↔ s.nodes = fields.map some :=
  readFrom_eq_ok_iff

end Slots

namespace Check

/-- The struct that a literal's path names, instantiated if it is generic. -/
def structOf (path : Path) (span : Span) : Check (Adt Ty) :=
  match path.res with
  | none => giveUp (.unresolvedPath path.text) span
  | some res => do
      match ← lookup res with
      | some (.adt a) => if a.isUninstantiated then a.instanceIn path.args span else return a
      | some ty => giveUp (.notAStruct path.text ty) span
      | none => giveUp (.untypedDeclaration path.text) span

/-- The type of a literal with a base: both have to be the same struct. -/
def unifyBase (a : Adt Ty) (baseTy : Ty) (span : Span) : Check Ty := do
  match ← unify (.adt a) baseTy with
  | .ok ty => return ty
  | .error _ => giveUpAll (.incompatibleBase (.adt a) (← resolve baseTy)) span

/--
The declared field that a written one is for. A field that was accepted before
or is not declared is reported, and its value is left alone.
-/
def declaredField (a : Adt Ty) (slots : Slots) (node : FieldInit) : Check (Option (Field Ty)) :=
  if slots.taken.contains node.fieldName then do
    report (.duplicateField node.fieldName) node.mark.span
    return none
  else
    match a.field? node.fieldName with
    | none => do
        report (.unknownField a.name node.fieldName) node.mark.span
        return none
    | some f =>
        if f.index < slots.nodes.length then return some f
        else throw (.defect (.fieldIndexOutOfRange a.name f.index))

/-- Accept a written field whose value has been checked, if its type fits the declaration. -/
def acceptField (f : Field Ty) (slots : Slots) (node : FieldInit) (valueTy : Ty) :
    Check Slots := do
  match ← unify f.ty valueTy with
  | .ok ty =>
      record node.mark.id ty
      return slots.accept f node
  | .error e =>
      report (.ofUnify e) node.mark.span
      return slots.fault

/-- A node that initializes a declared field from the same field of `base`. -/
def fieldFromBase (a : Adt Ty) (base : Expr) (f : Field Ty) : Check FieldInit := do
  let access : Mark := ⟨← allocate base.span, base.span⟩
  let field : Mark := ⟨← allocate base.span, base.span⟩
  let ty ← resolve f.ty
  record access.id ty
  record field.id ty
  match a.kind with
  | .named => return .named field f.name (.field access base f.name)
  | .tuple => return .index field f.index (.tupleIndex access base f.index)

def fillFromBase (a : Adt Ty) (base : Expr) : List (Field Ty) → Slots → Check Slots
  | [], slots => return slots
  | f :: fs, slots => do
      let node ← fieldFromBase a base f
      fillFromBase a base fs (slots.fill f.index node)

end Check

namespace Walk

/-- End a literal whose slots are final: its fields are the slots, in order. -/
def orderLiteral (a : Adt Ty) (literalTy : Ty) (slots : Slots) : Walk (List FieldInit) Ty :=
  match slots.inOrder with
  | .ok fields => leaf fields (Check.resolve literalTy)
  | .error index => leaf [] (throw (.defect (.unfilledFieldSlot a.name index)))

/--
End a literal whose written fields have been checked. With a faulty field, or
with a field missing and no base, the literal keeps its written fields and has
the error type.
-/
def completeLiteral (a : Adt Ty) (literalTy : Ty) (span : Span) (base : Option Expr)
    (written : List FieldInit) (slots : Slots) : Walk (List FieldInit) Ty :=
  if slots.isFaulty then leaf written (return .error)
  else if slots.taken.length = a.size then orderLiteral a literalTy slots
  else
    match base with
    | none =>
        leaf written
          (Check.reportTyped (.missingFields a.name ((slots.untaken a).map Field.name)) span)
    | some b =>
        first written (Check.fillFromBase a b (slots.untaken a) slots) (orderLiteral a literalTy)

end Walk

end TypeInference

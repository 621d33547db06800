import TypeInference.Context.NodeTypes
import TypeInference.Context.Solve
import TypeInference.Diagnostic.Defect
import TypeInference.Ty.Instance

/-!
# The context of a check

The types recorded for nodes, the registry of builtin types, and the bindings
of inference variables. Reading a node's type resolves it.
-/

namespace TypeInference

structure Context where
  types : NodeTypes
  builtins : List Prim
  bindings : Bindings

namespace Context

/-- A context that knows no builtin type. -/
def bare : Context := ⟨.empty, [], .empty⟩

/-- The context from which a check starts: every primitive is registered, nothing is recorded. -/
def initial : Context := { bare with builtins := Prim.all }

/-! ## Inference variables -/

def newVar (c : Context) (kind : VarKind) : Ty × Context :=
  let (ty, bindings) := c.bindings.newVar kind
  (ty, { c with bindings })

def resolve (c : Context) (t : Ty) : Ty := c.bindings.resolve t

def unify (c : Context) (a b : Ty) : Except UnifyError Ty × Context :=
  let (result, bindings) := (Solve.unify a b).run.run c.bindings
  (result, { c with bindings })

/-- The most general instance: one fresh variable for each parameter. -/
def freshInstance (c : Context) (a : Adt Ty) : Adt Ty × Context :=
  if !a.isGeneric then (a, c)
  else
    let (args, bindings) := c.bindings.newVars a.params.length
    (a.instantiate args, { c with bindings })

/-! ## Node types -/

def insert (c : Context) (id : NodeId) (ty : Ty) : Context :=
  { c with types := c.types.insert id ty }

def lookup (c : Context) (id : NodeId) : Option Ty := (c.types.find? id).map c.resolve

def contains (c : Context) (id : NodeId) : Bool := c.types.contains id

def size (c : Context) : Nat := c.types.size

def isEmpty (c : Context) : Bool := c.types.isEmpty

/-- Every entry with its resolved type, in ascending order. -/
def entries (c : Context) : List (NodeId × Ty) :=
  c.types.rows.map (fun row => (row.1, c.resolve row.2))

/-- Visit the entries with their resolved types and record what the visitor makes of them. -/
def sweep {σ : Type} (visit : σ → NodeId → Ty → Visit σ) (s : σ) (c : Context) : σ × Context :=
  let (final, types) := c.types.sweep (fun s id ty => visit s id (c.resolve ty)) s
  (final, { c with types })

/-! ## Builtin types -/

def builtin? (c : Context) (name : String) : Option Ty :=
  (c.builtins.find? (fun p => p.name == name)).map .prim

/-- A builtin type that the checker itself depends on. -/
def builtin (c : Context) (name : String) : Except Defect Ty :=
  match c.builtin? name with
  | some ty => .ok ty
  | none => .error (.missingBuiltin name)

theorem initial_builtin? (p : Prim) : initial.builtin? p.name = some (.prim p) := by
  cases p <;> rfl

/-! ## What an insertion changes -/

@[simp] theorem resolve_insert (c : Context) (id : NodeId) (ty t : Ty) :
    (c.insert id ty).resolve t = c.resolve t := rfl

@[simp] theorem lookup_insert (c : Context) (id : NodeId) (ty : Ty) (i : NodeId) :
    (c.insert id ty).lookup i = if i = id then some (c.resolve ty) else c.lookup i := by
  by_cases h : i = id <;> simp [lookup, insert, h] <;> rfl

@[simp] theorem contains_insert (c : Context) (id : NodeId) (ty : Ty) (i : NodeId) :
    (c.insert id ty).contains i = (i == id || c.contains i) := by
  simp [contains, insert]

theorem contains_eq_isSome_lookup (c : Context) (id : NodeId) :
    c.contains id = (c.lookup id).isSome := by
  simp [contains, lookup, NodeTypes.contains]

end Context

end TypeInference

import TypeInference.Context.Basic
import TypeInference.Diagnostic.Sink
import TypeInference.Source.Locations

/-!
# Check sessions

A session is everything a check reads and changes: the context, the locations
of nodes, and the sink. A computation over it gives a result or aborts, and
whatever it recorded or reported before stays in either case.
-/

namespace TypeInference

structure Session where
  context : Context
  locations : Locations
  sink : Sink

/-- The session in which a program with these locations is checked. -/
def Session.start (locations : Locations) (sink : Sink) : Session := ⟨.initial, locations, sink⟩

abbrev Check (α : Type) := ExceptT Abort (StateM Session) α

namespace Check

variable {α β : Type}

/-- The outcome and the session afterwards. -/
def perform (x : Check α) (s : Session) : Except Abort α × Session := x.run.run s

@[simp] theorem perform_pure (a : α) (s : Session) : perform (pure a) s = (.ok a, s) := rfl

@[simp] theorem perform_throw (e : Abort) (s : Session) :
    perform (throw e : Check α) s = (.error e, s) := rfl

theorem perform_bind (x : Check α) (f : α → Check β) (s : Session) :
    perform (x >>= f) s =
      match perform x s with
      | (.ok a, s) => perform (f a) s
      | (.error e, s) => (.error e, s) := by
  simp only [perform, ExceptT.run_bind, StateT.run_bind]
  rcases x.run.run s with ⟨a | e, s⟩ <;> rfl

/-! ## Reporting -/

def report (cause : Cause) (span : Span) : Check Unit :=
  modify fun s => { s with sink := s.sink.report ⟨cause, span⟩ }

/-- Report an error after which the current item has no sound type. -/
def giveUp (cause : Cause) (span : Span) : Check α := do
  report cause span
  throw .item

/-- Report an error after which nothing else is worth checking. -/
def giveUpAll (cause : Cause) (span : Span) : Check α := do
  let s ← get
  let (abort, sink) := s.sink.fatal ⟨cause, span⟩
  set { s with sink }
  throw abort

/-- Report an error after which the node has the error type. -/
def reportTyped (cause : Cause) (span : Span) : Check Ty := do
  report cause span
  return .error

def orDefect : Except Defect α → Check α
  | .ok a => pure a
  | .error d => throw (.defect d)

/-! ## The context -/

def lookup (id : NodeId) : Check (Option Ty) := return (← get).context.lookup id

def record (id : NodeId) (ty : Ty) : Check Unit :=
  modify fun s => { s with context := s.context.insert id ty }

/-- Record the type of a node and give it back. -/
def recorded (id : NodeId) (ty : Ty) : Check Ty := do
  record id ty
  return ty

def resolve (ty : Ty) : Check Ty := return (← get).context.resolve ty

def newVar (kind : VarKind) : Check Ty := do
  let s ← get
  let (ty, context) := s.context.newVar kind
  set { s with context }
  return ty

def freshInstance (a : Adt Ty) : Check (Adt Ty) := do
  let s ← get
  let (b, context) := s.context.freshInstance a
  set { s with context }
  return b

def unify (a b : Ty) : Check (Except UnifyError Ty) := do
  let s ← get
  let (result, context) := s.context.unify a b
  set { s with context }
  return result

/-- Unify an expected type with the one that was found. A failure is reported and gives an error. -/
def unifyAt (span : Span) (expected found : Ty) : Check Ty := do
  match ← unify expected found with
  | .ok ty => return ty
  | .error e => reportTyped (.ofUnify e) span

def builtin? (name : String) : Check (Option Ty) := return (← get).context.builtin? name

def builtin (name : String) : Check Ty := do orDefect ((← get).context.builtin name)

/-! ## Locations -/

def allocate (span : Span) : Check NodeId := do
  let s ← get
  let (id, locations) := s.locations.alloc span
  set { s with locations }
  return id

/-! ## What each step does to the session -/

@[simp] theorem perform_report (cause : Cause) (span : Span) (s : Session) :
    perform (report cause span) s = (.ok (), { s with sink := s.sink.report ⟨cause, span⟩ }) := rfl

@[simp] theorem perform_reportTyped (cause : Cause) (span : Span) (s : Session) :
    perform (reportTyped cause span) s =
      (.ok .error, { s with sink := s.sink.report ⟨cause, span⟩ }) := rfl

@[simp] theorem perform_giveUp (cause : Cause) (span : Span) (s : Session) :
    perform (giveUp cause span : Check α) s =
      (.error .item, { s with sink := s.sink.report ⟨cause, span⟩ }) := rfl

@[simp] theorem perform_giveUpAll (cause : Cause) (span : Span) (s : Session) :
    perform (giveUpAll cause span : Check α) s =
      (.error (s.sink.fatal ⟨cause, span⟩).1, { s with sink := (s.sink.fatal ⟨cause, span⟩).2 }) :=
  rfl

@[simp] theorem perform_lookup (id : NodeId) (s : Session) :
    perform (lookup id) s = (.ok (s.context.lookup id), s) := rfl

@[simp] theorem perform_record (id : NodeId) (ty : Ty) (s : Session) :
    perform (record id ty) s = (.ok (), { s with context := s.context.insert id ty }) := rfl

@[simp] theorem perform_recorded (id : NodeId) (ty : Ty) (s : Session) :
    perform (recorded id ty) s = (.ok ty, { s with context := s.context.insert id ty }) := rfl

@[simp] theorem perform_resolve (ty : Ty) (s : Session) :
    perform (resolve ty) s = (.ok (s.context.resolve ty), s) := rfl

@[simp] theorem perform_newVar (kind : VarKind) (s : Session) :
    perform (newVar kind) s =
      (.ok (s.context.newVar kind).1, { s with context := (s.context.newVar kind).2 }) := rfl

@[simp] theorem perform_unify (a b : Ty) (s : Session) :
    perform (unify a b) s =
      (.ok (s.context.unify a b).1, { s with context := (s.context.unify a b).2 }) := rfl

@[simp] theorem perform_allocate (span : Span) (s : Session) :
    perform (allocate span) s =
      (.ok s.locations.size, { s with locations := (s.locations.alloc span).2 }) := rfl

end Check

end TypeInference

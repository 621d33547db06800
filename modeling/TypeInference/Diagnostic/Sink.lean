import TypeInference.Diagnostic.Defect
import TypeInference.Diagnostic.TypeError

/-!
# Collected errors

A sink keeps every reported error in order. What a report does to the check is
the sink's policy. Under the usual one, errors keep later passes from running
and a fatal error ends the whole check.
-/

namespace TypeInference

/-- Why a check stopped without a type. -/
inductive Abort where
  /-- The current item has no sound type. -/
  | item
  /-- No item is checked any further. -/
  | program
  | defect (d : Defect)
  deriving DecidableEq, Repr

structure Policy where
  errorsBlock : Bool
  fatalEndsProgram : Bool
  deriving DecidableEq, Repr

def Policy.strict : Policy := ⟨true, true⟩

structure Sink where
  policy : Policy
  errors : List TypeError
  hasFatal : Bool
  deriving Repr

namespace Sink

def empty (policy : Policy) : Sink := ⟨policy, [], false⟩

/-- A sink with the usual policy that has seen nothing. -/
def fresh : Sink := empty .strict

def report (s : Sink) (e : TypeError) : Sink := { s with errors := s.errors ++ [e] }

/-- Record a fatal error. The abort has to be passed on. -/
def fatal (s : Sink) (e : TypeError) : Abort × Sink :=
  (if s.policy.fatalEndsProgram then .program else .item, { s.report e with hasFatal := true })

/-- Whether later passes may not run. -/
def isBlocking (s : Sink) : Bool := s.policy.errorsBlock && !s.errors.isEmpty

@[simp] theorem errors_report (s : Sink) (e : TypeError) : (s.report e).errors = s.errors ++ [e] :=
  rfl

@[simp] theorem errors_fatal (s : Sink) (e : TypeError) :
    (s.fatal e).2.errors = s.errors ++ [e] := rfl

theorem isBlocking_of_strict {s : Sink} (h : s.policy = .strict) :
    s.isBlocking = false ↔ s.errors = [] := by
  simp [isBlocking, h, Policy.strict]

end Sink

end TypeInference

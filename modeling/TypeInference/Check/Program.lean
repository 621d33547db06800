import TypeInference.Check.Declaration
import TypeInference.Check.Defaults
import TypeInference.Check.Item

/-!
# Checking a program

Three passes: signatures, bodies, fallback. A pass runs only if those before it
reported nothing. A program that gets through all three may be lowered.
-/

namespace TypeInference

inductive Pass where
  | signatures | bodies | fallback
  deriving DecidableEq, Repr

def Pass.name : Pass → String
  | signatures => "signatures"
  | bodies => "bodies"
  | fallback => "fallback"

inductive Outcome where
  | lowerable
  /-- The pass reported errors, and no later pass ran. -/
  | rejected (pass : Pass)
  deriving DecidableEq, Repr

/-- A pass over a program: the program as it was rewritten, whether a defect stopped the pass, and
the session afterwards. -/
structure Passed where
  program : Program
  ended : Except Defect Unit
  session : Session

/-- A check that has ended. -/
structure Checked where
  program : Program
  outcome : Except Defect Outcome
  session : Session

namespace Program

/-! ## Passes -/

/-- Declare items in order. An item that fails does not keep the others from being declared. -/
def declareAll (p : Program) : List Item → Declaring → Except Defect Unit × Declaring
  | [], d => (.ok (), d)
  | item :: rest, d =>
      match (p.declare item).perform d with
      | (.error (.defect e), d) => (.error e, d)
      | (.error .program, d) => (.ok (), d)
      | (_, d) => declareAll p rest d

def signaturePass (p : Program) (s : Session) : Passed :=
  let (ended, d) := p.declareAll p.items (.start s)
  ⟨p, ended, d.session⟩

/-- Check items in order, each in the session that the ones before it left. -/
def checkAll : List Item → Session → List Item × Except Defect Unit × Session
  | [], s => ([], .ok (), s)
  | item :: rest, s =>
      match item.check s with
      | ⟨item, .error (.defect d), s⟩ => (item :: rest, .error d, s)
      | ⟨item, .error .program, s⟩ => (item :: rest, .ok (), s)
      | ⟨item, _, s⟩ =>
          let (rest, ended, s) := checkAll rest s
          (item :: rest, ended, s)

def bodyPass (p : Program) (s : Session) : Passed :=
  let (items, ended, s) := checkAll p.items s
  ⟨⟨items⟩, ended, s⟩

def fallbackPass (p : Program) (s : Session) : Passed :=
  match Check.applyDefaults.perform s with
  | (.error (.defect d), s) => ⟨p, .error d, s⟩
  | (_, s) => ⟨p, .ok (), s⟩

def run (p : Program) : Pass → Session → Passed
  | .signatures => p.signaturePass
  | .bodies => p.bodyPass
  | .fallback => p.fallbackPass

/-- Run passes one after the other until a defect or a reported error ends the check. -/
def runAll : List Pass → Program → Session → Checked
  | [], p, s => ⟨p, .ok .lowerable, s⟩
  | pass :: rest, p, s =>
      match p.run pass s with
      | ⟨p, .error d, s⟩ => ⟨p, .error d, s⟩
      | ⟨p, .ok _, s⟩ =>
          if s.sink.isBlocking then ⟨p, .ok (.rejected pass), s⟩ else runAll rest p s

/-- Check a program, starting from a session of the caller's choice. -/
def checkFrom (p : Program) (s : Session) : Checked :=
  runAll [.signatures, .bodies, .fallback] p s

/-- Check a program whose nodes are located by `locations`. -/
def check (p : Program) (locations : Locations) (sink : Sink) : Checked :=
  p.checkFrom (.start locations sink)

end Program

namespace Checked

def isLowerable (c : Checked) : Bool :=
  match c.outcome with
  | .ok .lowerable => true
  | _ => false

/-- The resolved type of a node after the check. -/
def typeOf (c : Checked) (id : NodeId) : Option Ty := c.session.context.lookup id

end Checked

end TypeInference

import TypeInference.Check.Session

/-!
# Walks

A walk checks a node and rewrites it. The node comes back in every case: when
a check aborts, with whatever was rewritten before.
-/

namespace TypeInference

structure Walked (ν α : Type) where
  node : ν
  outcome : Except Abort α
  session : Session

abbrev Walk (ν α : Type) := Session → Walked ν α

namespace Walk

variable {ν μ α β : Type}

/-- A walk that ends with a computation and leaves the node as it is. -/
def leaf (node : ν) (x : Check α) : Walk ν α := fun s =>
  let (outcome, s) := x.perform s
  ⟨node, outcome, s⟩

/-- Run a computation and go on with its result; if it aborts, the walk ends at `node`. -/
def first (node : ν) (x : Check α) (next : α → Walk ν β) : Walk ν β := fun s =>
  match x.perform s with
  | (.ok a, s) => next a s
  | (.error e, s) => ⟨node, .error e, s⟩

/-- Walk a child and go on with it; if it aborts, the walk ends at the node rebuilt around it. -/
def child (w : Walk μ α) (rebuild : μ → ν) (next : μ → α → Walk ν β) : Walk ν β := fun s =>
  match w s with
  | ⟨node, .ok a, s⟩ => next node a s
  | ⟨node, .error e, s⟩ => ⟨rebuild node, .error e, s⟩

@[simp] theorem leaf_node (node : ν) (x : Check α) (s : Session) : (leaf node x s).node = node :=
  rfl

theorem leaf_outcome (node : ν) (x : Check α) (s : Session) :
    (leaf node x s).outcome = (x.perform s).1 := rfl

theorem leaf_session (node : ν) (x : Check α) (s : Session) :
    (leaf node x s).session = (x.perform s).2 := rfl

theorem first_of_ok {x : Check α} {s s' : Session} {a : α} (h : x.perform s = (.ok a, s'))
    (node : ν) (next : α → Walk ν β) : first node x next s = next a s' := by
  simp [first, h]

theorem first_of_error {x : Check α} {s s' : Session} {e : Abort}
    (h : x.perform s = (.error e, s')) (node : ν) (next : α → Walk ν β) :
    first node x next s = ⟨node, .error e, s'⟩ := by
  simp [first, h]

theorem child_of_ok {w : Walk μ α} {s : Session} {a : α} (h : (w s).outcome = .ok a)
    (rebuild : μ → ν) (next : μ → α → Walk ν β) :
    child w rebuild next s = next (w s).node a (w s).session := by
  unfold child
  cases hw : w s
  simp_all

theorem child_of_error {w : Walk μ α} {s : Session} {e : Abort} (h : (w s).outcome = .error e)
    (rebuild : μ → ν) (next : μ → α → Walk ν β) :
    child w rebuild next s = ⟨rebuild (w s).node, .error e, (w s).session⟩ := by
  unfold child
  cases hw : w s
  simp_all

end Walk

end TypeInference

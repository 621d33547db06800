/-!
# Source spans

A half-open range of byte offsets, and the mark that every node of a program
carries: its identity together with its place in the source.
-/

namespace TypeInference

abbrev NodeId := Nat

structure Span where
  start : Nat
  stop : Nat
  deriving DecidableEq, Repr, Inhabited

/-- The empty range at the beginning of the source. -/
def Span.origin : Span := ⟨0, 0⟩

structure Mark where
  id : NodeId
  span : Span
  deriving DecidableEq, Repr, Inhabited

end TypeInference

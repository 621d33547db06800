import TypeInference.Source.Span

/-!
# Locations of nodes

Identities are handed out in order, and each keeps the span it was handed out
for. A location is never changed afterwards.
-/

namespace TypeInference

structure Locations where
  spans : Array Span
  deriving Repr, Inhabited

namespace Locations

def empty : Locations := ⟨#[]⟩

def size (l : Locations) : Nat := l.spans.size

def isEmpty (l : Locations) : Bool := l.spans.isEmpty

/-- Hand out the next identity for a node at `span`. -/
def alloc (l : Locations) (span : Span) : NodeId × Locations :=
  (l.size, ⟨l.spans.push span⟩)

def find? (l : Locations) (id : NodeId) : Option Span := l.spans[id]?

@[simp] theorem size_empty : empty.size = 0 := rfl

@[simp] theorem alloc_fst (l : Locations) (span : Span) : (l.alloc span).1 = l.size := rfl

@[simp] theorem size_alloc (l : Locations) (span : Span) :
    (l.alloc span).2.size = l.size + 1 := by
  simp [alloc, size]

theorem find?_alloc_self (l : Locations) (span : Span) :
    (l.alloc span).2.find? l.size = some span := by
  simp [alloc, find?, size]

theorem find?_alloc_of_lt {l : Locations} {id : NodeId} (span : Span) (h : id < l.size) :
    (l.alloc span).2.find? id = l.find? id := by
  have hne : id ≠ l.spans.size := Nat.ne_of_lt h
  simp [alloc, find?, Array.getElem?_push, hne]

theorem find?_eq_none_iff {l : Locations} {id : NodeId} :
    l.find? id = none ↔ l.size ≤ id := by
  simp [find?, size]

end Locations

end TypeInference

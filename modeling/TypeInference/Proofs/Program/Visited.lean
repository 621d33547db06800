import TypeInference.Program.TypeRef

/-!
# Written types that are read

Reading a written type reads the arguments of the structs in it. What is written
as an argument of a builtin type or of a parameter is never looked at.
-/

namespace TypeInference.TypeRef

mutual

/-- The written types that are read when this one is, itself included. -/
def visited : TypeRef → List TypeRef
  | .path m name (some (.adt id)) args =>
      .path m name (some (.adt id)) args :: visitedAll args
  | t => [t]

def visitedAll : List TypeRef → List TypeRef
  | [] => []
  | t :: ts => t.visited ++ visitedAll ts

end

theorem visitedAll_eq (ts : List TypeRef) : visitedAll ts = ts.flatMap visited := by
  induction ts with
  | nil => rfl
  | cons t ts ih => simp [visitedAll, ih]

theorem visited_adt (m : Mark) (name : String) (id : NodeId) (args : List TypeRef) :
    visited (.path m name (some (.adt id)) args) =
      .path m name (some (.adt id)) args :: args.flatMap visited := by
  rw [visited, visitedAll_eq]

theorem self_mem_visited (t : TypeRef) : t ∈ t.visited := by
  unfold visited
  split <;> simp

/-- What is read for an argument of a struct is read for the type itself. -/
theorem visited_arg_subset {m : Mark} {name : String} {id : NodeId} {args : List TypeRef}
    {t : TypeRef} (ht : t ∈ args) : t.visited ⊆ visited (.path m name (some (.adt id)) args) := by
  intro u hu
  rw [visited_adt]
  exact List.mem_cons_of_mem _ (List.mem_flatMap.2 ⟨t, ht, hu⟩)

def isHole : TypeRef → Bool
  | .infer _ => true
  | _ => false

end TypeInference.TypeRef

import TypeInference.Ty.Basic

/-!
# Types of nodes

A table from node identities to types, in ascending order of identity. A later
entry for a node replaces the earlier one.
-/

namespace TypeInference

/-- What a visitor makes of one entry: its own state, the entry's new type, and whether to stop. -/
structure Visit (σ : Type) where
  state : σ
  ty : Ty
  stop : Bool

structure NodeTypes where
  rows : List (NodeId × Ty)
  ascending : rows.Pairwise (fun a b => a.1 < b.1)

namespace NodeTypes

def empty : NodeTypes := ⟨[], .nil⟩

def insertRow (id : NodeId) (ty : Ty) : List (NodeId × Ty) → List (NodeId × Ty)
  | [] => [(id, ty)]
  | (i, t) :: rest =>
      if id < i then (id, ty) :: (i, t) :: rest
      else if id = i then (id, ty) :: rest
      else (i, t) :: insertRow id ty rest

theorem mem_insertRow {id : NodeId} {ty : Ty} {rows : List (NodeId × Ty)} {row : NodeId × Ty}
    (h : row ∈ insertRow id ty rows) : row = (id, ty) ∨ row ∈ rows := by
  induction rows with
  | nil => simpa [insertRow] using h
  | cons next rest ih =>
      unfold insertRow at h
      split at h
      · simpa using h
      · split at h
        · rcases List.mem_cons.1 h with h | h
          · exact .inl h
          · exact .inr (List.mem_cons_of_mem _ h)
        · rcases List.mem_cons.1 h with h | h
          · exact .inr (h ▸ List.mem_cons_self)
          · exact (ih h).imp_right (List.mem_cons_of_mem _)

theorem ascending_insertRow (id : NodeId) (ty : Ty) {rows : List (NodeId × Ty)}
    (h : rows.Pairwise (fun a b => a.1 < b.1)) :
    (insertRow id ty rows).Pairwise (fun a b => a.1 < b.1) := by
  induction rows with
  | nil => exact List.pairwise_singleton _ _
  | cons next rest ih =>
      obtain ⟨i, t⟩ := next
      obtain ⟨hnext, hrest⟩ := List.pairwise_cons.1 h
      unfold insertRow
      split
      · rename_i hlt
        refine List.pairwise_cons.2 ⟨fun row hrow => ?_, h⟩
        rcases List.mem_cons.1 hrow with rfl | hrow
        · exact hlt
        · exact Nat.lt_trans hlt (hnext row hrow)
      · split
        · rename_i heq
          exact List.pairwise_cons.2 ⟨fun row hrow => heq ▸ hnext row hrow, hrest⟩
        · rename_i hlt hne
          refine List.pairwise_cons.2 ⟨fun row hrow => ?_, ih hrest⟩
          rcases mem_insertRow hrow with rfl | hrow
          · exact Nat.lt_of_le_of_ne (Nat.le_of_not_lt hlt) (Ne.symm hne)
          · exact hnext row hrow

def insert (m : NodeTypes) (id : NodeId) (ty : Ty) : NodeTypes :=
  ⟨insertRow id ty m.rows, ascending_insertRow id ty m.ascending⟩

def find? (m : NodeTypes) (id : NodeId) : Option Ty := m.rows.lookup id

def contains (m : NodeTypes) (id : NodeId) : Bool := (m.find? id).isSome

def size (m : NodeTypes) : Nat := m.rows.length

def isEmpty (m : NodeTypes) : Bool := m.rows.isEmpty

theorem lookup_cons (i j : NodeId) (t : Ty) (rest : List (NodeId × Ty)) :
    ((j, t) :: rest).lookup i = if i = j then some t else rest.lookup i := by
  by_cases h : i = j
  · simp [h]
  · have hb : (i == j) = false := by simp [h]
    simp [List.lookup_cons, hb, h]

theorem lookup_insertRow (id : NodeId) (ty : Ty) (rows : List (NodeId × Ty)) (i : NodeId) :
    (insertRow id ty rows).lookup i = if i = id then some ty else rows.lookup i := by
  induction rows with
  | nil => simp [insertRow, lookup_cons]
  | cons next rest ih =>
      obtain ⟨j, t⟩ := next
      unfold insertRow
      split
      · simp [lookup_cons]
      · split
        · rename_i h
          subst h
          by_cases hi : i = id <;> simp [lookup_cons, hi]
        · rename_i hne
          by_cases hi : i = j
          · have hij : i ≠ id := fun h => hne (h ▸ hi)
            simp [hi, Ne.symm hne]
          · simp [lookup_cons, hi, ih]

@[simp] theorem find?_insert (m : NodeTypes) (id : NodeId) (ty : Ty) (i : NodeId) :
    (m.insert id ty).find? i = if i = id then some ty else m.find? i :=
  lookup_insertRow id ty m.rows i

@[simp] theorem contains_insert (m : NodeTypes) (id : NodeId) (ty : Ty) (i : NodeId) :
    (m.insert id ty).contains i = (i == id || m.contains i) := by
  by_cases h : i = id <;> simp [contains, h]

/-! ## Visiting entries -/

section

variable {σ : Type} (visit : σ → NodeId → Ty → Visit σ)

def sweepRows : σ → List (NodeId × Ty) → σ × List (NodeId × Ty)
  | s, [] => (s, [])
  | s, (id, ty) :: rest =>
      let seen := visit s id ty
      if seen.stop then (seen.state, (id, seen.ty) :: rest)
      else
        let (final, rows) := sweepRows seen.state rest
        (final, (id, seen.ty) :: rows)

theorem ids_sweepRows (s : σ) (rows : List (NodeId × Ty)) :
    (sweepRows visit s rows).2.map Prod.fst = rows.map Prod.fst := by
  induction rows generalizing s with
  | nil => rfl
  | cons row rest ih =>
      obtain ⟨id, ty⟩ := row
      by_cases h : (visit s id ty).stop
      · simp [sweepRows, h]
      · simp [sweepRows, h, ih]

theorem ascending_of_ids {rows rows' : List (NodeId × Ty)}
    (hids : rows'.map Prod.fst = rows.map Prod.fst)
    (h : rows.Pairwise (fun a b => a.1 < b.1)) :
    rows'.Pairwise (fun a b => a.1 < b.1) := by
  rw [← List.pairwise_map (f := Prod.fst) (R := (· < ·))] at h ⊢
  rwa [hids]

/-- Visit the entries in ascending order, replacing each type, until the visitor stops. -/
def sweep (s : σ) (m : NodeTypes) : σ × NodeTypes :=
  let swept := sweepRows visit s m.rows
  (swept.1, ⟨swept.2, ascending_of_ids (ids_sweepRows visit s m.rows) m.ascending⟩)

end

end NodeTypes

end TypeInference

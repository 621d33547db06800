import TypeInference.Proofs.Check.Steady

/-!
# Fields from a base

Each field that is not written takes two new identities, the access first, and
both get the declared type of the field. The fields take their identities in
the order in which they are declared.
-/

namespace TypeInference

/-- The node that initializes the field from a base, with the first of its two identities. -/
def Field.fromBase (a : Adt Ty) (base : Expr) (id : NodeId) (f : Field Ty) : FieldInit :=
  match a.kind with
  | .named => .named ⟨id + 1, base.span⟩ f.name (.field ⟨id, base.span⟩ base f.name)
  | .tuple => .index ⟨id + 1, base.span⟩ f.index (.tupleIndex ⟨id, base.span⟩ base f.index)

namespace Session

/-- The session after two nodes at a span were given one type. -/
def synthesize (s : Session) (span : Span) (t : Ty) : Session :=
  { s with
    context := (s.context.insert s.locations.size (s.context.resolve t)).insert
      (s.locations.size + 1) (s.context.resolve t)
    locations := (((s.locations.alloc span).2).alloc span).2 }

def synthesizeAll (span : Span) : List Ty → Session → Session
  | [], s => s
  | t :: ts, s => synthesizeAll span ts (s.synthesize span t)

@[simp] theorem size_synthesize (s : Session) (span : Span) (t : Ty) :
    (s.synthesize span t).locations.size = s.locations.size + 2 := by
  simp [synthesize]

@[simp] theorem resolve_synthesize (s : Session) (span : Span) (t u : Ty) :
    (s.synthesize span t).context.resolve u = s.context.resolve u := rfl

theorem grows_synthesize (ids : List NodeId) (s : Session) (span : Span) (t : Ty) :
    s.Grows ids (s.synthesize span t) := by
  have hfirst : s.Grows ids { s with locations := (s.locations.alloc span).2 } :=
    Check.grows_allocate s span
  have hboth := hfirst.trans (Check.grows_allocate { s with locations := (s.locations.alloc span).2 }
    span)
  refine ⟨hboth.located, List.prefix_rfl, rfl, rfl, fun id hid => ?_, fun id hne => .inr ?_⟩
  · simp [synthesize, hid]
  · rw [size_synthesize]
    by_cases h₀ : id = s.locations.size
    · subst h₀
      exact ⟨Nat.le_refl _, Nat.lt_add_of_pos_right Nat.two_pos⟩
    · by_cases h₁ : id = s.locations.size + 1
      · subst h₁
        exact ⟨Nat.le_succ _, Nat.lt_succ_self _⟩
      · exact (hne (by simp [synthesize, Context.insert, NodeTypes.find?_insert, h₀, h₁])).elim

theorem located_synthesize (s : Session) (span : Span) (t : Ty) :
    (s.synthesize span t).locations.find? s.locations.size = some span ∧
      (s.synthesize span t).locations.find? (s.locations.size + 1) = some span := by
  constructor
  · rw [synthesize, Locations.find?_alloc_of_lt _ (by simp), Locations.find?_alloc_self]
  · have hself := Locations.find?_alloc_self (s.locations.alloc span).2 span
    rwa [Locations.size_alloc] at hself

theorem typed_synthesize (s : Session) (span : Span) (t : Ty) :
    (s.synthesize span t).context.types.find? s.locations.size = some (s.context.resolve t) ∧
      (s.synthesize span t).context.types.find? (s.locations.size + 1) =
        some (s.context.resolve t) := by
  simp [synthesize, Context.insert, NodeTypes.find?_insert]

theorem grows_synthesizeAll (ids : List NodeId) (span : Span) (ts : List Ty) (s : Session) :
    s.Grows ids (synthesizeAll span ts s) := by
  induction ts generalizing s with
  | nil => exact .refl ids s
  | cons t ts ih => exact (grows_synthesize ids s span t).trans (ih _)

@[simp] theorem size_synthesizeAll (span : Span) (ts : List Ty) (s : Session) :
    (synthesizeAll span ts s).locations.size = s.locations.size + 2 * ts.length := by
  induction ts generalizing s with
  | nil => rfl
  | cons t ts ih =>
      rw [synthesizeAll, ih, size_synthesize, List.length_cons]
      omega

@[simp] theorem resolve_synthesizeAll (span : Span) (ts : List Ty) (s : Session) (u : Ty) :
    (synthesizeAll span ts s).context.resolve u = s.context.resolve u := by
  induction ts generalizing s with
  | nil => rfl
  | cons t ts ih => rw [synthesizeAll, ih, resolve_synthesize]

@[simp] theorem sink_synthesizeAll (span : Span) (ts : List Ty) (s : Session) :
    (synthesizeAll span ts s).sink = s.sink := by
  induction ts generalizing s with
  | nil => rfl
  | cons t ts ih =>
      rw [synthesizeAll, ih]
      rfl

/-- The two nodes for the `k`-th type are located at the span and have that type. -/
theorem spec_synthesizeAll (span : Span) {ts : List Ty} {k : Nat} {t : Ty} (h : ts[k]? = some t)
    (s : Session) {id : Nat}
    (hid : id = s.locations.size + 2 * k ∨ id = s.locations.size + 2 * k + 1) :
    (synthesizeAll span ts s).locations.find? id = some span ∧
      (synthesizeAll span ts s).context.types.find? id = some (s.context.resolve t) := by
  induction ts generalizing s k with
  | nil => simp at h
  | cons u ts ih =>
      cases k with
      | zero =>
          obtain rfl : u = t := by simpa using h
          have hgrows := grows_synthesizeAll [] span ts (s.synthesize span u)
          have hlt : id < (s.synthesize span u).locations.size := by
            rw [size_synthesize]
            omega
          rw [synthesizeAll, hgrows.kept id (by simp) hlt]
          obtain ⟨hl₀, hl₁⟩ := located_synthesize s span u
          obtain ⟨ht₀, ht₁⟩ := typed_synthesize s span u
          rcases hid with rfl | rfl
          · exact ⟨hgrows.located _ _ hl₀, ht₀⟩
          · exact ⟨hgrows.located _ _ hl₁, ht₁⟩
      | succ k =>
          have := ih (by simpa using h) (s.synthesize span u) (by rw [size_synthesize]; omega)
          rwa [resolve_synthesize] at this

end Session

namespace Slots

/-- Fill the slots of these fields from a base, with identities from `id` on. -/
def fillFrom (a : Adt Ty) (base : Expr) : NodeId → List (Field Ty) → Slots → Slots
  | _, [], slots => slots
  | id, f :: fs, slots => fillFrom a base (id + 2) fs (slots.fill f.index (f.fromBase a base id))

variable {a : Adt Ty} {base : Expr} {fs : List (Field Ty)} {slots : Slots}

theorem length_fillFrom (id : NodeId) :
    (fillFrom a base id fs slots).nodes.length = slots.nodes.length := by
  induction fs generalizing id slots with
  | nil => rfl
  | cons f fs ih =>
      rw [fillFrom, ih]
      simp [fill]

theorem fillFrom_of_not_mem (id : NodeId) {i : Nat} (h : ∀ f ∈ fs, f.index ≠ i) :
    (fillFrom a base id fs slots).nodes[i]? = slots.nodes[i]? := by
  induction fs generalizing id slots with
  | nil => rfl
  | cons f fs ih =>
      rw [fillFrom, ih _ fun g hg => h g (List.mem_cons_of_mem _ hg)]
      exact List.getElem?_set_ne (h f List.mem_cons_self)

theorem fillFrom_of_getElem? (id : NodeId) (hnodup : (fs.map Field.index).Nodup) {k : Nat}
    {f : Field Ty} (h : fs[k]? = some f) (hlt : f.index < slots.nodes.length) :
    (fillFrom a base id fs slots).nodes[f.index]? = some (some (f.fromBase a base (id + 2 * k))) := by
  induction fs generalizing id slots k with
  | nil => simp at h
  | cons g fs ih =>
      rw [List.map_cons, List.nodup_cons] at hnodup
      cases k with
      | zero =>
          obtain rfl : g = f := by simpa using h
          have hne : ∀ e ∈ fs, e.index ≠ g.index := fun e he heq =>
            hnodup.1 (heq ▸ List.mem_map_of_mem he)
          rw [fillFrom, fillFrom_of_not_mem _ hne]
          simp [fill, hlt]
      | succ k =>
          rw [fillFrom, ih (id + 2) hnodup.2 (by simpa using h) (by simpa [fill] using hlt)]
          rw [Nat.mul_succ, Nat.add_comm (2 * k), ← Nat.add_assoc]

end Slots

namespace Check

theorem perform_fieldFromBase (a : Adt Ty) (base : Expr) (f : Field Ty) (s : Session) :
    perform (fieldFromBase a base f) s =
      (.ok (f.fromBase a base s.locations.size), s.synthesize base.span f.ty) := by
  cases h : a.kind <;> simp only [fieldFromBase, Field.fromBase, h, perform_bind, perform_allocate,
    perform_resolve, perform_record, perform_pure, Locations.size_alloc] <;> rfl

theorem perform_fillFromBase (a : Adt Ty) (base : Expr) (fs : List (Field Ty)) (slots : Slots)
    (s : Session) :
    perform (fillFromBase a base fs slots) s =
      (.ok (slots.fillFrom a base s.locations.size fs), s.synthesizeAll base.span (fs.map Field.ty)) := by
  induction fs generalizing slots s with
  | nil => rfl
  | cons f fs ih =>
      rw [fillFromBase, perform_bind, perform_fieldFromBase]
      simp only
      rw [ih]
      simp [Slots.fillFrom, Session.synthesizeAll]

theorem steady_fillFromBase {ids : List NodeId} (a : Adt Ty) (base : Expr) (fs : List (Field Ty))
    (slots : Slots) : Steady ids (fillFromBase a base fs slots) :=
  steady_of_perform fun s =>
    ⟨_, _, perform_fillFromBase a base fs slots s, Session.grows_synthesizeAll ids _ _ s⟩

end Check

end TypeInference

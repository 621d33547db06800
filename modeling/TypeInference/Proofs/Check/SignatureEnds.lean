import TypeInference.Proofs.Check.SignatureTable

/-!
# The signature pass comes to an end

A demand goes deeper only for a struct that is not on the path, so the depth to
which structs are followed is never used up: what would be done beyond it does
not matter. And a declaration that does not succeed stops its own item only.
-/

namespace TypeInference

variable {α β : Type}

/-! ## Depth -/

namespace Declare

/-- Demands that follow structs to some depth, and do something else where the depth is used up. -/
def demandOr (beyond : NodeId → Declare Unit) (structs : NodeId → Option (Item × StructDecl)) :
    Nat → List NodeId → NodeId → Declare Unit
  | 0, _, id => beyond id
  | depth + 1, path, id =>
      unlessKnown structs path id (struct (demandOr beyond structs depth (id :: path)))

/-- A struct is declared only if it is not on the path. -/
theorem unlessKnown_congr {structs : NodeId → Option (Item × StructDecl)} {path : List NodeId}
    {id : NodeId} {declare declare' : Item → StructDecl → Declare Unit}
    (h : ∀ item decl, structs id = some (item, decl) → id ∉ path →
      declare item decl = declare' item decl) :
    unlessKnown structs path id declare = unlessKnown structs path id declare' := by
  unfold unlessKnown
  refine congrArg (bind get) (funext fun d => ?_)
  split
  · rfl
  · split
    · rfl
    · rename_i item decl hstruct
      split
      · rfl
      · rename_i hpath
        rw [h item decl hstruct (by simpa using hpath)]

end Declare

namespace Program

variable {p : Program}

theorem demandOr_of_underway (beyond : NodeId → Declare Unit) {depth depth' : Nat}
    {path : List NodeId} (h : p.Underway depth path) (hlt : depth < depth') (id : NodeId) :
    Declare.demandOr beyond p.struct? depth' path id = Declare.demand p.struct? depth path id := by
  induction depth' generalizing depth path id with
  | zero => exact (Nat.not_lt_zero _ hlt).elim
  | succ depth' ih =>
      rw [Declare.demandOr]
      cases depth with
      | zero =>
          -- Every struct is on the path.
          refine Declare.unlessKnown_congr fun item decl hstruct hpath => ?_
          obtain ⟨_, hdepth, -⟩ := h.cons hpath (by rw [hstruct]; rfl)
          omega
      | succ depth =>
          refine Declare.unlessKnown_congr fun item decl hstruct hpath => ?_
          obtain ⟨_, hdepth, hunderway⟩ := h.cons hpath (by rw [hstruct]; rfl)
          obtain rfl : _ = depth := (Nat.succ.inj hdepth).symm
          exact congrArg (Declare.struct · item decl)
            (funext (ih hunderway (Nat.lt_of_succ_lt_succ hlt)))

/-- No demand uses up a depth that exceeds the number of structs. -/
theorem demandOr_eq_demand (beyond : NodeId → Declare Unit) {depth : Nat}
    (h : p.structs.length < depth) (id : NodeId) :
    Declare.demandOr beyond p.struct? depth [] id = p.demand id :=
  demandOr_of_underway beyond p.underway_nil h id

end Program

/-! ## Aborts -/

namespace Check

/-- Whether the computation stops at most the current item. -/
def StopsItem (x : Check α) : Prop := ∀ s e, (x.perform s).1 = .error e → e = .item

theorem stopsItem_of_ok {x : Check α} (h : ∀ s, ∃ a, (x.perform s).1 = .ok a) : StopsItem x := by
  intro s e he
  obtain ⟨a, ha⟩ := h s
  cases ha.symm.trans he

theorem stopsItem_giveUp (cause : Cause) (span : Span) : StopsItem (giveUp cause span : Check α) :=
  fun _ _ he => (Except.error.inj he).symm

theorem stopsItem_record (id : NodeId) (t : Ty) : StopsItem (record id t) :=
  stopsItem_of_ok fun _ => ⟨_, rfl⟩

theorem stopsItem_recorded (id : NodeId) (t : Ty) : StopsItem (recorded id t) :=
  stopsItem_of_ok fun _ => ⟨_, rfl⟩

theorem stopsItem_lookup (id : NodeId) : StopsItem (lookup id) := stopsItem_of_ok fun _ => ⟨_, rfl⟩

theorem StopsItem.bind {x : Check α} {f : α → Check β} (hx : StopsItem x)
    (hf : ∀ a, StopsItem (f a)) : StopsItem (x >>= f) := by
  intro s e he
  rw [perform_bind] at he
  rcases hrun : x.perform s with ⟨e' | a, s'⟩
  · rw [hrun] at he
    obtain rfl : e' = e := Except.error.inj he
    exact hx s e' (by rw [hrun])
  · rw [hrun] at he
    exact hf a s' e he

theorem stopsItem_withArgs (a : Adt Ty) (tys : List Ty) (span : Span) :
    StopsItem (a.withArgs tys span) := by
  unfold Adt.withArgs
  split
  · exact stopsItem_of_ok fun _ => ⟨_, rfl⟩
  · exact stopsItem_giveUp _ _

theorem stopsItem_readAll {position : Position} {ts : List TypeRef}
    (h : ∀ t ∈ ts, StopsItem (t.read position)) : StopsItem (TypeRef.readAll position ts) := by
  induction ts with
  | nil =>
      rw [TypeRef.readAll]
      exact stopsItem_of_ok fun _ => ⟨_, rfl⟩
  | cons t ts ih =>
      rw [List.forall_mem_cons] at h
      rw [TypeRef.readAll]
      exact h.1.bind fun _ => (ih h.2).bind fun _ => stopsItem_of_ok fun _ => ⟨_, rfl⟩

theorem stopsItem_read (position : Position) (t : TypeRef) : StopsItem (t.read position) := by
  induction t with
  | unit m => exact stopsItem_recorded m.id .unit
  | infer m =>
      exact (stopsItem_of_ok fun _ => ⟨_, rfl⟩ : StopsItem (newVar .general)).bind
        fun t => stopsItem_recorded m.id t
  | unresolved m name args => exact stopsItem_giveUp _ _
  | builtin m name args =>
      refine (stopsItem_of_ok fun _ => ⟨_, rfl⟩ : StopsItem (builtin? name)).bind fun r => ?_
      cases r with
      | none => exact stopsItem_giveUp _ _
      | some t => exact stopsItem_recorded m.id t
  | adt m name id args ih =>
      refine (stopsItem_lookup id).bind fun r => ?_
      split
      · rename_i a
        split
        · exact (stopsItem_of_ok fun _ => ⟨_, rfl⟩ : StopsItem (freshInstance a)).bind
            fun b => stopsItem_recorded m.id _
        · exact (stopsItem_readAll ih).bind fun tys => (stopsItem_withArgs a tys m.span).bind
            fun b => stopsItem_recorded m.id _
      · exact stopsItem_giveUp _ _
      · exact stopsItem_giveUp _ _
  | param m name id args =>
      refine (stopsItem_lookup id).bind fun r => ?_
      cases r with
      | none => exact stopsItem_giveUp _ _
      | some t => exact stopsItem_recorded m.id t

end Check

namespace Declare

/-- Whether the declaration stops at most the current item. -/
def StopsItem (x : Declare α) : Prop := ∀ d e, (x.perform d).1 = .error e → e = .item

theorem stopsItem_pure (a : α) : StopsItem (pure a : Declare α) := fun _ _ he => by cases he

theorem StopsItem.bind {x : Declare α} {f : α → Declare β} (hx : StopsItem x)
    (hf : ∀ a, StopsItem (f a)) : StopsItem (x >>= f) := by
  intro d e he
  rw [perform_bind] at he
  rcases hrun : x.perform d with ⟨e' | a, d'⟩
  · rw [hrun] at he
    obtain rfl : e' = e := Except.error.inj he
    exact hx d e' (by rw [hrun])
  · rw [hrun] at he
    exact hf a d' e he

theorem stopsItem_ofCheck {x : Check α} (h : Check.StopsItem x) : StopsItem (ofCheck x) :=
  fun d e he => h d.session e he

theorem stopsItem_record (id : NodeId) (t : Ty) : StopsItem (ofCheck (Check.record id t)) :=
  stopsItem_ofCheck (Check.stopsItem_record id t)

theorem stopsItem_noting (id : NodeId) {x : Declare Unit} (h : StopsItem x) :
    StopsItem (noting id x) := by
  intro d e he
  rw [perform_noting] at he
  rcases hrun : x.perform d with ⟨e' | u, d'⟩
  · rw [hrun] at he
    obtain rfl : e' = e := Except.error.inj he
    exact h d e' (by rw [hrun])
  · rw [hrun] at he
    cases he

theorem stopsItem_unlessKnown {structs : NodeId → Option (Item × StructDecl)} (path : List NodeId)
    (id : NodeId) {declare : Item → StructDecl → Declare Unit}
    (h : ∀ item decl, StopsItem (declare item decl)) :
    StopsItem (unlessKnown structs path id declare) := by
  intro d e he
  rw [perform_unlessKnown] at he
  split at he
  · exact (Except.error.inj he).symm
  · split at he
    · cases he
    · rename_i item decl _
      split at he
      · exact (Except.error.inj he).symm
      · split at he
        · cases he
        · exact stopsItem_noting id (h item decl) d e he

theorem stopsItem_recordParams (gs : List (GenericParam × Param)) :
    StopsItem (recordParams gs) := by
  induction gs with
  | nil => exact stopsItem_pure ()
  | cons g gs ih => exact (stopsItem_record _ _).bind fun _ => ih

section

variable {demand : NodeId → Declare Unit} (hdemand : ∀ id, StopsItem (demand id))
include hdemand

theorem stopsItem_forM (structs : List NodeId) : StopsItem (structs.forM demand) := by
  induction structs with
  | nil => exact stopsItem_pure ()
  | cons id rest ih => exact (hdemand id).bind fun _ => ih

theorem stopsItem_read (t : TypeRef) : StopsItem (read demand t) :=
  (stopsItem_forM hdemand t.structs).bind fun _ => stopsItem_ofCheck (Check.stopsItem_read .signature t)

theorem stopsItem_readNames (xs : List TypedName) : StopsItem (readNames demand xs) := by
  induction xs with
  | nil => exact stopsItem_pure []
  | cons x xs ih =>
      exact (stopsItem_read hdemand x.ty).bind fun _ => (stopsItem_record _ _).bind fun _ =>
        ih.bind fun _ => stopsItem_pure _

theorem stopsItem_struct (item : Item) (decl : StructDecl) :
    StopsItem (struct demand item decl) :=
  (stopsItem_recordParams _).bind fun _ => (stopsItem_readNames hdemand decl.fields).bind
    fun _ => stopsItem_record _ _

theorem stopsItem_fn (item : Item) (decl : FnDecl) : StopsItem (fn demand item decl) := by
  refine (stopsItem_readNames hdemand decl.params).bind fun _ => ?_
  cases decl.ret with
  | none => exact stopsItem_record _ _
  | some t => exact (stopsItem_read hdemand t).bind fun _ => stopsItem_record _ _

theorem stopsItem_const (item : Item) (decl : ConstDecl) : StopsItem (const demand item decl) :=
  (stopsItem_read hdemand decl.ty).bind fun _ => stopsItem_record _ _

end

theorem stopsItem_demand (structs : NodeId → Option (Item × StructDecl)) (depth : Nat)
    (path : List NodeId) (id : NodeId) : StopsItem (demand structs depth path id) := by
  induction depth generalizing path id with
  | zero => exact stopsItem_unlessKnown path id fun _ _ => stopsItem_pure ()
  | succ depth ih =>
      exact stopsItem_unlessKnown path id fun item decl =>
        stopsItem_struct (ih (id :: path)) item decl

end Declare

namespace Program

theorem stopsItem_declare (p : Program) (item : Item) : Declare.StopsItem (p.declare item) := by
  have hdemand (id : NodeId) : Declare.StopsItem (p.demand id) :=
    Declare.stopsItem_demand p.struct? _ [] id
  unfold declare
  split
  · exact hdemand item.id
  · exact Declare.stopsItem_fn hdemand item _
  · exact Declare.stopsItem_const hdemand item _

/-- The signature pass looks at every item. -/
theorem declareAll_eq_foldl (p : Program) (items : List Item) (d : Declaring) :
    p.declareAll items d =
      (.ok (), items.foldl (fun d item => ((p.declare item).perform d).2) d) := by
  induction items generalizing d with
  | nil => rfl
  | cons item rest ih =>
      rw [declareAll, List.foldl_cons, ← ih]
      rcases hrun : (p.declare item).perform d with ⟨e | u, d'⟩
      · obtain rfl : e = .item := p.stopsItem_declare item d e (by rw [hrun])
        rfl
      · rfl

theorem ended_signaturePass (p : Program) (s : Session) : (p.signaturePass s).ended = .ok () := by
  rw [signaturePass, declareAll_eq_foldl]

end Program

end TypeInference

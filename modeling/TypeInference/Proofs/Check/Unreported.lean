import Mathlib.Order.Bounds.Defs
import TypeInference.Proofs.Check.DisciplinedPasses

/-!
# Errors appear only with a report

As long as nothing has been reported, no type contains an error. So the
fallback never meets one: where it gives up, it is because of a variable, at the
first node whose type has one without a default.
-/

namespace TypeInference

open Ty Check Declare

def Session.IsErrorFree (s : Session) : Prop :=
  ∀ id t, s.context.lookup id = some t → t.Every (· ≠ .error)

/-- Whether a walk that starts where nothing has gone wrong ends with types without errors, or else
with a report. -/
def Walk.KeepsErrorFree {ν α : Type} (w : Walk ν α) : Prop :=
  ∀ s : Session, s.Obeys (· ≠ .error) → (w s).session.Obeys (· ≠ .error)

theorem Ty.isDiscipline_ne_error : IsDiscipline (· ≠ .error) :=
  ⟨isLocal_ne_error, fun h _ => h, by simp⟩

theorem Declare.admits_ne_error (structs : NodeId → Option (Item × StructDecl)) :
    Admits (· ≠ .error) structs := by
  intro id item decl _ tys
  simp [StructDecl.typeWith]

theorem Session.Obeys.isErrorFree {s : Session} (hs : s.Obeys (· ≠ .error))
    (herrors : s.sink.errors = []) : s.IsErrorFree :=
  fun _ _ => hs.lookup isDiscipline_ne_error (.inr herrors)

variable {s : Session}

/-! ## The fallback -/

/-- In a type without errors, only a general variable has no default. -/
theorem Ty.lacksDefault_iff {t l : Ty} (ht : t.Every (· ≠ .error)) (hl : l ∈ t.leaves) :
    l.lacksDefault ↔ ∃ v, l = .infer .general v := by
  have hne : l ≠ .error := ht l (mem_nodes_of_mem_leaves hl)
  cases l with
  | error => exact (hne rfl).elim
  | infer k v => cases k <;> simp [lacksDefault, isError, isGeneralVar]
  | _ => simp [lacksDefault, isError, isGeneralVar]

theorem sweepRows_defaultEntry_of_some (resolve : Ty → Ty) {rows : List (NodeId × Ty)} {id : NodeId}
    {reason : Unresolved}
    (h : (NodeTypes.sweepRows (fun p id ty => defaultEntry .prims p id (resolve ty)) none
      rows).1 = some (id, reason)) :
    ∃ before t after leaf, rows = before ++ (id, t) :: after ∧
      (resolve t).firstUnresolved? = some leaf ∧ leaf.obstacle = reason ∧
      ∀ row ∈ before, (resolve row.2).firstUnresolved? = none := by
  induction rows with
  | nil => cases h
  | cons row rest ih =>
      obtain ⟨i, t⟩ := row
      cases hleaf : (resolve t).firstUnresolved? with
      | some leaf =>
          obtain ⟨rfl, hreason⟩ : i = id ∧ leaf.obstacle = reason := by
            simpa [NodeTypes.sweepRows, defaultEntry_of_some hleaf] using h
          exact ⟨[], t, rest, leaf, rfl, hleaf, hreason, by simp⟩
      | none =>
          obtain ⟨before, u, after, leaf, rfl, hu, hreason, hbefore⟩ := ih (by
            simpa [NodeTypes.sweepRows, defaultEntry_of_none hleaf] using h)
          exact ⟨(i, t) :: before, u, after, leaf, rfl, hu, hreason,
            List.forall_mem_cons.2 ⟨hleaf, hbefore⟩⟩

/-- Where the fallback gives up, it reports one error, for the least node whose type has a general
variable. -/
theorem applyDefaults_of_errorFree (hs : s.context.builtins = Prim.all)
    (hfree : s.IsErrorFree) (hnone : s.sink.errors = [])
    (herrors : (applyDefaults.perform s).2.sink.errors ≠ []) :
    ∃ id, IsLeast {i | ∃ t v, s.context.lookup i = some t ∧ .infer .general v ∈ t.leaves} id ∧
      (applyDefaults.perform s).2.sink.errors =
        [⟨.ambiguousType id, (s.locations.find? id).getD .origin⟩] := by
  rw [perform_applyDefaults hs] at herrors ⊢
  rcases hsweep : s.context.sweep (defaultEntry .prims) none with
    ⟨_ | ⟨id, reason⟩, c⟩
  · rw [hsweep] at herrors
    exact (herrors hnone).elim
  · obtain ⟨before, t, after, leaf, hrows, hleaf, rfl, hbefore⟩ :=
      sweepRows_defaultEntry_of_some s.context.resolve (congrArg Prod.fst hsweep)
    have hascending := s.context.types.ascending
    rw [hrows, List.pairwise_append, List.pairwise_cons] at hascending
    have hrow : (id, t) ∈ s.context.types.rows := by
      rw [hrows]
      simp
    have hlookup : s.context.lookup id = some (s.context.resolve t) := by
      rw [Context.lookup, NodeTypes.find?_of_mem hrow, Option.map_some]
    have hmem : leaf ∈ (s.context.resolve t).leaves := List.mem_of_find?_eq_some hleaf
    obtain ⟨v, rfl⟩ := (lacksDefault_iff (hfree id _ hlookup) hmem).1 (List.find?_some hleaf)
    refine ⟨id, ⟨⟨_, v, hlookup, hmem⟩, ?_⟩, ?_⟩
    · rintro i ⟨u, w, hu, hw⟩
      obtain ⟨u', hu', rfl⟩ := Option.map_eq_some_iff.1 hu
      have hi := NodeTypes.mem_of_find? hu'
      rw [hrows, List.mem_append, List.mem_cons] at hi
      rcases hi with hi | hi | hi
      · have hdefault := List.find?_eq_none.1 (hbefore _ hi) _ hw
        exact (hdefault ((lacksDefault_iff (hfree i _ hu) hw).2 ⟨w, rfl⟩)).elim
      · exact Nat.le_of_eq (congrArg Prod.fst hi).symm
      · exact Nat.le_of_lt (hascending.2.1.1 _ hi)
    · simp [unresolvedCause, obstacle, isError, hnone]

/-- The defaults bring in no error. -/
theorem isErrorFree_applyDefaults (hs : s.Obeys (· ≠ .error))
    (herrors : (applyDefaults.perform s).2.sink.errors = []) (hnone : s.sink.errors = []) :
    (applyDefaults.perform s).2.IsErrorFree := by
  obtain ⟨-, hfind, hconcrete⟩ := applyDefaults_of_errors hs.builtins herrors
  intro id t ht
  rw [Context.lookup_of_concrete hconcrete, hfind] at ht
  obtain ⟨u, hu, rfl⟩ := Option.map_eq_some_iff.1 ht
  have hfree := hs.resolve isDiscipline_ne_error (.inr hnone) (hs.types (.inr hnone) id u hu)
  refine Every.rewrite_vars isLocal_ne_error hfree fun k v _ => every_leaf ?_ ?_
  · cases k <;> simp [defaultFor, Defaults.prims]
  · cases k <;> rfl

/-! ## The check -/

namespace Program

theorem obeys_declareAll (p : Program) (locations : Locations) (items : List Item) :
    (p.declareAll items (.start (.start locations .fresh))).2.session.Obeys (· ≠ .error) :=
  (run_declareAll (H := True) isDiscipline_ne_error (admits_ne_error _) items _).obeys trivial
    (Session.obeys_start isDiscipline_ne_error locations .fresh)

theorem run_checkAll_ne_error (items : List Item) (s : Session) :
    Session.Run (· ≠ .error) True s ((checkAll items s).2.1.mapError .defect) (checkAll items s).2.2
      fun _ => True := by
  refine (run_checkAll isDiscipline_ne_error (items.flatMap Item.bodyIds) items s ?_).imp
    (fun _ hstrict => (hstrict.error rfl).elim) fun _ _ h => h
  exact fun item hitem id hid => List.mem_flatMap.2 ⟨item, hitem, hid⟩

/-- A check ends in the session that one of its passes leaves. Only the last pass runs where nothing
has been reported before it. -/
theorem session_check (p : Program) (locations : Locations) :
    let signed := (p.signaturePass (.start locations .fresh)).session
    let checked := (p.bodyPass signed).session
    let c := p.check locations .fresh
    (c.session = signed ∨ c.session = checked) ∧ c.outcome ≠ .ok (.rejected .fallback) ∨
      checked.sink.errors = [] ∧ c.session = (applyDefaults.perform checked).2 ∧
        (c.outcome = .ok (.rejected .fallback) → c.session.sink.errors ≠ []) := by
  intro signed checked c
  have heq := p.check_eq locations
  have hsigned : signed =
      (p.declareAll p.items (.start (.start locations .fresh))).2.session := rfl
  have hchecked : checked = (checkAll p.items signed).2.2 := rfl
  simp only [← hsigned, ← hchecked] at heq
  rw [show c = _ from heq]
  split
  · exact .inl ⟨.inl rfl, by simp⟩
  · split
    · exact .inl ⟨.inl rfl, by simp⟩
    · split
      · exact .inl ⟨.inr rfl, by simp⟩
      · split
        · exact .inl ⟨.inr rfl, by simp⟩
        · rename_i hnone
          refine .inr ⟨by simpa using hnone, ?_⟩
          split
          · rename_i herrors
            exact ⟨rfl, fun _ => herrors⟩
          · exact ⟨rfl, fun h => by simp at h⟩

theorem obeys_bodyPass (p : Program) (locations : Locations) :
    (p.bodyPass (p.signaturePass (.start locations .fresh)).session).session.Obeys (· ≠ .error) :=
  (run_checkAll_ne_error p.items _).obeys trivial (p.obeys_declareAll locations p.items)

theorem isErrorFree_check (p : Program) (locations : Locations)
    (herrors : (p.check locations .fresh).session.sink.errors = []) :
    (p.check locations .fresh).session.IsErrorFree := by
  rcases p.session_check locations with ⟨hsession | hsession, -⟩ | ⟨hnone, hsession, -⟩
  · rw [hsession] at herrors ⊢
    exact Session.Obeys.isErrorFree (p.obeys_declareAll locations p.items) herrors
  · rw [hsession] at herrors ⊢
    exact (p.obeys_bodyPass locations).isErrorFree herrors
  · rw [hsession] at herrors ⊢
    exact isErrorFree_applyDefaults (p.obeys_bodyPass locations) herrors hnone

/-- Before the fallback, no error says that a type was left undetermined. -/
theorem isUndetermined_signaturePass (p : Program) (locations : Locations) {e : TypeError}
    (he : e ∈ (p.signaturePass (.start locations .fresh)).session.sink.errors) :
    e.cause.isUndetermined = false := by
  have hrun := run_declareAll (H := True) isDiscipline_ne_error (admits_ne_error p.struct?) p.items
    (.start (.start locations .fresh))
  rcases hrun.causes e he with he | he
  · cases he
  · exact he

theorem isUndetermined_bodyPass (p : Program) (locations : Locations) {e : TypeError}
    (he : e ∈ (p.bodyPass (p.signaturePass (.start locations .fresh)).session).session.sink.errors) :
    e.cause.isUndetermined = false := by
  rcases (run_checkAll_ne_error p.items _).causes e he with he | he
  · exact p.isUndetermined_signaturePass locations he
  · exact he

/-- What the errors at the end of a check say about the fallback. -/
theorem errors_check (p : Program) (locations : Locations) :
    let c := p.check locations .fresh
    (∀ e ∈ c.session.sink.errors, ∀ id, e.cause ≠ .resolutionFailure id) ∧
      (c.outcome = .ok (.rejected .fallback) →
        let s := (p.bodyPass (p.signaturePass (.start locations .fresh)).session).session
        ∃ id, IsLeast {i | ∃ t v, s.context.lookup i = some t ∧ .infer .general v ∈ t.leaves} id ∧
          c.session.sink.errors = [⟨.ambiguousType id, (s.locations.find? id).getD .origin⟩]) := by
  intro c
  have hcause {e : TypeError} (h : e.cause.isUndetermined = false) (id : NodeId) :
      e.cause ≠ .resolutionFailure id := by
    intro heq
    rw [heq] at h
    cases h
  rcases p.session_check locations with ⟨hsession | hsession, houtcome⟩ |
    ⟨hnone, hsession, hreported⟩
  · refine ⟨fun e he => ?_, fun h => (houtcome h).elim⟩
    rw [hsession] at he
    exact hcause (p.isUndetermined_signaturePass locations he)
  · refine ⟨fun e he => ?_, fun h => (houtcome h).elim⟩
    rw [hsession] at he
    exact hcause (p.isUndetermined_bodyPass locations he)
  · have hobeys := p.obeys_bodyPass locations
    have hone := applyDefaults_of_errorFree hobeys.builtins (hobeys.isErrorFree hnone) hnone
    rw [← hsession] at hone
    refine ⟨fun e he i => ?_, fun h => hone (hreported h)⟩
    obtain ⟨id, -, herrors⟩ := hone (List.ne_nil_of_mem he)
    rw [herrors, List.mem_singleton] at he
    rw [he]
    simp

/--
As long as nothing has been reported, no type contains an error: after the
declaration of any number of items, after the check of any number of items, at
the end, and, given that it was so before, after the check of any expression,
block or statement. So no error ever says that a type could not be resolved, and
a program that is rejected by the fallback has one error, for the least node
whose type has a general variable.
-/
theorem errorFree_until_reported (p : Program) (locations : Locations) :
    let declared (n : Nat) := (p.declareAll (p.items.take n) (.start (.start locations .fresh))).2
    let signed := (p.signaturePass (.start locations .fresh)).session
    let checked (n : Nat) := (checkAll (p.items.take n) signed).2.2
    let c := p.check locations .fresh
    (∀ n, (declared n).session.sink.errors = [] → (declared n).session.IsErrorFree) ∧
      (∀ n, (checked n).sink.errors = [] → (checked n).IsErrorFree) ∧
      (c.session.sink.errors = [] → c.session.IsErrorFree) ∧
      ((∀ e : Expr, e.check.KeepsErrorFree) ∧ (∀ b : Block, b.check.KeepsErrorFree) ∧
        ∀ stmt : Stmt, stmt.check.KeepsErrorFree) ∧
      (∀ e ∈ c.session.sink.errors, ∀ id, e.cause ≠ .resolutionFailure id) ∧
      (c.outcome = .ok (.rejected .fallback) →
        let s := (p.bodyPass signed).session
        ∃ id, IsLeast {i | ∃ t v, s.context.lookup i = some t ∧ .infer .general v ∈ t.leaves} id ∧
          c.session.sink.errors = [⟨.ambiguousType id, (s.locations.find? id).getD .origin⟩]) := by
  intro declared signed checked c
  have hdeclared (items : List Item) := p.obeys_declareAll locations items
  have hchecked (items : List Item) := (run_checkAll_ne_error items signed).obeys trivial (hdeclared _)
  obtain ⟨hexprs, hblocks, hstmts, -⟩ := Walk.obeys_check isDiscipline_ne_error
  refine ⟨fun n => (hdeclared _).isErrorFree, fun n => (hchecked _).isErrorFree,
    p.isErrorFree_check locations, ⟨fun e s => (hexprs e True s).obeys trivial,
      fun b s => (hblocks b True s).obeys trivial, fun stmt s => (hstmts stmt True s).obeys trivial⟩,
    p.errors_check locations⟩

end Program

end TypeInference

import TypeInference.Proofs.Check.DisciplinedBodies
import TypeInference.Proofs.Check.Traversal

/-!
# What a struct literal reports

A literal finds something out about each of its written fields: whether the field
is accepted, or why not. Only a field that is declared, and has not been accepted
before, has its value checked. What the literal reports is what the values
report and what is found about the fields, field by field, and at the end the
declared fields that are missing, if nothing else is wrong.
-/

namespace TypeInference

open Walk Check

/-! ## Findings -/

inductive Verdict where
  | accepted
  /-- A field of that name has been accepted before. -/
  | duplicate
  /-- No declared field has that name. -/
  | unknown
  /-- The value does not have the declared type. -/
  | mismatched (e : UnifyError)

def Verdict.isAccepted : Verdict → Bool
  | accepted => true
  | _ => false

/-- A written field, what is found about it, and the errors that the check of its value reports. -/
structure Finding where
  node : FieldInit
  verdict : Verdict
  values : List TypeError

namespace Finding

def own (a : Adt Ty) (x : Finding) : List TypeError :=
  match x.verdict with
  | .accepted => []
  | .duplicate => [⟨.duplicateField x.node.fieldName, x.node.mark.span⟩]
  | .unknown => [⟨.unknownField a.name x.node.fieldName, x.node.mark.span⟩]
  | .mismatched e => [⟨.ofUnify e, x.node.mark.span⟩]

def errors (a : Adt Ty) (x : Finding) : List TypeError := x.values ++ x.own a

def accepted (xs : List Finding) : List String :=
  (xs.filter (·.verdict.isAccepted)).map (·.node.fieldName)

end Finding

def Session.report (s : Session) (cause : Cause) (span : Span) : Session :=
  { s with sink := s.sink.report ⟨cause, span⟩ }

/-- How a literal of the struct `a` finds something out about a written field, after what it has
found about the fields before. -/
inductive Finds (a : Adt Ty) (earlier : List Finding) (s : Session) : Finding → Session → Prop where
  | duplicate (node : FieldInit) (h : node.fieldName ∈ Finding.accepted earlier) :
      Finds a earlier s ⟨node, .duplicate, []⟩
        (s.report (.duplicateField node.fieldName) node.mark.span)
  | unknown (node : FieldInit) (new : node.fieldName ∉ Finding.accepted earlier)
      (undeclared : node.fieldName ∉ a.fields.map Field.name) :
      Finds a earlier s ⟨node, .unknown, []⟩
        (s.report (.unknownField a.name node.fieldName) node.mark.span)
  | mismatched (node checked : FieldInit) (f : Field Ty) (ty : Ty) (s' : Session)
      (values : List TypeError) (e : UnifyError) (new : node.fieldName ∉ Finding.accepted earlier)
      (declared : f ∈ a.fields) (name : f.name = node.fieldName)
      (value : node.checkValue s = ⟨checked, .ok ty, s'⟩) (reports : s.Reports s' values)
      (unify : (s'.context.unify f.ty ty).1 = .error e) :
      Finds a earlier s ⟨node, .mismatched e, values⟩
        (Session.report { s' with context := (s'.context.unify f.ty ty).2 } (.ofUnify e)
          node.mark.span)
  | accepted (node checked : FieldInit) (f : Field Ty) (ty u : Ty) (s' : Session)
      (values : List TypeError) (new : node.fieldName ∉ Finding.accepted earlier)
      (declared : f ∈ a.fields) (name : f.name = node.fieldName)
      (value : node.checkValue s = ⟨checked, .ok ty, s'⟩) (reports : s.Reports s' values)
      (unify : (s'.context.unify f.ty ty).1 = .ok u) :
      Finds a earlier s ⟨node, .accepted, values⟩
        { s' with context := (s'.context.unify f.ty ty).2.insert node.mark.id u }

inductive FindsAll (a : Adt Ty) :
    List Finding → Session → List FieldInit → List Finding → Session → Prop where
  | nil (earlier : List Finding) (s : Session) : FindsAll a earlier s [] [] s
  | cons {earlier xs : List Finding} {s s' s'' : Session} {x : Finding} {nodes : List FieldInit}
      (first : Finds a earlier s x s') (rest : FindsAll a (earlier ++ [x]) s' nodes xs s'') :
      FindsAll a earlier s (x.node :: nodes) (x :: xs) s''

variable {a : Adt Ty} {earlier found : List Finding} {slots slots' : Slots} {s s' : Session}
  {x : Finding} {node : FieldInit} {nodes : List FieldInit}

/-- What is reported while a field is checked is what its value reports, and then what is found. -/
theorem Finds.reports (h : Finds a earlier s x s') : s.Reports s' (x.errors a) := by
  cases h with
  | duplicate => simp [Session.Reports, Session.report, Finding.errors, Finding.own]
  | unknown => simp [Session.Reports, Session.report, Finding.errors, Finding.own]
  | mismatched node checked f ty s' values e _ _ _ _ reports =>
      have hreports : s'.sink.errors = s.sink.errors ++ values := reports
      simp [Session.Reports, Session.report, Finding.errors, Finding.own, hreports]
  | accepted node checked f ty u s' values _ _ _ _ reports =>
      have hreports : s'.sink.errors = s.sink.errors ++ values := reports
      simp [Session.Reports, Finding.errors, Finding.own, hreports]

theorem FindsAll.reports (h : FindsAll a earlier s nodes found s') :
    s.Reports s' (found.flatMap (Finding.errors a)) := by
  induction h with
  | nil _ s => exact .refl s
  | cons first _ ih => exact first.reports.trans ih

theorem FindsAll.map_node (h : FindsAll a earlier s nodes found s') :
    found.map Finding.node = nodes := by
  induction h with
  | nil => rfl
  | cons _ _ ih => rw [List.map_cons, ih]

/-- Where every field is accepted, the accepted names are those that are written. -/
theorem Finding.accepted_of_forall (h : ∀ x ∈ found, x.verdict.isAccepted) :
    accepted found = (found.map Finding.node).map FieldInit.fieldName := by
  rw [accepted, List.filter_eq_self.2 h, List.map_map]
  rfl

theorem Finding.accepted_append_singleton (earlier : List Finding) (x : Finding) :
    accepted (earlier ++ [x]) =
      accepted earlier ++ if x.verdict.isAccepted then [x.node.fieldName] else [] := by
  cases h : x.verdict.isAccepted <;> simp [accepted, List.filter_append, h]

/-! ## Slots -/

structure Slots.Sums (a : Adt Ty) (earlier : List Finding) (slots : Slots) : Prop where
  fits : slots.Fits a
  taken_eq : slots.taken = (Finding.accepted earlier).reverse
  isFaulty_eq : slots.isFaulty = earlier.any (!·.verdict.isAccepted)

namespace Slots

theorem sums_empty (a : Adt Ty) : (empty a.size).Sums a [] := ⟨fits_empty a, rfl, rfl⟩

theorem Sums.mem_taken (h : slots.Sums a earlier) {name : String} :
    name ∈ slots.taken ↔ name ∈ Finding.accepted earlier := by
  rw [h.taken_eq, List.mem_reverse]

theorem Sums.fault (h : slots.Sums a earlier) (hx : x.verdict.isAccepted = false) :
    slots.fault.Sums a (earlier ++ [x]) := by
  refine ⟨h.fits.fault, ?_, by simp [Slots.fault, hx]⟩
  rw [Finding.accepted_append_singleton, hx]
  simpa [Slots.fault] using h.taken_eq

theorem Sums.accept (h : slots.Sums a earlier) (ha : a.IsOrderly) {f : Field Ty}
    (hf : f ∈ a.fields) {checked : FieldInit} (hname : f.name = x.node.fieldName)
    (hchecked : checked.fieldName = x.node.fieldName)
    (hnew : x.node.fieldName ∉ Finding.accepted earlier) (hx : x.verdict.isAccepted = true) :
    (slots.accept f checked).Sums a (earlier ++ [x]) := by
  refine ⟨?_, ?_, ?_⟩
  · refine h.fits.accept ha.indexed hf (hname.trans hchecked.symm) ?_
    rwa [hchecked, h.mem_taken]
  · rw [Finding.accepted_append_singleton, hx]
    simp [Slots.accept, hchecked, h.taken_eq]
  · simp [Slots.accept, Slots.fill, h.isFaulty_eq, hx]

end Slots

/-! ## Written fields -/

namespace Check

theorem perform_acceptField {f : Field Ty} {ty : Ty} :
    (acceptField f slots node ty).perform s =
      match (s.context.unify f.ty ty).1 with
      | .ok u => (.ok (slots.accept f node),
          { s with context := (s.context.unify f.ty ty).2.insert node.mark.id u })
      | .error e => (.ok slots.fault,
          Session.report { s with context := (s.context.unify f.ty ty).2 } (.ofUnify e)
            node.mark.span) := by
  rw [acceptField, perform_bind, perform_unify]
  cases h : (s.context.unify f.ty ty).1 with
  | ok u => simp only [perform_bind, perform_record, perform_pure]
  | error e => simp only [perform_bind, perform_report, perform_pure]; rfl

end Check

/-- A walk reports what it adds to the errors. -/
theorem Walk.Steady.exists_reports {ν α : Type} {ids : List NodeId} {w : Walk ν α}
    (hw : Walk.Steady ids w) (s : Session) : ∃ errors, s.Reports (w s).session errors := by
  obtain ⟨errors, h⟩ := (hw.grows s).reported
  exact ⟨errors, h.symm⟩

namespace FieldInit

/-- A written field leads to a finding, unless its value aborts. -/
theorem finds_check (ha : a.IsOrderly) (h : slots.Sums a earlier) (node : FieldInit) (s : Session) :
    (∃ x slots', x.node = node ∧ (node.check a slots s).outcome = .ok slots' ∧
        Finds a earlier s x (node.check a slots s).session ∧ slots'.Sums a (earlier ++ [x])) ∨
      (node.fieldName ∉ Finding.accepted earlier ∧ node.fieldName ∈ a.fields.map Field.name ∧
        ∃ e, (node.checkValue s).outcome = .error e ∧
          (node.check a slots s).outcome = .error e) := by
  rw [check_eq]
  by_cases htaken : node.fieldName ∈ slots.taken
  · have hrun : (declaredField a slots node).perform s =
        (.ok none, s.report (.duplicateField node.fieldName) node.mark.span) := by
      rw [declaredField, if_pos (List.contains_iff_mem.2 htaken)]
      rfl
    rw [first_of_ok hrun]
    exact .inl ⟨⟨node, .duplicate, []⟩, _, rfl, rfl, .duplicate node (h.mem_taken.1 htaken),
      h.fault rfl⟩
  · have hnew : node.fieldName ∉ Finding.accepted earlier := mt h.mem_taken.2 htaken
    cases hfield : a.field? node.fieldName with
    | none =>
        have hrun : (declaredField a slots node).perform s =
            (.ok none, s.report (.unknownField a.name node.fieldName) node.mark.span) := by
          rw [declaredField, if_neg (mt List.contains_iff_mem.1 htaken), hfield]
          rfl
        rw [first_of_ok hrun]
        refine .inl ⟨⟨node, .unknown, []⟩, _, rfl, rfl, .unknown node hnew ?_, h.fault rfl⟩
        intro hmem
        obtain ⟨f, hf, hname⟩ := List.mem_map.1 hmem
        have hnone := List.find?_eq_none.1 hfield f hf
        simp [hname] at hnone
    | some f =>
        obtain ⟨hf, hname⟩ := Adt.field?_eq_some hfield
        have hrun : (declaredField a slots node).perform s = (.ok (some f), s) := by
          have hlt : f.index < slots.nodes.length := h.fits.length_eq ▸ ha.indexed.index_lt hf
          rw [declaredField, if_neg (mt List.contains_iff_mem.1 htaken), hfield]
          simp [hlt]
        rw [first_of_ok hrun, checkPlaced]
        obtain ⟨hmark, hchecked⟩ := mark_checkValue node s
        obtain ⟨values, hreports⟩ := node.steady.exists_reports s
        rcases hvalue : node.checkValue s with ⟨checked, e | ty, s'⟩
        · refine .inr ⟨hnew, hname ▸ List.mem_map_of_mem hf, e, rfl, ?_⟩
          rw [child_of_error (by rw [hvalue])]
        · rw [hvalue] at hmark hchecked hreports
          rw [child_of_ok (by rw [hvalue]), hvalue, leaf_outcome, leaf_session,
            perform_acceptField]
          dsimp only at hmark hchecked hreports ⊢
          cases hunify : (s'.context.unify f.ty ty).1 with
          | ok u =>
              refine .inl ⟨⟨node, .accepted, values⟩, _, rfl, rfl, ?_,
                h.accept ha hf hname hchecked hnew rfl⟩
              rw [hmark]
              exact .accepted node checked f ty u s' values hnew hf hname hvalue hreports hunify
          | error e =>
              refine .inl ⟨⟨node, .mismatched e, values⟩, _, rfl, rfl, ?_, h.fault rfl⟩
              rw [hmark]
              exact .mismatched node checked f ty s' values e hnew hf hname hvalue hreports hunify

end FieldInit

/-- Whether the value of a field aborts, after the findings about the fields before it. -/
def ValueAborts (a : Adt Ty) (earlier : List Finding) (s : Session) (nodes : List FieldInit)
    (e : Abort) : Prop :=
  ∃ before node after found s', nodes = before ++ node :: after ∧
    FindsAll a earlier s before found s' ∧ node.fieldName ∉ Finding.accepted (earlier ++ found) ∧
    node.fieldName ∈ a.fields.map Field.name ∧ (node.checkValue s').outcome = .error e

theorem ValueAborts.cons {e : Abort} (first : Finds a earlier s x s')
    (h : ValueAborts a (earlier ++ [x]) s' nodes e) :
    ValueAborts a earlier s (x.node :: nodes) e := by
  obtain ⟨before, node, after, found, s'', rfl, hfound, hnew, h⟩ := h
  refine ⟨x.node :: before, node, after, x :: found, s'', rfl, .cons first hfound, ?_, h⟩
  rwa [List.append_assoc] at hnew

namespace FieldInit

/-- The written fields lead to findings one after the other, unless a value aborts. -/
theorem findsAll_checkAll (ha : a.IsOrderly) (h : slots.Sums a earlier) (nodes : List FieldInit)
    (s : Session) :
    (∃ found slots', (checkAll a slots nodes s).outcome = .ok slots' ∧
        FindsAll a earlier s nodes found (checkAll a slots nodes s).session ∧
        slots'.Sums a (earlier ++ found)) ∨
      ∃ e, ValueAborts a earlier s nodes e ∧ (checkAll a slots nodes s).outcome = .error e := by
  induction nodes generalizing earlier slots s with
  | nil =>
      rw [checkAll]
      exact .inl ⟨[], slots, rfl, .nil earlier s, by rwa [List.append_nil]⟩
  | cons node rest ih =>
      rw [checkAll]
      rcases finds_check ha h node s with ⟨x, slots₁, rfl, hok, hfinds, hslots⟩ |
        ⟨hnew, hdeclared, e, hvalue, herror⟩
      · rw [child_of_ok hok]
        rcases ih hslots (x.node.check a slots s).session with
          ⟨found, slots₂, hok', hall, hslots'⟩ | ⟨e, haborts, herror⟩
        · rw [child_of_ok hok']
          refine .inl ⟨x :: found, slots₂, rfl, .cons hfinds hall, ?_⟩
          rwa [List.append_assoc] at hslots'
        · rw [child_of_error herror]
          exact .inr ⟨e, .cons hfinds haborts, rfl⟩
      · rw [child_of_error herror]
        refine .inr ⟨e, ⟨[], node, rest, [], s, rfl, .nil earlier s, ?_, hdeclared, hvalue⟩, rfl⟩
        rwa [List.append_nil]

end FieldInit

/-! ## Completion -/

/-- As many names have been accepted as fields are declared if no declared field is left. -/
theorem Slots.Fits.length_taken_eq_iff (h : slots.Fits a) (ha : a.IsOrderly) :
    slots.taken.length = a.size ↔ slots.untaken a = [] := by
  have hsub : slots.taken ⊆ a.fields.map Field.name := by
    intro name hname
    obtain ⟨f, hf, hfname, -⟩ := h.filled name hname
    exact hfname ▸ List.mem_map_of_mem hf
  have hsize : (a.fields.map Field.name).length = a.size := List.length_map _
  have huntaken : slots.untaken a = [] ↔ a.fields.map Field.name ⊆ slots.taken := by
    simp [Slots.untaken, List.subset_def]
  rw [huntaken]
  refine ⟨fun hall => ?_, fun hall => ?_⟩
  · have hperm := (List.subperm_of_subset h.nodup hsub).perm_of_length_le (by omega)
    exact hperm.symm.subset
  · have hle := (List.subperm_of_subset h.nodup hsub).length_le
    have hge := (List.subperm_of_subset ha.nodup hall).length_le
    omega

/-- Where every field has been accepted, what is left are the fields that are not written. -/
theorem Slots.Sums.untaken_eq (h : slots.Sums a found) (hall : ∀ x ∈ found, x.verdict.isAccepted) :
    slots.untaken a = a.unwritten (found.map Finding.node) := by
  unfold Slots.untaken Adt.unwritten
  rw [h.taken_eq, Finding.accepted_of_forall hall]
  simp

/-- What a literal that would have the type `t` reports at last, and its type, after the findings
about its written fields. It has the error type if something is wrong with one of them, or else if
declared fields are missing and there is no base, and only then are these reported. -/
inductive Concludes (a : Adt Ty) (t : Ty) (span : Span) (base : Option Expr)
    (written : List FieldInit) (found : List Finding) : List TypeError → Ty → Prop where
  | faulty (x : Finding) (mem : x ∈ found) (fault : x.verdict.isAccepted = false) :
      Concludes a t span base written found [] .error
  | missing (accepted : ∀ x ∈ found, x.verdict.isAccepted) (alone : base = none)
      (left : a.unwritten written ≠ []) :
      Concludes a t span base written found
        [⟨.missingFields a.name ((a.unwritten written).map Field.name), span⟩] .error
  | complete (accepted : ∀ x ∈ found, x.verdict.isAccepted)
      (filled : base = none → a.unwritten written = []) :
      Concludes a t span base written found [] t

namespace Walk

theorem orderLiteral_of_inOrder {t : Ty} {fields : List FieldInit}
    (h : slots.inOrder = .ok fields) :
    orderLiteral a t slots s = ⟨fields, .ok (s.context.resolve t), s⟩ := by
  rw [orderLiteral, h]
  rfl

theorem concludes_completeLiteral (ha : a.IsOrderly) (h : slots.Sums a found) (t : Ty)
    (span : Span) (base : Option Expr) (written : List FieldInit) (s : Session) :
    ∃ last ty, (completeLiteral a t span base written slots s).outcome = .ok ty ∧
      s.Reports (completeLiteral a t span base written slots s).session last ∧
      Concludes a ((completeLiteral a t span base written slots s).session.context.resolve t) span
        base (found.map Finding.node) found last ty := by
  unfold completeLiteral
  by_cases hall : ∀ x ∈ found, x.verdict.isAccepted
  · have hfine : slots.isFaulty = false := by
      rw [h.isFaulty_eq]
      simpa using hall
    have hleft := h.untaken_eq hall
    rw [hfine, if_neg Bool.false_ne_true]
    by_cases hsize : slots.taken.length = a.size
    · obtain ⟨fields, hfields⟩ := h.fits.exists_inOrder ha hsize
      rw [if_pos hsize, orderLiteral_of_inOrder hfields]
      refine ⟨[], _, rfl, .refl s, .complete hall fun _ => ?_⟩
      rwa [← hleft, ← h.fits.length_taken_eq_iff ha]
    · rw [if_neg hsize]
      have hsome : a.unwritten (found.map Finding.node) ≠ [] := by
        rwa [← hleft, Ne, ← h.fits.length_taken_eq_iff ha]
      cases base with
      | none => exact ⟨_, .error, rfl, rfl, hleft ▸ .missing hall rfl hsome⟩
      | some b =>
          obtain ⟨fields, hfields⟩ := h.fits.exists_inOrder_fillFrom ha b s.locations.size
          simp only [first_of_ok (perform_fillFromBase a b _ slots s),
            orderLiteral_of_inOrder hfields]
          refine ⟨[], _, rfl, ?_, .complete hall fun hnone => by cases hnone⟩
          rw [Session.Reports, Session.sink_synthesizeAll, List.append_nil]
  · simp only [not_forall] at hall
    obtain ⟨x, hx, hfault⟩ := hall
    have hfaulty : slots.isFaulty = true := by
      rw [h.isFaulty_eq, List.any_eq_true]
      exact ⟨x, hx, by simpa using hfault⟩
    rw [hfaulty, if_pos rfl]
    exact ⟨[], .error, rfl, .refl s, .faulty x hx (by simpa using hfault)⟩

end Walk

/-! ## The literal as a whole -/

/-- Whether the check of the base of a literal, if there is one, reports these errors. -/
def BaseReports (base : Option Expr) (s : Session) (errors : List TypeError) : Prop :=
  match base with
  | none => errors = []
  | some b => s.Reports (b.check s).session errors

namespace Check

/-- The struct that a literal names is found without a report. -/
theorem reports_structOf {path : Path} {span : Span}
    (h : (structOf path span).perform s = (.ok a, s')) : s.Reports s' [] := by
  have hends : s.Ends (fun _ => False) (path.moments span) ((structOf path span).perform s).1
      ((structOf path span).perform s).2 := traverses_structOf path span s
  rw [h] at hends
  cases hends with
  | past errors grows reports isSoft =>
      obtain rfl : errors = [] := List.eq_nil_iff_forall_not_mem.2 isSoft
      exact reports

theorem unifyBase_of_ok {t u : Ty} {span : Span}
    (h : (unifyBase a u span).perform s = (.ok t, s')) :
    (s.context.unify (.adt a) u).1 = .ok t ∧
      s' = { s with context := (s.context.unify (.adt a) u).2 } := by
  rw [unifyBase, perform_bind, perform_unify] at h
  cases hunify : (s.context.unify (.adt a) u).1 with
  | ok r =>
      simp only [hunify, perform_pure, Prod.mk.injEq, Except.ok.injEq] at h
      exact ⟨congrArg _ h.1, h.2.symm⟩
  | error e => simp [hunify, perform_bind] at h

end Check

namespace Walk

variable {base : Option Expr} {t : Ty}

/-- The type of a literal is the struct itself, or what it has in common with the base. -/
theorem literalBase_cases (h : (literalBase a base s).outcome = .ok t) :
    (base = none ∧ t = .adt a ∧ literalBase a base s = ⟨none, .ok t, s⟩) ∨
      ∃ b u, base = some b ∧ (b.check s).outcome = .ok u ∧
        ((b.check s).session.context.unify (.adt a) u).1 = .ok t ∧
        literalBase a base s = ⟨some (b.check s).node, .ok t, { (b.check s).session with
          context := ((b.check s).session.context.unify (.adt a) u).2 }⟩ := by
  cases base with
  | none =>
      obtain rfl := Except.ok.inj h
      exact .inl ⟨rfl, rfl, rfl⟩
  | some b =>
      rw [literalBase] at h ⊢
      rcases child_cases b.check some (fun base ty => leaf (some base) (unifyBase a ty base.span)) s
        with ⟨u, hok, heq⟩ | ⟨e, -, heq⟩
      · rw [heq, leaf_outcome] at h
        obtain ⟨hunify, hsession⟩ := unifyBase_of_ok (Prod.ext h rfl)
        refine .inr ⟨b, u, rfl, hok, hunify, ?_⟩
        rw [heq, ← hsession, ← h]
        rfl
      · rw [heq] at h
        cases h

end Walk

theorem Concludes.congr {base base' : Option Expr} {t : Ty} {span : Span}
    {last : List TypeError} {ty : Ty} (h : Concludes a t span base nodes found last ty)
    (hbase : base = none ↔ base' = none) : Concludes a t span base' nodes found last ty := by
  cases h with
  | faulty x mem fault => exact .faulty x mem fault
  | missing accepted alone left => exact .missing accepted (hbase.1 alone) left
  | complete accepted filled => exact .complete accepted fun h => filled (hbase.2 h)

namespace Walk

variable {base : Option Expr} {t : Ty}

/-- A base that unifies with the literal reports what its check reports. -/
theorem reports_literalBase (h : (literalBase a base s).outcome = .ok t) :
    ∃ errors, BaseReports base s errors ∧ s.Reports (literalBase a base s).session errors := by
  rcases literalBase_cases h with ⟨rfl, -, heq⟩ | ⟨b, u, rfl, -, -, heq⟩
  · rw [heq]
    exact ⟨[], rfl, .refl s⟩
  · rw [heq]
    obtain ⟨errors, hreports⟩ := b.steady.exists_reports s
    exact ⟨errors, hreports, hreports⟩

/-- Unless the base is an error, the type of a literal is the struct that it names. -/
theorem root_literalBase (h : (literalBase a base s).outcome = .ok t)
    (hbase : ∀ b u, base = some b → (b.check s).outcome = .ok u →
      (b.check s).session.context.resolve u ≠ .error) :
    t.head = (Ty.adt a).head ∧ t.shape? = some a.shape := by
  rcases literalBase_cases h with ⟨-, rfl, -⟩ | ⟨b, u, rfl, hok, hunify, -⟩
  · exact ⟨rfl, rfl⟩
  · exact Context.root_of_unify_adt hunify (hbase b u rfl hok)

/-- The written fields and the end of a literal, in the session that its base leaves. -/
theorem findings_literal {path : Path} {pathSpan span : Span} {fields : List FieldInit}
    (hstruct : (structOf path pathSpan).perform s = (.ok a, s')) (ha : a.IsOrderly)
    (hbase : (literalBase a base s').outcome = .ok t) :
    (∃ e, ValueAborts a [] (literalBase a base s').session fields e ∧
        (literal path pathSpan span fields base s).outcome = .error e) ∨
      ∃ found checked last ty,
        FindsAll a [] (literalBase a base s').session fields found checked ∧
        (literal path pathSpan span fields base s).outcome = .ok ty ∧
        checked.Reports (literal path pathSpan span fields base s).session last ∧
        Concludes a ((literal path pathSpan span fields base s).session.context.resolve t) span base
          fields found last ty := by
  unfold literal
  rw [first_of_ok hstruct, child_of_ok hbase]
  have hnode : (literalBase a base s').node = none ↔ base = none := by
    rcases literalBase_cases hbase with ⟨rfl, -, heq⟩ | ⟨b, u, rfl, -, -, heq⟩
    · rw [heq]
    · rw [heq]
      simp
  generalize literalBase a base s' = based at hnode
  rcases FieldInit.findsAll_checkAll ha (Slots.sums_empty a) fields based.session with
    ⟨found, slots, hok, hfound, hslots⟩ | ⟨e, haborts, herror⟩
  · rw [child_of_ok hok]
    obtain ⟨last, ty, hend, hreports, hconcludes⟩ :=
      concludes_completeLiteral ha hslots t span based.node
        (FieldInit.checkAll a (Slots.empty a.size) fields based.session).node
        (FieldInit.checkAll a (Slots.empty a.size) fields based.session).session
    rw [List.nil_append, hfound.map_node] at hconcludes
    rw [child_of_ok hend]
    exact .inr ⟨found, _, last, ty, hfound, rfl, hreports, hconcludes.congr hnode⟩
  · rw [child_of_error herror]
    exact .inl ⟨e, haborts, rfl⟩

end Walk

/-- A literal of a struct whose fields are told apart by their names and positions, with a base that
unifies with it if there is one. Unless the value of a field aborts, and the literal with it, it
reports what the base reports, then for each written field what its value reports and what is found
about it, and at last the missing fields if these are all that is wrong. It has the error type if
anything is wrong, and otherwise its own: that of the struct, unless the base is an error. -/
theorem literal_findings {path : Path} {pathSpan : Span} {base : Option Expr} {s s₀ : Session}
    {t : Ty} (m : Mark) (fields : List FieldInit)
    (hstruct : (structOf path pathSpan).perform s = (.ok a, s₀)) (ha : a.IsOrderly)
    (hbase : (literalBase a base s₀).outcome = .ok t) :
    let based := literalBase a base s₀
    let run := (Expr.struct m path pathSpan fields base).check s
    (∃ e, ValueAborts a [] based.session fields e ∧ run.outcome = .error e) ∨
      ∃ reported found checked last ty,
        BaseReports base s₀ reported ∧ FindsAll a [] based.session fields found checked ∧
        run.outcome = .ok ty ∧
        s.Reports run.session (reported ++ found.flatMap (Finding.errors a) ++ last) ∧
        Concludes a (run.session.context.resolve t) m.span base fields found last ty ∧
        (base = none → t = .adt a) ∧
        ((∀ b u, base = some b → (b.check s₀).outcome = .ok u →
            (b.check s₀).session.context.resolve u ≠ .error) →
          (run.session.context.resolve t).head = (Ty.adt a).head ∧
            (run.session.context.resolve t).shape? = some a.shape) := by
  intro based run
  have hrun : run = child (literal path pathSpan m.span fields base)
      (fun parts => .struct m path pathSpan parts.1 parts.2) (fun parts ty =>
        leaf (.struct m path pathSpan parts.1 parts.2) (recorded m.id ty)) s :=
    congrFun (Expr.check_struct m path pathSpan fields base) s
  obtain ⟨reported, hbaseReports, hreported⟩ := reports_literalBase hbase
  rcases findings_literal hstruct ha hbase with
    ⟨e, haborts, herror⟩ | ⟨found, checked, last, ty, hfound, hok, hlast, hconcludes⟩
  · rw [child_of_error herror] at hrun
    exact .inl ⟨e, haborts, by rw [hrun]⟩
  · rw [child_of_ok hok] at hrun
    refine .inr ⟨reported, found, checked, last, ty, hbaseReports, hfound, ?_, ?_, ?_,
      fun hnone => ?_, fun hfine => ?_⟩
    · rw [hrun]
      rfl
    · have hall := (((reports_structOf hstruct).trans hreported).trans hfound.reports).trans hlast
      rw [List.nil_append] at hall
      rw [hrun]
      exact hall
    · rw [hrun]
      exact hconcludes
    · rcases literalBase_cases hbase with ⟨-, ht, -⟩ | ⟨b, -, hsome, -⟩
      · exact ht
      · exact absurd (hnone.symm.trans hsome) (by simp)
    · obtain ⟨hhead, hshape⟩ := root_literalBase hbase hfine
      exact Context.root_resolve _ hhead hshape

/-- A mismatched field does not count, so the next one of its name is accepted, and only the one
after that is a duplicate. What is missing is not reported where something is wrong. -/
theorem literal_findings_mixed :
    let d : Adt Ty := ⟨0, "P", .named,
      [⟨"x", .prim .i32, 0⟩, ⟨"y", .prim .bool, 1⟩, ⟨"z", .prim .i32, 2⟩], [], none⟩
    let s : Session := ⟨(Context.initial.insert 0 (.adt d)).insert 1 (.prim .bool),
      ⟨Array.replicate 12 ⟨0, 1⟩⟩, .fresh⟩
    let fields : List FieldInit :=
      [.named ⟨2, ⟨2, 3⟩⟩ "x" (.lit ⟨3, ⟨3, 4⟩⟩ (.bool true)),
        .named ⟨4, ⟨4, 5⟩⟩ "x" (.lit ⟨5, ⟨5, 6⟩⟩ (.int 1 none)),
        .index ⟨6, ⟨6, 7⟩⟩ 0 (.lit ⟨7, ⟨7, 8⟩⟩ (.int 2 none)),
        .short ⟨8, ⟨8, 9⟩⟩ "y" (some 1),
        .named ⟨9, ⟨9, 10⟩⟩ "x" (.lit ⟨10, ⟨10, 11⟩⟩ (.int 3 none))]
    let run := (Expr.struct ⟨11, ⟨2, 11⟩⟩ (.ident "P" (some 0)) ⟨0, 1⟩ fields none).check s
    run.outcome = .ok .error ∧
      run.session.sink.errors =
        [⟨.ofUnify (.mismatch (.prim .i32) (.prim .bool)), ⟨2, 3⟩⟩,
          ⟨.unknownField "P" "0", ⟨6, 7⟩⟩, ⟨.duplicateField "x", ⟨9, 10⟩⟩] ∧
      [3, 5, 7, 8, 10].map run.session.context.contains = [true, true, false, true, false] ∧
      ∃ found checked last, FindsAll d [] s fields found checked ∧
        run.session.sink.errors = found.flatMap (Finding.errors d) ++ last := by
  intro d s fields run
  have hstruct : (structOf (.ident "P" (some 0)) ⟨0, 1⟩).perform s = (.ok d, s) := rfl
  have ha : d.IsOrderly := by
    refine ⟨fun i f hf => ?_, by decide⟩
    rcases i with _ | _ | _ | i <;> simp_all [d] <;> rw [← hf]
  have hok : run.outcome = .ok .error := by decide +kernel
  have herrors : run.session.sink.errors =
      [⟨.ofUnify (.mismatch (.prim .i32) (.prim .bool)), ⟨2, 3⟩⟩,
        ⟨.unknownField "P" "0", ⟨6, 7⟩⟩, ⟨.duplicateField "x", ⟨9, 10⟩⟩] := by decide +kernel
  have hentries : [3, 5, 7, 8, 10].map run.session.context.contains =
      [true, true, false, true, false] := by decide +kernel
  have hbase : (literalBase d none s).outcome = .ok (.adt d) := rfl
  refine ⟨hok, herrors, hentries, ?_⟩
  rcases literal_findings ⟨11, ⟨2, 11⟩⟩ fields hstruct ha hbase with
    ⟨e, -, herror⟩ | ⟨reported, found, checked, last, ty, rfl, hfound, -, hreports, -⟩
  · exact absurd (herror.symm.trans hok) (by simp)
  · exact ⟨found, checked, last, hfound, hreports⟩

end TypeInference

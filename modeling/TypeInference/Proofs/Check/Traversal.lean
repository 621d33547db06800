import TypeInference.Proofs.Check.Frame
import TypeInference.Proofs.Program.Moments

/-!
# Traversals

A check goes through the moments of a tree in order. It may stop at one of the
moments that allow it, after one report that is hard; up to there it has
recorded types for the nodes before that moment only. Otherwise it reports soft
errors at most.
-/

namespace TypeInference

open Check Moment

namespace Cause

/-- Whether the current item has no sound type after such an error. -/
def stopsItem : Cause → Bool
  | unresolvedPath _ => true
  | untypedDeclaration _ => true
  | notAStruct _ _ => true
  | genericArgCount _ _ _ => true
  | _ => false

/-- Whether nothing else is worth checking after such an error. -/
def stopsProgram : Cause → Bool
  | incompatibleBase _ _ => true
  | _ => false

/-- Whether the check goes on after such an error. -/
def IsSoft (c : Cause) : Prop := c.stopsItem = false ∧ c.stopsProgram = false

theorem isSoft_ofUnify (e : UnifyError) : (ofUnify e).IsSoft := by
  cases e <;> exact ⟨rfl, rfl⟩

end Cause

/-- Whether the check stops in this way because of this error, where errors go to the sink. -/
def Abort.StopsFor (a : Abort) (sink : Sink) (e : TypeError) : Prop :=
  (a = .item ∧ e.cause.stopsItem) ∨ (a = (sink.fatal e).1 ∧ e.cause.stopsProgram)

/-- Whether the second session has these errors in addition to those of the first one. -/
def Session.Reports (s s' : Session) (errors : List TypeError) : Prop :=
  s'.sink.errors = s.sink.errors ++ errors

variable {α β : Type} {soft : Cause → Prop} {ms ms' : List Moment} {s s' s'' : Session}

theorem Session.Reports.refl (s : Session) : s.Reports s [] := (List.append_nil _).symm

theorem Session.Reports.trans {errors errors' : List TypeError} (h : s.Reports s' errors)
    (h' : s'.Reports s'' errors') : s.Reports s'' (errors ++ errors') := by
  rw [Reports, h', h, List.append_assoc]

/-- How a check that goes through these moments may end: past all of them, or stopped at one. -/
inductive Session.Ends (soft : Cause → Prop) (ms : List Moment) (s : Session) :
    Except Abort α → Session → Prop where
  | past {outcome : Except Abort α} {s' : Session} (errors : List TypeError)
      (grows : s.Grows (recordedIds ms) s') (reports : s.Reports s' errors)
      (isSoft : ∀ e ∈ errors, soft e.cause)
      (ended : ∀ a, outcome = .error a → ∃ d, a = .defect d) : Ends soft ms s outcome s'
  | stopped {a : Abort} {s' : Session} (before after : List Moment) (errors : List TypeError)
      (e : TypeError) (split : ms = before ++ .stop e.span :: after)
      (grows : s.Grows (recordedIds before) s') (reports : s.Reports s' (errors ++ [e]))
      (isSoft : ∀ e ∈ errors, soft e.cause) (stops : a.StopsFor s.sink e) :
      Ends soft ms s (.error a) s'

namespace Session.Ends

/-- A check that has gone through some moments goes on with others. -/
theorem next {a : α} {outcome : Except Abort β} (h : s.Ends soft ms (.ok a) s')
    (h' : s'.Ends soft ms' outcome s'') : s.Ends soft (ms ++ ms') outcome s'' := by
  cases h with
  | past errors grows reports isSoft =>
      have hbefore {l : List NodeId} : s.Grows (recordedIds ms ++ l) s' :=
        grows.mono (List.subset_append_left _ _)
      have hsoft {errors' : List TypeError} (h : ∀ e ∈ errors', soft e.cause) :
          ∀ e ∈ errors ++ errors', soft e.cause := List.forall_mem_append.2 ⟨isSoft, h⟩
      cases h' with
      | past errors' grows' reports' isSoft' ended =>
          refine .past _ ?_ (reports.trans reports') (hsoft isSoft') ended
          rw [recordedIds_append]
          exact hbefore.trans (grows'.mono (List.subset_append_right _ _))
      | stopped before after errors' e split grows' reports' isSoft' stops =>
          refine .stopped (ms ++ before) after (errors ++ errors') e (by simp [split]) ?_ ?_
            (hsoft isSoft') ?_
          · rw [recordedIds_append]
            exact hbefore.trans (grows'.mono (List.subset_append_right _ _))
          · rw [List.append_assoc]
            exact reports.trans reports'
          · rwa [Abort.StopsFor, Sink.fatal, ← grows.policy_eq]

/-- A check that does not succeed does not go on. -/
theorem error {a : Abort} (h : s.Ends soft ms (.error a : Except Abort α) s')
    (ms' : List Moment) : s.Ends soft (ms ++ ms') (.error a : Except Abort β) s' := by
  cases h with
  | past errors grows reports isSoft ended =>
      refine .past errors ?_ reports isSoft fun b hb => ended b ?_
      · rw [recordedIds_append]
        exact grows.mono (List.subset_append_left _ _)
      · rw [Except.error.inj hb]
  | stopped before after errors e split grows reports isSoft stops =>
      exact .stopped before (after ++ ms') errors e (by simp [split]) grows reports isSoft stops

/-- There may be other moments that a check does not go through. -/
theorem mono {outcome : Except Abort α} (h : s.Ends soft ms outcome s') (hsub : ms.Sublist ms') :
    s.Ends soft ms' outcome s' := by
  have hids {l l' : List Moment} (h : l.Sublist l') : recordedIds l ⊆ recordedIds l' :=
    (h.filterMap _).subset
  cases h with
  | past errors grows reports isSoft ended =>
      exact .past errors (grows.mono (hids hsub)) reports isSoft ended
  | stopped before after errors e split grows reports isSoft stops =>
      obtain ⟨l, r, rfl, hbefore, hrest⟩ := List.append_sublist_iff.1 (split ▸ hsub)
      obtain ⟨l', r', rfl, hmem, -⟩ := List.cons_sublist_iff.1 hrest
      obtain ⟨u, v, rfl⟩ := List.append_of_mem hmem
      refine .stopped (l ++ u) (v ++ r') errors e (by simp) (grows.mono ?_) reports isSoft stops
      exact hids (hbefore.trans (List.sublist_append_left l u))

end Session.Ends

/-! ## Computations -/

namespace Check

/-- Whether the computation reports soft errors only, and ends with a result or a defect. -/
def Quiet (soft : Cause → Prop) (x : Check α) : Prop :=
  ∀ s, (∃ errors, s.Reports (x.perform s).2 errors ∧ ∀ e ∈ errors, soft e.cause) ∧
    ∀ a, (x.perform s).1 = .error a → ∃ d, a = .defect d

def Traverses (soft : Cause → Prop) (ms : List Moment) (x : Check α) : Prop :=
  ∀ s : Session, s.Ends soft ms (x.perform s).1 (x.perform s).2

theorem quiet_of_perform {x : Check α} (h : ∀ s, ∃ a s', x.perform s = (.ok a, s') ∧
    s'.sink.errors = s.sink.errors) : Quiet soft x := by
  intro s
  obtain ⟨a, s', hrun, herrors⟩ := h s
  rw [hrun]
  exact ⟨⟨[], herrors.trans (List.append_nil _).symm, by simp⟩, fun _ h => by cases h⟩

theorem Quiet.bind {x : Check α} {f : α → Check β} (hx : Quiet soft x)
    (hf : ∀ a, Quiet soft (f a)) : Quiet soft (x >>= f) := by
  intro s
  obtain ⟨⟨errors, hreports, hsoft⟩, hended⟩ := hx s
  rw [perform_bind]
  rcases hrun : x.perform s with ⟨e | a, s'⟩
  · rw [hrun] at hreports hended
    exact ⟨⟨errors, hreports, hsoft⟩, fun a ha => hended a (by rw [Except.error.inj ha])⟩
  · rw [hrun] at hreports
    obtain ⟨⟨errors', hreports', hsoft'⟩, hended'⟩ := hf a s'
    exact ⟨⟨_, hreports.trans hreports', List.forall_mem_append.2 ⟨hsoft, hsoft'⟩⟩, hended'⟩

theorem quiet_pure (a : α) : Quiet soft (pure a : Check α) :=
  quiet_of_perform fun s => ⟨a, s, rfl, rfl⟩

theorem quiet_defect (d : Defect) : Quiet soft (throw (.defect d) : Check α) :=
  fun s => ⟨⟨[], .refl s, by simp⟩, fun _ h => ⟨d, (Except.error.inj h).symm⟩⟩

theorem quiet_report {cause : Cause} (h : soft cause) (span : Span) :
    Quiet soft (report cause span) :=
  fun _ => ⟨⟨[⟨cause, span⟩], rfl, by simpa using h⟩, fun _ h => by cases h⟩

theorem quiet_reportTyped {cause : Cause} (h : soft cause) (span : Span) :
    Quiet soft (reportTyped cause span) :=
  (quiet_report h span).bind fun _ => quiet_pure _

theorem quiet_orDefect (x : Except Defect α) : Quiet soft (orDefect x) := by
  cases x with
  | ok a => exact quiet_pure a
  | error d => exact quiet_defect d

theorem quiet_lookup (id : NodeId) : Quiet soft (lookup id) :=
  quiet_of_perform fun s => ⟨_, s, rfl, rfl⟩

theorem quiet_resolve (t : Ty) : Quiet soft (resolve t) :=
  quiet_of_perform fun s => ⟨_, s, rfl, rfl⟩

theorem quiet_builtin? (name : String) : Quiet soft (builtin? name) :=
  quiet_of_perform fun s => ⟨_, s, rfl, rfl⟩

theorem quiet_builtin (name : String) : Quiet soft (builtin name) :=
  (quiet_of_perform fun s => ⟨s, s, rfl, rfl⟩ : Quiet soft (get : Check Session)).bind
    fun _ => quiet_orDefect _

theorem quiet_record (id : NodeId) (t : Ty) : Quiet soft (record id t) :=
  quiet_of_perform fun _ => ⟨(), _, rfl, rfl⟩

theorem quiet_recorded (id : NodeId) (t : Ty) : Quiet soft (recorded id t) :=
  quiet_of_perform fun _ => ⟨t, _, rfl, rfl⟩

theorem quiet_newVar (k : VarKind) : Quiet soft (newVar k) :=
  quiet_of_perform fun _ => ⟨_, _, rfl, rfl⟩

theorem quiet_unify (t u : Ty) : Quiet soft (unify t u) :=
  quiet_of_perform fun _ => ⟨_, _, rfl, rfl⟩

theorem quiet_freshInstance (a : Adt Ty) : Quiet soft (freshInstance a) :=
  quiet_of_perform fun s => ⟨_, _, perform_freshInstance a s, rfl⟩

theorem traverses_of_quiet {x : Check α} (hsteady : Steady (recordedIds ms) x) (h : Quiet soft x) :
    Traverses soft ms x := by
  intro s
  obtain ⟨⟨errors, hreports, hsoft⟩, hended⟩ := h s
  exact .past errors (hsteady.grows s) hreports hsoft hended

theorem Traverses.mono {x : Check α} (h : Traverses soft ms x) (hsub : ms.Sublist ms') :
    Traverses soft ms' x := fun s => (h s).mono hsub

theorem Traverses.bind {x : Check α} {f : α → Check β} (hx : Traverses soft ms x)
    (hf : ∀ a, Traverses soft ms' (f a)) : Traverses soft (ms ++ ms') (x >>= f) := by
  intro s
  have hs := hx s
  rw [perform_bind]
  rcases hrun : x.perform s with ⟨e | a, s'⟩
  · rw [hrun] at hs
    exact hs.error ms'
  · rw [hrun] at hs
    exact hs.next (hf a s')

/-- A step without a moment of its own. -/
theorem Traverses.bind_quiet {x : Check α} {f : α → Check β} (hsteady : Steady [] x)
    (hx : Quiet soft x) (hf : ∀ a, Traverses soft ms (f a)) : Traverses soft ms (x >>= f) := by
  have hfirst : Traverses soft [] x := traverses_of_quiet hsteady hx
  exact hfirst.bind hf

theorem traverses_pure (a : α) : Traverses soft [] (pure a : Check α) :=
  traverses_of_quiet (steady_pure a) (quiet_pure a)

theorem Traverses.bind_pure {x : Check α} (h : Traverses soft ms x) (f : α → β) :
    Traverses soft ms (x >>= fun a => pure (f a)) := by
  have hpure (a : α) : Traverses soft [] (pure (f a) : Check β) := traverses_pure (f a)
  have hx := h.bind hpure
  rwa [List.append_nil] at hx

theorem traverses_record (id : NodeId) (t : Ty) : Traverses soft [.record id] (record id t) :=
  traverses_of_quiet (steady_record (List.mem_singleton_self id) t) (quiet_record id t)

theorem traverses_recorded (id : NodeId) (t : Ty) : Traverses soft [.record id] (recorded id t) :=
  traverses_of_quiet (steady_recorded (List.mem_singleton_self id) t) (quiet_recorded id t)

theorem traverses_giveUp {cause : Cause} (h : cause.stopsItem) {span : Span}
    (hspan : .stop span ∈ ms) : Traverses soft ms (giveUp cause span : Check α) := by
  intro s
  obtain ⟨before, after, rfl⟩ := List.append_of_mem hspan
  exact .stopped before after [] ⟨cause, span⟩ rfl (grows_report s _) rfl (by simp) (.inl ⟨rfl, h⟩)

theorem traverses_giveUpAll {cause : Cause} (h : cause.stopsProgram) {span : Span}
    (hspan : .stop span ∈ ms) : Traverses soft ms (giveUpAll cause span : Check α) := by
  intro s
  obtain ⟨before, after, rfl⟩ := List.append_of_mem hspan
  exact .stopped before after [] ⟨cause, span⟩ rfl ((steady_giveUpAll cause span).grows s) rfl
    (by simp) (.inr ⟨rfl, h⟩)

/-! ## Written types -/

theorem traverses_withArgs (a : Adt Ty) (args : List Ty) (span : Span) :
    Traverses soft [.stop span] (a.withArgs args span) := by
  unfold Adt.withArgs
  split
  · exact (traverses_pure _).mono (List.nil_sublist _)
  · exact traverses_giveUp rfl (by simp)

theorem traverses_readAll {position : Position} {ts : List TypeRef}
    (h : ∀ t ∈ ts, Traverses soft t.moments (t.read position)) :
    Traverses soft (TypeRef.momentsAll ts) (TypeRef.readAll position ts) := by
  induction ts with
  | nil =>
      rw [TypeRef.readAll]
      exact traverses_pure []
  | cons t ts ih =>
      rw [List.forall_mem_cons] at h
      rw [TypeRef.readAll, TypeRef.momentsAll]
      exact h.1.bind fun _ => (ih h.2).bind_pure _

section

variable {m : Mark} {name : String} {res : Option TypeRes} {args : List TypeRef}

/-- A path that is not read stops where it is written. -/
theorem traverses_unread {cause : Cause} (h : cause.stopsItem) : Traverses soft
    (TypeRef.path m name res args).moments (giveUp cause m.span : Check Ty) :=
  traverses_giveUp h (by simp [TypeRef.moments])

theorem traverses_readPath (t : Ty) :
    Traverses soft (TypeRef.path m name res args).moments (recorded m.id t) :=
  (traverses_recorded m.id t).mono (List.sublist_append_right _ _)

end

/-- A written type is read moment by moment, without soft errors. -/
theorem traverses_read (position : Position) (t : TypeRef) :
    Traverses soft t.moments (t.read position) := by
  induction t with
  | unit m => exact traverses_recorded m.id .unit
  | infer m =>
      exact .bind_quiet (steady_newVar _) (quiet_newVar _) fun t => traverses_recorded m.id t
  | unresolved m name args => exact traverses_unread rfl
  | builtin m name args =>
      refine .bind_quiet (steady_builtin? name) (quiet_builtin? name) fun r => ?_
      cases r with
      | none => exact traverses_unread rfl
      | some t => exact traverses_readPath t
  | adt m name id args ih =>
      refine .bind_quiet (steady_lookup id) (quiet_lookup id) fun r => ?_
      split
      · rename_i a
        split
        · exact .bind_quiet (steady_freshInstance a) (quiet_freshInstance a) fun b =>
            traverses_readPath _
        · have hargs := (traverses_readAll ih).bind fun tys =>
            (traverses_withArgs a tys m.span).bind fun b => traverses_recorded m.id (.adt b)
          refine hargs.mono ?_
          rw [TypeRef.moments, ← List.append_assoc]
          exact List.sublist_cons_self _ _
      · exact traverses_unread rfl
      · exact traverses_unread rfl
  | param m name id args =>
      refine .bind_quiet (steady_lookup id) (quiet_lookup id) fun r => ?_
      cases r with
      | none => exact traverses_unread rfl
      | some t => exact traverses_readPath t

theorem traverses_readOptional (position : Position) (t : Option TypeRef) :
    Traverses soft (TypeRef.momentsOption t) (TypeRef.readOptional position t) := by
  cases t with
  | none => exact traverses_pure none
  | some t => exact (traverses_read position t).bind_pure _

/-! ## Paths -/

theorem traverses_instanceIn (a : Adt Ty) (args : List TypeRef) (span : Span) :
    Traverses soft (TypeRef.momentsAll args ++ [.stop span]) (a.instanceIn args span) := by
  unfold Adt.instanceIn
  split
  · exact traverses_of_quiet (steady_freshInstance a) (quiet_freshInstance a)
  · exact (traverses_readAll fun t _ => traverses_read .body t).bind fun tys =>
      traverses_withArgs a tys span

theorem traverses_pathType (span : Span) (p : Path) :
    Traverses soft (p.moments span) (pathType span p) := by
  have hgiveUp {cause : Cause} (h : cause.stopsItem) :
      Traverses soft (p.moments span) (giveUp cause span : Check Ty) :=
    traverses_giveUp h (by simp [Path.moments])
  have hpure (t : Ty) : Traverses soft (p.moments span) (pure t) :=
    (traverses_pure t).mono (List.nil_sublist _)
  unfold pathType
  split
  · exact hgiveUp rfl
  · refine .bind_quiet (steady_lookup _) (quiet_lookup _) fun r => ?_
    split
    · rename_i a
      split
      · exact ((traverses_instanceIn a p.args span).bind_pure _).mono (List.sublist_cons_self _ _)
      · exact hpure _
    · exact hpure _
    · exact hgiveUp rfl

theorem traverses_structOf (p : Path) (span : Span) :
    Traverses soft (p.moments span) (structOf p span) := by
  have hgiveUp {cause : Cause} (h : cause.stopsItem) :
      Traverses soft (p.moments span) (giveUp cause span : Check (Adt Ty)) :=
    traverses_giveUp h (by simp [Path.moments])
  unfold structOf
  split
  · exact hgiveUp rfl
  · refine .bind_quiet (steady_lookup _) (quiet_lookup _) fun r => ?_
    split
    · rename_i a
      split
      · exact (traverses_instanceIn a p.args span).mono (List.sublist_cons_self _ _)
      · exact (traverses_pure a).mono (List.nil_sublist _)
    · exact hgiveUp rfl
    · exact hgiveUp rfl

theorem traverses_unifyBase (a : Adt Ty) (t : Ty) (span : Span) :
    Traverses soft [.stop span] (unifyBase a t span) := by
  refine .bind_quiet (steady_unify _ t) (quiet_unify _ t) fun r => ?_
  cases r with
  | ok u => exact (traverses_pure u).mono (List.nil_sublist _)
  | error e =>
      exact .bind_quiet (steady_resolve t) (quiet_resolve t) fun u =>
        traverses_giveUpAll rfl (by simp)

end Check

end TypeInference

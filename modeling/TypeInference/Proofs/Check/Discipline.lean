import TypeInference.Proofs.Check.DeclarationOrder
import TypeInference.Proofs.Check.Derivation
import TypeInference.Proofs.Context.Closed

/-!
# Types that obey a discipline

A discipline is a condition on the nodes of types that inference maintains. A
check that starts where every recorded type obeys it ends where every recorded
type does. If errors do not obey it, this holds until something is reported. If
they do, the check runs into no defect but one: a literal of a struct that has
two fields of one name may be left with a slot without a node.
-/

namespace TypeInference

open Ty Check

/-- A local condition on nodes that everything but errors and structs meets, and an instance of a
struct if the struct does. -/
structure Ty.IsDiscipline (P : Ty → Prop) : Prop where
  isLocal : IsLocal P
  plain : ∀ {t : Ty}, t ≠ .error → (∀ a, t ≠ .adt a) → P t
  instantiate : ∀ {a : Adt Ty} (args : List Ty), P (.adt a) → P (.adt (a.instantiate args))

structure Adt.IsOrderly (a : Adt Ty) : Prop where
  indexed : a.IsIndexed
  nodup : (a.fields.map Field.name).Nodup

structure Ty.IsStrict (P : Ty → Prop) : Prop where
  error : P .error
  indexed : ∀ {a : Adt Ty}, P (.adt a) → a.IsIndexed

/-- Whether the condition allows a defect: a slot without a node, in a literal of a struct that has
two fields of one name. -/
def Ty.Allows (P : Ty → Prop) (d : Defect) : Prop :=
  ∃ (a : Adt Ty) (index : Nat), P (.adt a) ∧ ¬(a.fields.map Field.name).Nodup ∧
    d = .unfilledFieldSlot a.name index

variable {P : Ty → Prop}

theorem Ty.IsDiscipline.isClosed (hP : IsDiscipline P) : IsClosed (Ty.Every P) :=
  isClosed_every hP.isLocal fun _ _ => hP.plain (by simp) (by simp)

theorem Ty.IsDiscipline.leaf (hP : IsDiscipline P) {t : Ty} (hne : t ≠ .error)
    (hadt : ∀ a, t ≠ .adt a) (hparts : t.parts = []) : t.Every P :=
  every_leaf (hP.plain hne hadt) hparts

theorem Ty.Every.field {a : Adt Ty} (ha : (Ty.adt a).Every P) {f : Field Ty} (hf : f ∈ a.fields) :
    f.ty.Every P :=
  ha.part (List.mem_append_left _ (List.mem_map_of_mem hf))

theorem Ty.IsDiscipline.fn (hP : IsDiscipline P) {ps : List Ty} {r : Ty}
    (hps : ∀ p ∈ ps, p.Every P) (hr : r.Every P) : (Ty.fn ps r).Every P := by
  refine every_iff.2 ⟨hP.plain (by simp) (by simp), fun p hp => ?_⟩
  rcases List.mem_append.1 hp with hp | hp
  · exact hps p hp
  · rw [List.mem_singleton.1 hp]
    exact hr

/-- An instance obeys the discipline if the struct and the arguments do. -/
theorem Ty.IsDiscipline.every_instantiate (hP : IsDiscipline P) {a : Adt Ty}
    (ha : (Ty.adt a).Every P) {args : List Ty} (hargs : ∀ t ∈ args, t.Every P) :
    (Ty.adt (a.instantiate args)).Every P :=
  Ty.every_instantiate hP.isLocal (hP.instantiate args ha.root) ha hargs

/-! ## Sessions -/

/-- Whether the discipline is in force: if errors do not obey it, only until something is reported. -/
def Session.Enforces (P : Ty → Prop) (s : Session) : Prop := P .error ∨ s.sink.errors = []

structure Session.Obeys (P : Ty → Prop) (s : Session) : Prop where
  bindings : s.Enforces P → s.context.bindings.Every (Ty.Every P)
  types : s.Enforces P → ∀ id t, s.context.types.find? id = some t → t.Every P
  builtins : s.context.builtins = Prim.all

theorem Session.Obeys.resolve {s : Session} (hs : s.Obeys P) (hP : IsDiscipline P)
    (henforces : s.Enforces P) {t : Ty} (ht : t.Every P) : (s.context.resolve t).Every P :=
  (hs.bindings henforces).resolve hP.isClosed ht

theorem Session.Obeys.lookup {s : Session} (hs : s.Obeys P) (hP : IsDiscipline P)
    (henforces : s.Enforces P) {id : NodeId} {t : Ty} (h : s.context.lookup id = some t) :
    t.Every P := by
  obtain ⟨u, hu, rfl⟩ := Option.map_eq_some_iff.1 h
  exact hs.resolve hP henforces (hs.types henforces id u hu)

theorem Session.obeys_start (hP : IsDiscipline P) (locations : Locations) (sink : Sink) :
    (start locations sink).Obeys P :=
  ⟨fun _ => Bindings.every_empty hP.isClosed, fun _ id t h => by
    simp [start, Context.initial, Context.bare, NodeTypes.empty, NodeTypes.find?] at h, rfl⟩

/-- Whether an error with this cause says that a type was left undetermined. -/
def Cause.isUndetermined : Cause → Bool
  | .resolutionFailure _ | .ambiguousType _ => true
  | _ => false

theorem Cause.isUndetermined_ofUnify (e : UnifyError) : (ofUnify e).isUndetermined = false := by
  cases e <;> rfl

/--
A run from one session to another, provided that `H` holds: if the first obeys
the discipline then so does the second, the result has the property `Q`, and
under a strict discipline there is no defect but those that it allows. Without
the proviso, errors are not taken back, and none says that a type was left
undetermined.
-/
structure Session.Run {α : Type} (P : Ty → Prop) (H : Prop) (s : Session) (outcome : Except Abort α)
    (s' : Session) (Q : α → Prop) : Prop where
  errors : s'.sink.errors = [] → s.sink.errors = []
  causes : ∀ e ∈ s'.sink.errors, e ∈ s.sink.errors ∨ e.cause.isUndetermined = false
  builtins : s'.context.builtins = s.context.builtins
  obeys : H → s.Obeys P → s'.Obeys P
  result : H → s.Obeys P → s'.Enforces P → ∀ a, outcome = .ok a → Q a
  defects : H → s.Obeys P → IsStrict P → ∀ d, outcome = .error (.defect d) → Allows P d

def Check.Obeys {α : Type} (P : Ty → Prop) (H : Prop) (x : Check α) (Q : α → Prop) : Prop :=
  ∀ s, Session.Run P H s (x.perform s).1 (x.perform s).2 Q

def Walk.Obeys {ν α : Type} (P : Ty → Prop) (H : Prop) (w : Walk ν α) (Q : α → Prop) : Prop :=
  ∀ s, Session.Run P H s (w s).outcome (w s).session Q

variable {H : Prop} {α β : Type} {Q : α → Prop} {R : β → Prop}

namespace Session.Run

variable {s s' s'' : Session} {a : α} {outcome : Except Abort β}

/-- Two runs in a row. The second may assume what the first gave, and has nothing to show if the
discipline is not in force any more. -/
theorem trans (h : Run P H s (.ok a) s' Q) (h' : Run P (H ∧ Q a) s' outcome s'' R) :
    Run P H s outcome s'' R where
  errors herrors := h.errors (h'.errors herrors)
  causes e he := (h'.causes e he).elim (h.causes e) .inr
  builtins := h'.builtins.trans h.builtins
  obeys hH hs := by
    have hs' := h.obeys hH hs
    by_cases henforces : s'.Enforces P
    · exact h'.obeys ⟨hH, h.result hH hs henforces a rfl⟩ hs'
    · have hnot : ¬s''.Enforces P := fun hend => henforces (hend.imp_right h'.errors)
      exact ⟨fun hend => (hnot hend).elim, fun hend => (hnot hend).elim,
        h'.builtins.trans hs'.builtins⟩
  result hH hs hend b hb := by
    have henforces : s'.Enforces P := hend.imp_right h'.errors
    exact h'.result ⟨hH, h.result hH hs henforces a rfl⟩ (h.obeys hH hs) hend b hb
  defects hH hs hstrict :=
    h'.defects ⟨hH, h.result hH hs (.inl hstrict.error) a rfl⟩ (h.obeys hH hs) hstrict

/-- After an abort nothing follows. -/
theorem abort {e : Abort} (h : Run P H s (.error e : Except Abort α) s' Q) :
    Run P H s (.error e : Except Abort β) s' R :=
  ⟨h.errors, h.causes, h.builtins, h.obeys, fun _ _ _ b hb => (by cases hb),
    fun hH hs hstrict d hd => h.defects hH hs hstrict d (by cases hd; rfl)⟩

/-- A run that leaves the session as it is. -/
theorem same (h : H → s.Obeys P → s.Enforces P → Q a) : Run P H s (.ok a) s Q :=
  ⟨fun h => h, fun _ he => .inl he, rfl, fun _ hs => hs, fun hH hs henforces b hb => by
    rw [← Except.ok.inj hb]
    exact h hH hs henforces, fun _ _ _ d hd => by cases hd⟩

/-- Giving up is no defect. -/
theorem ended : Run P H s (.error .item : Except Abort α) s Q :=
  ⟨fun h => h, fun _ he => .inl he, rfl, fun _ hs => hs, fun _ _ _ b hb => (by cases hb),
    fun _ _ _ d hd => by cases hd⟩

/-- A run that ended early and is gone on from. -/
theorem skipped {e : Abort} (h : Run P H s (.error e : Except Abort α) s' Q) (b : β) :
    Run P H s (.ok b) s' fun _ => True :=
  ⟨h.errors, h.causes, h.builtins, h.obeys, fun _ _ _ _ _ => trivial, fun _ _ _ d hd => by cases hd⟩

theorem imp {outcome : Except Abort α} (h : Run P H s outcome s' Q) {H' : Prop} {Q' : α → Prop}
    (hH : H' → H) (hQ : ∀ a, H' → Q a → Q' a) : Run P H' s outcome s' Q' :=
  ⟨h.errors, h.causes, h.builtins, fun hp => h.obeys (hH hp), fun hp hs hend a ha =>
    hQ a hp (h.result (hH hp) hs hend a ha), fun hp => h.defects (hH hp)⟩

end Session.Run

namespace Walk

variable {ν μ : Type}

/-! ## Rules -/

theorem obeys_leaf {node : ν} {x : Check α} (h : Check.Obeys P H x Q) : Obeys P H (leaf node x) Q := h

theorem run_first {node : ν} {x : Check α} {next : α → Walk ν β} {s : Session}
    (hx : Session.Run P H s (x.perform s).1 (x.perform s).2 Q)
    (hnext : ∀ a, Obeys P (H ∧ Q a) (next a) R) :
    Session.Run P H s (first node x next s).outcome (first node x next s).session R := by
  rcases first_cases node x next s with ⟨a, s', hrun, heq⟩ | ⟨e, s', hrun, heq⟩
  · rw [hrun] at hx
    rw [heq]
    exact hx.trans (hnext a s')
  · rw [hrun] at hx
    rw [heq]
    exact hx.abort

theorem obeys_first {node : ν} {x : Check α} {next : α → Walk ν β} (hx : Check.Obeys P H x Q)
    (hnext : ∀ a, Obeys P (H ∧ Q a) (next a) R) : Obeys P H (first node x next) R :=
  fun s => run_first (hx s) hnext

theorem obeys_child {w : Walk μ α} {rebuild : μ → ν} {next : μ → α → Walk ν β}
    (hw : Obeys P H w Q) (hnext : ∀ s a, Obeys P (H ∧ Q a) (next (w s).node a) R) :
    Obeys P H (child w rebuild next) R := by
  intro s
  have hs := hw s
  rcases child_cases w rebuild next s with ⟨a, hrun, heq⟩ | ⟨e, hrun, heq⟩
  · rw [hrun] at hs
    rw [heq]
    exact hs.trans (hnext s a _)
  · rw [hrun] at hs
    rw [heq]
    exact hs.abort

end Walk

namespace Check

theorem obeys_pure {a : α} (h : H → Q a) : Obeys P H (pure a : Check α) Q :=
  fun _ => .same fun hH _ _ => h hH

theorem Obeys.bind {x : Check α} {f : α → Check β} (hx : Obeys P H x Q)
    (hf : ∀ a, Obeys P (H ∧ Q a) (f a) R) : Obeys P H (x >>= f) R := by
  have hfirst : Walk.Obeys P H (Walk.first () x fun a => Walk.leaf () (f a)) R :=
    Walk.obeys_first hx fun a => Walk.obeys_leaf (hf a)
  rwa [← Walk.leaf_bind] at hfirst

theorem Obeys.imp {x : Check α} {H' : Prop} {Q' : α → Prop} (h : Obeys P H x Q) (hH : H' → H)
    (hQ : ∀ a, H' → Q a → Q' a) : Obeys P H' x Q' :=
  fun s => (h s).imp hH hQ

theorem obeys_throw {e : Abort} (h : H → IsStrict P → ∀ d, e = .defect d → Allows P d) :
    Obeys P H (throw e : Check α) Q :=
  fun _ => ⟨fun h => h, fun _ he => .inl he, rfl, fun _ hs => hs, fun _ _ _ b hb => (by simp at hb),
    fun hH _ hstrict d hd => h hH hstrict d (by simpa using hd)⟩

/-! ## The steps of a check -/

/-- Once there is a report, a discipline that is in force allows errors. -/
theorem obeys_report {cause : Cause} (hcause : cause.isUndetermined = false) (span : Span) :
    Obeys P H (report cause span) fun _ => P .error := by
  intro s
  have herrors : (s.sink.report ⟨cause, span⟩).errors ≠ [] := by simp
  rw [perform_report]
  refine ⟨fun h => (herrors h).elim, fun e he => ?_, rfl, fun _ hs => ?_,
    fun _ _ h _ _ => h.resolve_right herrors, fun _ _ _ d hd => by cases hd⟩
  · rcases List.mem_append.1 he with he | he
    · exact .inl he
    · exact .inr (by rw [List.mem_singleton.1 he]; exact hcause)
  · refine ⟨fun h => hs.bindings ?_, fun h => hs.types ?_, hs.builtins⟩
    · exact h.imp_right fun h => (herrors h).elim
    · exact h.imp_right fun h => (herrors h).elim

theorem obeys_reportTyped {cause : Cause} (hcause : cause.isUndetermined = false) (span : Span) :
    Obeys P H (reportTyped cause span) (Ty.Every P) :=
  (obeys_report hcause span).bind fun _ => obeys_pure fun h => every_leaf h.2 rfl

theorem obeys_giveUp {cause : Cause} (hcause : cause.isUndetermined = false) (span : Span) :
    Obeys P H (giveUp cause span : Check α) Q :=
  (obeys_report hcause span).bind fun _ => obeys_throw fun _ _ d hd => by cases hd

theorem obeys_giveUpAll {cause : Cause} (hcause : cause.isUndetermined = false) (span : Span) :
    Obeys P H (giveUpAll cause span : Check α) Q := by
  intro s
  have hreport := obeys_report (P := P) (H := H) hcause span s
  refine ⟨hreport.errors, hreport.causes, rfl, fun hH hs => ?_, fun _ _ _ b hb => (by cases hb),
    fun _ _ _ d hd => ?_⟩
  · have hend := hreport.obeys hH hs
    exact ⟨hend.bindings, hend.types, hs.builtins⟩
  · rw [perform_giveUpAll] at hd
    simp only [Sink.fatal] at hd
    split at hd <;> cases hd

theorem obeys_record {id : NodeId} {t : Ty} (ht : H → t.Every P) :
    Obeys P H (record id t) fun _ => True := by
  refine fun s => ⟨fun h => h, fun _ he => .inl he, rfl, fun hH hs => ?_, fun _ _ _ _ _ => trivial,
    fun _ _ _ d hd => by cases hd⟩
  refine ⟨hs.bindings, fun henforces i u hu => ?_, hs.builtins⟩
  by_cases hi : i = id
  · obtain rfl : t = u := by simpa [Context.insert, hi] using hu
    exact ht hH
  · exact hs.types henforces i u (by simpa [Context.insert, hi] using hu)

theorem obeys_recorded {id : NodeId} {t : Ty} (ht : H → t.Every P) :
    Obeys P H (recorded id t) (Ty.Every P) :=
  (obeys_record ht).bind fun _ => obeys_pure fun h => ht h.1

theorem obeys_newVar (hP : IsDiscipline P) (k : VarKind) : Obeys P H (newVar k) (Ty.Every P) := by
  refine fun s => ⟨fun h => h, fun _ he => .inl he, rfl, fun _ hs => ⟨hs.bindings, hs.types, hs.builtins⟩,
    fun _ _ _ t ht => ?_, fun _ _ _ d hd => by cases hd⟩
  rw [← Except.ok.inj ht]
  exact hP.leaf (by simp) (by simp) rfl

theorem obeys_builtin? (name : String) :
    Obeys P H (builtin? name) fun r => ∀ t, r = some t → ∃ p, t = .prim p := by
  refine fun s => .same fun _ _ _ t ht => ?_
  obtain ⟨p, -, rfl⟩ := Option.map_eq_some_iff.1 ht
  exact ⟨p, rfl⟩

theorem obeys_builtin (hP : IsDiscipline P) {name : String} (p : Prim) (hname : p.name = name) :
    Obeys P H (builtin name) (Ty.Every P) := by
  intro s
  have hperform : s.context.builtins = Prim.all →
      (builtin name).perform s = (.ok (.prim p), s) := fun h => perform_builtin h hname
  have hsession : ((builtin name).perform s).2 = s := by
    show ((orDefect (s.context.builtin name)).perform s).2 = s
    cases s.context.builtin name <;> rfl
  rw [hsession]
  refine ⟨fun h => h, fun _ he => .inl he, rfl, fun _ hs => hs, fun _ hs _ t ht => ?_, fun _ hs _ d hd => ?_⟩
  · rw [hperform hs.builtins] at ht
    rw [← Except.ok.inj ht]
    exact hP.leaf (by simp) (by simp) rfl
  · rw [hperform hs.builtins] at hd
    cases hd

theorem obeys_allocate (span : Span) : Obeys P H (allocate span) fun _ => True :=
  fun _ => ⟨fun h => h, fun _ he => .inl he, rfl, fun _ hs => ⟨hs.bindings, hs.types, hs.builtins⟩,
    fun _ _ _ _ _ => trivial, fun _ _ _ d hd => by cases hd⟩

section

variable (hP : IsDiscipline P)
include hP

theorem obeys_lookup (id : NodeId) :
    Obeys P H (lookup id) fun r => ∀ t, r = some t → t.Every P :=
  fun _ => .same fun _ hs henforces _ ht => hs.lookup hP henforces ht

theorem obeys_resolve {t : Ty} (ht : H → t.Every P) : Obeys P H (resolve t) (Ty.Every P) :=
  fun _ => .same fun hH hs henforces => hs.resolve hP henforces (ht hH)

theorem obeys_unify {t u : Ty} (ht : H → t.Every P) (hu : H → u.Every P) :
    Obeys P H (unify t u) fun r => ∀ v, r = .ok v → v.Every P := by
  intro s
  have hunify (hH : H) (hs : s.Obeys P) (henforces : s.Enforces P) :=
    Context.every_unify hP.isClosed (ht hH) (hu hH) (hs.bindings henforces)
  refine ⟨fun h => h, fun _ he => .inl he, rfl, fun hH hs => ?_, fun hH hs henforces r hr v hv => ?_,
    fun _ _ _ d hd => by cases hd⟩
  · exact ⟨fun henforces => (hunify hH hs henforces).1, hs.types, hs.builtins⟩
  · refine (hunify hH hs henforces).2 v ?_
    rw [← hv]
    exact Except.ok.inj hr

theorem obeys_unifyAt (span : Span) {t u : Ty} (ht : H → t.Every P) (hu : H → u.Every P) :
    Obeys P H (unifyAt span t u) (Ty.Every P) := by
  refine (obeys_unify hP ht hu).bind fun r => ?_
  cases r with
  | ok v => exact obeys_pure fun h => h.2 v rfl
  | error e => exact obeys_reportTyped (Cause.isUndetermined_ofUnify e) span

theorem obeys_freshInstance {a : Adt Ty} (ha : H → (Ty.adt a).Every P) :
    Obeys P H (freshInstance a) fun b => (Ty.adt b).Every P := by
  intro s
  rw [perform_freshInstance]
  unfold Context.freshInstance
  split
  · exact .same fun hH _ _ => ha hH
  · refine ⟨fun h => h, fun _ he => .inl he, rfl, fun _ hs => ⟨hs.bindings, hs.types, hs.builtins⟩,
      fun hH _ _ b hb => ?_, fun _ _ _ d hd => by cases hd⟩
    rw [← Except.ok.inj hb]
    refine hP.every_instantiate (ha hH) fun u hu => ?_
    obtain ⟨i, -, rfl⟩ := List.mem_map.1 hu
    exact hP.leaf (by simp) (by simp) rfl

/-! ## Written types -/

theorem obeys_withArgs {a : Adt Ty} (ha : H → (Ty.adt a).Every P) {args : List Ty}
    (hargs : H → ∀ u ∈ args, u.Every P) (span : Span) :
    Obeys P H (a.withArgs args span) fun b => (Ty.adt b).Every P := by
  unfold Adt.withArgs
  split
  · rename_i b hb
    refine obeys_pure fun hH => ?_
    obtain ⟨-, rfl⟩ | ⟨-, -, rfl⟩ := Adt.apply_eq_ok_iff.1 hb
    · exact ha hH
    · exact hP.every_instantiate (ha hH) (hargs hH)
  · exact obeys_giveUp rfl _

omit hP in
theorem obeys_readAll {position : Position} {ts : List TypeRef}
    (h : ∀ t ∈ ts, ∀ H, Obeys P H (t.read position) (Ty.Every P)) :
    Obeys P H (TypeRef.readAll position ts) fun tys => ∀ t ∈ tys, t.Every P := by
  induction ts generalizing H with
  | nil =>
      rw [TypeRef.readAll]
      exact obeys_pure (by simp)
  | cons t ts ih =>
      rw [TypeRef.readAll]
      refine (h t List.mem_cons_self H).bind fun ty => ?_
      refine (ih fun u hu => h u (List.mem_cons_of_mem _ hu)).bind fun tys => obeys_pure fun hH => ?_
      exact List.forall_mem_cons.2 ⟨hH.1.2, hH.2⟩

theorem obeys_read (position : Position) (t : TypeRef) :
    Obeys P H (t.read position) (Ty.Every P) := by
  induction t generalizing H with
  | unit m => exact obeys_recorded fun _ => hP.leaf (by simp) (by simp) rfl
  | infer m => exact (obeys_newVar hP .general).bind fun t => obeys_recorded fun h => h.2
  | unresolved m name args => exact obeys_giveUp rfl _
  | builtin m name args =>
      refine (obeys_builtin? name).bind fun r => ?_
      cases r with
      | none => exact obeys_giveUp rfl _
      | some t =>
          refine obeys_recorded fun h => ?_
          obtain ⟨p, rfl⟩ := h.2 t rfl
          exact hP.leaf (by simp) (by simp) rfl
  | adt m name id args ih =>
      refine (obeys_lookup hP id).bind fun r => ?_
      split
      · rename_i a
        split
        · exact (obeys_freshInstance hP fun h => h.2 _ rfl).bind fun b => obeys_recorded fun h => h.2
        · refine (obeys_readAll fun t ht H => ih t ht).bind fun tys => ?_
          exact (obeys_withArgs hP (fun h => h.1.2 _ rfl) (fun h => h.2) m.span).bind fun b =>
            obeys_recorded fun h => h.2
      · exact obeys_giveUp rfl _
      · exact obeys_giveUp rfl _
  | param m name id args =>
      refine (obeys_lookup hP id).bind fun r => ?_
      cases r with
      | none => exact obeys_giveUp rfl _
      | some t => exact obeys_recorded fun h => h.2 t rfl

theorem obeys_readOptional (position : Position) (t : Option TypeRef) :
    Obeys P H (TypeRef.readOptional position t) fun r => ∀ u, r = some u → u.Every P := by
  cases t with
  | none => exact obeys_pure (by simp)
  | some t =>
      refine (obeys_read hP position t).bind fun u => obeys_pure fun h v hv => ?_
      exact Option.some.inj hv ▸ h.2

theorem obeys_instanceIn {a : Adt Ty} (ha : H → (Ty.adt a).Every P) (args : List TypeRef)
    (span : Span) : Obeys P H (a.instanceIn args span) fun b => (Ty.adt b).Every P := by
  unfold Adt.instanceIn
  split
  · exact obeys_freshInstance hP ha
  · exact (obeys_readAll fun t _ H => obeys_read hP .body t).bind fun tys =>
      obeys_withArgs hP (fun h => ha h.1) (fun h => h.2) span

end

end Check

end TypeInference

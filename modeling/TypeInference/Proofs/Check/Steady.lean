import TypeInference.Proofs.Check.Literal
import TypeInference.Proofs.Program.Ids
import TypeInference.Proofs.Program.Induct

/-!
# What checks leave alone

A check adds errors and locations, and takes none away. It records types under
the identities of its nodes and under new ones, and for no other node. Whatever
stops it has been reported, or is a defect.
-/

namespace TypeInference

def Locations.Within (l l' : Locations) : Prop :=
  ∀ id span, l.find? id = some span → l'.find? id = some span

namespace Locations.Within

variable {l l' l'' : Locations}

theorem refl (l : Locations) : l.Within l := fun _ _ h => h

theorem trans (h : l.Within l') (h' : l'.Within l'') : l.Within l'' :=
  fun id span hspan => h' id span (h id span hspan)

theorem find?_eq (h : l.Within l') {id : NodeId} (hid : id < l.size) : l'.find? id = l.find? id := by
  obtain ⟨span, hspan⟩ : ∃ span, l.find? id = some span := by
    rw [← Option.ne_none_iff_exists', ne_eq, find?_eq_none_iff]
    exact Nat.not_le.2 hid
  rw [hspan, h id span hspan]

theorem size_le (h : l.Within l') : l.size ≤ l'.size := by
  by_contra hlt
  have hnone := find?_eq_none_iff.2 (Nat.le_refl l'.size)
  rw [h.find?_eq (Nat.not_le.1 hlt), find?_eq_none_iff] at hnone
  exact hlt hnone

end Locations.Within

structure Session.Grows (ids : List NodeId) (s s' : Session) : Prop where
  located : ∀ id span, s.locations.find? id = some span → s'.locations.find? id = some span
  reported : s.sink.errors <+: s'.sink.errors
  policy_eq : s'.sink.policy = s.sink.policy
  builtins_eq : s'.context.builtins = s.context.builtins
  retained : ∀ id, s.context.contains id → s'.context.contains id
  changed : ∀ id, s'.context.types.find? id ≠ s.context.types.find? id →
    id ∈ ids ∨ s.locations.size ≤ id ∧ id < s'.locations.size

namespace Session.Grows

variable {ids : List NodeId} {s s' s'' : Session}

theorem refl (ids : List NodeId) (s : Session) : s.Grows ids s :=
  ⟨fun _ _ h => h, List.prefix_rfl, rfl, rfl, fun _ h => h, fun _ h => (h rfl).elim⟩

theorem kept (h : s.Grows ids s') (id : NodeId) (hid : id ∉ ids) (hlt : id < s.locations.size) :
    s'.context.types.find? id = s.context.types.find? id := by
  by_contra hne
  rcases h.changed id hne with hmem | ⟨hle, -⟩
  · exact hid hmem
  · exact Nat.not_lt.2 hle hlt

theorem size_le (h : s.Grows ids s') : s.locations.size ≤ s'.locations.size :=
  Locations.Within.size_le h.located

theorem trans (h : s.Grows ids s') (h' : s'.Grows ids s'') : s.Grows ids s'' where
  located id span hspan := h'.located id span (h.located id span hspan)
  reported := h.reported.trans h'.reported
  policy_eq := h'.policy_eq.trans h.policy_eq
  builtins_eq := h'.builtins_eq.trans h.builtins_eq
  retained id hid := h'.retained id (h.retained id hid)
  changed id hne := by
    by_cases heq : s'.context.types.find? id = s.context.types.find? id
    · rcases h'.changed id (fun heq' => hne (heq'.trans heq)) with hmem | ⟨hle, hlt⟩
      · exact .inl hmem
      · exact .inr ⟨Nat.le_trans h.size_le hle, hlt⟩
    · rcases h.changed id heq with hmem | ⟨hle, hlt⟩
      · exact .inl hmem
      · exact .inr ⟨hle, Nat.lt_of_lt_of_le hlt h'.size_le⟩

theorem mono {ids' : List NodeId} (h : s.Grows ids s') (hids : ids ⊆ ids') : s.Grows ids' s' :=
  ⟨h.located, h.reported, h.policy_eq, h.builtins_eq, h.retained, fun id hne =>
    (h.changed id hne).imp_left fun hmem => hids hmem⟩

/-- If nothing has been reported at the end, nothing had been at the start. -/
theorem errors_eq_nil (h : s.Grows ids s') (herrors : s'.sink.errors = []) : s.sink.errors = [] :=
  List.prefix_nil.1 (herrors ▸ h.reported)

end Session.Grows

def Abort.Explained (e : Abort) (s : Session) : Prop := (∃ d, e = .defect d) ∨ s.sink.errors ≠ []

namespace Check

variable {α β : Type} {ids : List NodeId}

/-- A computation that keeps what checks keep, and that explains its aborts. -/
structure Steady (ids : List NodeId) (x : Check α) : Prop where
  grows : ∀ s : Session, s.Grows ids (x.perform s).2
  explains : ∀ s e, (x.perform s).1 = .error e → e.Explained (x.perform s).2

theorem steady_of_perform {x : Check α}
    (h : ∀ s, ∃ a s', x.perform s = (.ok a, s') ∧ s.Grows ids s') : Steady ids x := by
  constructor
  case grows =>
    intro s
    obtain ⟨a, s', hrun, hgrows⟩ := h s
    rw [hrun]
    exact hgrows
  case explains =>
    intro s e he
    obtain ⟨a, s', hrun, -⟩ := h s
    rw [hrun] at he
    cases he

theorem Steady.mono {ids' : List NodeId} {x : Check α} (h : Steady ids x) (hids : ids ⊆ ids') :
    Steady ids' x :=
  ⟨fun s => (h.grows s).mono hids, h.explains⟩

theorem steady_pure (a : α) : Steady ids (pure a : Check α) :=
  steady_of_perform fun s => ⟨a, s, rfl, .refl ids s⟩

theorem Steady.bind {x : Check α} {f : α → Check β} (hx : Steady ids x)
    (hf : ∀ a, Steady ids (f a)) : Steady ids (x >>= f) := by
  constructor
  case grows =>
    intro s
    have hs := hx.grows s
    rw [perform_bind]
    rcases hrun : x.perform s with ⟨e | a, s'⟩
    · rwa [hrun] at hs
    · rw [hrun] at hs
      exact hs.trans ((hf a).grows s')
  case explains =>
    intro s e
    rw [perform_bind]
    rcases hrun : x.perform s with ⟨e' | a, s'⟩
    · intro he
      obtain rfl : e' = e := by simpa using he
      have := hx.explains s e' (by rw [hrun])
      rwa [hrun] at this
    · exact (hf a).explains s' e

theorem steady_defect (d : Defect) : Steady ids (throw (.defect d) : Check α) := by
  refine ⟨fun s => .refl ids s, fun s e he => .inl ⟨d, ?_⟩⟩
  simpa [eq_comm] using he

/-! ## The steps of a check -/

theorem grows_report (s : Session) (e : TypeError) :
    s.Grows ids { s with sink := s.sink.report e } :=
  ⟨fun _ _ h => h, List.prefix_append _ _, rfl, rfl, fun _ h => h, fun _ h => (h rfl).elim⟩

theorem steady_report (cause : Cause) (span : Span) : Steady ids (report cause span) :=
  steady_of_perform fun s => ⟨(), _, rfl, grows_report s _⟩

theorem steady_reportTyped (cause : Cause) (span : Span) : Steady ids (reportTyped cause span) :=
  (steady_report cause span).bind fun _ => steady_pure _

theorem steady_giveUp (cause : Cause) (span : Span) :
    Steady ids (giveUp cause span : Check α) := by
  refine ⟨fun s => grows_report s _, fun s e _ => .inr ?_⟩
  rw [perform_giveUp, Sink.errors_report]
  simp

theorem steady_giveUpAll (cause : Cause) (span : Span) :
    Steady ids (giveUpAll cause span : Check α) := by
  refine ⟨fun s => ?_, fun s e _ => .inr ?_⟩
  · rw [perform_giveUpAll]
    exact ⟨fun _ _ h => h, List.prefix_append _ _, rfl, rfl, fun _ h => h, fun _ h => (h rfl).elim⟩
  · rw [perform_giveUpAll, Sink.errors_fatal]
    simp

theorem steady_orDefect (x : Except Defect α) : Steady ids (orDefect x) := by
  cases x with
  | ok a => exact steady_pure a
  | error d => exact steady_defect d

theorem steady_lookup (id : NodeId) : Steady ids (lookup id) :=
  steady_of_perform fun s => ⟨_, s, rfl, .refl ids s⟩

theorem steady_resolve (t : Ty) : Steady ids (resolve t) :=
  steady_of_perform fun s => ⟨_, s, rfl, .refl ids s⟩

theorem steady_builtin? (name : String) : Steady ids (builtin? name) :=
  steady_of_perform fun s => ⟨_, s, rfl, .refl ids s⟩

theorem steady_builtin (name : String) : Steady ids (builtin name) :=
  (steady_of_perform fun s => ⟨s, s, rfl, .refl ids s⟩ : Steady ids (get : Check Session)).bind
    fun _ => steady_orDefect _

theorem grows_insert {id : NodeId} (hid : id ∈ ids) (s : Session) (t : Ty) :
    s.Grows ids { s with context := s.context.insert id t } := by
  refine ⟨fun _ _ h => h, List.prefix_rfl, rfl, rfl, fun i hi => ?_, fun i hi => .inl ?_⟩
  · rw [Context.contains_insert, hi, Bool.or_true]
  · by_cases heq : i = id
    · exact heq ▸ hid
    · exact (hi (by simp [Context.insert, NodeTypes.find?_insert, heq])).elim

theorem steady_record {id : NodeId} (hid : id ∈ ids) (t : Ty) : Steady ids (record id t) :=
  steady_of_perform fun s => ⟨(), _, rfl, grows_insert hid s t⟩

theorem steady_recorded {id : NodeId} (hid : id ∈ ids) (t : Ty) : Steady ids (recorded id t) :=
  (steady_record hid t).bind fun _ => steady_pure t

/-- A step that changes nothing but the bindings. -/
theorem grows_bindings (s : Session) (b : Bindings) :
    s.Grows ids { s with context := { s.context with bindings := b } } :=
  ⟨fun _ _ h => h, List.prefix_rfl, rfl, rfl, fun _ h => h, fun _ h => (h rfl).elim⟩

theorem steady_newVar (k : VarKind) : Steady ids (newVar k) :=
  steady_of_perform fun s => ⟨_, _, rfl, grows_bindings s _⟩

theorem steady_unify (t u : Ty) : Steady ids (unify t u) :=
  steady_of_perform fun s => ⟨_, _, rfl, grows_bindings s _⟩

theorem perform_freshInstance (a : Adt Ty) (s : Session) :
    perform (freshInstance a) s =
      (.ok (s.context.freshInstance a).1, { s with context := (s.context.freshInstance a).2 }) := rfl

theorem steady_freshInstance (a : Adt Ty) : Steady ids (freshInstance a) := by
  refine steady_of_perform fun s => ⟨_, _, perform_freshInstance a s, ?_⟩
  unfold Context.freshInstance
  split
  · exact .refl ids s
  · exact grows_bindings s _

theorem steady_unifyAt (span : Span) (t u : Ty) : Steady ids (unifyAt span t u) := by
  refine (steady_unify t u).bind fun r => ?_
  cases r with
  | ok t => exact steady_pure t
  | error e => exact steady_reportTyped _ span

theorem grows_allocate (s : Session) (span : Span) :
    s.Grows ids { s with locations := (s.locations.alloc span).2 } := by
  refine ⟨fun id sp h => ?_, List.prefix_rfl, rfl, rfl, fun _ h => h, fun _ h => (h rfl).elim⟩
  have hlt : id < s.locations.size := by
    rw [← Nat.not_le, ← Locations.find?_eq_none_iff, h]
    simp
  rw [← h]
  exact Locations.find?_alloc_of_lt span hlt

/-! ## Written types -/

theorem steady_withArgs (a : Adt Ty) (args : List Ty) (span : Span) :
    Steady ids (a.withArgs args span) := by
  unfold Adt.withArgs
  split
  · exact steady_pure _
  · exact steady_giveUp _ _

theorem steady_readAll {position : Position} {ts : List TypeRef}
    (h : ∀ t ∈ ts, Steady ids (t.read position)) : Steady ids (TypeRef.readAll position ts) := by
  induction ts with
  | nil =>
      rw [TypeRef.readAll]
      exact steady_pure []
  | cons t ts ih =>
      rw [TypeRef.readAll]
      exact (h t List.mem_cons_self).bind fun _ =>
        (ih fun u hu => h u (List.mem_cons_of_mem _ hu)).bind fun _ => steady_pure _

theorem steady_read {position : Position} {t : TypeRef} (h : t.ids ⊆ ids) :
    Steady ids (t.read position) := by
  induction t with
  | unit m => exact steady_recorded (h (by simp [TypeRef.ids])) .unit
  | infer m =>
      exact (steady_newVar .general).bind fun t => steady_recorded (h (by simp [TypeRef.ids])) t
  | unresolved m name args => exact steady_giveUp _ _
  | builtin m name args =>
      refine (steady_builtin? name).bind fun r => ?_
      cases r with
      | none => exact steady_giveUp _ _
      | some t => exact steady_recorded (h (by simp [TypeRef.ids])) t
  | adt m name id args ih =>
      obtain ⟨hm, hargs⟩ := List.cons_subset.1 h
      refine (steady_lookup id).bind fun r => ?_
      split
      · rename_i a
        split
        · exact (steady_freshInstance a).bind fun b => steady_recorded hm (.adt b)
        · refine (steady_readAll fun t ht => ih t ht ?_).bind fun tys =>
            (steady_withArgs a tys _).bind fun b => steady_recorded hm (.adt b)
          exact List.Subset.trans (TypeRef.ids_subset_idsAll ht) hargs
      · exact steady_giveUp _ _
      · exact steady_giveUp _ _
  | param m name id args =>
      refine (steady_lookup id).bind fun r => ?_
      cases r with
      | none => exact steady_giveUp _ _
      | some t => exact steady_recorded (h (by simp [TypeRef.ids])) t

theorem steady_readOptional {position : Position} {t : Option TypeRef}
    (h : TypeRef.idsOption t ⊆ ids) : Steady ids (TypeRef.readOptional position t) := by
  cases t with
  | none => exact steady_pure none
  | some t => exact (steady_read h).bind fun _ => steady_pure _

theorem steady_instanceIn (a : Adt Ty) {args : List TypeRef} (span : Span)
    (h : TypeRef.idsAll args ⊆ ids) : Steady ids (a.instanceIn args span) := by
  unfold Adt.instanceIn
  split
  · exact steady_freshInstance a
  · refine (steady_readAll fun t ht => steady_read ?_).bind fun tys => steady_withArgs a tys span
    exact List.Subset.trans (TypeRef.ids_subset_idsAll ht) h

theorem idsAll_args_subset (p : Path) : TypeRef.idsAll p.args ⊆ p.ids := by
  intro i hi
  unfold Path.args at hi
  cases h : p.segments.getLast? with
  | none => simp [h, TypeRef.idsAll] at hi
  | some segment =>
      rw [h] at hi
      exact List.mem_flatMap.2 ⟨segment, List.mem_of_getLast? h, hi⟩

/-! ## Paths and literals -/

theorem steady_pathType (span : Span) {p : Path} (h : p.ids ⊆ ids) :
    Steady ids (pathType span p) := by
  unfold pathType
  split
  · exact steady_giveUp _ _
  · refine (steady_lookup _).bind fun r => ?_
    split
    · split
      · exact (steady_instanceIn _ span fun i hi => h (idsAll_args_subset p hi)).bind fun b =>
          steady_pure _
      · exact steady_pure _
    · exact steady_pure _
    · exact steady_giveUp _ _

theorem steady_structOf {p : Path} (span : Span) (h : p.ids ⊆ ids) :
    Steady ids (structOf p span) := by
  unfold structOf
  split
  · exact steady_giveUp _ _
  · refine (steady_lookup _).bind fun r => ?_
    split
    · split
      · exact steady_instanceIn _ span fun i hi => h (idsAll_args_subset p hi)
      · exact steady_pure _
    · exact steady_giveUp _ _
    · exact steady_giveUp _ _

theorem steady_unifyBase (a : Adt Ty) (t : Ty) (span : Span) : Steady ids (unifyBase a t span) := by
  refine (steady_unify _ t).bind fun r => ?_
  cases r with
  | ok u => exact steady_pure u
  | error e => exact (steady_resolve t).bind fun u => steady_giveUpAll _ span

theorem steady_declaredField (a : Adt Ty) (slots : Slots) (node : FieldInit) :
    Steady ids (declaredField a slots node) := by
  unfold declaredField
  split
  · exact (steady_report _ _).bind fun _ => steady_pure none
  · split
    · exact (steady_report _ _).bind fun _ => steady_pure none
    · split
      · exact steady_pure _
      · exact steady_defect _

theorem steady_acceptField (f : Field Ty) (slots : Slots) {node : FieldInit} (t : Ty)
    (h : node.mark.id ∈ ids) : Steady ids (acceptField f slots node t) := by
  refine (steady_unify f.ty t).bind fun r => ?_
  cases r with
  | ok u => exact (steady_record h u).bind fun _ => steady_pure _
  | error e => exact (steady_report _ _).bind fun _ => steady_pure _

end Check

end TypeInference

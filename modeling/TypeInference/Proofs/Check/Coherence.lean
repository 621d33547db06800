import TypeInference.Proofs.Check.Frame
import TypeInference.Proofs.Context.Coherence
import TypeInference.Proofs.Program.Resolutions

/-!
# Checks keep types coherent

Whatever a check does, and however it ends, the types that it records agree
with the declarations of their structs. A declaration itself is only ever read
to make an instance of it.
-/

namespace TypeInference

open Ty Check

/-- What the names in written types stand for: struct items, of which some have been declared, and
their generics. -/
structure Scope where
  isStruct : NodeId → Prop
  structs : Declarations
  params : NodeId → Param → Prop

namespace Scope

def Free (S : Scope) (id : NodeId) : Prop := ¬S.isStruct id ∧ ∀ q, ¬S.params id q

def withoutParams (S : Scope) : Scope := { S with params := fun _ _ => False }

theorem free_withoutParams {S : Scope} {id : NodeId} (h : ¬S.isStruct id) :
    S.withoutParams.Free id := ⟨h, fun _ h => h⟩

end Scope

/-- A session in which every type agrees with the structs declared so far: a struct has its
declaration for a type, and a generic its parameter. -/
structure Session.Coherent (S : Scope) (s : Session) : Prop where
  bindings : s.context.bindings.Coherent S.structs
  structs : ∀ id t, s.context.types.find? id = some t → S.isStruct id →
    ∃ d, S.structs id = some d ∧ t = .adt d
  params : ∀ id t q, s.context.types.find? id = some t → S.params id q → t = .param q
  types : ∀ id t, s.context.types.find? id = some t → ¬S.isStruct id → t.Coherent S.structs
  located : ∀ id, S.isStruct id → id < s.locations.size

structure Session.Declares (S : Scope) (s : Session) : Prop where
  closed : S.structs.Closed
  coherent : s.Coherent S
  recorded : ∀ id d, S.structs id = some d →
    S.isStruct id ∧ s.context.types.find? id = some (.adt d)

variable {S : Scope} {s : Session}

/-- Whatever forgets no type and keeps types coherent keeps the declarations. -/
theorem Session.Declares.after {s' : Session} (hs : s.Declares S) (hcoherent : s'.Coherent S)
    (hretained : ∀ id, s.context.contains id → s'.context.contains id) : s'.Declares S := by
  refine ⟨hs.closed, hcoherent, fun id d hd => ?_⟩
  obtain ⟨hstruct, hfind⟩ := hs.recorded id d hd
  have hcontains : s.context.contains id := by simp [Context.contains, NodeTypes.contains, hfind]
  obtain ⟨t, ht⟩ := Option.isSome_iff_exists.1 (hretained id hcontains)
  obtain ⟨e, he, rfl⟩ := hcoherent.structs id t ht hstruct
  exact ⟨hstruct, ht.trans (congrArg (some ∘ Ty.adt) (Option.some.inj (he.symm.trans hd)))⟩

theorem Session.Declares.structs_eq_none (hs : s.Declares S) {id : NodeId}
    (h : ¬s.context.contains id) : S.structs id = none := by
  rw [Option.eq_none_iff_forall_ne_some]
  intro d hd
  simp [Context.contains, NodeTypes.contains, (hs.recorded id d hd).2] at h

theorem Session.Coherent.withoutParams (hs : s.Coherent S) : s.Coherent S.withoutParams :=
  ⟨hs.bindings, hs.structs, fun _ _ _ _ h => h.elim, hs.types, hs.located⟩

/-- What a lookup gives: the declaration of a struct, or a coherent type. -/
theorem Session.Coherent.lookup (hs : s.Coherent S) (hS : S.structs.Closed) {id : NodeId} {t : Ty}
    (h : s.context.lookup id = some t) :
    (S.isStruct id → ∃ d, S.structs id = some d ∧ t = .adt d) ∧
      (¬S.isStruct id → t.Coherent S.structs) ∧ ∀ q, S.params id q → t = .param q := by
  obtain ⟨u, hu, rfl⟩ := Option.map_eq_some_iff.1 h
  refine ⟨fun hid => ?_, fun hid => hs.bindings.resolve hS (hs.types id u hu hid), fun q hq => ?_⟩
  · obtain ⟨d, hd, rfl⟩ := hs.structs id u hu hid
    exact ⟨d, hd, (rewrite_adt _ _ d).trans (congrArg Ty.adt ((hS id d hd).map_vars_eq _))⟩
  · rw [hs.params id u q hu hq]
    rfl

namespace Check

variable {α β : Type} {P : α → Prop} {Q : β → Prop}

/-- Whether a computation keeps sessions coherent, and gives a result with this property if any. -/
def Preserves (S : Scope) (x : Check α) (P : α → Prop) : Prop :=
  ∀ s : Session, s.Coherent S → (x.perform s).2.Coherent S ∧ ∀ a, (x.perform s).1 = .ok a → P a

theorem preserves_pure {a : α} (h : P a) : Preserves S (pure a : Check α) P := by
  intro s hs
  refine ⟨hs, fun b hb => ?_⟩
  obtain rfl : a = b := by simpa using hb
  exact h

theorem Preserves.bind {x : Check α} {f : α → Check β} (hx : Preserves S x P)
    (hf : ∀ a, P a → Preserves S (f a) Q) : Preserves S (x >>= f) Q := by
  intro s hs
  have hs' := hx s hs
  rw [perform_bind]
  rcases hrun : x.perform s with ⟨e | a, s'⟩
  · rw [hrun] at hs'
    exact ⟨hs'.1, fun b hb => by cases hb⟩
  · rw [hrun] at hs'
    exact hf a (hs'.2 a rfl) s' hs'.1

theorem preserves_throw (e : Abort) : Preserves S (throw e : Check α) P :=
  fun _ hs => ⟨hs, fun _ hb => by cases hb⟩

/-! ## The steps of a check -/

theorem coherent_sink (hs : s.Coherent S) (sink : Sink) : ({ s with sink } : Session).Coherent S :=
  ⟨hs.bindings, hs.structs, hs.params, hs.types, hs.located⟩

theorem preserves_report (cause : Cause) (span : Span) :
    Preserves S (report cause span) fun _ => True :=
  fun _ hs => ⟨coherent_sink hs _, fun _ _ => trivial⟩

theorem preserves_reportTyped (cause : Cause) (span : Span) :
    Preserves S (reportTyped cause span) (Ty.Coherent S.structs) :=
  (preserves_report cause span).bind fun _ _ => preserves_pure (coherent_leaf (by simp) rfl)

theorem preserves_giveUp (cause : Cause) (span : Span) :
    Preserves S (giveUp cause span : Check α) P :=
  (preserves_report cause span).bind fun _ _ => preserves_throw .item

theorem preserves_giveUpAll (cause : Cause) (span : Span) :
    Preserves S (giveUpAll cause span : Check α) P := by
  intro s hs
  rw [perform_giveUpAll]
  exact ⟨coherent_sink hs _, fun _ hb => by cases hb⟩

theorem coherent_insert (hs : s.Coherent S) {id : NodeId} {t : Ty} (hid : ¬S.isStruct id)
    (hparam : ∀ q, S.params id q → t = .param q) (ht : t.Coherent S.structs) :
    ({ s with context := s.context.insert id t } : Session).Coherent S := by
  have hfind {i : NodeId} {u : Ty} (hu : (s.context.insert id t).types.find? i = some u)
      (hne : i ≠ id) : s.context.types.find? i = some u := by
    simpa [Context.insert, hne] using hu
  refine ⟨hs.bindings, fun i u hu hi => ?_, fun i u q hu hi => ?_, fun i u hu hi => ?_, hs.located⟩
  · exact hs.structs i u (hfind hu fun heq => hid (heq ▸ hi)) hi
  · by_cases heq : i = id
    · obtain rfl : t = u := by simpa [Context.insert, heq] using hu
      exact hparam q (heq ▸ hi)
    · exact hs.params i u q (hfind hu heq) hi
  · by_cases heq : i = id
    · obtain rfl : t = u := by simpa [Context.insert, heq] using hu
      exact ht
    · exact hs.types i u (hfind hu heq) hi

theorem preserves_record {id : NodeId} {t : Ty} (hid : S.Free id) (ht : t.Coherent S.structs) :
    Preserves S (record id t) fun _ => True :=
  fun _ hs => ⟨coherent_insert hs hid.1 (fun q hq => (hid.2 q hq).elim) ht, fun _ _ => trivial⟩

theorem preserves_recorded {G : Ty → Prop} {id : NodeId} {t : Ty} (hid : S.Free id)
    (ht : t.Coherent S.structs) (hG : G t) : Preserves S (recorded id t) G :=
  (preserves_record hid ht).bind fun _ _ => preserves_pure hG

theorem preserves_newVar (k : VarKind) :
    Preserves S (newVar k) fun t => ∃ l v, t = .infer l v := by
  intro s hs
  refine ⟨⟨hs.bindings, hs.structs, hs.params, hs.types, hs.located⟩, fun t ht => ?_⟩
  exact ⟨k, s.context.bindings.count, (Except.ok.inj ht).symm⟩

theorem preserves_builtin? (name : String) :
    Preserves S (builtin? name) fun r => ∀ t, r = some t → ∃ p, t = .prim p := by
  refine fun s hs => ⟨hs, fun r hr t ht => ?_⟩
  subst ht
  obtain ⟨p, -, rfl⟩ := Option.map_eq_some_iff.1 (Except.ok.inj hr)
  exact ⟨p, rfl⟩

theorem preserves_builtin (name : String) :
    Preserves S (builtin name) (Ty.Coherent S.structs) := by
  intro s hs
  have hrun : (builtin name).perform s = (orDefect (s.context.builtin name)).perform s := rfl
  rw [hrun, Context.builtin]
  cases hr : s.context.builtin? name with
  | none => exact ⟨hs, fun t ht => by cases ht⟩
  | some u =>
      refine ⟨hs, fun t ht => ?_⟩
      obtain ⟨p, -, rfl⟩ := Option.map_eq_some_iff.1 hr
      obtain rfl : .prim p = t := Except.ok.inj ht
      exact coherent_leaf (by simp) rfl

/-- A new node is not a struct. -/
theorem preserves_allocate (span : Span) :
    Preserves S (allocate span) fun id => ¬S.isStruct id := by
  intro s hs
  rw [perform_allocate]
  refine ⟨⟨hs.bindings, hs.structs, hs.params, hs.types, fun id hid => ?_⟩, fun id hid => ?_⟩
  · rw [Locations.size_alloc]
    exact Nat.lt_succ_of_lt (hs.located id hid)
  · obtain rfl : s.locations.size = id := Except.ok.inj hid
    exact fun hstruct => Nat.lt_irrefl _ (hs.located _ hstruct)

section

variable (hS : S.structs.Closed)
include hS

theorem preserves_lookup (id : NodeId) : Preserves S (lookup id) fun r => ∀ t, r = some t →
    (S.isStruct id → ∃ d, S.structs id = some d ∧ t = .adt d) ∧
      (¬S.isStruct id → t.Coherent S.structs) ∧ ∀ q, S.params id q → t = .param q := by
  refine fun s hs => ⟨hs, fun r hr t ht => ?_⟩
  subst ht
  exact hs.lookup hS (Except.ok.inj hr)

theorem preserves_resolve {t : Ty} (ht : t.Coherent S.structs) :
    Preserves S (resolve t) (Ty.Coherent S.structs) := by
  refine fun s hs => ⟨hs, fun u hu => ?_⟩
  rw [← Except.ok.inj hu]
  exact hs.bindings.resolve hS ht

theorem preserves_unify {t u : Ty} (ht : t.Coherent S.structs) (hu : u.Coherent S.structs) :
    Preserves S (unify t u) fun r => ∀ v, r = .ok v → v.Coherent S.structs := by
  intro s hs
  obtain ⟨hbindings, hresult⟩ := Context.coherent_unify hS ht hu hs.bindings
  rw [perform_unify]
  refine ⟨⟨hbindings, hs.structs, hs.params, hs.types, hs.located⟩, fun r hr v hv => hresult v ?_⟩
  rw [← hv]
  exact Except.ok.inj hr

theorem preserves_unifyAt (span : Span) {t u : Ty} (ht : t.Coherent S.structs)
    (hu : u.Coherent S.structs) : Preserves S (unifyAt span t u) (Ty.Coherent S.structs) := by
  refine (preserves_unify hS ht hu).bind fun r hr => ?_
  cases r with
  | ok v => exact preserves_pure (hr v rfl)
  | error e => exact preserves_reportTyped _ span

theorem preserves_freshInstance {id : NodeId} {d : Adt Ty} (hd : S.structs id = some d) :
    Preserves S (freshInstance d) fun a => d.params = [] ∧ a = d ∨
      d.params ≠ [] ∧ ∃ args, args.length = d.params.length ∧ a = d.instantiate args ∧
        ∀ u ∈ args, ∃ k v, u = .infer k v := by
  intro s hs
  have hbindings := (Context.coherent_freshInstance hS hd hs.bindings).1
  rw [perform_freshInstance]
  unfold Context.freshInstance at hbindings ⊢
  split at hbindings
  · rename_i hgeneric
    rw [if_pos hgeneric]
    refine ⟨hs, fun a ha => .inl ⟨by simpa [Adt.isGeneric] using hgeneric, ?_⟩⟩
    exact (Except.ok.inj ha).symm
  · rename_i hgeneric
    rw [if_neg hgeneric]
    refine ⟨⟨hbindings, hs.structs, hs.params, hs.types, hs.located⟩, fun a ha => .inr
      ⟨by simpa [Adt.isGeneric] using hgeneric, _, ?_, (Except.ok.inj ha).symm, fun u hu => ?_⟩⟩
    · simp [Bindings.newVars]
    · obtain ⟨i, -, rfl⟩ := List.mem_map.1 hu
      exact ⟨_, _, rfl⟩

end

end Check

/-! ## Written types -/

/-- A property that the types in a scope have if their arguments have it. -/
structure Scope.Closes (S : Scope) (G : Ty → Prop) : Prop where
  coherent : ∀ t, G t → t.Coherent S.structs
  unit : G .unit
  prim : ∀ p, G (.prim p)
  plain : ∀ {id d}, S.structs id = some d → d.params = [] → G (.adt d)
  generic : ∀ {id d} {args : List Ty}, S.structs id = some d → d.params ≠ [] →
    args.length = d.params.length → (∀ u ∈ args, G u) → G (.adt (d.instantiate args))

theorem Scope.closes_coherent (hS : S.structs.Closed) : S.Closes (Ty.Coherent S.structs) :=
  ⟨fun _ h => h, coherent_leaf (by simp) rfl, fun _ => coherent_leaf (by simp) rfl,
    fun hd hparams => coherent_declaration hS hd hparams,
    fun hd hparams hlen hargs => coherent_instantiate hS hd hparams hlen hargs⟩

/-- Whether a name in a written type may stand for this: the types read then have the property. -/
def Scope.Allows (S : Scope) (G : Ty → Prop) : TypeRes → Prop
  | .builtin => True
  | .adt id => S.isStruct id
  | .param id => ∃ q, S.params id q ∧ G (.param q)

/-- Whether types may be left out: in a body they are inferred. -/
def Position.Infers (G : Ty → Prop) : Position → TypeRef → Prop
  | .body, _ => ∀ k v, G (.infer k v)
  | .signature, t => t.isComplete

theorem Position.Infers.arg {G : Ty → Prop} {position : Position} {m : Mark} {name : String}
    {res : Option TypeRes} {args : List TypeRef} (h : position.Infers G (.path m name res args))
    {t : TypeRef} (ht : t ∈ args) : position.Infers G t := by
  cases position with
  | body => exact h
  | signature => exact TypeRef.areComplete_iff.1 h t ht

namespace Check

section

variable {G : Ty → Prop} (hS : S.structs.Closed) (hG : S.Closes G)
include hG

theorem preserves_withArgs {id : NodeId} {d : Adt Ty} (hd : S.structs id = some d) {args : List Ty}
    (hargs : ∀ u ∈ args, G u) (span : Span) :
    Preserves S (d.withArgs args span) fun a => G (.adt a) := by
  unfold Adt.withArgs
  split
  · rename_i b hb
    apply preserves_pure
    obtain ⟨hparams, rfl⟩ | ⟨hparams, hlen, rfl⟩ := Adt.apply_eq_ok_iff.1 hb
    · exact hG.plain hd hparams
    · exact hG.generic hd hparams hlen hargs
  · exact preserves_giveUp _ _

include hS

/-- An instance with fresh variables, where types may be left out. -/
theorem preserves_freshArgs {id : NodeId} {d : Adt Ty} (hd : S.structs id = some d)
    (hvars : ∀ k v, G (.infer k v)) : Preserves S (freshInstance d) fun a => G (.adt a) := by
  intro s hs
  obtain ⟨hs', hresult⟩ := preserves_freshInstance hS hd s hs
  refine ⟨hs', fun a ha => ?_⟩
  rcases hresult a ha with ⟨hparams, rfl⟩ | ⟨hparams, args, hlen, rfl, hargs⟩
  · exact hG.plain hd hparams
  · refine hG.generic hd hparams hlen fun u hu => ?_
    obtain ⟨k, v, rfl⟩ := hargs u hu
    exact hvars k v

omit hS hG in
theorem preserves_readAll {position : Position} {ts : List TypeRef}
    (h : ∀ t ∈ ts, Preserves S (t.read position) G) :
    Preserves S (TypeRef.readAll position ts) fun tys => ∀ t ∈ tys, G t := by
  induction ts with
  | nil =>
      rw [TypeRef.readAll]
      exact preserves_pure (by simp)
  | cons t ts ih =>
      rw [TypeRef.readAll]
      refine (h t List.mem_cons_self).bind fun ty hty => ?_
      refine (ih fun u hu => h u (List.mem_cons_of_mem _ hu)).bind fun tys htys => ?_
      exact preserves_pure (List.forall_mem_cons.2 ⟨hty, htys⟩)

omit hS in
theorem preserves_typed {id : NodeId} (hid : S.Free id) {t : Ty} (ht : G t) :
    Preserves S (recorded id t) G :=
  preserves_recorded hid (hG.coherent t ht) ht

theorem preserves_readStruct {position : Position} {m : Mark} {name : String} {id : NodeId}
    {args : List TypeRef} (hm : S.Free m.id) (hid : S.isStruct id)
    (hargs : Preserves S (TypeRef.readAll position args) fun tys => ∀ t ∈ tys, G t)
    (hinfers : position.Infers G (.path m name (some (.adt id)) args)) :
    Preserves S ((TypeRef.path m name (some (.adt id)) args).read position) G := by
  refine (preserves_lookup hS id).bind fun r hr => ?_
  split
  · rename_i a
    obtain ⟨d, hd, heq⟩ := (hr _ rfl).1 hid
    obtain rfl : a = d := Ty.adt.inj heq
    split
    · rename_i hfree
      cases position with
      | signature => simp at hfree
      | body =>
          exact (preserves_freshArgs hS hG hd hinfers).bind fun b hb => preserves_typed hG hm hb
    · exact hargs.bind fun tys htys => (preserves_withArgs hG hd htys m.span).bind fun b hb =>
        preserves_typed hG hm hb
  · exact preserves_giveUp _ _
  · exact preserves_giveUp _ _

theorem preserves_read {position : Position} {t : TypeRef} (hids : ∀ id ∈ t.ids, S.Free id)
    (hres : ∀ r ∈ t.resolutions, S.Allows G r) (hinfers : position.Infers G t) :
    Preserves S (t.read position) G := by
  induction t with
  | unit m => exact preserves_typed hG (hids m.id (by simp [TypeRef.ids])) hG.unit
  | infer m =>
      cases position with
      | signature => simp [Position.Infers, TypeRef.isComplete] at hinfers
      | body =>
          refine (preserves_newVar .general).bind fun t ht => ?_
          obtain ⟨k, v, rfl⟩ := ht
          exact preserves_typed hG (hids m.id (by simp [TypeRef.ids])) (hinfers k v)
  | unresolved m name args => exact preserves_giveUp _ _
  | builtin m name args =>
      refine (preserves_builtin? name).bind fun r hr => ?_
      cases r with
      | none => exact preserves_giveUp _ _
      | some t =>
          obtain ⟨p, rfl⟩ := hr t rfl
          exact preserves_typed hG (hids m.id (by simp [TypeRef.ids])) (hG.prim p)
  | adt m name id args ih =>
      obtain ⟨hm, hids⟩ := List.forall_mem_cons.1 hids
      obtain ⟨hid, hres⟩ := List.forall_mem_cons.1 hres
      refine preserves_readStruct hS hG hm hid (preserves_readAll fun t ht => ?_) hinfers
      exact ih t ht (fun i hi => hids i (TypeRef.ids_subset_idsAll ht hi))
        (fun r hr => hres r (TypeRef.resolutions_subset_resolutionsAll ht hr)) (hinfers.arg ht)
  | param m name id args =>
      obtain ⟨q, hq, hparam⟩ := (List.forall_mem_cons.1 hres).1
      refine (preserves_lookup hS id).bind fun r hr => ?_
      cases r with
      | none => exact preserves_giveUp _ _
      | some t =>
          obtain rfl := (hr t rfl).2.2 q hq
          exact preserves_typed hG (hids m.id (by simp [TypeRef.ids])) hparam

end

end Check

end TypeInference

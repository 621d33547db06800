import TypeInference.Proofs.Check.Displaced
import TypeInference.Proofs.Program.References

/-!
# Types found at another place

Reading written types, naming structs and working out the type of an expression
from the types of its parts come to the same at another place.
-/

namespace TypeInference

open Ty Check

namespace Place

def Resolves (P : Place) : TypeRes → Prop
  | .builtin => True
  | .adt id => P.inScope id
  | .param id => P.inScope id

structure Admits (P : Place) (ids : List NodeId) (resolutions : List TypeRes)
    (references : List NodeId) : Prop where
  ids : ∀ id ∈ ids, P.inScope id
  resolutions : ∀ r ∈ resolutions, P.Resolves r
  references : ∀ id ∈ references, P.inScope id

variable {P : Place} {kinds : List VarKind} {ids ids' refs refs' : List NodeId}
  {ress ress' : List TypeRes}

namespace Admits

theorem mono (h : P.Admits ids' ress' refs') (hids : ids ⊆ ids') (hress : ress ⊆ ress')
    (hrefs : refs ⊆ refs') : P.Admits ids ress refs :=
  ⟨fun _ hi => h.ids _ (hids hi), fun _ hr => h.resolutions _ (hress hr),
    fun _ hi => h.references _ (hrefs hi)⟩

theorem head {id : NodeId} (h : P.Admits (id :: ids) ress refs) : P.inScope id :=
  h.ids id List.mem_cons_self

theorem tail {id : NodeId} (h : P.Admits (id :: ids) ress refs) : P.Admits ids ress refs :=
  h.mono (List.subset_cons_self _ _) (List.Subset.refl _) (List.Subset.refl _)

theorem left (h : P.Admits (ids ++ ids') (ress ++ ress') (refs ++ refs')) :
    P.Admits ids ress refs :=
  h.mono (List.subset_append_left _ _) (List.subset_append_left _ _) (List.subset_append_left _ _)

theorem right (h : P.Admits (ids ++ ids') (ress ++ ress') (refs ++ refs')) :
    P.Admits ids' ress' refs' :=
  h.mono (List.subset_append_right _ _) (List.subset_append_right _ _)
    (List.subset_append_right _ _)

theorem member {ν : Type} {nodes : List ν} {node : ν} {f g : ν → List NodeId} {r : ν → List TypeRes}
    (h : P.Admits (nodes.flatMap f) (nodes.flatMap r) (nodes.flatMap g)) (hnode : node ∈ nodes) :
    P.Admits (f node) (r node) (g node) :=
  h.mono (fun _ hi => List.mem_flatMap.2 ⟨node, hnode, hi⟩)
    (fun _ hr => List.mem_flatMap.2 ⟨node, hnode, hr⟩)
    fun _ hi => List.mem_flatMap.2 ⟨node, hnode, hi⟩

end Admits

abbrev AdmitsType (P : Place) (t : TypeRef) : Prop := P.Admits t.ids t.resolutions []

theorem Admits.args {p : Path} (h : P.Admits p.ids p.resolutions refs) :
    ∀ t ∈ p.args, P.AdmitsType t := by
  intro t ht
  unfold Path.args at ht
  cases hlast : p.segments.getLast? with
  | none => simp [hlast] at ht
  | some segment =>
      have hmem := List.mem_of_getLast? hlast
      simp only [hlast, Option.map_some, Option.getD_some] at ht
      refine h.mono (fun i hi => ?_) (fun r hr => ?_) (List.nil_subset _)
      · exact List.mem_flatMap.2 ⟨segment, hmem, TypeRef.ids_subset_idsAll ht hi⟩
      · exact List.mem_flatMap.2 ⟨segment, hmem, TypeRef.resolutions_subset_resolutionsAll ht hr⟩

def TypesAll (P : Place) (kinds : List VarKind) : List Ty → List Ty → Prop :=
  List.Forall₂ (P.Types kinds)

theorem TypesAll.iff {ts ts' : List Ty} :
    P.TypesAll kinds ts ts' ↔ (∀ t ∈ ts, t.WellKinded kinds) ∧ ts' = ts.map P.ty := by
  induction ts generalizing ts' with
  | nil => simp [TypesAll]
  | cons t ts ih =>
      cases ts' with
      | nil => simp [TypesAll]
      | cons t' ts' =>
          have hrest := @ih ts'
          simp only [TypesAll] at hrest
          simp only [TypesAll, List.forall₂_cons, hrest, Types, List.forall_mem_cons, List.map_cons,
            List.cons.injEq]
          tauto

theorem TypesAll.mono {ts ts' : List Ty} {kinds' : List VarKind} (h : P.TypesAll kinds ts ts')
    (hk : kinds <+: kinds') : P.TypesAll kinds' ts ts' :=
  h.imp fun _ _ h => h.mono hk

end Place

theorem UnOp.supports_shift (n : Nat) (op : UnOp) (t : Ty) :
    op.supports (t.shift n) = op.supports t := supports_renumber (· + n) op t

@[simp] theorem Adt.field?_map (f : Ty → Ty) (a : Adt Ty) (name : String) :
    (a.map f).field? name = (a.field? name).map (Field.map f) := by
  rw [Adt.field?, Adt.map, List.find?_map]
  rfl

namespace Check

variable {P : Place} {kinds : List VarKind} {t t' u u' : Ty} {a a' : Adt Ty}

/-! ## Written types -/

theorem mirrors_withArgs (ha : P.Structs kinds a a') {args args' : List Ty}
    (hargs : P.TypesAll kinds args args') (span : Span) :
    Mirrors P kinds (a.withArgs args span) (a'.withArgs args' span) P.Structs := by
  obtain ⟨hwell, rfl⟩ := Place.structs_iff.1 ha
  obtain ⟨hall, rfl⟩ := Place.TypesAll.iff.1 hargs
  have hgeneric : (a.map P.ty).isGeneric = a.isGeneric := rfl
  have hparams : (a.map P.ty).params = a.params := rfl
  unfold Adt.withArgs Adt.apply
  rw [hgeneric, hparams, List.length_map]
  by_cases h : !a.isGeneric
  · rw [if_pos h, if_pos h]
    exact mirrors_pure ha
  · rw [if_neg h, if_neg h]
    by_cases hlen : args.length ≠ a.params.length
    · rw [if_pos hlen, if_pos hlen]
      exact mirrors_giveUp _ _ span span
    · rw [if_neg hlen, if_neg hlen]
      exact mirrors_pure (Place.structs_iff.2
        ⟨every_instantiate (isLocal_hasKind _) trivial hwell hall, (shift_instantiate _ a args).symm⟩)

theorem mirrors_readAll {position : Position} {ts : List TypeRef}
    (h : ∀ t ∈ ts, ∀ kinds, Mirrors P kinds (t.read position) (t.read position) P.Types) :
    Mirrors P kinds (TypeRef.readAll position ts) (TypeRef.readAll position ts) P.TypesAll := by
  induction ts generalizing kinds with
  | nil =>
      rw [TypeRef.readAll]
      exact mirrors_pure .nil
  | cons t ts ih =>
      rw [TypeRef.readAll]
      refine (h t List.mem_cons_self kinds).bind fun kinds₁ _ ty ty' hty => ?_
      refine (ih fun u hu => h u (List.mem_cons_of_mem _ hu)).bind fun kinds₂ hk tys tys' htys => ?_
      exact mirrors_pure (.cons (hty.mono hk) htys)

theorem mirrors_readStruct {position : Position} {m : Mark} {name : String} {id : NodeId}
    {args : List TypeRef} (hm : P.inScope m.id) (hid : P.inScope id)
    (hargs : ∀ t ∈ args, ∀ kinds, Mirrors P kinds (t.read position) (t.read position) P.Types) :
    Mirrors P kinds ((TypeRef.path m name (some (.adt id)) args).read position)
      ((TypeRef.path m name (some (.adt id)) args).read position) P.Types := by
  refine (mirrors_lookup hid).bind fun kinds₁ _ r r' hr => ?_
  obtain ⟨hwell, rfl⟩ := hr
  rcases r with _ | ty
  · exact mirrors_giveUp _ _ _ _
  · cases ty with
    | adt a =>
        have ha : P.Structs kinds₁ a (a.map P.ty) := Place.structs_map (hwell _ rfl)
        rw [Option.map_some, Place.ty_adt]
        simp only
        split
        · exact (mirrors_freshInstance ha).bind fun _ _ b b' hb => mirrors_recorded hm hb
        · refine (mirrors_readAll hargs).bind fun _ hk tys tys' htys => ?_
          refine (mirrors_withArgs (ha.mono hk) htys m.span).bind fun _ _ b b' hb => ?_
          exact mirrors_recorded hm hb
    | _ => exact mirrors_giveUp _ _ _ _

theorem mirrors_read (position : Position) {t : TypeRef} (h : P.AdmitsType t) :
    Mirrors P kinds (t.read position) (t.read position) P.Types := by
  induction t generalizing kinds with
  | unit m => exact mirrors_recorded h.head Place.types_unit
  | infer m => exact (mirrors_newVar .general).bind fun _ _ t t' ht => mirrors_recorded h.head ht
  | unresolved m name args => exact mirrors_giveUp _ _ _ _
  | builtin m name args =>
      refine (mirrors_builtin? name).bind fun _ _ r r' hr => ?_
      obtain ⟨q, rfl, rfl⟩ := hr
      cases q with
      | none => exact mirrors_giveUp _ _ _ _
      | some p => exact mirrors_recorded h.head (Place.types_prim p)
  | adt m name id args ih =>
      refine mirrors_readStruct h.head (h.resolutions (.adt id) List.mem_cons_self)
        fun t ht kinds => ih t ht ?_
      exact h.tail.mono (TypeRef.ids_subset_idsAll ht) (fun _ hr => List.mem_cons_of_mem _
        (TypeRef.resolutions_subset_resolutionsAll ht hr)) (List.nil_subset _)
  | param m name id args =>
      refine (mirrors_lookup (h.resolutions (.param id) List.mem_cons_self)).bind
        fun _ _ r r' hr => ?_
      obtain ⟨hwell, rfl⟩ := hr
      cases r with
      | none => exact mirrors_giveUp _ _ _ _
      | some t => exact mirrors_recorded h.head ⟨hwell t rfl, rfl⟩

theorem mirrors_readOptional {t : Option TypeRef} (h : ∀ u, t = some u → P.AdmitsType u) :
    Mirrors P kinds (TypeRef.readOptional .body t) (TypeRef.readOptional .body t) fun kinds =>
      Option.Rel (P.Types kinds) := by
  cases t with
  | none => exact mirrors_pure .none
  | some t => exact (mirrors_read .body (h t rfl)).bind fun _ _ _ _ ht => mirrors_pure (.some ht)

theorem mirrors_instanceIn (ha : P.Structs kinds a a') {args : List TypeRef}
    (hargs : ∀ t ∈ args, P.AdmitsType t) (span : Span) :
    Mirrors P kinds (a.instanceIn args span) (a'.instanceIn args span) P.Structs := by
  unfold Adt.instanceIn
  split
  · exact mirrors_freshInstance ha
  · refine (mirrors_readAll fun t ht _ => mirrors_read .body (hargs t ht)).bind
      fun _ hk tys tys' htys => ?_
    exact mirrors_withArgs (ha.mono hk) htys span

/-! ## Paths -/

theorem mirrors_pathType (span : Span) {p : Path} (hres : ∀ id ∈ p.res.toList, P.inScope id)
    (hargs : ∀ t ∈ p.args, P.AdmitsType t) :
    Mirrors P kinds (pathType span p) (pathType span p) P.Types := by
  unfold pathType
  cases h : p.res with
  | none => exact mirrors_giveUp _ _ _ _
  | some res =>
      refine (mirrors_lookup (hres res (by simp [h]))).bind fun kinds₁ _ r r' hr => ?_
      obtain ⟨hwell, rfl⟩ := hr
      rcases r with _ | t
      · exact mirrors_giveUp _ _ _ _
      · have ht : P.Types kinds₁ t (P.ty t) := Place.types_ty (hwell t rfl)
        cases t with
        | adt a =>
            have ha : P.Structs kinds₁ a (a.map P.ty) := Place.structs_map (hwell _ rfl)
            rw [Option.map_some, Place.ty_adt]
            have hfree : (a.map P.ty).isUninstantiated = a.isUninstantiated := by
              simp [Adt.isUninstantiated, Adt.isGeneric, Adt.map]
            simp only [hfree]
            split
            · exact (mirrors_instanceIn ha hargs span).bind fun _ _ _ _ hb => mirrors_pure hb
            · exact mirrors_pure ha
        | _ => exact mirrors_pure ht

theorem mirrors_structOf (span : Span) {p : Path} (hres : ∀ id ∈ p.res.toList, P.inScope id)
    (hargs : ∀ t ∈ p.args, P.AdmitsType t) :
    Mirrors P kinds (structOf p span) (structOf p span) P.Structs := by
  unfold structOf
  cases h : p.res with
  | none => exact mirrors_giveUp _ _ _ _
  | some res =>
      refine (mirrors_lookup (hres res (by simp [h]))).bind fun kinds₁ _ r r' hr => ?_
      obtain ⟨hwell, rfl⟩ := hr
      rcases r with _ | t
      · exact mirrors_giveUp _ _ _ _
      · cases t with
        | adt a =>
            have ha : P.Structs kinds₁ a (a.map P.ty) := Place.structs_map (hwell _ rfl)
            rw [Option.map_some, Place.ty_adt]
            have hfree : (a.map P.ty).isUninstantiated = a.isUninstantiated := by
              simp [Adt.isUninstantiated, Adt.isGeneric, Adt.map]
            simp only [hfree]
            split
            · exact mirrors_instanceIn ha hargs span
            · exact mirrors_pure ha
        | _ => exact mirrors_giveUp _ _ _ _

/-! ## Compound expressions -/

theorem mirrors_suffixedType (accepts : Prim → Bool) (suffix : String) (span : Span) :
    Mirrors P kinds (suffixedType accepts suffix span) (suffixedType accepts suffix span) P.Types := by
  refine (mirrors_builtin? suffix).bind fun _ _ r r' hr => ?_
  obtain ⟨q, rfl, rfl⟩ := hr
  cases q with
  | none => exact mirrors_reportTyped _ _ span span
  | some p =>
      simp only [Option.map_some]
      split
      · exact mirrors_pure (Place.types_prim p)
      · exact mirrors_reportTyped _ _ span span

theorem mirrors_literalType (span : Span) (l : Literal) :
    Mirrors P kinds (literalType span l) (literalType span l) P.Types := by
  cases l with
  | int value suffix =>
      cases suffix with
      | none => exact mirrors_newVar _
      | some suffix => exact mirrors_suffixedType _ _ _
  | float bits suffix =>
      cases suffix with
      | none => exact mirrors_newVar _
      | some suffix => exact mirrors_suffixedType _ _ _
  | bool value => exact mirrors_builtin _
  | char value => exact mirrors_builtin _
  | str value => exact mirrors_builtin _
  | unit => exact mirrors_pure Place.types_unit

/-- The type at this place is known by the form of the other one. -/
theorem mirrors_fieldType (span : Span) (name : String) (ht : P.Types kinds t t') :
    Mirrors P kinds (fieldType span name t) (fieldType span name t') P.Types := by
  refine (mirrors_resolve ht).bind fun kinds₁ _ u u' hu => ?_
  obtain ⟨hwell, rfl⟩ := hu
  cases u with
  | error => exact mirrors_pure Place.types_error
  | adt a =>
      rw [Place.ty_adt]
      simp only [Adt.field?_map]
      cases hf : a.field? name with
      | none => exact mirrors_reportTyped _ _ span span
      | some f =>
          have hmem := (Adt.field?_eq_some hf).1
          exact mirrors_pure
            (Place.types_ty (hwell.part (List.mem_append_left _ (List.mem_map_of_mem hmem))))
  | _ => exact mirrors_reportTyped _ _ span span

theorem mirrors_unifyArgs {ps ps' : List Ty} (hps : P.TypesAll kinds ps ps')
    {args args' : List (Ty × Span)}
    (hargs : List.Forall₂ (fun x x' => P.Types kinds x.1 x'.1) args args') :
    Mirrors P kinds (unifyArgs ps args) (unifyArgs ps' args') fun _ _ _ => True := by
  induction ps generalizing ps' args args' kinds with
  | nil =>
      cases hps
      exact mirrors_pure trivial
  | cons p ps ih =>
      cases hps with
      | cons hp hps =>
          cases hargs with
          | nil => exact mirrors_pure trivial
          | cons harg hargs =>
              refine (mirrors_unifyAt _ _ hp harg).bind fun kinds₁ hk _ _ _ => ?_
              exact ih (Place.TypesAll.mono hps hk) (hargs.imp fun _ _ h => h.mono hk)

theorem mirrors_callType (span calleeSpan calleeSpan' : Span) (ht : P.Types kinds t t')
    {args args' : List (Ty × Span)}
    (hargs : List.Forall₂ (fun x x' => P.Types kinds x.1 x'.1) args args') :
    Mirrors P kinds (callType span calleeSpan t args) (callType span calleeSpan' t' args') P.Types := by
  refine (mirrors_resolve ht).bind fun kinds₁ hk u u' hu => ?_
  have hargs₁ : List.Forall₂ (fun x x' => P.Types kinds₁ x.1 x'.1) args args' :=
    hargs.imp fun _ _ h => h.mono hk
  obtain ⟨hwell, rfl⟩ := hu
  cases u with
  | error => exact mirrors_pure Place.types_error
  | fn ps r =>
      obtain ⟨heq, hps, hr⟩ := Place.types_fn ⟨hwell, rfl⟩
      rw [heq]
      have hrest (kinds₂ : List VarKind) (hk₂ : kinds₁ <+: kinds₂) :
          Mirrors P kinds₂ (do unifyArgs ps args; return r)
            (do unifyArgs (ps.map P.ty) args'; return P.ty r) P.Types :=
        (mirrors_unifyArgs ((Place.TypesAll.iff.2 ⟨hps, rfl⟩).mono hk₂)
          (hargs₁.imp fun _ _ h => h.mono hk₂)).bind fun _ hk _ _ _ =>
            mirrors_pure ((Place.types_ty hr).mono (hk₂.trans hk))
      simp only [List.length_map, ← hargs.length_eq]
      split
      · exact (mirrors_report _ _ span span).bind fun _ hk _ _ _ => hrest _ hk
      · exact hrest _ List.prefix_rfl
  | adt a =>
      rw [Place.ty_adt]
      exact mirrors_reportTyped _ _ calleeSpan calleeSpan'
  | _ => exact mirrors_reportTyped _ _ calleeSpan calleeSpan'

theorem mirrors_unaryType (span : Span) (op : UnOp) (ht : P.Types kinds t t') :
    Mirrors P kinds (unaryType span op t) (unaryType span op t') P.Types := by
  refine (mirrors_resolve ht).bind fun kinds₁ _ u u' hu => ?_
  obtain ⟨hwell, rfl⟩ := hu
  simp only [Place.ty, UnOp.supports_shift]
  split
  · exact mirrors_pure (Place.types_ty hwell)
  · exact mirrors_reportTyped _ _ span span

theorem mirrors_binaryType (span : Span) (op : BinOp) {lspan lspan' rspan rspan' : Span}
    (ht : P.Types kinds t t') (hu : P.Types kinds u u') :
    Mirrors P kinds (binaryType span op (t, lspan) (u, rspan))
      (binaryType span op (t', lspan') (u', rspan')) P.Types := by
  unfold binaryType
  split
  · refine (mirrors_builtin "bool").bind fun kinds₁ hk₁ b b' hb => ?_
    refine (mirrors_unifyAt lspan lspan' hb (ht.mono hk₁)).bind fun kinds₂ hk₂ _ _ _ => ?_
    refine (mirrors_unifyAt rspan rspan' (hb.mono hk₂) (hu.mono (hk₁.trans hk₂))).bind
      fun kinds₃ hk₃ _ _ _ => ?_
    exact mirrors_pure (hb.mono (hk₂.trans hk₃))
  · refine (mirrors_unifyAt rspan rspan' ht hu).bind fun kinds₁ hk₁ c c' hc => ?_
    split
    · exact mirrors_builtin "bool"
    · refine (mirrors_resolve hc).bind fun kinds₂ _ d d' hd => ?_
      obtain ⟨hwell, rfl⟩ := hd
      simp only [Place.ty, isError_shift, isNumeric_shift, isGeneralVar_shift]
      split
      · exact mirrors_pure (Place.types_ty hwell)
      · exact mirrors_reportTyped _ _ span span

/-! ## Statements -/

theorem mirrors_bindingType {annotated annotated' : Option Ty} {init init' : Option (Ty × Span)}
    (hannotated : Option.Rel (P.Types kinds) annotated annotated')
    (hinit : Option.Rel (fun x x' => P.Types kinds x.1 x'.1) init init') :
    Mirrors P kinds (bindingType annotated init) (bindingType annotated' init') P.Types := by
  cases hannotated with
  | none =>
      cases hinit with
      | none => exact mirrors_newVar .general
      | some hinit => exact mirrors_pure hinit
  | some ht =>
      cases hinit with
      | none => exact mirrors_pure ht
      | some hinit =>
          refine (mirrors_unifyAt _ _ ht hinit).bind fun kinds₁ hk u u' hu => ?_
          obtain ⟨hwell, rfl⟩ := hu
          refine mirrors_pure ?_
          rw [Place.ty, isError_shift]
          split
          · exact ht.mono hk
          · exact Place.types_ty hwell

theorem mirrors_requireUnit (span span' : Span) (ht : P.Types kinds t t') :
    Mirrors P kinds (requireUnit span t) (requireUnit span' t') fun _ _ _ => True := by
  refine (mirrors_unify Place.types_unit ht).bind fun kinds₁ hk r r' hr => ?_
  cases hr with
  | ok h => exact mirrors_pure trivial
  | error h =>
      exact (mirrors_resolve (ht.mono hk)).bind fun _ _ _ _ _ => mirrors_report _ _ span span'

end Check

end TypeInference

import TypeInference.Check.Program
import TypeInference.Proofs.Check.Coherence

/-!
# Bodies keep types coherent

The types that a body gives to its nodes agree with the declarations of their
structs, because instantiation and unification are all that makes them. By
induction on programs this holds of every walk, also of one that aborts.
-/

namespace TypeInference

open Ty Walk Check

variable {S : Scope} {α β : Type} {P : α → Prop} {Q : β → Prop}

/-- A struct type that is coherent has been instantiated. -/
theorem Ty.Coherent.isUninstantiated_eq_false {D : Declarations} {a : Adt Ty}
    (h : (Ty.adt a).Coherent D) : a.isUninstantiated = false := by
  obtain ⟨d, -, ⟨hparams, rfl⟩ | ⟨-, args, -, rfl⟩⟩ := h.root
  · simp [Adt.isUninstantiated, Adt.isGeneric, hparams]
  · simp [Adt.isUninstantiated, Adt.instantiate]

/-- A declaration that need not be instantiated is coherent itself. -/
theorem Ty.coherent_of_not_isUninstantiated {D : Declarations} (hD : D.Closed) {id : NodeId}
    {d : Adt Ty} (hd : D id = some d) (h : ¬d.isUninstantiated) : (Ty.adt d).Coherent D := by
  refine coherent_declaration hD hd ?_
  simpa [Adt.isUninstantiated, Adt.isGeneric, (hD id d hd).args_eq] using h

namespace Check

variable (hS : S.structs.Closed)
include hS

/-! ## Instances -/

theorem preserves_readBody {t : TypeRef} (hids : ∀ id ∈ t.ids, S.Free id)
    (hres : ∀ r ∈ t.resolutions, S.Allows (Ty.Coherent S.structs) r) :
    Preserves S (t.read .body) (Ty.Coherent S.structs) :=
  preserves_read hS (S.closes_coherent hS) hids hres fun _ _ => coherent_leaf (by simp) rfl

theorem preserves_readOptional {t : Option TypeRef} (hids : ∀ id ∈ TypeRef.idsOption t, S.Free id)
    (hres : ∀ r ∈ TypeRef.resolutionsOption t, S.Allows (Ty.Coherent S.structs) r) :
    Preserves S (TypeRef.readOptional .body t) fun r => ∀ u, r = some u → u.Coherent S.structs := by
  cases t with
  | none => exact preserves_pure (by simp)
  | some t =>
      refine (preserves_readBody hS hids hres).bind fun u hu => preserves_pure ?_
      intro v hv
      exact Option.some.inj hv ▸ hu

theorem preserves_instanceIn {id : NodeId} {d : Adt Ty} (hd : S.structs id = some d)
    {args : List TypeRef} (hids : ∀ id ∈ TypeRef.idsAll args, S.Free id)
    (hres : ∀ r ∈ TypeRef.resolutionsAll args, S.Allows (Ty.Coherent S.structs) r) (span : Span) :
    Preserves S (d.instanceIn args span) fun a => (Ty.adt a).Coherent S.structs := by
  rw [TypeRef.idsAll_eq] at hids
  rw [TypeRef.resolutionsAll_eq] at hres
  unfold Adt.instanceIn
  split
  · exact preserves_freshArgs hS (S.closes_coherent hS) hd fun _ _ => coherent_leaf (by simp) rfl
  · refine (preserves_readAll fun t ht => ?_).bind fun tys htys =>
      preserves_withArgs (S.closes_coherent hS) hd htys span
    exact preserves_readBody hS (fun i hi => hids i (List.mem_flatMap.2 ⟨t, ht, hi⟩))
      fun r hr => hres r (List.mem_flatMap.2 ⟨t, ht, hr⟩)

end Check

structure Path.Readable (S : Scope) (p : Path) : Prop where
  free : ∀ id ∈ p.ids, S.Free id
  allows : ∀ r ∈ p.resolutions, S.Allows (Ty.Coherent S.structs) r

theorem Path.readable_ident (S : Scope) (name : String) (res : Option NodeId) :
    (Path.ident name res).Readable S :=
  ⟨by simp [Path.ident, Path.ids, TypeRef.idsAll],
    by simp [Path.ident, Path.resolutions, TypeRef.resolutionsAll]⟩

/-- What is written on the last segment of a path is written on the path. -/
theorem Path.exists_args_eq (p : Path) : p.args = [] ∨ ∃ s ∈ p.segments, p.args = s.args := by
  unfold Path.args
  rcases h : p.segments.getLast? with _ | s
  · exact .inl rfl
  · exact .inr ⟨s, List.mem_of_getLast? h, rfl⟩

theorem Path.Readable.args {p : Path} (h : p.Readable S) :
    (∀ id ∈ TypeRef.idsAll p.args, S.Free id) ∧
      ∀ r ∈ TypeRef.resolutionsAll p.args, S.Allows (Ty.Coherent S.structs) r := by
  rcases p.exists_args_eq with heq | ⟨s, hs, heq⟩
  · simp [heq, TypeRef.idsAll, TypeRef.resolutionsAll]
  · rw [heq]
    exact ⟨fun id hid => h.free id (List.mem_flatMap.2 ⟨s, hs, hid⟩),
      fun r hr => h.allows r (List.mem_flatMap.2 ⟨s, hs, hr⟩)⟩

namespace Check

variable (hS : S.structs.Closed)
include hS

/-- A struct that a path names, instantiated if that is needed. -/
theorem preserves_instance {a : Adt Ty} {res : NodeId}
    (ha : (S.isStruct res → ∃ d, S.structs res = some d ∧ Ty.adt a = .adt d) ∧
      (¬S.isStruct res → (Ty.adt a).Coherent S.structs))
    {p : Path} (hp : p.Readable S) (span : Span) :
    (a.isUninstantiated → Preserves S (a.instanceIn p.args span)
      fun b => (Ty.adt b).Coherent S.structs) ∧
      (¬a.isUninstantiated → (Ty.adt a).Coherent S.structs) := by
  by_cases hres : S.isStruct res
  · obtain ⟨d, hd, heq⟩ := ha.1 hres
    obtain rfl : a = d := Ty.adt.inj heq
    exact ⟨fun _ => preserves_instanceIn hS hd hp.args.1 hp.args.2 span,
      coherent_of_not_isUninstantiated hS hd⟩
  · have hcoherent := ha.2 hres
    exact ⟨fun h => by simp [hcoherent.isUninstantiated_eq_false] at h, fun _ => hcoherent⟩

theorem preserves_pathType {p : Path} (hp : p.Readable S) (span : Span) :
    Preserves S (pathType span p) (Ty.Coherent S.structs) := by
  unfold pathType
  rcases p.res with _ | res
  · exact preserves_giveUp _ _
  · refine (preserves_lookup hS res).bind fun r hr => ?_
    split
    · rename_i a
      obtain ⟨hinstance, hself⟩ := preserves_instance hS ⟨(hr _ rfl).1, (hr _ rfl).2.1⟩ hp span
      split
      · rename_i h
        exact (hinstance h).bind fun b hb => preserves_pure hb
      · rename_i h
        exact preserves_pure (hself h)
    · rename_i t hne
      refine preserves_pure ?_
      by_cases hres : S.isStruct res
      · obtain ⟨d, -, rfl⟩ := (hr t rfl).1 hres
        exact (hne d rfl).elim
      · exact (hr t rfl).2.1 hres
    · exact preserves_giveUp _ _

theorem preserves_structOf {p : Path} (hp : p.Readable S) (span : Span) :
    Preserves S (structOf p span) fun a => (Ty.adt a).Coherent S.structs := by
  unfold structOf
  rcases p.res with _ | res
  · exact preserves_giveUp _ _
  · refine (preserves_lookup hS res).bind fun r hr => ?_
    split
    · rename_i a
      obtain ⟨hinstance, hself⟩ := preserves_instance hS ⟨(hr _ rfl).1, (hr _ rfl).2.1⟩ hp span
      split
      · rename_i h
        exact hinstance h
      · rename_i h
        exact preserves_pure (hself h)
    · exact preserves_giveUp _ _
    · exact preserves_giveUp _ _

/-! ## Types of expressions -/

omit hS in
theorem preserves_suffixedType (accepts : Prim → Bool) (suffix : String) (span : Span) :
    Preserves S (suffixedType accepts suffix span) (Ty.Coherent S.structs) := by
  refine (preserves_builtin? suffix).bind fun r _ => ?_
  split
  · split
    · exact preserves_pure (coherent_leaf (by simp) rfl)
    · exact preserves_reportTyped _ _
  · exact preserves_reportTyped _ _

omit hS in
theorem preserves_coherentVar (k : VarKind) :
    Preserves S (newVar k) (Ty.Coherent S.structs) := by
  intro s hs
  obtain ⟨hs', hvar⟩ := preserves_newVar k s hs
  refine ⟨hs', fun t ht => ?_⟩
  obtain ⟨l, v, rfl⟩ := hvar t ht
  exact coherent_leaf (by simp) rfl

omit hS in
theorem preserves_literalType (span : Span) (l : Literal) :
    Preserves S (literalType span l) (Ty.Coherent S.structs) := by
  cases l with
  | int value suffix =>
      cases suffix with
      | none => exact preserves_coherentVar _
      | some suffix => exact preserves_suffixedType _ _ _
  | float bits suffix =>
      cases suffix with
      | none => exact preserves_coherentVar _
      | some suffix => exact preserves_suffixedType _ _ _
  | bool value => exact preserves_builtin _
  | char value => exact preserves_builtin _
  | str value => exact preserves_builtin _
  | unit => exact preserves_pure (coherent_leaf (by simp) rfl)

omit hS in
theorem coherent_field {D : Declarations} {a : Adt Ty} (ha : (Ty.adt a).Coherent D) {f : Field Ty}
    (hf : f ∈ a.fields) : f.ty.Coherent D :=
  ha.part (List.mem_append_left _ (List.mem_map_of_mem hf))

theorem preserves_fieldType (span : Span) (name : String) {t : Ty} (ht : t.Coherent S.structs) :
    Preserves S (fieldType span name t) (Ty.Coherent S.structs) := by
  refine (preserves_resolve hS ht).bind fun u hu => ?_
  split
  · exact preserves_pure hu
  · split
    · rename_i f hf
      exact preserves_pure (coherent_field hu (List.mem_of_find?_eq_some hf))
    · exact preserves_reportTyped _ _
  · exact preserves_reportTyped _ _

theorem preserves_unifyArgs {ps : List Ty} {args : List (Ty × Span)}
    (hps : ∀ p ∈ ps, p.Coherent S.structs) (hargs : ∀ a ∈ args, a.1.Coherent S.structs) :
    Preserves S (unifyArgs ps args) fun _ => True := by
  induction ps generalizing args with
  | nil => exact preserves_pure trivial
  | cons p ps ih =>
      cases args with
      | nil => exact preserves_pure trivial
      | cons a args =>
          rw [List.forall_mem_cons] at hps hargs
          exact (preserves_unifyAt hS a.2 hps.1 hargs.1).bind fun _ _ => ih hps.2 hargs.2

theorem preserves_callType (span calleeSpan : Span) {t : Ty} {args : List (Ty × Span)}
    (ht : t.Coherent S.structs) (hargs : ∀ a ∈ args, a.1.Coherent S.structs) :
    Preserves S (callType span calleeSpan t args) (Ty.Coherent S.structs) := by
  refine (preserves_resolve hS ht).bind fun u hu => ?_
  split
  · rename_i ps ret
    have hps : ∀ p ∈ ps, p.Coherent S.structs := fun p hp => hu.part (List.mem_append_left _ hp)
    have hret : ret.Coherent S.structs :=
      hu.part (List.mem_append_right _ (List.mem_singleton_self ret))
    have hunify : Preserves S (do unifyArgs ps args; return ret) (Ty.Coherent S.structs) :=
      (preserves_unifyArgs hS hps hargs).bind fun _ _ => preserves_pure hret
    split
    · exact (preserves_report _ span).bind fun _ _ => hunify
    · exact hunify
  · exact preserves_pure hu
  · exact preserves_reportTyped _ _

theorem preserves_unaryType (span : Span) (op : UnOp) {t : Ty} (ht : t.Coherent S.structs) :
    Preserves S (unaryType span op t) (Ty.Coherent S.structs) := by
  refine (preserves_resolve hS ht).bind fun u hu => ?_
  split
  · exact preserves_pure hu
  · exact preserves_reportTyped _ _

theorem preserves_binaryType (span : Span) (op : BinOp) {l r : Ty × Span}
    (hl : l.1.Coherent S.structs) (hr : r.1.Coherent S.structs) :
    Preserves S (binaryType span op l r) (Ty.Coherent S.structs) := by
  unfold binaryType
  split
  · exact (preserves_builtin _).bind fun t ht => (preserves_unifyAt hS l.2 ht hl).bind fun _ _ =>
      (preserves_unifyAt hS r.2 ht hr).bind fun _ _ => preserves_pure ht
  · refine (preserves_unifyAt hS r.2 hl hr).bind fun t ht => ?_
    split
    · exact preserves_builtin _
    · refine (preserves_resolve hS ht).bind fun u hu => ?_
      split
      · exact preserves_pure hu
      · exact preserves_reportTyped _ _

theorem preserves_bindingType {annotated : Option Ty} {init : Option (Ty × Span)}
    (hannotated : ∀ t, annotated = some t → t.Coherent S.structs)
    (hinit : ∀ i, init = some i → i.1.Coherent S.structs) :
    Preserves S (bindingType annotated init) (Ty.Coherent S.structs) := by
  rcases annotated with _ | t <;> rcases init with _ | ⟨u, span⟩
  · exact preserves_coherentVar _
  · exact preserves_pure (hinit _ rfl)
  · exact preserves_pure (hannotated t rfl)
  · refine (preserves_unifyAt hS span (hannotated t rfl) (hinit _ rfl)).bind fun v hv => ?_
    apply preserves_pure
    split
    · exact hannotated t rfl
    · exact hv

theorem preserves_requireUnit (span : Span) {t : Ty} (ht : t.Coherent S.structs) :
    Preserves S (requireUnit span t) fun _ => True := by
  refine (preserves_unify hS (coherent_leaf (by simp) rfl) ht).bind fun r _ => ?_
  cases r with
  | ok u => exact preserves_pure trivial
  | error e => exact (preserves_resolve hS ht).bind fun u _ => preserves_report _ span

theorem preserves_requireType (span : Span) {t u : Ty} (ht : t.Coherent S.structs)
    (hu : u.Coherent S.structs) : Preserves S (requireType span t u) fun _ => True :=
  (preserves_unifyAt hS span ht hu).bind fun _ _ => preserves_pure trivial

/-! ## Struct literals -/

theorem preserves_unifyBase {a : Adt Ty} {t : Ty} (ha : (Ty.adt a).Coherent S.structs)
    (ht : t.Coherent S.structs) (span : Span) :
    Preserves S (unifyBase a t span) (Ty.Coherent S.structs) := by
  refine (preserves_unify hS ha ht).bind fun r hr => ?_
  cases r with
  | ok u => exact preserves_pure (hr u rfl)
  | error e => exact (preserves_resolve hS ht).bind fun u _ => preserves_giveUpAll _ span

omit hS in
theorem preserves_declaredField (a : Adt Ty) (slots : Slots) (node : FieldInit) :
    Preserves S (declaredField a slots node) fun r => ∀ f, r = some f → f ∈ a.fields := by
  unfold declaredField
  split
  · exact (preserves_report _ _).bind fun _ _ => preserves_pure (by simp)
  · split
    · exact (preserves_report _ _).bind fun _ _ => preserves_pure (by simp)
    · rename_i f hf
      split
      · refine preserves_pure fun g hg => ?_
        exact Option.some.inj hg ▸ List.mem_of_find?_eq_some hf
      · exact preserves_throw _

theorem preserves_acceptField {f : Field Ty} (slots : Slots) {node : FieldInit} {t : Ty}
    (hf : f.ty.Coherent S.structs) (hnode : S.Free node.mark.id) (ht : t.Coherent S.structs) :
    Preserves S (acceptField f slots node t) fun _ => True := by
  refine (preserves_unify hS hf ht).bind fun r hr => ?_
  cases r with
  | ok u => exact (preserves_record hnode (hr u rfl)).bind fun _ _ => preserves_pure trivial
  | error e => exact (preserves_report _ _).bind fun _ _ => preserves_pure trivial

/-- The nodes made from a base are new ones, so no struct loses its declaration. -/
theorem preserves_fillFromBase (hnone : ∀ id q, ¬S.params id q) (a : Adt Ty) (base : Expr)
    {fs : List (Field Ty)} (slots : Slots) (hfs : ∀ f ∈ fs, f.ty.Coherent S.structs) :
    Preserves S (fillFromBase a base fs slots) fun _ => True := by
  have hnode {f : Field Ty} (hf : f.ty.Coherent S.structs) :
      Preserves S (fieldFromBase a base f) fun _ => True := by
    refine (preserves_allocate base.span).bind fun access haccess => ?_
    refine (preserves_allocate base.span).bind fun field hfield => ?_
    refine (preserves_resolve hS hf).bind fun t ht => ?_
    refine (preserves_record ⟨haccess, hnone access⟩ ht).bind fun _ _ => ?_
    refine (preserves_record ⟨hfield, hnone field⟩ ht).bind fun _ _ => ?_
    split
    · exact preserves_pure trivial
    · exact preserves_pure trivial
  induction fs generalizing slots with
  | nil => exact preserves_pure trivial
  | cons f fs ih =>
      rw [List.forall_mem_cons] at hfs
      exact (hnode hfs.1).bind fun node _ => ih _ hfs.2

end Check

namespace Walk

variable {ν μ : Type}

/-- Whether a walk keeps sessions coherent, and gives a result with this property if any. -/
def Preserves (S : Scope) (w : Walk ν α) (P : α → Prop) : Prop :=
  ∀ s : Session, s.Coherent S → (w s).session.Coherent S ∧ ∀ a, (w s).outcome = .ok a → P a

theorem preserves_leaf {node : ν} {x : Check α} (h : Check.Preserves S x P) :
    Preserves S (leaf node x) P := h

theorem preserves_first {node : ν} {x : Check α} {next : α → Walk ν β}
    (hx : Check.Preserves S x P) (hnext : ∀ a, P a → Preserves S (next a) Q) :
    Preserves S (first node x next) Q := by
  intro s hs
  have hs' := hx s hs
  rcases first_cases node x next s with ⟨a, s', hrun, heq⟩ | ⟨e, s', hrun, heq⟩
  · rw [hrun] at hs'
    rw [heq]
    exact hnext a (hs'.2 a rfl) s' hs'.1
  · rw [hrun] at hs'
    rw [heq]
    exact ⟨hs'.1, fun b hb => by cases hb⟩

theorem preserves_child {w : Walk μ α} {rebuild : μ → ν} {next : μ → α → Walk ν β}
    (hw : Preserves S w P) (hnext : ∀ s a, P a → Preserves S (next (w s).node a) Q) :
    Preserves S (child w rebuild next) Q := by
  intro s hs
  have hs' := hw s hs
  rcases child_cases w rebuild next s with ⟨a, hok, heq⟩ | ⟨e, -, heq⟩
  · rw [heq]
    exact hnext s a (hs'.2 a hok) _ hs'.1
  · rw [heq]
    exact ⟨hs'.1, fun b hb => by cases hb⟩

/-- The walk of a node that has one child and gets a type of its own. -/
theorem preserves_node {w : Walk μ α} {node rebuild : μ → ν} {x : μ → α → Check Ty} {id : NodeId}
    (hid : S.Free id) (hw : Preserves S w P)
    (hx : ∀ n a, P a → Check.Preserves S (x n a) (Ty.Coherent S.structs)) :
    Preserves S (child w rebuild fun n a => leaf (node n) (x n a >>= recorded id))
      (Ty.Coherent S.structs) :=
  preserves_child hw fun _ a ha => preserves_leaf <|
    (hx _ a ha).bind fun _ ht => preserves_recorded hid ht ht

/-- Whether the walk of these nodes gives coherent types where the nodes are free and the type names
may be read. -/
def PreservesAll (S : Scope) (ids : List NodeId) (resolutions : List TypeRes) (w : Walk ν Ty) : Prop :=
  (∀ id ∈ ids, S.Free id) → (∀ r ∈ resolutions, S.Allows (Ty.Coherent S.structs) r) →
    Preserves S w (Ty.Coherent S.structs)

variable (hS : S.structs.Closed) (hnone : ∀ id q, ¬S.params id q)
include hS

theorem preserves_orderLiteral (a : Adt Ty) {t : Ty} (ht : t.Coherent S.structs) (slots : Slots) :
    Preserves S (orderLiteral a t slots) (Ty.Coherent S.structs) := by
  unfold orderLiteral
  split
  · exact preserves_leaf (preserves_resolve hS ht)
  · exact preserves_leaf (preserves_throw _)

include hnone in
theorem preserves_completeLiteral {a : Adt Ty} {t : Ty} (ha : (Ty.adt a).Coherent S.structs)
    (ht : t.Coherent S.structs) (span : Span) (base : Option Expr) (written : List FieldInit)
    (slots : Slots) :
    Preserves S (completeLiteral a t span base written slots) (Ty.Coherent S.structs) := by
  unfold completeLiteral
  split
  · exact preserves_leaf (preserves_pure (coherent_leaf (by simp) rfl))
  · split
    · exact preserves_orderLiteral hS a ht slots
    · split
      · exact preserves_leaf (preserves_reportTyped _ span)
      · refine preserves_first (preserves_fillFromBase hS hnone a _ slots fun f hf => ?_) fun slots _ =>
          preserves_orderLiteral hS a ht slots
        exact coherent_field ha (List.mem_of_mem_filter hf)

theorem preserves_literalBase {a : Adt Ty} (ha : (Ty.adt a).Coherent S.structs) {base : Option Expr}
    (h : ∀ b, base = some b → Preserves S b.check (Ty.Coherent S.structs)) :
    Preserves S (literalBase a base) (Ty.Coherent S.structs) := by
  cases base with
  | none => exact preserves_leaf (preserves_pure ha)
  | some b =>
      exact preserves_child (h b rfl) fun _ t ht => preserves_leaf (preserves_unifyBase hS ha ht _)

theorem preserves_checkField {a : Adt Ty} (ha : (Ty.adt a).Coherent S.structs) (slots : Slots)
    {node : FieldInit} (hmark : S.Free node.mark.id)
    (h : Preserves S node.checkValue (Ty.Coherent S.structs)) :
    Preserves S (node.check a slots) fun _ => True := by
  rw [FieldInit.check_eq]
  refine preserves_first (preserves_declaredField a slots node) fun r hr => ?_
  cases r with
  | none => exact preserves_leaf (preserves_pure trivial)
  | some f =>
      refine preserves_child h fun s t ht => preserves_leaf ?_
      rw [← (mark_checkValue node s).1] at hmark
      exact preserves_acceptField hS slots (coherent_field ha (hr f rfl)) hmark ht

theorem preserves_checkFields {a : Adt Ty} (ha : (Ty.adt a).Coherent S.structs)
    {fields : List FieldInit} (slots : Slots)
    (h : ∀ f ∈ fields, S.Free f.mark.id ∧ Preserves S f.checkValue (Ty.Coherent S.structs)) :
    Preserves S (FieldInit.checkAll a slots fields) fun _ => True := by
  induction fields generalizing slots with
  | nil =>
      rw [FieldInit.checkAll]
      exact preserves_leaf (preserves_pure trivial)
  | cons f rest ih =>
      rw [FieldInit.checkAll]
      obtain ⟨hmark, hvalue⟩ := h f List.mem_cons_self
      exact preserves_child (preserves_checkField hS ha slots hmark hvalue) fun _ slots _ =>
        preserves_child (ih slots fun g hg => h g (List.mem_cons_of_mem _ hg)) fun _ _ _ =>
          preserves_leaf (preserves_pure trivial)

include hnone in
theorem preserves_literal {path : Path} (hpath : path.Readable S) (pathSpan span : Span)
    {fields : List FieldInit} {base : Option Expr}
    (hfields : ∀ f ∈ fields, S.Free f.mark.id ∧ Preserves S f.checkValue (Ty.Coherent S.structs))
    (hbase : ∀ b, base = some b → Preserves S b.check (Ty.Coherent S.structs)) :
    Preserves S (literal path pathSpan span fields base) (Ty.Coherent S.structs) :=
  preserves_first (preserves_structOf hS hpath pathSpan) fun _ ha =>
    preserves_child (preserves_literalBase hS ha hbase) fun _ _ ht =>
      preserves_child (preserves_checkFields hS ha _ hfields) fun _ slots _ =>
        preserves_child (preserves_completeLiteral hS hnone ha ht span _ _ slots) fun _ _ hu =>
          preserves_leaf (preserves_pure hu)

/-! ## Lists of nodes -/

omit hS in
theorem preserves_checkExprs {es : List Expr}
    (h : ∀ e ∈ es, Preserves S e.check (Ty.Coherent S.structs)) :
    Preserves S (Expr.checkAll es) fun ts => ∀ t ∈ ts, t.Coherent S.structs := by
  induction es with
  | nil =>
      rw [Expr.checkAll]
      exact preserves_leaf (preserves_pure (by simp))
  | cons e es ih =>
      rw [Expr.checkAll]
      exact preserves_child (h e List.mem_cons_self) fun _ t ht =>
        preserves_child (ih fun e he => h e (List.mem_cons_of_mem _ he)) fun _ ts hts =>
          preserves_leaf (preserves_pure (List.forall_mem_cons.2 ⟨ht, hts⟩))

theorem preserves_checkStmts {stmts : List Stmt} (hasTail : Bool)
    (h : ∀ s ∈ stmts, Preserves S s.check (Ty.Coherent S.structs)) :
    Preserves S (Stmt.checkAll hasTail stmts) fun r => ∀ t, r = some t → t.Coherent S.structs := by
  induction stmts with
  | nil =>
      rw [Stmt.checkAll]
      exact preserves_leaf (preserves_pure (by simp))
  | cons stmt rest ih =>
      rw [Stmt.checkAll]
      refine preserves_child (h stmt List.mem_cons_self) fun s t ht => ?_
      split
      · refine preserves_leaf (preserves_pure fun u hu => ?_)
        exact Option.some.inj hu ▸ ht
      · exact preserves_first (preserves_requireUnit hS _ ht) fun _ _ =>
          preserves_child (ih fun s hs => h s (List.mem_cons_of_mem _ hs)) fun _ _ hr =>
            preserves_leaf (preserves_pure hr)

end Walk

/-! ## Nodes -/

section

variable {m : Mark}

theorem Ty.coherent_unit (D : Declarations) : Ty.unit.Coherent D := coherent_leaf (by simp) rfl

theorem Expr.preserves_lit {l : Literal} :
    PreservesAll S (lit m l).ids (lit m l).resolutions (lit m l).check := by
  intro hids _
  rw [Expr.check]
  exact preserves_leaf ((preserves_literalType m.span l).bind fun t ht =>
    preserves_recorded (hids m.id List.mem_cons_self) ht ht)

theorem Expr.preserves_path (hS : S.structs.Closed) {p : Path} :
    PreservesAll S (path m p).ids (path m p).resolutions (path m p).check := by
  intro hids hres
  obtain ⟨hm, hp⟩ := List.forall_mem_cons.1 hids
  rw [Expr.check]
  exact preserves_leaf ((preserves_pathType hS ⟨hp, hres⟩ m.span).bind fun t ht =>
    preserves_recorded hm ht ht)

theorem Expr.preserves_block {b : Block} (ih : PreservesAll S b.ids b.resolutions b.check) :
    PreservesAll S (block m b).ids (block m b).resolutions (block m b).check := by
  intro hids hres
  obtain ⟨hm, hb⟩ := List.forall_mem_cons.1 hids
  rw [Expr.check]
  exact preserves_node hm (ih hb hres) fun _ t ht => preserves_pure ht

theorem Expr.preserves_struct (hS : S.structs.Closed) (hnone : ∀ id q, ¬S.params id q) {p : Path}
    {span : Span} {fields : List FieldInit} {base : Option Expr}
    (ihfields : ∀ f ∈ fields, PreservesAll S f.ids f.resolutions f.checkValue)
    (ihbase : ∀ b, base = some b → PreservesAll S b.ids b.resolutions b.check) :
    PreservesAll S (struct m p span fields base).ids (struct m p span fields base).resolutions
      (struct m p span fields base).check := by
  intro hids hres
  simp only [Expr.ids, List.forall_mem_cons, List.forall_mem_append, FieldInit.idsAll_eq] at hids
  simp only [Expr.resolutions, List.forall_mem_append, FieldInit.resolutionsAll_eq] at hres
  obtain ⟨hm, hp, hbase, hfields⟩ := hids
  obtain ⟨hpres, hbaseres, hfieldsres⟩ := hres
  rw [Expr.check_struct]
  refine preserves_node hm (preserves_literal hS hnone ⟨hp, hpres⟩ span m.span (fun f hf => ?_)
    fun b hb => ?_) fun _ t ht => preserves_pure ht
  · have hfree : ∀ id ∈ f.ids, S.Free id := fun i hi => hfields i (List.mem_flatMap.2 ⟨f, hf, hi⟩)
    exact ⟨hfree _ f.mark_mem_ids, ihfields f hf hfree fun r hr =>
      hfieldsres r (List.mem_flatMap.2 ⟨f, hf, hr⟩)⟩
  · subst hb
    exact ihbase b rfl hbase hbaseres

theorem Expr.preserves_field (hS : S.structs.Closed) {base : Expr} {name : String}
    (ih : PreservesAll S base.ids base.resolutions base.check) :
    PreservesAll S (field m base name).ids (field m base name).resolutions
      (field m base name).check := by
  intro hids hres
  obtain ⟨hm, hbase⟩ := List.forall_mem_cons.1 hids
  rw [Expr.check]
  exact preserves_node hm (ih hbase hres) fun _ t ht => preserves_fieldType hS m.span name ht

theorem Expr.preserves_tupleIndex (hS : S.structs.Closed) {base : Expr} {index : Nat}
    (ih : PreservesAll S base.ids base.resolutions base.check) :
    PreservesAll S (tupleIndex m base index).ids (tupleIndex m base index).resolutions
      (tupleIndex m base index).check := by
  intro hids hres
  obtain ⟨hm, hbase⟩ := List.forall_mem_cons.1 hids
  rw [Expr.check]
  exact preserves_node hm (ih hbase hres) fun _ t ht => preserves_fieldType hS m.span _ ht

theorem Expr.preserves_call (hS : S.structs.Closed) {callee : Expr} {args : List Expr}
    (ihcallee : PreservesAll S callee.ids callee.resolutions callee.check)
    (ihargs : ∀ e ∈ args, PreservesAll S e.ids e.resolutions e.check) :
    PreservesAll S (call m callee args).ids (call m callee args).resolutions
      (call m callee args).check := by
  intro hids hres
  simp only [Expr.ids, List.forall_mem_cons, List.forall_mem_append, Expr.idsAll_eq] at hids
  simp only [Expr.resolutions, List.forall_mem_append, Expr.resolutionsAll_eq] at hres
  obtain ⟨hm, hcallee, hargs⟩ := hids
  have hall : Walk.Preserves S (Expr.checkAll args) fun ts => ∀ t ∈ ts, t.Coherent S.structs :=
    preserves_checkExprs fun e he => ihargs e he
      (fun i hi => hargs i (List.mem_flatMap.2 ⟨e, he, hi⟩))
      fun r hr => hres.2 r (List.mem_flatMap.2 ⟨e, he, hr⟩)
  rw [Expr.check]
  refine preserves_child (ihcallee hcallee hres.1) fun _ t ht => preserves_node hm hall ?_
  intro n ts hts
  exact preserves_callType hS m.span _ ht fun a ha => hts a.1 (List.of_mem_zip ha).1

theorem Expr.preserves_unary (hS : S.structs.Closed) {op : UnOp} {e : Expr}
    (ih : PreservesAll S e.ids e.resolutions e.check) :
    PreservesAll S (unary m op e).ids (unary m op e).resolutions (unary m op e).check := by
  intro hids hres
  obtain ⟨hm, he⟩ := List.forall_mem_cons.1 hids
  rw [Expr.check]
  exact preserves_node hm (ih he hres) fun _ t ht => preserves_unaryType hS m.span op ht

theorem Expr.preserves_binary (hS : S.structs.Closed) {op : BinOp} {l r : Expr}
    (ihl : PreservesAll S l.ids l.resolutions l.check)
    (ihr : PreservesAll S r.ids r.resolutions r.check) :
    PreservesAll S (binary m op l r).ids (binary m op l r).resolutions (binary m op l r).check := by
  intro hids hres
  simp only [Expr.ids, List.forall_mem_cons, List.forall_mem_append] at hids
  rw [Expr.resolutions, List.forall_mem_append] at hres
  obtain ⟨hm, hl, hr⟩ := hids
  rw [Expr.check]
  exact preserves_child (ihl hl hres.1) fun _ t ht =>
    preserves_node hm (ihr hr hres.2) fun _ u hu => preserves_binaryType hS m.span op ht hu

theorem Expr.preserves_assign (hS : S.structs.Closed) {l r : Expr}
    (ihl : PreservesAll S l.ids l.resolutions l.check)
    (ihr : PreservesAll S r.ids r.resolutions r.check) :
    PreservesAll S (assign m l r).ids (assign m l r).resolutions (assign m l r).check := by
  intro hids hres
  simp only [Expr.ids, List.forall_mem_cons, List.forall_mem_append] at hids
  rw [Expr.resolutions, List.forall_mem_append] at hres
  obtain ⟨hm, hl, hr⟩ := hids
  rw [Expr.check_assign]
  exact preserves_child (ihl hl hres.1) fun _ t ht =>
    preserves_node hm (ihr hr hres.2) fun _ u hu => (preserves_unifyAt hS _ ht hu).bind fun _ _ =>
      preserves_pure (coherent_unit _)

theorem Expr.preserves_paren {e : Expr} (ih : PreservesAll S e.ids e.resolutions e.check) :
    PreservesAll S (paren m e).ids (paren m e).resolutions (paren m e).check := by
  intro hids hres
  obtain ⟨hm, he⟩ := List.forall_mem_cons.1 hids
  rw [Expr.check]
  exact preserves_node hm (ih he hres) fun _ t ht => preserves_pure ht

theorem Block.preserves_mk (hS : S.structs.Closed) {stmts : List Stmt} {tail : Option Expr}
    (ihstmts : ∀ n ∈ stmts, PreservesAll S n.ids n.resolutions n.check)
    (ihtail : ∀ e, tail = some e → PreservesAll S e.ids e.resolutions e.check) :
    PreservesAll S (mk m stmts tail).ids (mk m stmts tail).resolutions (mk m stmts tail).check := by
  intro hids hres
  simp only [Block.ids, List.forall_mem_cons, List.forall_mem_append, Stmt.idsAll_eq] at hids
  simp only [Block.resolutions, List.forall_mem_append, Stmt.resolutionsAll_eq] at hres
  obtain ⟨hm, hstmts, htail⟩ := hids
  have hall (hasTail : Bool) : Walk.Preserves S (Stmt.checkAll hasTail stmts) fun r =>
      ∀ t, r = some t → t.Coherent S.structs :=
    preserves_checkStmts hS hasTail fun n hn => ihstmts n hn
      (fun i hi => hstmts i (List.mem_flatMap.2 ⟨n, hn, hi⟩))
      fun r hr => hres.1 r (List.mem_flatMap.2 ⟨n, hn, hr⟩)
  cases tail with
  | none =>
      rw [Block.check]
      refine preserves_node hm (hall false) fun _ r hr => preserves_pure ?_
      cases r with
      | none => exact coherent_unit _
      | some t => exact hr t rfl
  | some e =>
      rw [Block.check]
      exact preserves_child (hall true) fun _ _ _ =>
        preserves_node hm (ihtail e rfl htail hres.2) fun _ t ht => preserves_pure ht

/-- The type of a binding is recorded, and the statement is unit. -/
theorem Check.preserves_bound (hS : S.structs.Closed) {binding id : NodeId} (hbinding : S.Free binding)
    (hid : S.Free id) {annotated : Option Ty} {init : Option (Ty × Span)}
    (hannotated : ∀ t, annotated = some t → t.Coherent S.structs)
    (hinit : ∀ i, init = some i → i.1.Coherent S.structs) :
    Preserves S (do
      record binding (← bindingType annotated init)
      recorded id .unit) (Ty.Coherent S.structs) :=
  (preserves_bindingType hS hannotated hinit).bind fun _ ht =>
    (preserves_record hbinding ht).bind fun _ _ =>
      preserves_recorded hid (coherent_unit _) (coherent_unit _)

theorem Stmt.preserves_bind (hS : S.structs.Closed) {binding : NodeId} {name : String}
    {ty : Option TypeRef} {init : Option Expr}
    (ih : ∀ e, init = some e → PreservesAll S e.ids e.resolutions e.check) :
    PreservesAll S (bind m binding name ty init).ids (bind m binding name ty init).resolutions
      (bind m binding name ty init).check := by
  intro hids hres
  simp only [Stmt.ids, List.forall_mem_cons, List.forall_mem_append] at hids
  rw [Stmt.resolutions, List.forall_mem_append] at hres
  obtain ⟨hm, hbinding, hty, hinit⟩ := hids
  have hread := preserves_readOptional hS hty hres.1
  cases init with
  | none =>
      rw [Stmt.check]
      exact preserves_leaf (hread.bind fun annotated hannotated =>
        preserves_bound hS hbinding hm hannotated (by simp))
  | some e =>
      rw [Stmt.check]
      refine preserves_first hread fun annotated hannotated =>
        preserves_child (ih e rfl hinit hres.2) fun _ t ht => preserves_leaf ?_
      refine preserves_bound hS hbinding hm hannotated fun i hi => ?_
      rw [← Option.some.inj hi]
      exact ht

theorem Stmt.preserves_expr {e : Expr} (ih : PreservesAll S e.ids e.resolutions e.check) :
    PreservesAll S (expr m e).ids (expr m e).resolutions (expr m e).check := by
  intro hids hres
  obtain ⟨hm, he⟩ := List.forall_mem_cons.1 hids
  rw [Stmt.check]
  exact preserves_node hm (ih he hres) fun _ t ht => preserves_pure ht

theorem Stmt.preserves_semi {e : Expr} (ih : PreservesAll S e.ids e.resolutions e.check) :
    PreservesAll S (semi m e).ids (semi m e).resolutions (semi m e).check := by
  intro hids hres
  obtain ⟨hm, he⟩ := List.forall_mem_cons.1 hids
  rw [Stmt.check]
  exact preserves_node hm (ih he hres) fun _ _ _ => preserves_pure (coherent_unit _)

theorem FieldInit.preserves_named {name : String} {e : Expr}
    (ih : PreservesAll S e.ids e.resolutions e.check) :
    PreservesAll S (named m name e).ids (named m name e).resolutions (named m name e).checkValue :=
  fun hids hres => preserves_child (ih (List.forall_mem_cons.1 hids).2 hres) fun _ _ ht =>
    preserves_leaf (preserves_pure ht)

theorem FieldInit.preserves_index {i : Nat} {e : Expr}
    (ih : PreservesAll S e.ids e.resolutions e.check) :
    PreservesAll S (index m i e).ids (index m i e).resolutions (index m i e).checkValue :=
  fun hids hres => preserves_child (ih (List.forall_mem_cons.1 hids).2 hres) fun _ _ ht =>
    preserves_leaf (preserves_pure ht)

theorem FieldInit.preserves_short (hS : S.structs.Closed) {name : String} {res : Option NodeId} :
    PreservesAll S (short m name res).ids (short m name res).resolutions
      (short m name res).checkValue :=
  fun hids _ => preserves_leaf <|
    (preserves_pathType hS (Path.readable_ident S name res) m.span).bind fun _ ht =>
      preserves_recorded (hids m.id List.mem_cons_self) ht ht

end

/-! ## Programs -/

/-- The check of a node with its children, by induction on programs. -/
theorem Walk.preserves_check (hS : S.structs.Closed) (hnone : ∀ id q, ¬S.params id q) :
    (∀ e : Expr, PreservesAll S e.ids e.resolutions e.check) ∧
      (∀ b : Block, PreservesAll S b.ids b.resolutions b.check) ∧
      (∀ n : Stmt, PreservesAll S n.ids n.resolutions n.check) ∧
      ∀ f : FieldInit, PreservesAll S f.ids f.resolutions f.checkValue := by
  apply Expr.induct
  case lit => exact fun _ _ => Expr.preserves_lit
  case path => exact fun _ _ => Expr.preserves_path hS
  case block => exact fun _ _ => Expr.preserves_block
  case struct => exact fun _ _ _ _ _ => Expr.preserves_struct hS hnone
  case field => exact fun _ _ _ => Expr.preserves_field hS
  case tupleIndex => exact fun _ _ _ => Expr.preserves_tupleIndex hS
  case call => exact fun _ _ _ => Expr.preserves_call hS
  case unary => exact fun _ _ _ => Expr.preserves_unary hS
  case binary => exact fun _ _ _ _ => Expr.preserves_binary hS
  case assign => exact fun _ _ _ => Expr.preserves_assign hS
  case paren => exact fun _ _ => Expr.preserves_paren
  case mk => exact fun _ _ _ => Block.preserves_mk hS
  case bind => exact fun _ _ _ _ _ => Stmt.preserves_bind hS
  case expr => exact fun _ _ => Stmt.preserves_expr
  case semi => exact fun _ _ => Stmt.preserves_semi
  case named => exact fun _ _ _ => FieldInit.preserves_named
  case index => exact fun _ _ _ => FieldInit.preserves_index
  case short => exact fun _ _ _ => FieldInit.preserves_short hS

/-! ## Items -/

section

variable (hS : S.structs.Closed) (hnone : ∀ id q, ¬S.params id q)
include hS

theorem Check.preserves_returnType (id : NodeId) :
    Preserves S (returnType id) (Ty.Coherent S.structs) := by
  refine (preserves_lookup hS id).bind fun r hr => ?_
  split
  · rename_i ps ret
    obtain ⟨hstruct, hother, -⟩ := hr _ rfl
    by_cases hid : S.isStruct id
    · obtain ⟨d, -, heq⟩ := hstruct hid
      cases heq
    · exact preserves_pure ((hother hid).part (List.mem_append_right _ (List.mem_singleton_self ret)))
  · exact preserves_throw _

theorem Check.preserves_constType {id : NodeId} (hid : ¬S.isStruct id) :
    Preserves S (constType id) (Ty.Coherent S.structs) := by
  refine (preserves_lookup hS id).bind fun r hr => ?_
  split
  · exact preserves_pure ((hr _ rfl).2.1 hid)
  · exact preserves_throw _

include hnone

theorem Item.preserves_check {item : Item} (hids : ∀ id ∈ item.bodyIds, S.Free id)
    (hres : ∀ r ∈ item.kind.bodyResolutions, S.Allows (Ty.Coherent S.structs) r)
    (hconst : ∀ decl, item.kind = .const decl → ¬S.isStruct item.id) :
    Walk.Preserves S item.check fun _ => True := by
  obtain ⟨mark, name, kind⟩ := item
  cases kind with
  | struct decl => exact Walk.preserves_leaf (preserves_pure trivial)
  | fn decl =>
      exact Walk.preserves_first (preserves_returnType hS _) fun _ hret =>
        Walk.preserves_child ((Walk.preserves_check hS hnone).2.1 _ hids hres) fun _ _ ht =>
          Walk.preserves_leaf (preserves_requireType hS _ hret ht)
  | const decl =>
      exact Walk.preserves_first (preserves_constType hS (hconst decl rfl)) fun _ hexpected =>
        Walk.preserves_child ((Walk.preserves_check hS hnone).1 _ hids hres) fun _ _ ht =>
          Walk.preserves_leaf (preserves_requireType hS _ hexpected ht)

/-- The checks of all items keep a session coherent, also if one of them ends the pass. -/
theorem Program.coherent_checkAll {items : List Item} {s : Session} (hs : s.Coherent S)
    (h : ∀ item ∈ items, (∀ id ∈ item.bodyIds, S.Free id) ∧
      (∀ r ∈ item.kind.bodyResolutions, S.Allows (Ty.Coherent S.structs) r) ∧
      ∀ decl, item.kind = .const decl → ¬S.isStruct item.id) :
    (checkAll items s).2.2.Coherent S := by
  induction items generalizing s with
  | nil => exact hs
  | cons item rest ih =>
      rw [List.forall_mem_cons] at h
      obtain ⟨⟨hids, hres, hconst⟩, hrest⟩ := h
      have hitem := (item.preserves_check hS hnone hids hres hconst s hs).1
      rw [checkAll]
      split
      · rename_i heq
        rwa [heq] at hitem
      · rename_i heq
        rwa [heq] at hitem
      · rename_i heq
        rw [heq] at hitem
        exact ih hitem hrest

end

end TypeInference

import TypeInference.Proofs.Check.DeclarationOrder
import TypeInference.Proofs.Check.Reading

/-!
# The typing rule of each computation

What an expression, a statement or a written field computes from the types of
its parts, in terms of a solution: the rule that its type obeys there.
-/

namespace TypeInference.Check

open Ty Bindings

variable {shapes : NodeId → Shape} {kinds : List VarKind} {s : Session} {t u : Ty}

/-! ## Literals -/

theorem derives_suffixedType (hs : s.Sound shapes kinds) (accepts : Prim → Bool) (suffix : String)
    (span : Span) :
    Derives shapes kinds s (suffixedType accepts suffix span) (Fine shapes)
      fun t _ σ => ∃ p : Prim, t.subst σ = .prim p ∧ p.name = suffix ∧ accepts p := by
  refine (derives_builtin? hs suffix).bind (l := []) (fun r => ?_) fun kinds' r hlead hr => ?_
  · split
    · split
      · exact steady_pure _
      · exact steady_reportTyped _ _
    · exact steady_reportTyped _ _
  · split
    · rename_i p
      obtain ⟨q, hq, hname⟩ := hr _ rfl
      obtain rfl : p = q := by simpa using hq
      split
      · rename_i haccepts
        exact derives_pure hlead.sound (.prim p) fun _ _ _ _ => ⟨p, rfl, hname, haccepts⟩
      · exact derives_reportTyped _ span
    · exact derives_reportTyped _ span

theorem isIntegral_of_concrete (h : t.isConcrete) (ht : t.isIntegral) :
    ∃ p : Prim, t = .prim p ∧ p.isIntegral := by
  cases t with
  | prim p => exact ⟨p, rfl, ht⟩
  | infer k v => simp [isConcrete, leaves, isSettled] at h
  | _ => simp [isIntegral] at ht

theorem isFloat_of_concrete (h : t.isConcrete) (ht : t.isFloat) :
    ∃ p : Prim, t = .prim p ∧ p.isFloat := by
  cases t with
  | prim p => exact ⟨p, rfl, ht⟩
  | infer k v => simp [isConcrete, leaves, isSettled] at h
  | _ => simp [isFloat] at ht

theorem derives_literalType (hs : s.Sound shapes kinds) (span : Span) (l : Literal) :
    Derives shapes kinds s (literalType span l) (Fine shapes)
      fun t _ σ => (t.subst σ).isConcrete → l.HasType (t.subst σ) := by
  cases l with
  | int value suffix =>
      cases suffix with
      | none =>
          exact (derives_newVar hs .integral).imp (fun _ _ h => h) fun _ _ _ h hconcrete =>
            isIntegral_of_concrete hconcrete h
      | some suffix =>
          refine (derives_suffixedType hs _ suffix span).imp (fun _ _ h => h) ?_
          rintro t _ σ ⟨p, hp, hname, haccepts⟩ -
          exact ⟨p, hp, hname, by simpa using haccepts⟩
  | float bits suffix =>
      cases suffix with
      | none =>
          exact (derives_newVar hs .float).imp (fun _ _ h => h) fun _ _ _ h hconcrete =>
            isFloat_of_concrete hconcrete h
      | some suffix =>
          refine (derives_suffixedType hs _ suffix span).imp (fun _ _ h => h) ?_
          rintro t _ σ ⟨p, hp, hname, haccepts⟩ -
          exact ⟨p, hp, hname, haccepts⟩
  | bool value =>
      exact (derives_builtin hs (p := .bool) rfl).imp (fun _ _ h => h) fun _ _ _ h _ => h
  | char value =>
      exact (derives_builtin hs (p := .char) rfl).imp (fun _ _ h => h) fun _ _ _ h _ => h
  | str value =>
      exact (derives_builtin hs (p := .str) rfl).imp (fun _ _ h => h) fun _ _ _ h _ => h
  | unit => exact derives_pure hs .unit fun _ _ _ _ => rfl

/-! ## Compound expressions -/

theorem derives_fieldType (hs : s.Sound shapes kinds) (span : Span) (name : String)
    (ht : t.Fine shapes kinds) :
    Derives shapes kinds s (fieldType span name t) (Fine shapes)
      fun r _ σ => ∃ a f, t.subst σ = .adt a ∧ f ∈ a.fields ∧ f.name = name ∧ f.ty = r.subst σ := by
  refine (derives_resolve hs ht).bind (l := []) (fun r => ?_) fun kinds' r hlead hr => ?_
  · split
    · exact steady_pure _
    · split
      · exact steady_pure _
      · exact steady_reportTyped _ _
    · exact steady_reportTyped _ _
  · split
    · exact (hr.proper.root.2 rfl).elim
    · rename_i a
      split
      · rename_i f hf
        obtain ⟨hmem, hname⟩ := Adt.field?_eq_some hf
        refine derives_pure hlead.sound (hr.field hmem) fun T σ _ heq => ?_
        refine ⟨a.map (Ty.subst σ), f.map (Ty.subst σ), ?_, List.mem_map_of_mem hmem, hname, rfl⟩
        rw [← heq]
        exact rewrite_adt _ _ a
      · exact derives_reportTyped _ span
    · exact derives_reportTyped _ span

theorem derives_unifyArgs (hs : s.Sound shapes kinds) {ps : List Ty} {args : List (Ty × Span)}
    (hlen : ps.length = args.length) (hps : ∀ p ∈ ps, p.Fine shapes kinds)
    (hargs : ∀ arg ∈ args, arg.1.Fine shapes kinds) :
    Derives shapes kinds s (unifyArgs ps args) (fun _ _ => True)
      fun _ _ σ => args.map (fun arg => arg.1.subst σ) = ps.map (Ty.subst σ) := by
  induction ps generalizing kinds s args with
  | nil =>
      obtain rfl : args = [] := List.eq_nil_of_length_eq_zero hlen.symm
      exact derives_pure hs trivial fun _ _ _ => rfl
  | cons p ps ih =>
      cases args with
      | nil => cases hlen
      | cons arg args =>
          obtain ⟨t, span⟩ := arg
          refine (derives_unifyAt hs span (hps p List.mem_cons_self)
            (hargs (t, span) List.mem_cons_self)).bind (l := [])
            (fun _ => steady_unifyArgs ps args) fun kinds' c hlead _ => ?_
          refine (ih hlead.sound (Nat.succ.inj hlen)
            (fun q hq => (hps q (List.mem_cons_of_mem _ hq)).mono hlead.prefix_kinds)
            fun arg harg => (hargs arg (List.mem_cons_of_mem _ harg)).mono hlead.prefix_kinds).imp
            (fun _ _ h => h) ?_
          rintro _ T σ hrest ⟨hp, ht⟩
          rw [List.map_cons, List.map_cons, hrest, hp, ht]

theorem derives_callType (hs : s.Sound shapes kinds) (span calleeSpan : Span)
    (ht : t.Fine shapes kinds) {args : List (Ty × Span)}
    (hargs : ∀ arg ∈ args, arg.1.Fine shapes kinds) :
    Derives shapes kinds s (callType span calleeSpan t args) (Fine shapes)
      fun r _ σ => t.subst σ = .fn (args.map fun arg => arg.1.subst σ) (r.subst σ) := by
  refine (derives_resolve hs ht).bind (l := []) (fun r => ?_) fun kinds' r hlead hr => ?_
  · split
    · split
      · exact (steady_report _ span).bind fun _ => (steady_unifyArgs _ args).bind fun _ => steady_pure _
      · exact (steady_unifyArgs _ args).bind fun _ => steady_pure _
    · exact steady_pure _
    · exact steady_reportTyped _ _
  · split
    · rename_i ps ret
      dsimp only
      split
      · exact derives_report_bind (l := []) _ span fun _ =>
          (steady_unifyArgs ps args).bind fun _ => steady_pure ret
      · rename_i hlen
        have hps : ∀ p ∈ ps, p.Fine shapes kinds' := fun p hp =>
          hr.part (List.mem_append_left _ hp)
        have hret : ret.Fine shapes kinds' := hr.part (List.mem_append_right _ (by simp))
        refine (derives_unifyArgs hlead.sound (by simpa using hlen) hps fun arg harg =>
          (hargs arg harg).mono hlead.prefix_kinds).bind (l := []) (fun _ => steady_pure ret)
          fun kinds'' _ hlead' _ => ?_
        refine derives_pure hlead'.sound (hret.mono hlead'.prefix_kinds) fun T σ _ hall hfn => ?_
        rw [← hfn, hall]
        exact rewrite_fn _ _ ps ret
    · exact (hr.proper.root.2 rfl).elim
    · exact derives_reportTyped _ calleeSpan

theorem derives_unaryType (hs : s.Sound shapes kinds) (span : Span) (op : UnOp)
    (ht : t.Fine shapes kinds) :
    Derives shapes kinds s (unaryType span op t) (Fine shapes)
      fun r _ σ => r.subst σ = t.subst σ := by
  refine (derives_resolve hs ht).bind (l := []) (fun r => ?_) fun kinds' r hlead hr => ?_
  · split
    · exact steady_pure _
    · exact steady_reportTyped _ _
  · split
    · exact derives_pure hlead.sound hr fun _ _ _ h => h
    · exact derives_reportTyped _ span

/-- Both operands have one type. -/
theorem derives_binaryType (hs : s.Sound shapes kinds) (span : Span) (op : BinOp) {l r : Ty × Span}
    (hl : l.1.Fine shapes kinds) (hr : r.1.Fine shapes kinds) :
    Derives shapes kinds s (binaryType span op l r) (Fine shapes)
      fun t _ σ => l.1.subst σ = r.1.subst σ ∧
        if op.isLazyBoolean then l.1.subst σ = .prim .bool ∧ t.subst σ = .prim .bool
        else if op.isComparison then t.subst σ = .prim .bool
        else t.subst σ = l.1.subst σ := by
  unfold binaryType
  split
  · refine (derives_builtin hs (p := .bool) rfl).bind (l := []) (fun t =>
      (steady_unifyAt l.2 t l.1).bind fun _ => (steady_unifyAt r.2 t r.1).bind fun _ => steady_pure t)
      fun kinds₁ t hlead ht => ?_
    refine (derives_unifyAt hlead.sound l.2 ht (hl.mono hlead.prefix_kinds)).bind (l := []) (fun _ =>
      (steady_unifyAt r.2 t r.1).bind fun _ => steady_pure t) fun kinds₂ c hlead₁ _ => ?_
    have hlead₂ := hlead.trans hlead₁
    refine (derives_unifyAt hlead₁.sound r.2 (ht.mono hlead₁.prefix_kinds)
      (hr.mono hlead₂.prefix_kinds)).bind (l := []) (fun _ => steady_pure t)
      fun kinds₃ d hlead₃ _ => ?_
    refine derives_pure hlead₃.sound (ht.mono (hlead₁.trans hlead₃).prefix_kinds) ?_
    rintro T σ - ⟨htd, hrd⟩ ⟨htc, hlc⟩ hbool
    have hl : l.1.subst σ = .prim .bool := hlc.trans (htc.symm.trans hbool)
    have hr : r.1.subst σ = .prim .bool := hrd.trans (htd.symm.trans hbool)
    exact ⟨hl.trans hr.symm, hl, hbool⟩
  · refine (derives_unifyAt hs r.2 hl hr).bind (l := []) (fun t => ?_) fun kinds₁ t hlead ht => ?_
    · split
      · exact steady_builtin _
      · refine (steady_resolve t).bind fun u => ?_
        split
        · exact steady_pure _
        · exact steady_reportTyped _ _
    · split
      · refine (derives_builtin hlead.sound (p := .bool) rfl).imp (fun _ _ h => h) ?_
        rintro b _ σ hb ⟨hlt, hrt⟩
        exact ⟨hlt.trans hrt.symm, hb⟩
      · refine (derives_resolve hlead.sound ht).bind (l := []) (fun u => ?_)
          fun kinds₂ u hlead' hu => ?_
        · split
          · exact steady_pure _
          · exact steady_reportTyped _ _
        · split
          · refine derives_pure hlead'.sound hu ?_
            rintro T σ - hut ⟨hlt, hrt⟩
            exact ⟨hlt.trans hrt.symm, hut.trans hlt.symm⟩
          · exact derives_reportTyped _ span

/-! ## Statements -/

theorem derives_bindingType (hs : s.Sound shapes kinds) {annotated : Option Ty}
    {init : Option (Ty × Span)} (hannotated : ∀ t, annotated = some t → t.Fine shapes kinds)
    (hinit : ∀ i, init = some i → i.1.Fine shapes kinds) :
    Derives shapes kinds s (bindingType annotated init) (Fine shapes)
      fun r _ σ => (∀ t, annotated = some t → t.subst σ = r.subst σ) ∧
        ∀ i, init = some i → i.1.subst σ = r.subst σ := by
  rcases annotated with _ | t
  · rcases init with _ | i
    · exact (derives_newVar hs .general).imp (fun _ _ h => h) fun _ _ _ _ => ⟨by simp, by simp⟩
    · exact derives_pure hs (hinit i rfl) fun T σ _ => ⟨by simp, by simp⟩
  · rcases init with _ | i
    · exact derives_pure hs (hannotated t rfl) fun T σ _ => ⟨by simp, by simp⟩
    · refine (derives_unifyAt hs i.2 (hannotated t rfl) (hinit i rfl)).bind (l := [])
        (fun _ => steady_pure _) fun kinds' c hlead hc => ?_
      have hsound : c.isError = false := by
        have hne := hc.proper.root.2
        cases c <;> simp_all [isError]
      rw [hsound]
      refine derives_pure hlead.sound hc ?_
      rintro T σ - ⟨htc, hic⟩
      exact ⟨by simpa using htc, by simpa using hic⟩

theorem derives_requireUnit (hs : s.Sound shapes kinds) (span : Span) (ht : t.Fine shapes kinds) :
    Derives shapes kinds s (requireUnit span t) (fun _ _ => True)
      fun _ _ σ => t.subst σ = .unit := by
  refine (derives_unify hs .unit ht).bind (l := []) (fun r => ?_) fun kinds' r hlead hr => ?_
  · cases r with
    | ok u => exact steady_pure ()
    | error e => exact (steady_resolve t).bind fun u => steady_report _ span
  · cases r with
    | ok c =>
        obtain ⟨-, hunit, htc⟩ := hr c rfl
        refine derives_pure hlead.sound trivial fun T σ hσ _ => ?_
        rw [← hσ.subst_resolve t, htc, ← hunit]
        rfl
    | error e =>
        refine (derives_resolve hlead.sound (ht.mono hlead.prefix_kinds)).bind (l := [])
          (fun u => steady_report _ span) fun _ _ _ _ => derives_report _ span

/-! ## Struct literals -/

theorem derives_unifyBase (hs : s.Sound shapes kinds) {a : Adt Ty} (span : Span)
    (ha : (Ty.adt a).Fine shapes kinds) (ht : t.Fine shapes kinds) :
    Derives shapes kinds s (unifyBase a t span) (Fine shapes)
      fun r _ σ => (Ty.adt a).subst σ = r.subst σ ∧ t.subst σ = r.subst σ := by
  refine (derives_unify hs ha ht).bind (l := []) (fun r => ?_) fun kinds' r hlead hr => ?_
  · cases r with
    | ok u => exact steady_pure u
    | error e => exact (steady_resolve t).bind fun u => steady_giveUpAll _ span
  · cases r with
    | ok c =>
        obtain ⟨hc, hac, htc⟩ := hr c rfl
        refine derives_pure hlead.sound hc fun T σ hσ _ => ?_
        rw [← hσ.subst_resolve (.adt a), ← hσ.subst_resolve t, hac, htc]
        exact ⟨rfl, rfl⟩
    | error e =>
        refine (derives_resolve hlead.sound (ht.mono hlead.prefix_kinds)).bind (l := [])
          (fun u => steady_giveUpAll _ span) fun _ _ _ _ => derives_giveUpAll _ span

/-- A written field that is placed is new and declared. -/
theorem derives_declaredField (hs : s.Sound shapes kinds) (a : Adt Ty) (slots : Slots)
    (node : FieldInit) :
    Derives shapes kinds s (declaredField a slots node)
      (fun _ r => node.fieldName ∉ slots.taken ∧ ∃ f, r = some f ∧
        a.field? node.fieldName = some f ∧ f.index < slots.nodes.length) fun _ _ _ => True := by
  unfold declaredField
  split
  · exact derives_report_bind (l := []) _ _ fun _ => steady_pure none
  · rename_i htaken
    split
    · exact derives_report_bind (l := []) _ _ fun _ => steady_pure none
    · rename_i f hf
      split
      · rename_i hlt
        exact derives_pure hs ⟨by simpa using htaken, f, rfl, hf, hlt⟩ fun _ _ _ => trivial
      · exact derives_throw _

/-- A field that is accepted has the declared type, and so has its value. Its node may have been
typed as the value before. -/
theorem derives_acceptField (hs : s.Sound shapes kinds) {f : Field Ty} (slots : Slots)
    {node : FieldInit} (hf : f.ty.Fine shapes kinds) (ht : t.Fine shapes kinds)
    (hlt : node.mark.id < s.locations.size)
    (hsame : ∀ u, s.context.types.find? node.mark.id = some u → u = t) :
    Derives shapes kinds s (acceptField f slots node t) (fun _ r => r = slots.accept f node)
      fun _ T σ => T node.mark.id = some (f.ty.subst σ) ∧ t.subst σ = f.ty.subst σ := by
  refine (derives_unify hs hf ht).bind (l := [node.mark.id]) (fun r => ?_)
    fun kinds' r hlead hr => ?_
  · cases r with
    | ok u => exact (steady_record (by simp) u).bind fun _ => steady_pure _
    | error e => exact (steady_report _ _).bind fun _ => steady_pure _
  · cases r with
    | ok c =>
        obtain ⟨hc, hfc, htc⟩ := hr c rfl
        have hlead' := hlead.sound.leads_insert _ hc hlt fun u hu σ hσ => by
          rw [hsame u hu, ← hσ t]
          exact congrArg (Ty.subst σ) htc
        refine derives_of_perform rfl hlead' rfl fun T σ hσ _ => ?_
        have hσ' := hlead'.solution T σ hσ
        rw [← hσ'.subst_resolve f.ty, ← hσ'.subst_resolve t, hfc, htc]
        refine ⟨hσ.types _ c ?_, rfl⟩
        simp [Context.insert]
    | error e => exact derives_report_bind (l := []) _ _ fun _ => steady_pure _

end TypeInference.Check

import TypeInference.Proofs.Check.FollowingTypes
import TypeInference.Proofs.Check.FromBase

/-!
# Questions to twins

What a check asks about a resolved type has the same answer in twins, because
the types are alike, and types that unify on one side unify on the other. So
whatever is computed from the types of parts is computed on both sides.
-/

namespace TypeInference

open Ty Check

variable {W : Setting} {P : Pairing} {s s' : Session} {t t' u u' : Ty} {id : NodeId}

/-! ## Types that are alike -/

theorem Ty.Alike.supports (h : t.Alike u) (op : UnOp) : op.supports u = op.supports t := by
  rw [← supports_renumber (fun _ => 0) op u, ← h, supports_renumber]

/-- Fields that are labelled alike are found at the same places. -/
theorem Field.find?_of_labels {fs gs : List (Field Ty)}
    (h : gs.map Field.label = fs.map Field.label) {name : String} {f : Field Ty}
    (hf : fs.find? (fun f => f.name == name) = some f) :
    ∃ (i : Nat) (g : Field Ty), fs[i]? = some f ∧ gs[i]? = some g ∧
      gs.find? (fun f => f.name == name) = some g := by
  induction fs generalizing gs with
  | nil => cases hf
  | cons f₀ fs ih =>
      cases gs with
      | nil => cases h
      | cons g₀ gs =>
          obtain ⟨hlabel, htail⟩ := List.cons.inj h
          have hname : g₀.name = f₀.name := congrArg Prod.fst hlabel
          by_cases hfound : f₀.name == name
          · obtain rfl : f₀ = f := by simpa [hfound] using hf
            exact ⟨0, g₀, rfl, rfl, by simp [hname, hfound]⟩
          · obtain ⟨i, g, hi, hi', hg⟩ := ih htail (by simpa [hfound] using hf)
            exact ⟨i + 1, g, hi, hi', by simpa [hname, hfound] using hg⟩

namespace Pairing.Twins

variable (h : P.Twins W s s')
include h

theorem exists_joint : ∃ σ σ', P.joint σ σ' := by
  have hvalid := h.holds.left.sound.bindings.toValid
  exact ⟨_, h.covers.forth (Bindings.respectsKinds_general hvalid)
    (Bindings.satisfiedBy_general hvalid)⟩

/-! ## Struct types -/

variable {a a' : Adt Ty} (ha : P.Types W (.adt a) (.adt a'))
include ha

theorem shape_eq : a'.shape = a.shape := by
  obtain ⟨σ, σ', hjoint⟩ := h.exists_joint
  have hadt := ha.equal hjoint
  rw [subst_adt, subst_adt] at hadt
  rw [← Adt.shape_map (Ty.subst σ) a, ← Adt.shape_map (Ty.subst σ') a', Ty.adt.inj hadt]

theorem size_eq : a'.size = a.size := by
  have hlength := congrArg (fun shape => shape.fields.length) (h.shape_eq ha)
  simpa [Adt.shape, Adt.size] using hlength

/-- A field of one struct type is a field of the other. -/
theorem field? {name : String} {f : Field Ty} (hf : a.field? name = some f) :
    ∃ f', a'.field? name = some f' ∧ f'.label = f.label ∧ P.Types W f.ty f'.ty := by
  have hlabels : a'.fields.map Field.label = a.fields.map Field.label :=
    congrArg Shape.fields (h.shape_eq ha)
  obtain ⟨i, f', hi, hi', hf'⟩ := Field.find?_of_labels hlabels hf
  have hlabel := congrArg (·[i]?) hlabels
  simp only [List.getElem?_map, hi, hi', Option.map_some, Option.some.injEq] at hlabel
  exact ⟨f', hf', hlabel, ha.field hi hi'⟩

omit ha

/-! ## Nodes -/

theorem alike_lookup (hplain : ¬W.scope.isStruct id) :
    Option.Rel (fun t t' => P.Types W t t' ∧ t.Alike t') (s.context.lookup id)
      (s'.context.lookup id) := by
  rw [Context.lookup, Context.lookup]
  exact rel_map (h.holds.entries id trivial hplain) fun _ _ ht => ⟨h.holds.resolve ht, h.alike ht⟩

/-- Two new nodes get types of both sides. -/
theorem synthesize (span : Span) (ht : P.Types W t t') :
    P.Twins W (s.synthesize span t) (s'.synthesize span t') := by
  have hplain {i : NodeId} (hi : s.locations.size ≤ i) : ¬W.scope.isStruct i := fun hstruct =>
    Nat.not_lt.2 hi (h.holds.left.declares.coherent.located i hstruct)
  have hsize : (((s.locations.alloc span).2).alloc span).2.size = s.locations.size + 2 := by simp
  have hlocated := h.setLocations (l := (((s.locations.alloc span).2).alloc span).2)
    (by rw [hsize]; exact Nat.le_add_right _ _)
  have hresolved := h.holds.resolve ht
  have hfirst := hlocated.insert (hplain (Nat.le_refl _))
    (by rw [hsize]; exact Nat.lt_add_of_pos_right Nat.two_pos) hresolved
  have hsecond := hfirst.insert (hplain (Nat.le_succ _))
    (by rw [hsize]; exact Nat.lt_succ_self _) hresolved
  rw [Session.synthesize, Session.synthesize, h.holds.locations_eq]
  exact hsecond

theorem synthesizeAll (span : Span) {ts ts' : List Ty} (hts : P.TypesAll W ts ts') :
    P.Twins W (s.synthesizeAll span ts) (s'.synthesizeAll span ts') := by
  induction hts generalizing s s' with
  | nil => exact h
  | cons ht _ ih => exact ih (h.synthesize span ht)

end Pairing.Twins

abbrev Pairing.TypesAt (P : Pairing) (W : Setting) : List (Ty × Span) → List (Ty × Span) → Prop :=
  List.Forall₂ fun a a' => P.Types W a.1 a'.1 ∧ a'.2 = a.2

theorem Pairing.TypesAt.mono {Q : Pairing} {args args' : List (Ty × Span)}
    (h : P.TypesAt W args args') (hlead : P.Leads Q) : Q.TypesAt W args args' :=
  List.Forall₂.imp (fun _ _ ha => ⟨ha.1.mono hlead, ha.2⟩) h

def Mode.twins (W : Setting) : Mode W where
  shared _ := True
  creates _ := True
  Holds P s s' := P.Twins W s s'
  Leads := Pairing.Leads
  refl := .refl
  trans h h' := h.trans h'
  holds h := h.holds
  leads h := h
  insert h hid ht := h.insert hid.plain (h.holds.left.lt_size hid) ht
  more ks _ h := ⟨.more _ ks, h.more ks⟩

namespace Check

variable {α β : Type} {R : Pairing → α → β → Prop}

theorem follows_of_twins {x : Check α} {y : Check β}
    (h : ∀ s s', P.Twins W s s' → Follows (.twins W) P x y R) : Follows (.twins W) P x y R :=
  fun s s' hs => h s s' hs s s' hs

/-! ## Looking up and resolving -/

theorem follows_resolve_alike (ht : P.Types W t t') :
    Follows (.twins W) P (resolve t) (resolve t') fun Q u u' => Q.Types W u u' ∧ u.Alike u' := by
  intro s s' hs r hr _
  obtain rfl : s.context.resolve t = r := by simpa using hr
  exact ⟨P, _, .refl P, hs, rfl, hs.holds.resolve ht, hs.alike ht⟩

theorem follows_lookup_alike (hplain : ¬W.scope.isStruct id) {f : Option Ty → Check α}
    {g : Option Ty → Check β} (hnone : (f none).Fails)
    (hsome : ∀ t t', P.Types W t t' → t.Alike t' → Follows (.twins W) P (f (some t)) (g (some t')) R) :
    Follows (.twins W) P (lookup id >>= f) (lookup id >>= g) R := by
  intro s s' hs a ha herrors
  have hrel := hs.alike_lookup hplain
  rw [perform_bind, perform_lookup] at ha herrors ⊢
  rw [perform_bind, perform_lookup]
  generalize s.context.lookup id = r at ha herrors hrel ⊢
  generalize s'.context.lookup id = r' at hrel ⊢
  cases hrel with
  | none => exact (hnone s a ha herrors).elim
  | some ht => exact hsome _ _ ht.1 ht.2 s s' hs a ha herrors

/-- No type of a body is the error type. -/
theorem isError_eq_false {kinds : List VarKind} (ht : W.IsType kinds t) : t.isError = false := by
  have hne := ht.fine.proper.root.2
  cases t <;> simp_all [isError]

/-! ## Unification -/

/-- What goes on after two types have been unified. If they do not unify, the first run fails. -/
theorem follows_unify (ht : P.Types W t t') (hu : P.Types W u u') {f : Except UnifyError Ty → Check α}
    {g : Except UnifyError Ty → Check β}
    (hfails : ∀ e, (f (.error e)).Fails)
    (hnext : ∀ Q c c', P.Leads Q → Q.Types W c c' →
      Follows (.twins W) Q (f (.ok c)) (g (.ok c')) R) :
    Follows (.twins W) P (unify t u >>= f) (unify t' u' >>= g) R := by
  intro s s' hs a ha herrors
  rw [perform_bind, perform_unify] at ha herrors ⊢
  rw [perform_bind, perform_unify]
  cases hrun : (s.context.unify t u).1 with
  | error e =>
      simp only [hrun] at ha herrors
      exact (hfails e _ a ha herrors).elim
  | ok c =>
      obtain ⟨c', hrun', htwins, hc⟩ := hs.unify ht hu hrun
      simp only [hrun] at ha herrors ⊢
      simp only [hrun']
      obtain ⟨Q, b, hlead, hQ, hb, hR⟩ :=
        hnext _ c c' (.narrow P _) hc _ _ htwins a ha herrors
      exact ⟨Q, b, (Pairing.Leads.narrow P _).trans hlead, hQ, hb, hR⟩

theorem follows_unifyAt (span : Span) (ht : P.Types W t t') (hu : P.Types W u u') :
    Follows (.twins W) P (unifyAt span t u) (unifyAt span t' u') fun Q => Q.Types W :=
  follows_unify ht hu (fun _ => fails_reportTyped _ span)
    fun _ _ _ _ hc => follows_pure hc

theorem keepsErrors_unifyAt (span : Span) (t u : Ty) : (unifyAt span t u).KeepsErrors :=
  keepsErrors_of_steady (steady_unifyAt span t u)

/-! ## Compound expressions -/

theorem follows_fieldType (span : Span) (name : String) (ht : P.Types W t t') :
    Follows (.twins W) P (fieldType span name t) (fieldType span name t') fun Q => Q.Types W := by
  refine (follows_resolve_alike ht).bind (fun u => ?_) fun Q u u' _ hu => ?_
  · split
    · exact keepsErrors_pure _
    · split
      · exact keepsErrors_pure _
      · exact keepsErrors_reportTyped _ _
    · exact keepsErrors_reportTyped _ _
  · obtain ⟨hu, halike⟩ := hu
    split
    · exact (hu.left.fine.proper.root.2 rfl).elim
    · obtain ⟨b, rfl, -, -⟩ := halike.adt
      refine follows_of_twins fun s s' hs => ?_
      simp only
      split
      · rename_i f hf
        obtain ⟨f', hf', -, hty⟩ := hs.field? hu hf
        rw [hf']
        exact follows_pure hty
      · exact (fails_reportTyped _ span).follows _
    · exact (fails_reportTyped _ span).follows _

theorem keepsErrors_unifyArgs (ps : List Ty) (args : List (Ty × Span)) :
    (unifyArgs ps args).KeepsErrors :=
  keepsErrors_of_steady (steady_unifyArgs ps args)

theorem follows_unifyArgs {ps ps' : List Ty} {args args' : List (Ty × Span)}
    (hps : P.TypesAll W ps ps') (hargs : P.TypesAt W args args') :
    Follows (.twins W) P (unifyArgs ps args) (unifyArgs ps' args') fun _ _ _ => True := by
  induction ps generalizing P ps' args args' with
  | nil =>
      cases hps
      exact follows_pure trivial
  | cons p ps ih =>
      cases hps with
      | cons hp hps =>
          cases hargs with
          | nil => exact follows_pure trivial
          | @cons arg arg' args args' harg hargs =>
              obtain ⟨t, span⟩ := arg
              obtain ⟨t', span'⟩ := arg'
              obtain ⟨ht, rfl⟩ := harg
              exact (follows_unifyAt _ hp ht).bind (fun _ => keepsErrors_unifyArgs _ _)
                fun Q _ _ hlead _ =>
                  ih (Pairing.TypesAll.mono hps hlead) (Pairing.TypesAt.mono hargs hlead)

theorem follows_callType (span calleeSpan : Span) (ht : P.Types W t t') {args args' : List (Ty × Span)}
    (hargs : P.TypesAt W args args') :
    Follows (.twins W) P (callType span calleeSpan t args) (callType span calleeSpan t' args')
      fun Q => Q.Types W := by
  refine (follows_resolve_alike ht).bind (fun u => ?_) fun Q u u' hlead hu => ?_
  · split
    · rename_i ps r
      have hkeeps : (unifyArgs ps args >>= fun _ => pure r).KeepsErrors :=
        (keepsErrors_unifyArgs ps args).bind fun _ => keepsErrors_pure r
      split
      · exact (keepsErrors_report _ span).bind fun _ => hkeeps
      · exact hkeeps
    · exact keepsErrors_pure _
    · exact keepsErrors_reportTyped _ _
  · obtain ⟨hu, halike⟩ := hu
    split
    · rename_i ps r
      obtain ⟨qs, r', rfl, hlen⟩ := halike.fn
      refine follows_of_twins fun s s' hs => ?_
      obtain ⟨hps, hr⟩ := hu.fn hs.exists_joint
      have hargs' := Pairing.TypesAt.mono hargs hlead
      dsimp only
      rw [← hargs.length_eq, hlen]
      split
      · exact (fails_report_bind _ span ((keepsErrors_unifyArgs _ _).bind fun _ =>
          keepsErrors_pure _)).follows _
      · exact (follows_unifyArgs hps hargs').bind (fun _ => keepsErrors_pure _)
          fun _ _ _ hlead _ => follows_pure (hr.mono hlead)
    · exact (hu.left.fine.proper.root.2 rfl).elim
    · exact (fails_reportTyped _ calleeSpan).follows _

theorem follows_unaryType (span : Span) (op : UnOp) (ht : P.Types W t t') :
    Follows (.twins W) P (unaryType span op t) (unaryType span op t') fun Q => Q.Types W := by
  refine (follows_resolve_alike ht).bind (fun u => ?_) fun Q u u' _ hu => ?_
  · split
    · exact keepsErrors_pure _
    · exact keepsErrors_reportTyped _ _
  · obtain ⟨hu, halike⟩ := hu
    rw [halike.supports op]
    split
    · exact follows_pure hu
    · exact (fails_reportTyped _ span).follows _

theorem follows_binaryType (span : Span) (op : BinOp) {l l' r r' : Ty × Span}
    (hl : P.Types W l.1 l'.1) (hr : P.Types W r.1 r'.1) (hlspan : l'.2 = l.2) (hrspan : r'.2 = r.2) :
    Follows (.twins W) P (binaryType span op l r) (binaryType span op l' r') fun Q => Q.Types W := by
  unfold binaryType
  rw [hlspan, hrspan]
  split
  · refine (follows_builtin (p := .bool) rfl).bind (fun t => (keepsErrors_unifyAt _ _ _).bind fun _ =>
      (keepsErrors_unifyAt _ _ _).bind fun _ => keepsErrors_pure _) fun Q₁ t t' hlead₁ ht => ?_
    refine (follows_unifyAt l.2 ht (hl.mono hlead₁)).bind (fun _ =>
      (keepsErrors_unifyAt _ _ _).bind fun _ => keepsErrors_pure _) fun Q₂ _ _ hlead₂ _ => ?_
    refine (follows_unifyAt r.2 (ht.mono hlead₂) (hr.mono (hlead₁.trans hlead₂))).bind (fun _ =>
      keepsErrors_pure _) fun Q₃ _ _ hlead₃ _ => ?_
    exact follows_pure (ht.mono (hlead₂.trans hlead₃))
  · refine (follows_unifyAt r.2 hl hr).bind (fun t => ?_) fun Q t t' _ ht => ?_
    · split
      · exact keepsErrors_builtin _
      · refine (keepsErrors_resolve t).bind fun u => ?_
        split
        · exact keepsErrors_pure _
        · exact keepsErrors_reportTyped _ _
    · split
      · exact follows_builtin (p := .bool) rfl
      · refine (follows_resolve_alike ht).bind (fun u => ?_) fun Q u u' _ hu => ?_
        · split
          · exact keepsErrors_pure _
          · exact keepsErrors_reportTyped _ _
        · obtain ⟨hu, halike⟩ := hu
          rw [halike.isError, halike.isNumeric, halike.isGeneralVar]
          split
          · exact follows_pure hu
          · exact (fails_reportTyped _ span).follows _

/-! ## Statements -/

theorem follows_bindingType {annotated annotated' : Option Ty} {init init' : Option (Ty × Span)}
    (hannotated : Option.Rel (P.Types W) annotated annotated')
    (hinit : Option.Rel (fun i i' => P.Types W i.1 i'.1 ∧ i'.2 = i.2) init init') :
    Follows (.twins W) P (bindingType annotated init) (bindingType annotated' init')
      fun Q => Q.Types W := by
  cases hannotated with
  | none =>
      cases hinit with
      | none => exact follows_newVar trivial
      | some hi => exact follows_pure hi.1
  | some ht =>
      cases hinit with
      | none => exact follows_pure ht
      | @some i i' hi =>
          obtain ⟨u, span⟩ := i
          obtain ⟨u', span'⟩ := i'
          obtain ⟨hu, rfl⟩ := hi
          refine (follows_unifyAt _ ht hu).bind (fun c => keepsErrors_pure _) fun Q c c' hlead hc => ?_
          rw [isError_eq_false hc.left, isError_eq_false hc.right]
          exact follows_pure hc

theorem keepsErrors_requireUnit (span : Span) (t : Ty) : (requireUnit span t).KeepsErrors :=
  keepsErrors_of_steady (steady_requireUnit span t)

theorem follows_requireUnit (span : Span) (ht : P.Types W t t') :
    Follows (.twins W) P (requireUnit span t) (requireUnit span t') fun _ _ _ => True :=
  follows_unify .unit ht (fun _ => fails_resolve_bind t fun _ => fails_report _ span)
    fun _ _ _ _ _ => follows_pure trivial

theorem keepsErrors_requireType (span : Span) (t u : Ty) : (requireType span t u).KeepsErrors :=
  (keepsErrors_unifyAt span t u).bind fun _ => keepsErrors_pure _

theorem follows_requireType (span : Span) (ht : P.Types W t t') (hu : P.Types W u u') :
    Follows (.twins W) P (requireType span t u) (requireType span t' u') fun _ _ _ => True :=
  (follows_unifyAt span ht hu).bind (fun _ => keepsErrors_pure _)
    fun _ _ _ _ _ => follows_pure trivial

/-! ## Signatures -/

theorem follows_returnType (hplain : ¬W.scope.isStruct id) :
    Follows (.twins W) P (returnType id) (returnType id) fun Q => Q.Types W := by
  refine follows_lookup_alike hplain (fails_throw _) fun t t' ht halike => ?_
  cases t with
  | fn ps r =>
      obtain ⟨qs, r', rfl, -⟩ := halike.fn
      refine follows_of_twins fun s s' hs => ?_
      exact follows_pure (ht.fn hs.exists_joint).2
  | _ => exact (fails_throw _).follows _

theorem follows_constType (hplain : ¬W.scope.isStruct id) :
    Follows (.twins W) P (constType id) (constType id) fun Q => Q.Types W :=
  follows_lookup_alike hplain (fails_throw _) fun _ _ ht _ => follows_pure ht

end Check

end TypeInference

import TypeInference.Proofs.Check.Rules

/-!
# Struct literals in a solution

If the values of its written fields are typed, and its base is, a literal that
is completed without a report is typed field by field: a written field has the
declared type, and so have the two nodes that copy a field of the base.
-/

namespace TypeInference

open Ty Walk Check

variable {shapes : NodeId → Shape} {kinds : List VarKind} {s : Session} {a : Adt Ty}

def Shape.IsIndexed (shape : Shape) : Prop := ∀ (i : Nat) l, shape.fields[i]? = some l → l.2 = i

theorem Adt.IsIndexed.of_fine (hshapes : ∀ d, (shapes d).IsIndexed)
    (ha : (Ty.adt a).Fine shapes kinds) : a.IsIndexed := by
  intro i f hf
  have hshape : a.shape = shapes a.decl := ha.proper.root.1
  have hlabel : a.shape.fields[i]? = some f.label := by simp [Adt.shape, hf]
  rw [hshape] at hlabel
  exact hshapes a.decl i f.label hlabel

/-! ## Copies of fields of a base -/

namespace Session

theorem Sound.absent_size (hs : s.Sound shapes kinds) {i : Nat} (hi : s.locations.size ≤ i) :
    s.context.types.find? i = none := by
  cases h : s.context.types.find? i with
  | none => rfl
  | some t => exact ((Nat.not_lt.2 hi) (hs.located i t h)).elim

theorem Sound.leads_synthesize (hs : s.Sound shapes kinds) (span : Span) {t : Ty}
    (ht : t.Fine shapes kinds) : s.Leads shapes kinds kinds (s.synthesize span t) := by
  have hr : (s.context.resolve t).Fine shapes kinds := ht.resolve hs.bindings
  have hsize : (((s.locations.alloc span).2).alloc span).2.size = s.locations.size + 2 := by simp
  have hlead₀ := hs.leads_locations (l := (((s.locations.alloc span).2).alloc span).2)
    (by rw [hsize]; exact Nat.le_add_right _ _)
  have hlead₁ := hlead₀.sound.leads_insert s.locations.size hr
    (by rw [hsize]; exact Nat.lt_add_of_pos_right (by decide)) fun u hu => by
      rw [hs.absent_size (Nat.le_refl _)] at hu
      cases hu
  have hlead₂ := hlead₁.sound.leads_insert (s.locations.size + 1) hr
    (by rw [hsize]; exact Nat.lt_succ_self _) fun u hu => by
      have hne : s.locations.size + 1 ≠ s.locations.size := Nat.succ_ne_self _
      simp only [Context.insert, NodeTypes.find?_insert, if_neg hne] at hu
      rw [hs.absent_size (Nat.le_succ _)] at hu
      cases hu
  exact hlead₀.trans (hlead₁.trans hlead₂)

theorem Sound.leads_synthesizeAll (hs : s.Sound shapes kinds) (span : Span) {ts : List Ty}
    (hts : ∀ t ∈ ts, t.Fine shapes kinds) : s.Leads shapes kinds kinds (s.synthesizeAll span ts) := by
  induction ts generalizing s with
  | nil => exact .refl hs
  | cons t ts ih =>
      have hlead := hs.leads_synthesize span (hts t List.mem_cons_self)
      exact hlead.trans (ih hlead.sound fun u hu => hts u (List.mem_cons_of_mem _ hu))

end Session

/-! ## Completing a literal -/

theorem Walk.derives_orderLiteral (hs : s.Sound shapes kinds) (slots : Slots) {t : Ty}
    (ht : t.Fine shapes kinds) :
    Walk.Derives shapes kinds s (orderLiteral a t slots) (fun kinds _ r => r.Fine shapes kinds)
      fun _ r _ σ => r.subst σ = t.subst σ := by
  unfold orderLiteral
  split
  · exact derives_leaf (derives_resolve hs ht)
  · exact derives_leaf (derives_throw _)

/-- The literal keeps its type when it is completed. -/
theorem Walk.derives_completeLiteral (hs : s.Sound shapes kinds) (ha : (Ty.adt a).Fine shapes kinds)
    {t : Ty} (ht : t.Fine shapes kinds) (span : Span) (base : Option Expr) (written : List FieldInit)
    {slots : Slots} (hslots : slots.isFaulty = false) :
    Walk.Derives shapes kinds s (completeLiteral a t span base written slots)
      (fun kinds _ r => r.Fine shapes kinds) fun _ r _ σ => r.subst σ = t.subst σ := by
  unfold completeLiteral
  simp only [hslots, Bool.false_eq_true, if_false]
  split
  · exact derives_orderLiteral hs slots ht
  · split
    · exact derives_leaf (derives_reportTyped _ span)
    · rename_i b
      have hfields : ∀ u ∈ (slots.untaken a).map Field.ty, u.Fine shapes kinds := by
        intro u hu
        obtain ⟨f, hf, rfl⟩ := List.mem_map.1 hu
        exact ha.field (List.mem_filter.1 hf).1
      refine derives_first (l := [])
        (derives_of_perform (P := fun _ _ => True) (Q := fun _ _ _ => True)
          (perform_fillFromBase a b _ slots s) (hs.leads_synthesizeAll b.span hfields) trivial
          fun _ _ _ => trivial)
        (fun slots' => steady_orderLiteral a t slots') fun kinds' slots' hlead _ => ?_
      exact (derives_orderLiteral hlead.sound slots' (ht.mono hlead.prefix_kinds)).imp
        (fun _ _ _ h => h) fun _ _ _ _ h _ => h

namespace FieldInit

variable {T : Typing} {names : Path → Ty → Prop}

theorem allTyped_of_getElem? {fs : List (Field Ty)} {ns : List FieldInit}
    (hlen : ns.length = fs.length)
    (h : ∀ (i : Nat) f n, fs[i]? = some f → ns[i]? = some n → n.TypedAs T names f) :
    AllTyped T names fs ns := by
  induction fs generalizing ns with
  | nil =>
      obtain rfl : ns = [] := List.eq_nil_of_length_eq_zero hlen
      rw [AllTyped]
      trivial
  | cons f fs ih =>
      cases ns with
      | nil => cases hlen
      | cons n ns =>
          rw [AllTyped]
          exact ⟨h 0 f n rfl rfl, ih (Nat.succ.inj hlen) fun i g m hg hm =>
            h (i + 1) g m (by simpa using hg) (by simpa using hm)⟩

/-- A copy of a field of the base is typed if the base is an instance of the struct and both nodes
have the type of the field. -/
theorem typedAs_fromBase {b : Expr} {id : NodeId} {f : Field Ty} {σ : VarId → Ty} (hf : f ∈ a.fields)
    (hb : b.Typed T names) (hT : T b.id = some ((Ty.adt a).subst σ))
    (haccess : T id = some (f.ty.subst σ)) (hfield : T (id + 1) = some (f.ty.subst σ)) :
    (f.fromBase a b id).TypedAs T names (f.map (Ty.subst σ)) := by
  have hbase : T b.id = some (.adt (a.map (Ty.subst σ))) := by
    rw [hT]
    exact congrArg some (rewrite_adt _ _ a)
  have hmem : f.map (Ty.subst σ) ∈ (a.map (Ty.subst σ)).fields := List.mem_map_of_mem hf
  unfold Field.fromBase
  cases a.kind with
  | named =>
      refine ⟨⟨hb, a.map (Ty.subst σ), f.map (Ty.subst σ), hbase, hmem, rfl, haccess⟩, rfl, ?_, ?_⟩
      · exact hfield
      · exact haccess
  | tuple =>
      refine ⟨⟨hb, a.map (Ty.subst σ), f.map (Ty.subst σ), hbase, hmem, .inr rfl, haccess⟩,
        .inr rfl, ?_, ?_⟩
      · exact hfield
      · exact haccess

def WrittenTyped (T : Typing) (names : Path → Ty → Prop) (a : Adt Ty) (σ : VarId → Ty)
    (nodes : List FieldInit) : Prop :=
  ∀ n ∈ nodes, ∀ f, a.field? n.fieldName = some f → n.TypedAs T names (f.map (Ty.subst σ))

theorem allTyped_of_completed {written fields : List FieldInit} {slots : Slots} {base : Option Expr}
    {id : NodeId} {σ : VarId → Ty} (ha : a.IsIndexed) (hp : slots.Placed a written)
    (hc : Completed a written slots base id fields) (hwritten : WrittenTyped T names a σ written)
    (hbase : Expr.OptionTyped T names (some ((Ty.adt a).subst σ)) base)
    (hcopies : ∀ (k : Nat) f b, (a.unwritten written)[k]? = some f → base = some b →
      ∀ i, i = id + 2 * k ∨ i = id + 2 * k + 1 → T i = some (f.ty.subst σ)) :
    AllTyped T names (a.map (Ty.subst σ)).fields fields := by
  refine allTyped_of_getElem? ?_ fun i f' n hf' hn => ?_
  · rw [hc.length_eq]
    simp [Adt.map, Adt.size]
  · rw [Adt.map, List.getElem?_map] at hf'
    obtain ⟨f, hf, rfl⟩ := Option.map_eq_some_iff.1 hf'
    have hmem := List.mem_of_getElem? hf
    by_cases hname : f.name ∈ written.map FieldInit.fieldName
    · obtain ⟨hw, hfield⟩ := hc.written_of_getElem? hp ha hf hname hn
      exact hwritten n hw f hfield
    · obtain ⟨k, hk⟩ := List.mem_iff_getElem?.1 (Completed.mem_unwritten.2 ⟨hmem, hname⟩)
      obtain ⟨b, rfl, hb⟩ := hc.filled k f hk
      rw [ha i f hf, hn] at hb
      obtain rfl := Option.some.inj hb
      rw [Expr.OptionTyped] at hbase
      exact typedAs_fromBase hmem hbase.1 hbase.2 (hcopies k f b hk rfl _ (.inl rfl))
        (hcopies k f b hk rfl _ (.inr rfl))

end FieldInit

/-- A completed literal is typed field by field. -/
theorem Walk.derives_completeFields (hs : s.Sound shapes kinds) (ha : (Ty.adt a).Fine shapes kinds)
    (hindexed : a.IsIndexed) {t : Ty} (ht : t.Fine shapes kinds) (span : Span) (base : Option Expr)
    {written : List FieldInit} {slots : Slots} (hp : slots.Placed a written) :
    Walk.Derives shapes kinds s (completeLiteral a t span base written slots)
      (fun kinds _ r => r.Fine shapes kinds) fun fields r T σ => r.subst σ = t.subst σ ∧
        ∀ names, FieldInit.WrittenTyped T names a σ written →
          Expr.OptionTyped T names (some ((Ty.adt a).subst σ)) base →
          FieldInit.AllTyped T names (a.map (Ty.subst σ)).fields fields := by
  intro r hok herrors
  have hreports : (completeLiteral a t span base written slots).reports s = [] := by
    simp [Walk.reports, herrors]
  obtain ⟨kinds', hlead, hr, hsubst⟩ :=
    derives_completeLiteral hs ha ht span base written hp.not_faulty r hok herrors
  obtain ⟨hcompleted, -, hcopies⟩ := completed_of_reports hp hindexed hok hreports
  refine ⟨kinds', hlead, hr, fun T σ hσ => ⟨hsubst T σ hσ, fun names hwritten hbase => ?_⟩⟩
  refine FieldInit.allTyped_of_completed hindexed hp hcompleted hwritten hbase
    fun k f b hk hb i hi => ?_
  rw [hσ.types i _ (hcopies k f b hk hb i hi).2, hσ.subst_resolve]

end TypeInference

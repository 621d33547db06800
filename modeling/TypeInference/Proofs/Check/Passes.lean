import TypeInference.Check.Program
import TypeInference.Proofs.Check.Inference
import TypeInference.Proofs.Check.Signatures

/-!
# Passes over a program

The signature pass leaves a sound session in which no node of a body has a
type. The body pass leaves one whose solutions type every body.
-/

namespace TypeInference

open Ty Walk Check

variable {shapes : NodeId → Shape} {kinds : List VarKind} {s : Session}

namespace Program

/-! ## Signatures -/

theorem mem_of_mem_structs {p : Program} {item : Item} {decl : StructDecl}
    (h : (item, decl) ∈ p.structs) : item ∈ p.items ∧ item.kind = .struct decl := by
  obtain ⟨item', hitem, hkind⟩ := List.mem_filterMap.1 h
  cases h' : item'.kind with
  | struct decl' =>
      obtain ⟨rfl, rfl⟩ : item' = item ∧ decl' = decl := by simpa [h'] using hkind
      exact ⟨hitem, h'⟩
  | fn decl' => simp [h'] at hkind
  | const decl' => simp [h'] at hkind

theorem mem_of_struct? {p : Program} {id : NodeId} {item : Item} {decl : StructDecl}
    (h : p.struct? id = some (item, decl)) :
    item ∈ p.items ∧ item.kind = .struct decl ∧ item.id = id := by
  obtain ⟨hitem, hkind⟩ := mem_of_mem_structs (List.mem_reverse.1 (List.mem_of_find?_eq_some h))
  exact ⟨hitem, hkind, by simpa using List.find?_some h⟩

theorem signatureIds_subset {p : Program} {item : Item} (h : item ∈ p.items) :
    item.id ∈ p.signatureIds ∧ item.kind.signatureIds ⊆ p.signatureIds := by
  have hsub : item.signatureIds ⊆ p.signatureIds := fun id hid => List.mem_flatMap.2 ⟨item, h, hid⟩
  rwa [Item.signatureIds, List.cons_subset] at hsub

theorem located_structs {p : Program} {size : Nat} (hlocated : ∀ id ∈ p.ids, id < size) :
    ∀ x ∈ p.structs, x.1.id < size := fun _ hx =>
  hlocated _ (p.ids_perm.mem_iff.2 (List.mem_append_left _
    (signatureIds_subset (mem_of_mem_structs hx).1).1))

theorem covers_struct? (p : Program) : Declare.Covers p.struct? p.signatureIds := by
  intro id item decl h
  obtain ⟨hitem, hkind, -⟩ := mem_of_struct? h
  rw [← hkind]
  exact signatureIds_subset hitem

theorem shapes_struct? (p : Program) (id : NodeId) (item : Item) (decl : StructDecl)
    (h : p.struct? id = some (item, decl)) : p.shapes item.id = decl.shape item.name := by
  rw [(mem_of_struct? h).2.2, shapes, h]

theorem steady_demand (p : Program) (id : NodeId) : Declare.Steady p.signatureIds (p.demand id) :=
  Declare.steady_demand p.covers_struct? _ [] id

theorem keeps_demand (p : Program) (kinds : List VarKind) (id : NodeId) :
    Declare.Keeps p.shapes p.signatureIds kinds (p.demand id) fun _ _ => True :=
  Declare.keeps_demand p.covers_struct? p.shapes_struct? _ [] id

/-- A declaration records types only for its own item and for structs. -/
theorem steady_declare_of {p : Program} {ids : List NodeId} (hcovers : Declare.Covers p.struct? ids)
    {item : Item} (hids : item.signatureIds ⊆ ids) : Declare.Steady ids (p.declare item) := by
  have hdemand (id : NodeId) : Declare.Steady ids (p.demand id) :=
    Declare.steady_demand hcovers _ [] id
  rw [Item.signatureIds, List.cons_subset] at hids
  unfold declare
  cases hitem : item.kind with
  | struct decl => exact hdemand item.id
  | fn decl => exact Declare.steady_fn hdemand hids.1 (hitem ▸ hids.2)
  | const decl => exact Declare.steady_const hdemand hids.1 (hitem ▸ hids.2)

theorem steady_declare {p : Program} {item : Item} (h : item ∈ p.items) :
    Declare.Steady p.signatureIds (p.declare item) :=
  steady_declare_of p.covers_struct? (List.cons_subset.2 (signatureIds_subset h))

theorem keeps_declare (kinds : List VarKind) {p : Program} {item : Item} (h : item ∈ p.items) :
    Declare.Keeps p.shapes p.signatureIds kinds (p.declare item) fun _ _ => True := by
  obtain ⟨hid, hkind⟩ := signatureIds_subset h
  unfold declare
  cases hitem : item.kind with
  | struct decl => exact p.keeps_demand kinds item.id
  | fn decl => exact Declare.keeps_fn p.steady_demand p.keeps_demand hid (hitem ▸ hkind)
  | const decl => exact Declare.keeps_const p.steady_demand p.keeps_demand hid (hitem ▸ hkind)

/-- A run of declarations changes what the declarations change. -/
theorem grows_declareAll_of {p : Program} {ids : List NodeId} {items : List Item}
    (hitems : ∀ item ∈ items, Declare.Steady ids (p.declare item)) (d : Declaring) :
    d.session.Grows ids (p.declareAll items d).2.session := by
  induction items generalizing d with
  | nil => exact .refl _ _
  | cons item rest ih =>
      have hfirst := (hitems item List.mem_cons_self).grows d
      have hrest := ih fun item' h' => hitems item' (List.mem_cons_of_mem _ h')
      rw [declareAll]
      split
      · rename_i hrun
        rw [hrun] at hfirst
        exact hfirst
      · rename_i hrun
        rw [hrun] at hfirst
        exact hfirst
      · rename_i hrun
        rw [hrun] at hfirst
        exact hfirst.trans (hrest _)

theorem grows_declareAll (p : Program) {items : List Item} (hitems : ∀ item ∈ items, item ∈ p.items)
    (d : Declaring) : d.session.Grows p.signatureIds (p.declareAll items d).2.session :=
  grows_declareAll_of (fun item h => steady_declare (hitems item h)) d

/-- Where nothing is reported, the first declaration has succeeded. -/
theorem declareAll_cons_of_errors (p : Program) {item : Item} {rest : List Item}
    (hitems : ∀ item' ∈ item :: rest, item' ∈ p.items) {d : Declaring} (hexplained : d.Explained)
    (hended : (p.declareAll (item :: rest) d).1 = .ok ())
    (herrors : (p.declareAll (item :: rest) d).2.session.sink.errors = []) :
    ∃ d', (p.declare item).perform d = (.ok (), d') ∧ d'.Explained ∧
      p.declareAll (item :: rest) d = p.declareAll rest d' := by
  have hsteady := steady_declare (hitems item List.mem_cons_self)
  have hrest : ∀ item' ∈ rest, item' ∈ p.items := fun item' h' =>
    hitems item' (List.mem_cons_of_mem _ h')
  rw [declareAll] at hended herrors ⊢
  rcases hrun : (p.declare item).perform d with ⟨e | u, d'⟩
  · have hexplains := hsteady.explains d hexplained e (by rw [hrun])
    rw [hrun] at hexplains
    simp only [hrun] at hended herrors
    cases e with
    | defect e' => cases hended
    | program =>
        rcases hexplains with ⟨_, h⟩ | h
        · cases h
        · exact (h herrors).elim
    | item =>
        rcases hexplains with ⟨_, h⟩ | h
        · cases h
        · exact (h ((p.grows_declareAll hrest d').errors_eq_nil herrors)).elim
  · have hexplained' := hsteady.explained d hexplained u (by rw [hrun])
    rw [hrun] at hexplained'
    exact ⟨d', rfl, hexplained', rfl⟩

/-- Where nothing is reported, every declaration has succeeded. -/
theorem sound_declareAll (p : Program) {items : List Item} (hitems : ∀ item ∈ items, item ∈ p.items)
    {d : Declaring} (hd : d.session.Sound p.shapes kinds) (hexplained : d.Explained)
    (hlt : ∀ id ∈ p.signatureIds, id < d.session.locations.size)
    (hended : (p.declareAll items d).1 = .ok ())
    (herrors : (p.declareAll items d).2.session.sink.errors = []) :
    ∃ kinds', (p.declareAll items d).2.session.Sound p.shapes kinds' := by
  induction items generalizing kinds d with
  | nil => exact ⟨kinds, hd⟩
  | cons item rest ih =>
      obtain ⟨d', hrun, hexplained', heq⟩ := p.declareAll_cons_of_errors hitems hexplained hended herrors
      have hitem := hitems item List.mem_cons_self
      have hgrows := (steady_declare hitem).grows d
      have hkeep := keeps_declare kinds hitem d hd hlt () (by rw [hrun])
      rw [hrun] at hkeep hgrows
      rw [heq] at hended herrors ⊢
      obtain ⟨kinds', -, hd', -⟩ := hkeep
      exact ih (fun item' h' => hitems item' (List.mem_cons_of_mem _ h')) hd' hexplained'
        (fun id hid => Nat.lt_of_lt_of_le (hlt id hid) hgrows.size_le) hended herrors

end Program

/-! ## Bodies -/

namespace Check

theorem derives_returnType (hs : s.Sound shapes kinds) (id : NodeId) :
    Derives shapes kinds s (returnType id) (Fine shapes)
      fun r T σ => ∃ ps, T id = some (.fn ps (r.subst σ)) := by
  refine (derives_lookup hs id).bind (l := []) (fun r => ?_) fun kinds' r hlead hr => ?_
  · split
    · exact steady_pure _
    · exact steady_defect _
  · split
    · rename_i ps ret
      refine derives_pure hlead.sound ((hr _ rfl).part (List.mem_append_right _ (by simp))) ?_
      intro T σ _ hT
      exact ⟨ps.map (Ty.subst σ), (hT _ rfl).trans (congrArg some (rewrite_fn _ _ ps ret))⟩
    · exact derives_throw _

theorem derives_constType (hs : s.Sound shapes kinds) (id : NodeId) :
    Derives shapes kinds s (constType id) (Fine shapes) fun r T σ => T id = some (r.subst σ) := by
  refine (derives_lookup hs id).bind (l := []) (fun r => ?_) fun kinds' r hlead hr => ?_
  · split
    · exact steady_pure _
    · exact steady_defect _
  · split
    · exact derives_pure hlead.sound (hr _ rfl) fun _ _ _ hT => hT _ rfl
    · exact derives_throw _

theorem steady_returnType (id : NodeId) : Check.Steady [] (returnType id) := by
  refine (steady_lookup id).bind fun r => ?_
  split
  · exact steady_pure _
  · exact steady_defect _

theorem steady_constType (id : NodeId) : Check.Steady [] (constType id) := by
  refine (steady_lookup id).bind fun r => ?_
  split
  · exact steady_pure _
  · exact steady_defect _

theorem steady_requireType {ids : List NodeId} (span : Span) (t u : Ty) :
    Check.Steady ids (requireType span t u) :=
  (steady_unifyAt span t u).bind fun _ => steady_pure ()

theorem derives_requireType (hs : s.Sound shapes kinds) (span : Span) {t u : Ty}
    (ht : t.Fine shapes kinds) (hu : u.Fine shapes kinds) :
    Derives shapes kinds s (requireType span t u) (fun _ _ => True)
      fun _ _ σ => t.subst σ = u.subst σ :=
  (derives_unifyAt hs span ht hu).bind (l := []) (fun _ => steady_pure ()) fun _ _ hlead _ =>
    derives_pure hlead.sound trivial fun _ _ _ h => h.1.trans h.2.symm

end Check

namespace Item

theorem steady_check (item : Item) : Walk.Steady item.bodyIds item.check := by
  unfold Item.check Item.bodyIds
  cases item.kind with
  | struct decl => exact steady_leaf (steady_pure ())
  | fn decl =>
      exact steady_first ⟨fun s => ((steady_returnType item.id).grows s).mono (List.nil_subset _),
          (steady_returnType item.id).explains⟩ fun ret =>
        steady_child decl.body.steady fun _ t => steady_leaf (steady_requireType _ ret t)
  | const decl =>
      exact steady_first ⟨fun s => ((steady_constType item.id).grows s).mono (List.nil_subset _),
          (steady_constType item.id).explains⟩ fun t =>
        steady_child decl.value.steady fun _ u => steady_leaf (steady_requireType _ t u)

theorem infers (hshapes : ∀ d, (shapes d).IsIndexed) (item : Item) (hs : s.Sound shapes kinds)
    (hfresh : s.Fresh item.bodyIds) :
    Walk.Derives shapes kinds s item.check (fun _ _ _ => True)
      fun n _ T σ => n.Typed T (Path.Names T (ParamFree σ)) := by
  unfold Item.check
  unfold Item.bodyIds at hfresh
  cases hkind : item.kind with
  | struct decl =>
      refine derives_leaf (derives_pure hs trivial fun T σ _ => ?_)
      rw [Item.Typed, hkind]
      trivial
  | fn decl =>
      rw [hkind] at hfresh
      refine derives_first (derives_returnType hs item.id) (fun ret =>
        steady_child decl.body.steady fun _ t => steady_leaf (steady_requireType _ ret t))
        fun kinds₁ ret hlead hret => ?_
      refine derives_child ((infers_all hshapes).2.1 decl.body hlead.sound
        (hfresh.after ((steady_returnType item.id).grows s))) (l := [])
        (fun t => steady_leaf (steady_requireType _ ret t)) fun kinds₂ t hlead' ht => ?_
      refine derives_leaf ((derives_requireType hlead'.sound _ (hret.mono hlead'.prefix_kinds) ht).imp
        (fun _ _ h => h) ?_)
      rintro _ T σ hsame ⟨hT, htyped⟩ ⟨ps, hfn⟩
      exact ⟨htyped, ps, ret.subst σ, hfn, hT.trans (congrArg some hsame.symm)⟩
  | const decl =>
      rw [hkind] at hfresh
      refine derives_first (derives_constType hs item.id) (fun t =>
        steady_child decl.value.steady fun _ u => steady_leaf (steady_requireType _ t u))
        fun kinds₁ t hlead ht => ?_
      refine derives_child ((infers_all hshapes).1 decl.value hlead.sound
        (hfresh.after ((steady_constType item.id).grows s))) (l := [])
        (fun u => steady_leaf (steady_requireType _ t u)) fun kinds₂ u hlead' hu => ?_
      refine derives_leaf ((derives_requireType hlead'.sound _ (ht.mono hlead'.prefix_kinds) hu).imp
        (fun _ _ h => h) ?_)
      rintro _ T σ hsame ⟨hTu, htyped⟩ hT
      exact ⟨htyped, hTu.trans ((congrArg some hsame.symm).trans hT.symm)⟩

end Item

namespace Program

theorem grows_checkAll (items : List Item) (s : Session) :
    s.Grows (items.flatMap Item.bodyIds) (checkAll items s).2.2 := by
  induction items generalizing s with
  | nil => exact .refl _ _
  | cons item rest ih =>
      have hfirst := (item.steady_check.grows s).mono
        (List.subset_append_left item.bodyIds (rest.flatMap Item.bodyIds))
      rw [List.flatMap_cons, checkAll]
      split
      · rename_i hrun
        rw [hrun] at hfirst
        exact hfirst
      · rename_i hrun
        rw [hrun] at hfirst
        exact hfirst
      · rename_i hrun
        rw [hrun] at hfirst
        exact hfirst.trans ((ih _).mono (List.subset_append_right _ _))

theorem checkAll_cons_of_ok {item : Item} {rest : List Item} (hok : (item.check s).outcome = .ok ()) :
    checkAll (item :: rest) s = ((item.check s).node :: (checkAll rest (item.check s).session).1,
      (checkAll rest (item.check s).session).2) := by
  rw [checkAll]
  rcases hrun : item.check s with ⟨n, e | u, s'⟩
  · simp [hrun] at hok
  · rfl

/-- Where nothing is reported, the check of the first item has succeeded. -/
theorem checkAll_cons_of_errors {item : Item} {rest : List Item}
    (hended : (checkAll (item :: rest) s).2.1 = .ok ())
    (herrors : (checkAll (item :: rest) s).2.2.sink.errors = []) :
    (item.check s).outcome = .ok () ∧
      checkAll (item :: rest) s = ((item.check s).node :: (checkAll rest (item.check s).session).1,
        (checkAll rest (item.check s).session).2) := by
  have hexplains := item.steady_check.explains s
  rw [checkAll] at hended herrors ⊢
  rcases hrun : item.check s with ⟨n, e | u, s'⟩
  · rw [hrun] at hexplains
    simp only [hrun] at hended herrors
    cases e with
    | defect d => cases hended
    | program =>
        rcases hexplains .program rfl with ⟨_, h⟩ | h
        · cases h
        · exact (h herrors).elim
    | item =>
        rcases hexplains .item rfl with ⟨_, h⟩ | h
        · cases h
        · exact (h ((grows_checkAll rest s').errors_eq_nil herrors)).elim
  · exact ⟨rfl, rfl⟩

/-- Where nothing is reported, every body has been checked, and the solutions type it. -/
theorem leads_checkAll (hshapes : ∀ d, (shapes d).IsIndexed) {items : List Item}
    (hs : s.Sound shapes kinds) (hfresh : s.Fresh (items.flatMap Item.bodyIds))
    (hended : (checkAll items s).2.1 = .ok ()) (herrors : (checkAll items s).2.2.sink.errors = []) :
    ∃ kinds', s.Leads shapes kinds kinds' (checkAll items s).2.2 ∧
      ∀ T σ, Solution kinds' (checkAll items s).2.2 T σ →
        ∀ item ∈ (checkAll items s).1, item.Typed T (Path.Names T (ParamFree σ)) := by
  induction items generalizing kinds s with
  | nil => exact ⟨kinds, .refl hs, fun _ _ _ item hitem => by simp [checkAll] at hitem⟩
  | cons item rest ih =>
      obtain ⟨hok, heq⟩ := checkAll_cons_of_errors hended herrors
      rw [heq] at hended herrors ⊢
      rw [List.flatMap_cons] at hfresh
      obtain ⟨hfirst, hrest⟩ := hfresh.split
      obtain ⟨kinds₁, hlead, -, htyped⟩ := item.infers hshapes hs hfirst () hok
        ((grows_checkAll rest _).errors_eq_nil herrors)
      obtain ⟨kinds₂, hlead', hall⟩ := ih hlead.sound (hrest _ (item.steady_check.grows s)) hended herrors
      refine ⟨kinds₂, hlead.trans hlead', fun T σ hσ item' hitem => ?_⟩
      rcases List.mem_cons.1 hitem with rfl | hitem
      · exact htyped T σ (hlead'.solution T σ hσ)
      · exact hall T σ hσ item' hitem

end Program

end TypeInference

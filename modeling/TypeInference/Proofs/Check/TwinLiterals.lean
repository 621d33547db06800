import TypeInference.Proofs.Check.DeclarationOrder
import TypeInference.Proofs.Check.TwinRules

/-!
# Struct literals of twins

A literal is completed from its slots. If the same nodes stand in the slots on
both sides, in whatever order they were taken, it is completed with the same
fields.
-/

namespace TypeInference

open Ty Walk Check

/-- Slots that the same nodes have been accepted for, maybe in another order. -/
structure Slots.Matches (slots slots' : Slots) : Prop where
  taken : slots'.taken.Perm slots.taken
  nodes_eq : slots'.nodes = slots.nodes
  sound : slots.isFaulty = false
  sound' : slots'.isFaulty = false

namespace Slots.Matches

variable {slots slots' slots'' : Slots}

theorem empty (size : Nat) : (Slots.empty size).Matches (Slots.empty size) := ⟨.refl _, rfl, rfl, rfl⟩

theorem trans (h : slots.Matches slots') (h' : slots'.Matches slots'') : slots.Matches slots'' :=
  ⟨h'.taken.trans h.taken, h'.nodes_eq.trans h.nodes_eq, h.sound, h'.sound'⟩

theorem accept (h : slots.Matches slots') {f f' : Field Ty} (hf : f'.label = f.label)
    (node : FieldInit) : (slots.accept f node).Matches (slots'.accept f' node) := by
  have hindex : f'.index = f.index := congrArg Prod.snd hf
  exact ⟨h.taken.cons _, by simp [Slots.accept, Slots.fill, hindex, h.nodes_eq], h.sound, h.sound'⟩

theorem contains_taken (h : slots.Matches slots') (name : String) :
    slots'.taken.contains name = slots.taken.contains name := by
  rw [Bool.eq_iff_iff, List.contains_iff_mem, List.contains_iff_mem, h.taken.mem_iff]

theorem inOrder (h : slots.Matches slots') : slots'.inOrder = slots.inOrder := by
  rw [Slots.inOrder, Slots.inOrder, h.nodes_eq]

end Slots.Matches

variable {W : Setting} {P : Pairing} {t t' : Ty} {a a' : Adt Ty} {slots slots' : Slots}
  {s s' : Session}

structure Pairing.Fields (P : Pairing) (W : Setting) (f f' : Field Ty) : Prop where
  label_eq : f'.label = f.label
  types : P.Types W f.ty f'.ty

theorem Pairing.Fields.name_eq {f f' : Field Ty} (h : P.Fields W f f') : f'.name = f.name :=
  congrArg Prod.fst h.label_eq

theorem Pairing.Fields.index_eq {f f' : Field Ty} (h : P.Fields W f f') : f'.index = f.index :=
  congrArg Prod.snd h.label_eq

theorem Pairing.Fields.mono {Q : Pairing} {f f' : Field Ty} (h : P.Fields W f f')
    (hlead : P.Leads Q) : Q.Fields W f f' := ⟨h.label_eq, h.types.mono hlead⟩

abbrev Pairing.FieldsAll (P : Pairing) (W : Setting) : List (Field Ty) → List (Field Ty) → Prop :=
  List.Forall₂ (P.Fields W)

/-- The fields of struct types that are one in every pair. -/
theorem Pairing.Twins.fields (h : P.Twins W s s') (ha : P.Types W (.adt a) (.adt a')) :
    P.FieldsAll W a.fields a'.fields := by
  have hlabels : a'.fields.map Field.label = a.fields.map Field.label :=
    congrArg Shape.fields (h.shape_eq ha)
  refine List.forall₂_iff_get.2 ⟨by simpa using (congrArg List.length hlabels).symm, ?_⟩
  intro i hi hi'
  have hlabel := congrArg (·[i]?) hlabels
  refine ⟨by simpa [hi, hi'] using hlabel, ha.field (i := i) ?_ ?_⟩ <;> simp

/-- Without the fields that have been taken, the same fields are left. -/
theorem Pairing.FieldsAll.untaken (h : P.FieldsAll W a.fields a'.fields)
    (hslots : slots.Matches slots') : P.FieldsAll W (slots.untaken a) (slots'.untaken a') := by
  refine List.rel_filter (fun f f' hf => ?_) h
  simp only [hf.name_eq, hslots.contains_taken]

theorem Pairing.FieldsAll.types {fs fs' : List (Field Ty)} (h : P.FieldsAll W fs fs') :
    P.TypesAll W (fs.map Field.ty) (fs'.map Field.ty) :=
  List.forall₂_map_left_iff.2 (List.forall₂_map_right_iff.2 (List.Forall₂.imp (fun _ _ hf => hf.types) h))

/-- The same accesses to the base fill the slots on both sides. -/
theorem Slots.Matches.fillFrom (hslots : slots.Matches slots') (hkind : a'.kind = a.kind)
    (base : Expr) (id : NodeId) {fs fs' : List (Field Ty)} (hfs : P.FieldsAll W fs fs') :
    (slots.fillFrom a base id fs).Matches (slots'.fillFrom a' base id fs') := by
  induction hfs generalizing slots slots' id with
  | nil => exact hslots
  | @cons f f' _ _ hf _ ih =>
      have hfill : (slots.fill f.index (f.fromBase a base id)).Matches
          (slots'.fill f'.index (f'.fromBase a' base id)) := by
        refine ⟨hslots.taken, ?_, hslots.sound, hslots.sound'⟩
        simp only [Slots.fill, Field.fromBase, hkind, hf.name_eq, hf.index_eq, hslots.nodes_eq]
      exact ih hfill (id + 2)

namespace Check

theorem keepsErrors_unifyBase (a : Adt Ty) (t : Ty) (span : Span) : (unifyBase a t span).KeepsErrors :=
  keepsErrors_of_steady (steady_unifyBase a t span)

/-- The struct that a path names is the same on both sides, or an instance of it is. -/
theorem follows_structOf (span : Span) {p : Path}
    (hargs : ∀ t ∈ p.args, W.Admits t.ids t.resolutions) :
    Follows (.twins W) P (structOf p span) (structOf p span)
      fun Q a a' => Q.Types W (.adt a) (.adt a') := by
  unfold structOf
  cases hpath : p.res with
  | none => exact (fails_giveUp _ _).follows _
  | some id =>
      by_cases hid : W.scope.isStruct id
      · refine follows_lookup_struct hid (fails_giveUp _ _) fun d hd => ?_
        simp only
        split
        · exact follows_instanceIn trivial hd hargs span
        · rename_i hfree
          exact follows_of fun s s' hs => follows_pure (hs.declaration_of_free hd hfree)
      · refine follows_lookup_alike hid (fails_giveUp _ _) fun t t' ht halike => ?_
        cases t with
        | adt a =>
            obtain ⟨a', rfl, -, -⟩ := halike.adt
            simp only [ht.left.coherent.isUninstantiated_eq_false,
              ht.right.coherent.isUninstantiated_eq_false, Bool.false_eq_true, if_false]
            exact follows_pure ht
        | _ => exact (fails_giveUp _ _).follows _

theorem follows_unifyBase (span : Span) (ha : P.Types W (.adt a) (.adt a')) (ht : P.Types W t t') :
    Follows (.twins W) P (unifyBase a t span) (unifyBase a' t' span) fun Q => Q.Types W :=
  follows_unify ha ht
    (fun _ => fails_resolve_bind t fun _ => fails_giveUpAll _ span) fun _ _ _ _ hc => follows_pure hc

/-- A written field is placed on both sides, or on none. -/
theorem follows_declaredField (ha : P.Types W (.adt a) (.adt a')) (hslots : slots.Matches slots')
    {node node' : FieldInit} (hname : node'.fieldName = node.fieldName) :
    Follows (.twins W) P (declaredField a slots node) (declaredField a' slots' node')
      fun Q r r' => ∃ f f', r = some f ∧ r' = some f' ∧ Q.Fields W f f' := by
  refine follows_of_twins fun s s' hs => ?_
  unfold declaredField
  rw [hname, hslots.contains_taken, hslots.nodes_eq]
  split
  · exact (fails_report_bind _ _ (f := fun _ => pure none) (keepsErrors_pure none)).follows _
  · split
    · exact (fails_report_bind _ _ (f := fun _ => pure none) (keepsErrors_pure none)).follows _
    · rename_i f hf
      obtain ⟨f', hf', hlabel, hty⟩ := hs.field? ha hf
      have hfields : P.Fields W f f' := ⟨hlabel, hty⟩
      simp only [hf', hfields.index_eq]
      split
      · exact follows_pure ⟨f, f', rfl, rfl, hfields⟩
      · exact (fails_throw _).follows _

theorem keepsErrors_acceptField (f : Field Ty) (slots : Slots) (node : FieldInit) (t : Ty) :
    (acceptField f slots node t).KeepsErrors :=
  (steady_acceptField f slots t (List.mem_singleton_self node.mark.id)).keepsErrors

theorem follows_acceptField {f f' : Field Ty} (hf : P.Fields W f f') (hslots : slots.Matches slots')
    {node : FieldInit} (hid : W.Owns node.mark.id) (ht : P.Types W t t') :
    Follows (.twins W) P (acceptField f slots node t) (acceptField f' slots' node t')
      fun _ => Slots.Matches := by
  refine follows_unify hf.types ht (fun _ => fails_report_bind _ _ (keepsErrors_pure _))
    fun Q c c' _ hc => ?_
  exact (follows_record hid hc).bind (fun _ => keepsErrors_pure _)
    fun _ _ _ _ _ => follows_pure (hslots.accept hf.label_eq node)

theorem follows_fillFromBase (base : Expr) (hkind : a'.kind = a.kind) {fs fs' : List (Field Ty)}
    (hfs : P.FieldsAll W fs fs') (hslots : slots.Matches slots') :
    Follows (.twins W) P (fillFromBase a base fs slots) (fillFromBase a' base fs' slots')
      fun _ => Slots.Matches := by
  intro s s' hs r hr _
  rw [perform_fillFromBase] at hr ⊢
  rw [perform_fillFromBase]
  obtain rfl := Except.ok.inj hr
  refine ⟨P, _, .refl P, hs.synthesizeAll base.span hfs.types, rfl, ?_⟩
  rw [hs.holds.locations_eq]
  exact hslots.fillFrom hkind base _ hfs

end Check

/-- What twins make of a node: the same node, and types that are one in every pair. -/
structure Pairing.Yields (P : Pairing) (W : Setting) {ν : Type} (node node' : ν) (t t' : Ty) :
    Prop where
  node_eq : node' = node
  types : P.Types W t t'

namespace Walk

theorem keepsErrors_orderLiteral (a : Adt Ty) (t : Ty) (slots : Slots) :
    (orderLiteral a t slots).KeepsErrors :=
  keepsErrors_of_steady (steady_orderLiteral a t slots)

theorem keepsErrors_completeLiteral (a : Adt Ty) (t : Ty) (span : Span) (base : Option Expr)
    (written : List FieldInit) (slots : Slots) :
    (completeLiteral a t span base written slots).KeepsErrors :=
  keepsErrors_of_steady (steady_completeLiteral a t span base written slots)

theorem follows_orderLiteral (hname : a'.name = a.name) (ht : P.Types W t t')
    (hslots : slots.Matches slots') :
    Follows (.twins W) P (orderLiteral a t slots) (orderLiteral a' t' slots')
      fun Q => Q.Yields W := by
  unfold orderLiteral
  rw [hslots.inOrder, hname]
  split
  · exact follows_leaf ((follows_resolve ht).imp fun _ _ _ _ hu => ⟨rfl, hu⟩)
  · exact follows_leaf ((fails_throw _).follows _)

/-- A literal is completed with the same fields, whatever the order of its written fields was. -/
theorem follows_completeLiteral (ha : P.Types W (.adt a) (.adt a')) (ht : P.Types W t t')
    (span : Span) (base : Option Expr) (written written' : List FieldInit)
    (hslots : slots.Matches slots') :
    Follows (.twins W) P (completeLiteral a t span base written slots)
      (completeLiteral a' t' span base written' slots') fun Q => Q.Yields W := by
  intro s s' hs
  have hshape := hs.shape_eq ha
  have hname : a'.name = a.name := congrArg Shape.name hshape
  have hkind : a'.kind = a.kind := congrArg Shape.kind hshape
  have hfields := hs.fields ha
  have huntaken := hfields.untaken hslots
  refine (?_ : Follows (.twins W) P _ _ fun Q => Q.Yields W) s s' hs
  unfold completeLiteral
  rw [hslots.sound, hslots.sound', hslots.taken.length_eq, Adt.size, Adt.size, hfields.length_eq]
  simp only [Bool.false_eq_true, if_false]
  split
  · exact follows_orderLiteral hname ht hslots
  · cases base with
    | none => exact follows_leaf ((fails_reportTyped _ span).follows _)
    | some b =>
        refine follows_first (follows_fillFromBase b hkind huntaken hslots)
          (fun _ => keepsErrors_orderLiteral _ _ _) fun Q _ _ hlead hslots => ?_
        exact follows_orderLiteral hname (ht.mono hlead) hslots

theorem follows_literalBase {base base' : Option Expr} (ha : P.Types W (.adt a) (.adt a'))
    (h : Option.Rel (fun b b' => Follows (.twins W) P b.check b'.check fun Q => Q.Yields W) base base') :
    Follows (.twins W) P (literalBase a base) (literalBase a' base') fun Q => Q.Yields W := by
  cases h with
  | none => exact follows_leaf (follows_pure ⟨rfl, ha⟩)
  | some hb =>
      refine follows_child hb (fun b t => ?_) fun Q b b' t t' hlead ht => ?_
      · exact keepsErrors_leaf (keepsErrors_unifyBase _ _ _)
      · obtain ⟨rfl, ht⟩ := ht
        exact follows_leaf ((follows_unifyBase _ (ha.mono hlead) ht).imp fun _ _ _ _ hu => ⟨rfl, hu⟩)

/-- One written field. Its value may differ in the two programs as long as it is checked alike. -/
theorem follows_checkField (ha : P.Types W (.adt a) (.adt a')) (hslots : slots.Matches slots')
    {node node' : FieldInit} (hid : W.Owns node.mark.id) (hname : node'.fieldName = node.fieldName)
    (h : ∀ Q, Follows (.twins W) Q node.checkValue node'.checkValue fun Q => Q.Yields W) :
    Follows (.twins W) P (node.check a slots) (node'.check a' slots')
      fun _ n n' r r' => n' = n ∧ r.Matches r' := by
  rw [FieldInit.check_eq, FieldInit.check_eq]
  refine follows_first (follows_declaredField ha hslots hname) (fun r => ?_) fun Q r r' hlead hr => ?_
  · cases r with
    | none => exact keepsErrors_leaf (keepsErrors_pure _)
    | some f => exact keepsErrors_child node.steady.keepsErrors fun _ _ =>
        keepsErrors_leaf (keepsErrors_acceptField _ _ _ _)
  · obtain ⟨f, f', rfl, rfl, hf⟩ := hr
    have hvalue := (h Q).gives (G := fun n => n.mark = node.mark) fun s => (mark_checkValue node s).1
    refine follows_child hvalue
      (fun _ _ => keepsErrors_leaf (keepsErrors_acceptField _ _ _ _)) ?_
    rintro Q₁ n n' t t' hlead₁ ⟨⟨rfl, ht⟩, hmark⟩
    have haccept := follows_acceptField (hf.mono hlead₁) hslots (hmark ▸ hid : W.Owns n'.mark.id) ht
    exact follows_leaf (haccept.imp fun _ _ _ _ hslots => ⟨rfl, hslots⟩)

/-- Written fields of one order on both sides. -/
theorem follows_checkFields (ha : P.Types W (.adt a) (.adt a')) (hslots : slots.Matches slots')
    {fields fields' : List FieldInit}
    (h : List.Forall₂ (fun f f' => W.Owns f.mark.id ∧ f'.fieldName = f.fieldName ∧
      ∀ Q, Follows (.twins W) Q f.checkValue f'.checkValue fun Q => Q.Yields W) fields fields') :
    Follows (.twins W) P (FieldInit.checkAll a slots fields) (FieldInit.checkAll a' slots' fields')
      fun _ _ _ => Slots.Matches := by
  induction h generalizing P slots slots' with
  | nil =>
      rw [FieldInit.checkAll, FieldInit.checkAll]
      exact follows_leaf (follows_pure hslots)
  | cons hf _ ih =>
      rw [FieldInit.checkAll, FieldInit.checkAll]
      obtain ⟨hid, hname, hvalue⟩ := hf
      have hrest (n : FieldInit) (slots : Slots) (fields : List FieldInit) :
          (child (FieldInit.checkAll a slots fields) (n :: ·) fun fields slots =>
            leaf (n :: fields) (return slots)).KeepsErrors :=
        keepsErrors_child (FieldInit.steady_checkAll _ _ _).keepsErrors fun _ _ =>
          keepsErrors_leaf (keepsErrors_pure _)
      refine follows_child (follows_checkField ha hslots hid hname hvalue) (fun _ _ => hrest _ _ _) ?_
      rintro Q n n' slots₁ slots₁' hlead ⟨-, hslots₁⟩
      refine follows_child (ih (ha.mono hlead) hslots₁)
        (fun _ _ => keepsErrors_leaf (keepsErrors_pure _)) fun _ _ _ _ _ _ hslots₂ => ?_
      exact follows_leaf (follows_pure hslots₂)

/-- The walk of a literal, if its written fields fill the slots on both sides alike. -/
theorem follows_literal {path : Path} (hpath : ∀ t ∈ path.args, W.Admits t.ids t.resolutions)
    (pathSpan span : Span) {fields fields' : List FieldInit} {base base' : Option Expr}
    (hbase : Option.Rel (fun b b' => ∀ Q, Follows (.twins W) Q b.check b'.check fun Q => Q.Yields W)
      base base')
    (hfields : ∀ Q a a', Pairing.Types Q W (.adt a) (.adt a') →
      Follows (.twins W) Q (FieldInit.checkAll a (Slots.empty a.size) fields)
        (FieldInit.checkAll a' (Slots.empty a.size) fields') fun _ _ _ => Slots.Matches) :
    Follows (.twins W) P (literal path pathSpan span fields base)
      (literal path pathSpan span fields' base') fun Q => Q.Yields W := by
  have hcomplete (a : Adt Ty) (t : Ty) (fields : List FieldInit) (base : Option Expr) (slots : Slots) :
      (child (completeLiteral a t span base fields slots) (·, base) fun fields ty =>
        leaf (fields, base) (return ty)).KeepsErrors :=
    keepsErrors_child (keepsErrors_completeLiteral _ _ _ _ _ _) fun _ _ =>
      keepsErrors_leaf (keepsErrors_pure _)
  have hrest (a : Adt Ty) (base : Option Expr) (t : Ty) :
      (child (FieldInit.checkAll a (Slots.empty a.size) fields) (·, base) fun fields slots =>
        child (completeLiteral a t span base fields slots) (·, base) fun fields ty =>
        leaf (fields, base) (return ty)).KeepsErrors :=
    keepsErrors_child (FieldInit.steady_checkAll _ _ _).keepsErrors fun _ _ => hcomplete _ _ _ _ _
  refine follows_first (follows_structOf pathSpan hpath) (fun a => ?_) fun Q a a' _ ha => ?_
  · exact keepsErrors_child (steady_base a base).keepsErrors fun _ _ => hrest _ _ _
  · have hbase' := rel_mono hbase fun _ _ hb => hb Q
    refine follows_child (follows_literalBase ha hbase') (fun _ _ => hrest _ _ _) ?_
    rintro Q₁ b b' t t' hlead ⟨rfl, ht⟩
    intro s s' hs
    rw [hs.size_eq (ha.mono hlead)]
    refine (follows_child (hfields Q₁ a a' (ha.mono hlead)) (fun _ _ => hcomplete _ _ _ _ _) ?_ :
      Follows (.twins W) Q₁ _ _ fun Q => Q.Yields W) s s' hs
    intro Q₂ written written' slots slots' hlead₂ hslots
    refine follows_child (follows_completeLiteral ((ha.mono hlead).mono hlead₂) (ht.mono hlead₂) span b'
      written written' hslots) (fun _ _ => keepsErrors_leaf (keepsErrors_pure _)) ?_
    rintro Q₃ fields fields' u u' - ⟨rfl, hu⟩
    exact follows_leaf (follows_pure ⟨rfl, hu⟩)

end Walk

end TypeInference

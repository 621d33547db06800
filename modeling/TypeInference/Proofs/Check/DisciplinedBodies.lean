import Mathlib.Data.List.Nodup
import Mathlib.Data.List.Perm.Subperm
import TypeInference.Check.Program
import TypeInference.Proofs.Check.Discipline

/-!
# Bodies keep a discipline

The types that a body gives to its nodes obey the discipline of the types that
were recorded before, and an error is given only after a report. The slots of a
literal are filled exactly for the names that were accepted, so a literal with
all its names has all its slots, if each field has a name of its own.
-/

namespace TypeInference

open Ty Walk Check

variable {P : Ty → Prop} {H : Prop} {α β : Type} {Q : α → Prop} {R : β → Prop}

/-! ## Slots -/

structure Slots.Fits (a : Adt Ty) (slots : Slots) : Prop where
  length_eq : slots.nodes.length = a.size
  nodup : slots.taken.Nodup
  filled : ∀ name ∈ slots.taken, ∃ f ∈ a.fields, f.name = name ∧
    ∃ node, slots.nodes[f.index]? = some (some node)

namespace Slots

variable {a : Adt Ty} {slots : Slots}

theorem fits_empty (a : Adt Ty) : (empty a.size).Fits a :=
  ⟨List.length_replicate, List.nodup_nil, by simp [empty]⟩

theorem Fits.fill (h : slots.Fits a) (index : Nat) (node : FieldInit) :
    (slots.fill index node).Fits a := by
  refine ⟨by simp [Slots.fill, h.length_eq], h.nodup, fun name hname => ?_⟩
  obtain ⟨f, hf, hfname, n, hn⟩ := h.filled name hname
  have hlt := (List.getElem?_eq_some_iff.1 hn).1
  refine ⟨f, hf, hfname, ?_⟩
  by_cases heq : index = f.index
  · exact ⟨node, by simp [Slots.fill, heq, hlt]⟩
  · exact ⟨n, (List.getElem?_set_ne heq).trans hn⟩

theorem Fits.accept (h : slots.Fits a) (ha : a.IsIndexed) {f : Field Ty} (hf : f ∈ a.fields)
    {node : FieldInit} (hname : f.name = node.fieldName) (hnew : node.fieldName ∉ slots.taken) :
    (slots.accept f node).Fits a := by
  have hfill := h.fill f.index node
  refine ⟨hfill.length_eq, List.nodup_cons.2 ⟨hnew, h.nodup⟩, fun name hmem => ?_⟩
  rcases List.mem_cons.1 hmem with rfl | hmem
  · refine ⟨f, hf, hname, node, ?_⟩
    have hlt : f.index < slots.nodes.length := h.length_eq ▸ ha.index_lt hf
    simp [Slots.accept, Slots.fill, hlt]
  · exact hfill.filled name hmem

theorem Fits.fault (h : slots.Fits a) : slots.fault.Fits a := ⟨h.length_eq, h.nodup, h.filled⟩

/-- The slot of a declared field whose name was accepted is filled. -/
theorem Fits.filled_of_mem (h : slots.Fits a) (ha : a.IsOrderly) {f : Field Ty} (hf : f ∈ a.fields)
    (hmem : f.name ∈ slots.taken) : ∃ node, slots.nodes[f.index]? = some (some node) := by
  obtain ⟨g, hg, hname, hslot⟩ := h.filled f.name hmem
  obtain rfl := List.inj_on_of_nodup_map ha.nodup hg hf hname
  exact hslot

/-- Slots that are filled for every declared field can be read in order. -/
theorem exists_inOrder (ha : a.IsIndexed) (hlength : slots.nodes.length = a.size)
    (h : ∀ f ∈ a.fields, ∃ node, slots.nodes[f.index]? = some (some node)) :
    ∃ fields, slots.inOrder = .ok fields := by
  have hsome : ∀ n ∈ slots.nodes, n.isSome := by
    intro n hn
    obtain ⟨i, hi⟩ := List.mem_iff_getElem?.1 hn
    have hlt : i < a.size := hlength ▸ (List.getElem?_eq_some_iff.1 hi).1
    obtain ⟨node, hnode⟩ := h _ (List.getElem_mem hlt)
    rw [ha i _ (List.getElem?_eq_getElem hlt), hi] at hnode
    rw [Option.some.inj hnode]
    rfl
  refine ⟨slots.nodes.filterMap id, inOrder_eq_ok_iff.2 ?_⟩
  generalize slots.nodes = nodes at hsome
  induction nodes with
  | nil => rfl
  | cons n rest ih =>
      rw [List.forall_mem_cons] at hsome
      obtain ⟨node, rfl⟩ := Option.isSome_iff_exists.1 hsome.1
      simpa using ih hsome.2

/-- If as many names were accepted as fields are declared, all slots are filled. -/
theorem Fits.exists_inOrder (h : slots.Fits a) (ha : a.IsOrderly)
    (hall : slots.taken.length = a.size) : ∃ fields, slots.inOrder = .ok fields := by
  have hsubset : slots.taken ⊆ a.fields.map Field.name := by
    intro name hname
    obtain ⟨f, hf, hfname, -⟩ := h.filled name hname
    exact hfname ▸ List.mem_map_of_mem hf
  have hperm : slots.taken.Perm (a.fields.map Field.name) :=
    (List.subperm_of_subset h.nodup hsubset).perm_of_length_le (by simp [hall, Adt.size])
  refine Slots.exists_inOrder ha.indexed h.length_eq fun f hf => h.filled_of_mem ha hf ?_
  exact hperm.mem_iff.2 (List.mem_map_of_mem hf)

/-- If the other fields are filled from a base, all slots are filled. -/
theorem Fits.exists_inOrder_fillFrom (h : slots.Fits a) (ha : a.IsOrderly) (base : Expr)
    (id : NodeId) : ∃ fields, (slots.fillFrom a base id (slots.untaken a)).inOrder = .ok fields := by
  refine Slots.exists_inOrder ha.indexed (by rw [length_fillFrom, h.length_eq]) fun f hf => ?_
  by_cases htaken : f.name ∈ slots.taken
  · rw [fillFrom_of_not_mem _ fun g hg heq => ?_]
    · exact h.filled_of_mem ha hf htaken
    · obtain ⟨hgmem, hguntaken⟩ := List.mem_filter.1 hg
      obtain rfl := ha.indexed.eq_of_index hgmem hf heq
      simp [htaken] at hguntaken
  · have huntaken : f ∈ slots.untaken a := List.mem_filter.2 ⟨hf, by simp [htaken]⟩
    obtain ⟨k, hk⟩ := List.mem_iff_getElem?.1 huntaken
    have hnodup : ((slots.untaken a).map Field.index).Nodup := by
      refine List.Nodup.sublist (List.filter_sublist.map Field.index) ?_
      rw [ha.indexed.map_index]
      exact List.nodup_range
    exact ⟨_, fillFrom_of_getElem? id hnodup hk (h.length_eq ▸ ha.indexed.index_lt hf)⟩

/-- What a walk of the written fields gives under a discipline: there is a faulty field only if
errors are allowed, and under a strict one the slots fit. -/
structure Suits (P : Ty → Prop) (a : Adt Ty) (slots : Slots) : Prop where
  faulty : slots.isFaulty → P .error
  fits : IsStrict P → slots.Fits a

end Slots

namespace Check

section

variable (hP : IsDiscipline P)
include hP

/-! ## Types of expressions -/

theorem obeys_suffixedType (accepts : Prim → Bool) (suffix : String) (span : Span) :
    Obeys P H (suffixedType accepts suffix span) (Ty.Every P) := by
  refine (obeys_builtin? suffix).bind fun r => ?_
  split
  · split
    · exact obeys_pure fun _ => hP.leaf (by simp) (by simp) rfl
    · exact obeys_reportTyped rfl _
  · exact obeys_reportTyped rfl _

theorem obeys_literalType (span : Span) (l : Literal) :
    Obeys P H (literalType span l) (Ty.Every P) := by
  cases l with
  | int value suffix =>
      cases suffix with
      | none => exact obeys_newVar hP _
      | some suffix => exact obeys_suffixedType hP _ _ _
  | float bits suffix =>
      cases suffix with
      | none => exact obeys_newVar hP _
      | some suffix => exact obeys_suffixedType hP _ _ _
  | bool value => exact obeys_builtin hP .bool rfl
  | char value => exact obeys_builtin hP .char rfl
  | str value => exact obeys_builtin hP .str rfl
  | unit => exact obeys_pure fun _ => hP.leaf (by simp) (by simp) rfl

theorem obeys_pathType (span : Span) (path : Path) :
    Obeys P H (pathType span path) (Ty.Every P) := by
  unfold pathType
  rcases path.res with _ | res
  · exact obeys_giveUp rfl _
  · refine (obeys_lookup hP res).bind fun r => ?_
    split
    · split
      · exact (obeys_instanceIn hP (fun h => h.2 _ rfl) path.args span).bind fun b =>
          obeys_pure fun h => h.2
      · exact obeys_pure fun h => h.2 _ rfl
    · exact obeys_pure fun h => h.2 _ rfl
    · exact obeys_giveUp rfl _

theorem obeys_structOf (path : Path) (span : Span) :
    Obeys P H (structOf path span) fun a => (Ty.adt a).Every P := by
  unfold structOf
  rcases path.res with _ | res
  · exact obeys_giveUp rfl _
  · refine (obeys_lookup hP res).bind fun r => ?_
    split
    · split
      · exact obeys_instanceIn hP (fun h => h.2 _ rfl) path.args span
      · exact obeys_pure fun h => h.2 _ rfl
    · exact obeys_giveUp rfl _
    · exact obeys_giveUp rfl _

theorem obeys_fieldType (span : Span) (name : String) {t : Ty} (ht : H → t.Every P) :
    Obeys P H (fieldType span name t) (Ty.Every P) := by
  refine (obeys_resolve hP ht).bind fun u => ?_
  split
  · exact obeys_pure fun h => h.2
  · split
    · rename_i f hf
      exact obeys_pure fun h => h.2.field (List.mem_of_find?_eq_some hf)
    · exact obeys_reportTyped rfl _
  · exact obeys_reportTyped rfl _

theorem obeys_unifyArgs {ps : List Ty} {args : List (Ty × Span)} (hps : H → ∀ p ∈ ps, p.Every P)
    (hargs : H → ∀ a ∈ args, a.1.Every P) : Obeys P H (unifyArgs ps args) fun _ => True := by
  induction ps generalizing args H with
  | nil => exact obeys_pure fun _ => trivial
  | cons p ps ih =>
      cases args with
      | nil => exact obeys_pure fun _ => trivial
      | cons a args =>
          simp only [List.forall_mem_cons] at hps hargs
          exact (obeys_unifyAt hP a.2 (fun h => (hps h).1) fun h => (hargs h).1).bind fun _ =>
            ih (fun h => (hps h.1).2) fun h => (hargs h.1).2

theorem obeys_callType (span calleeSpan : Span) {t : Ty} {args : List (Ty × Span)}
    (ht : H → t.Every P) (hargs : H → ∀ a ∈ args, a.1.Every P) :
    Obeys P H (callType span calleeSpan t args) (Ty.Every P) := by
  refine (obeys_resolve hP ht).bind fun u => ?_
  split
  · rename_i ps ret
    have hunify (H') (hH : H' → H ∧ (Ty.fn ps ret).Every P) :
        Obeys P H' (do unifyArgs ps args; return ret) (Ty.Every P) := by
      refine (obeys_unifyArgs hP (fun h p hp => ?_) fun h => hargs (hH h).1).bind fun _ =>
        obeys_pure fun h => ?_
      · exact (hH h).2.part (List.mem_append_left _ hp)
      · exact (hH h.1).2.part (List.mem_append_right _ (List.mem_singleton_self ret))
    split
    · exact (obeys_report rfl span).bind fun _ => hunify _ fun h => h.1
    · exact hunify _ fun h => h
  · exact obeys_pure fun h => h.2
  · exact obeys_reportTyped rfl _

theorem obeys_unaryType (span : Span) (op : UnOp) {t : Ty} (ht : H → t.Every P) :
    Obeys P H (unaryType span op t) (Ty.Every P) := by
  refine (obeys_resolve hP ht).bind fun u => ?_
  split
  · exact obeys_pure fun h => h.2
  · exact obeys_reportTyped rfl _

theorem obeys_binaryType (span : Span) (op : BinOp) {l r : Ty × Span} (hl : H → l.1.Every P)
    (hr : H → r.1.Every P) : Obeys P H (binaryType span op l r) (Ty.Every P) := by
  have hbool (H) : Obeys P H (builtin "bool") (Ty.Every P) := obeys_builtin hP .bool rfl
  unfold binaryType
  split
  · exact (hbool H).bind fun t => (obeys_unifyAt hP l.2 (fun h => h.2) fun h => hl h.1).bind fun _ =>
      (obeys_unifyAt hP r.2 (fun h => h.1.2) fun h => hr h.1.1).bind fun _ =>
        obeys_pure fun h => h.1.1.2
  · refine (obeys_unifyAt hP r.2 hl hr).bind fun t => ?_
    split
    · exact hbool _
    · refine (obeys_resolve hP fun h => h.2).bind fun u => ?_
      split
      · exact obeys_pure fun h => h.2
      · exact obeys_reportTyped rfl _

theorem obeys_bindingType {annotated : Option Ty} {init : Option (Ty × Span)}
    (hannotated : H → ∀ t, annotated = some t → t.Every P)
    (hinit : H → ∀ i, init = some i → i.1.Every P) :
    Obeys P H (bindingType annotated init) (Ty.Every P) := by
  rcases annotated with _ | t <;> rcases init with _ | ⟨u, span⟩
  · exact obeys_newVar hP _
  · exact obeys_pure fun h => hinit h _ rfl
  · exact obeys_pure fun h => hannotated h t rfl
  · refine (obeys_unifyAt hP span (fun h => hannotated h t rfl) fun h => hinit h _ rfl).bind fun v =>
      obeys_pure fun h => ?_
    split
    · exact hannotated h.1 t rfl
    · exact h.2

theorem obeys_requireUnit (span : Span) {t : Ty} (ht : H → t.Every P) :
    Obeys P H (requireUnit span t) fun _ => True := by
  refine (obeys_unify hP (fun _ => hP.leaf (by simp) (by simp) rfl) ht).bind fun r => ?_
  cases r with
  | ok u => exact obeys_pure fun _ => trivial
  | error e =>
      exact (obeys_resolve hP fun h => ht h.1).bind fun u =>
        (obeys_report rfl span).imp (fun h => h) fun _ _ _ => trivial

theorem obeys_requireType (span : Span) {t u : Ty} (ht : H → t.Every P) (hu : H → u.Every P) :
    Obeys P H (requireType span t u) fun _ => True :=
  (obeys_unifyAt hP span ht hu).bind fun _ => obeys_pure fun _ => trivial

/-! ## Struct literals -/

theorem obeys_unifyBase {a : Adt Ty} {t : Ty} (ha : H → (Ty.adt a).Every P) (ht : H → t.Every P)
    (span : Span) : Obeys P H (unifyBase a t span) (Ty.Every P) := by
  refine (obeys_unify hP ha ht).bind fun r => ?_
  cases r with
  | ok u => exact obeys_pure fun h => h.2 u rfl
  | error e => exact (obeys_resolve hP fun h => ht h.1).bind fun u => obeys_giveUpAll rfl span

omit hP in
/-- A written field is refused only if errors are allowed from then on. -/
theorem obeys_declaredField {a : Adt Ty} (ha : H → (Ty.adt a).Every P) {slots : Slots}
    (hslots : H → slots.Suits P a) (node : FieldInit) :
    Obeys P H (declaredField a slots node) fun r => (r = none → P .error) ∧
      ∀ f, r = some f → f ∈ a.fields ∧ f.name = node.fieldName ∧ node.fieldName ∉ slots.taken := by
  have hrefuse {cause : Cause} (hcause : cause.isUndetermined = false) :
      Obeys P H (do report cause node.mark.span; return none)
      fun r : Option (Field Ty) => (r = none → P .error) ∧ ∀ f, r = some f → f ∈ a.fields ∧
        f.name = node.fieldName ∧ node.fieldName ∉ slots.taken :=
    (obeys_report hcause _).bind fun _ => obeys_pure fun h => ⟨fun _ => h.2, by simp⟩
  unfold declaredField
  split
  · exact hrefuse rfl
  · rename_i hnew
    split
    · exact hrefuse rfl
    · rename_i f hf
      obtain ⟨hmem, hname⟩ := Adt.field?_eq_some hf
      split
      · refine obeys_pure fun h => ⟨by simp, fun g hg => ?_⟩
        obtain rfl := Option.some.inj hg
        exact ⟨hmem, hname, by simpa using hnew⟩
      · rename_i hlt
        refine obeys_throw fun h hstrict => (hlt ?_).elim
        rw [((hslots h).fits hstrict).length_eq]
        exact (hstrict.indexed (ha h).root).index_lt hmem

theorem obeys_acceptField {a : Adt Ty} (ha : H → (Ty.adt a).Every P) {slots : Slots}
    (hslots : H → slots.Suits P a) {f : Field Ty} {node : FieldInit}
    (hf : H → f ∈ a.fields ∧ f.name = node.fieldName ∧ node.fieldName ∉ slots.taken) {t : Ty}
    (ht : H → t.Every P) : Obeys P H (acceptField f slots node t) (Slots.Suits P a) := by
  refine (obeys_unify hP (fun h => (ha h).field (hf h).1) ht).bind fun r => ?_
  cases r with
  | ok u =>
      refine (obeys_record fun h => h.2 u rfl).bind fun _ => obeys_pure fun h => ?_
      obtain ⟨⟨h, -⟩, -⟩ := h
      obtain ⟨hmem, hname, hnew⟩ := hf h
      exact ⟨(hslots h).faulty, fun hstrict =>
        ((hslots h).fits hstrict).accept (hstrict.indexed (ha h).root) hmem hname hnew⟩
  | error e =>
      refine (obeys_report (Cause.isUndetermined_ofUnify e) _).bind fun _ => obeys_pure fun h => ?_
      exact ⟨fun _ => h.2, fun hstrict => ((hslots h.1.1).fits hstrict).fault⟩

theorem obeys_fieldFromBase (a : Adt Ty) (base : Expr) {f : Field Ty} (hf : H → f.ty.Every P) :
    Obeys P H (fieldFromBase a base f) fun _ => True := by
  refine (obeys_allocate base.span).bind fun _ => ?_
  refine (obeys_allocate base.span).bind fun _ => ?_
  refine (obeys_resolve hP fun h => hf h.1.1).bind fun t => ?_
  refine (obeys_record fun h => h.2).bind fun _ => ?_
  refine (obeys_record fun h => h.1.2).bind fun _ => ?_
  split
  · exact obeys_pure fun _ => trivial
  · exact obeys_pure fun _ => trivial

/-- After that the slots are those that were there, with the fields from the base. -/
theorem obeys_fillFromBase (a : Adt Ty) (base : Expr) {fs : List (Field Ty)}
    (hfs : H → ∀ f ∈ fs, f.ty.Every P) (slots : Slots) :
    Obeys P H (fillFromBase a base fs slots) fun filled =>
      ∃ id, filled = slots.fillFrom a base id fs := by
  intro s
  have hrun := perform_fillFromBase a base fs slots s
  have hobeys : ∀ (fs : List (Field Ty)) (slots : Slots) (H : Prop),
      (H → ∀ f ∈ fs, f.ty.Every P) → Obeys P H (fillFromBase a base fs slots) fun _ => True := by
    intro fs
    induction fs with
    | nil => exact fun _ _ _ => obeys_pure fun _ => trivial
    | cons f fs ih =>
        intro slots H hfs
        simp only [List.forall_mem_cons] at hfs
        exact (obeys_fieldFromBase hP a base fun h => (hfs h).1).bind fun node =>
          ih _ _ fun h => (hfs h.1).2
  have hs := hobeys fs slots H hfs s
  rw [hrun] at hs ⊢
  exact ⟨hs.errors, hs.causes, hs.builtins, hs.obeys,
    fun _ _ _ _ h => ⟨_, (Except.ok.inj h).symm⟩, hs.defects⟩

end

end Check

namespace Walk

variable {ν μ : Type}

/-- The walk of a node that has one child and gets a type of its own. -/
theorem obeys_node {w : Walk μ α} {node rebuild : μ → ν} {x : μ → α → Check Ty} {id : NodeId}
    (hw : Obeys P H w Q) (hx : ∀ n a, Check.Obeys P (H ∧ Q a) (x n a) (Ty.Every P)) :
    Obeys P H (child w rebuild fun n a => leaf (node n) (x n a >>= recorded id)) (Ty.Every P) :=
  obeys_child hw fun _ a => obeys_leaf <| (hx _ a).bind fun _ => obeys_recorded fun h => h.2

variable (hP : IsDiscipline P)
include hP

/-- Slots are read when all of them are filled, unless two fields share a name. -/
theorem obeys_orderLiteral {a : Adt Ty} {t : Ty} (ha : H → (Ty.adt a).Every P) (ht : H → t.Every P)
    {slots : Slots} (hslots : H → IsStrict P → a.IsOrderly → ∃ fields, slots.inOrder = .ok fields) :
    Obeys P H (orderLiteral a t slots) (Ty.Every P) := by
  unfold orderLiteral
  split
  · exact obeys_leaf (obeys_resolve hP ht)
  · rename_i index hempty
    refine obeys_leaf (obeys_throw fun h hstrict d hd => ?_)
    refine ⟨a, index, (ha h).root, fun hnodup => ?_, (Abort.defect.inj hd).symm⟩
    obtain ⟨fields, hfields⟩ := hslots h hstrict ⟨hstrict.indexed (ha h).root, hnodup⟩
    cases hempty.symm.trans hfields

theorem obeys_completeLiteral {a : Adt Ty} {t : Ty} (ha : H → (Ty.adt a).Every P)
    (ht : H → t.Every P) (span : Span) (base : Option Expr) (written : List FieldInit) {slots : Slots}
    (hslots : H → slots.Suits P a) :
    Obeys P H (completeLiteral a t span base written slots) (Ty.Every P) := by
  unfold completeLiteral
  split
  · rename_i hfaulty
    exact obeys_leaf (obeys_pure fun h => every_leaf ((hslots h).faulty hfaulty) rfl)
  · split
    · rename_i hall
      exact obeys_orderLiteral hP ha ht fun h hstrict horderly =>
        ((hslots h).fits hstrict).exists_inOrder horderly hall
    · split
      · exact obeys_leaf (obeys_reportTyped rfl span)
      · refine obeys_first (obeys_fillFromBase hP a _ (fun h f hf => ?_) slots) fun filled =>
          obeys_orderLiteral hP (fun h => ha h.1) (fun h => ht h.1) fun h hstrict horderly => ?_
        · exact (ha h).field (List.mem_of_mem_filter hf)
        · obtain ⟨h, id, rfl⟩ := h
          exact ((hslots h).fits hstrict).exists_inOrder_fillFrom horderly _ id

theorem obeys_literalBase {a : Adt Ty} (ha : H → (Ty.adt a).Every P) {base : Option Expr}
    (h : ∀ b, base = some b → ∀ H, Obeys P H b.check (Ty.Every P)) :
    Obeys P H (literalBase a base) (Ty.Every P) := by
  cases base with
  | none => exact obeys_leaf (obeys_pure ha)
  | some b =>
      exact obeys_child (h b rfl H) fun _ t =>
        obeys_leaf (obeys_unifyBase hP (fun h => ha h.1) (fun h => h.2) _)

theorem obeys_checkField {a : Adt Ty} (ha : H → (Ty.adt a).Every P) {slots : Slots}
    (hslots : H → slots.Suits P a) {node : FieldInit}
    (h : ∀ H, Obeys P H node.checkValue (Ty.Every P)) :
    Obeys P H (node.check a slots) (Slots.Suits P a) := by
  rw [FieldInit.check_eq]
  refine obeys_first (obeys_declaredField ha hslots node) fun r => ?_
  cases r with
  | none =>
      refine obeys_leaf (obeys_pure fun h => ?_)
      exact ⟨fun _ => h.2.1 rfl, fun hstrict => ((hslots h.1).fits hstrict).fault⟩
  | some f =>
      refine obeys_child (h _) fun s t => obeys_leaf ?_
      refine obeys_acceptField hP (fun h => ha h.1.1) (fun h => hslots h.1.1) (fun h => ?_) fun h => h.2
      rw [(mark_checkValue node s).2]
      exact h.1.2.2 f rfl

theorem obeys_checkFields {a : Adt Ty} (ha : H → (Ty.adt a).Every P) {slots : Slots}
    (hslots : H → slots.Suits P a) {fields : List FieldInit}
    (h : ∀ f ∈ fields, ∀ H, Obeys P H f.checkValue (Ty.Every P)) :
    Obeys P H (FieldInit.checkAll a slots fields) (Slots.Suits P a) := by
  induction fields generalizing slots H with
  | nil =>
      rw [FieldInit.checkAll]
      exact obeys_leaf (obeys_pure hslots)
  | cons f rest ih =>
      rw [FieldInit.checkAll]
      exact obeys_child (obeys_checkField hP ha hslots (h f List.mem_cons_self)) fun _ slots =>
        obeys_child (ih (fun h => ha h.1) (fun h => h.2) fun g hg => h g (List.mem_cons_of_mem _ hg))
          fun _ slots => obeys_leaf (obeys_pure fun h => h.2)

theorem obeys_literal (path : Path) (pathSpan span : Span) {fields : List FieldInit}
    {base : Option Expr} (hfields : ∀ f ∈ fields, ∀ H, Obeys P H f.checkValue (Ty.Every P))
    (hbase : ∀ b, base = some b → ∀ H, Obeys P H b.check (Ty.Every P)) :
    Obeys P H (literal path pathSpan span fields base) (Ty.Every P) := by
  refine obeys_first (obeys_structOf hP path pathSpan) fun a => ?_
  refine obeys_child (obeys_literalBase hP (fun h => h.2) hbase) fun _ t => ?_
  refine obeys_child (obeys_checkFields hP (fun h => h.1.2) (fun _ => ?_) hfields) fun _ slots => ?_
  · exact ⟨by simp [Slots.empty], fun _ => Slots.fits_empty a⟩
  · refine obeys_child (obeys_completeLiteral hP (fun h => h.1.1.2) (fun h => h.1.2) span _ _
      fun h => h.2) fun _ u => obeys_leaf (obeys_pure fun h => h.2)

/-! ## Lists of nodes -/

omit hP in
theorem obeys_checkExprs {es : List Expr} (h : ∀ e ∈ es, ∀ H, Obeys P H e.check (Ty.Every P)) :
    Obeys P H (Expr.checkAll es) fun ts => ∀ t ∈ ts, t.Every P := by
  induction es generalizing H with
  | nil =>
      rw [Expr.checkAll]
      exact obeys_leaf (obeys_pure (by simp))
  | cons e es ih =>
      rw [Expr.checkAll]
      exact obeys_child (h e List.mem_cons_self H) fun _ t =>
        obeys_child (ih fun e he => h e (List.mem_cons_of_mem _ he)) fun _ ts =>
          obeys_leaf (obeys_pure fun h => List.forall_mem_cons.2 ⟨h.1.2, h.2⟩)

theorem obeys_checkStmts {stmts : List Stmt} (hasTail : Bool)
    (h : ∀ s ∈ stmts, ∀ H, Obeys P H s.check (Ty.Every P)) :
    Obeys P H (Stmt.checkAll hasTail stmts) fun r => ∀ t, r = some t → t.Every P := by
  induction stmts generalizing H with
  | nil =>
      rw [Stmt.checkAll]
      exact obeys_leaf (obeys_pure (by simp))
  | cons stmt rest ih =>
      rw [Stmt.checkAll]
      refine obeys_child (h stmt List.mem_cons_self H) fun s t => ?_
      split
      · refine obeys_leaf (obeys_pure fun h u hu => ?_)
        exact Option.some.inj hu ▸ h.2
      · exact obeys_first (obeys_requireUnit hP _ fun h => h.2) fun _ =>
          obeys_child (ih fun s hs => h s (List.mem_cons_of_mem _ hs)) fun _ _ =>
            obeys_leaf (obeys_pure fun h => h.2)

end Walk

/-! ## Nodes -/

section

variable (hP : IsDiscipline P) {m : Mark}
include hP

theorem Ty.every_unit : Ty.unit.Every P := hP.leaf (by simp) (by simp) rfl

theorem Expr.obeys_lit {l : Literal} : Walk.Obeys P H (lit m l).check (Ty.Every P) := by
  rw [Expr.check]
  exact obeys_leaf ((obeys_literalType hP m.span l).bind fun t => obeys_recorded fun h => h.2)

theorem Expr.obeys_path {p : Path} : Walk.Obeys P H (path m p).check (Ty.Every P) := by
  rw [Expr.check]
  exact obeys_leaf ((obeys_pathType hP m.span p).bind fun t => obeys_recorded fun h => h.2)

omit hP in
theorem Expr.obeys_block {b : Block} (ih : ∀ H, Walk.Obeys P H b.check (Ty.Every P)) :
    Walk.Obeys P H (block m b).check (Ty.Every P) := by
  rw [Expr.check]
  exact obeys_node (ih H) fun _ t => obeys_pure fun h => h.2

theorem Expr.obeys_struct {p : Path} {span : Span} {fields : List FieldInit} {base : Option Expr}
    (ihfields : ∀ f ∈ fields, ∀ H, Walk.Obeys P H f.checkValue (Ty.Every P))
    (ihbase : ∀ b, base = some b → ∀ H, Walk.Obeys P H b.check (Ty.Every P)) :
    Walk.Obeys P H (struct m p span fields base).check (Ty.Every P) := by
  rw [Expr.check_struct]
  exact obeys_node (obeys_literal hP p span m.span ihfields ihbase) fun _ t => obeys_pure fun h => h.2

theorem Expr.obeys_field {base : Expr} {name : String}
    (ih : ∀ H, Walk.Obeys P H base.check (Ty.Every P)) :
    Walk.Obeys P H (field m base name).check (Ty.Every P) := by
  rw [Expr.check]
  exact obeys_node (ih H) fun _ t => obeys_fieldType hP m.span name fun h => h.2

theorem Expr.obeys_tupleIndex {base : Expr} {index : Nat}
    (ih : ∀ H, Walk.Obeys P H base.check (Ty.Every P)) :
    Walk.Obeys P H (tupleIndex m base index).check (Ty.Every P) := by
  rw [Expr.check]
  exact obeys_node (ih H) fun _ t => obeys_fieldType hP m.span _ fun h => h.2

theorem Expr.obeys_call {callee : Expr} {args : List Expr}
    (ihcallee : ∀ H, Walk.Obeys P H callee.check (Ty.Every P))
    (ihargs : ∀ e ∈ args, ∀ H, Walk.Obeys P H e.check (Ty.Every P)) :
    Walk.Obeys P H (call m callee args).check (Ty.Every P) := by
  rw [Expr.check]
  refine obeys_child (ihcallee H) fun _ t => obeys_node (obeys_checkExprs ihargs) fun n ts => ?_
  exact obeys_callType hP m.span _ (fun h => h.1.2) fun h a ha => h.2 a.1 (List.of_mem_zip ha).1

theorem Expr.obeys_unary {op : UnOp} {e : Expr} (ih : ∀ H, Walk.Obeys P H e.check (Ty.Every P)) :
    Walk.Obeys P H (unary m op e).check (Ty.Every P) := by
  rw [Expr.check]
  exact obeys_node (ih H) fun _ t => obeys_unaryType hP m.span op fun h => h.2

theorem Expr.obeys_binary {op : BinOp} {l r : Expr}
    (ihl : ∀ H, Walk.Obeys P H l.check (Ty.Every P)) (ihr : ∀ H, Walk.Obeys P H r.check (Ty.Every P)) :
    Walk.Obeys P H (binary m op l r).check (Ty.Every P) := by
  rw [Expr.check]
  exact obeys_child (ihl H) fun _ t => obeys_node (ihr _) fun _ u =>
    obeys_binaryType hP m.span op (fun h => h.1.2) fun h => h.2

theorem Expr.obeys_assign {l r : Expr} (ihl : ∀ H, Walk.Obeys P H l.check (Ty.Every P))
    (ihr : ∀ H, Walk.Obeys P H r.check (Ty.Every P)) :
    Walk.Obeys P H (assign m l r).check (Ty.Every P) := by
  rw [Expr.check_assign]
  exact obeys_child (ihl H) fun _ t => obeys_node (ihr _) fun _ u =>
    (obeys_unifyAt hP _ (fun h => h.1.2) fun h => h.2).bind fun _ =>
      obeys_pure fun _ => every_unit hP

omit hP in
theorem Expr.obeys_paren {e : Expr} (ih : ∀ H, Walk.Obeys P H e.check (Ty.Every P)) :
    Walk.Obeys P H (paren m e).check (Ty.Every P) := by
  rw [Expr.check]
  exact obeys_node (ih H) fun _ t => obeys_pure fun h => h.2

theorem Block.obeys_mk {stmts : List Stmt} {tail : Option Expr}
    (ihstmts : ∀ n ∈ stmts, ∀ H, Walk.Obeys P H n.check (Ty.Every P))
    (ihtail : ∀ e, tail = some e → ∀ H, Walk.Obeys P H e.check (Ty.Every P)) :
    Walk.Obeys P H (mk m stmts tail).check (Ty.Every P) := by
  cases tail with
  | none =>
      rw [Block.check]
      refine obeys_node (obeys_checkStmts hP false ihstmts) fun _ r => obeys_pure fun h => ?_
      cases r with
      | none => exact every_unit hP
      | some t => exact h.2 t rfl
  | some e =>
      rw [Block.check]
      exact obeys_child (obeys_checkStmts hP true ihstmts) fun _ _ =>
        obeys_node (ihtail e rfl _) fun _ t => obeys_pure fun h => h.2

/-- The type of a binding is recorded, and the statement is unit. -/
theorem Check.obeys_bound {binding id : NodeId} {annotated : Option Ty} {init : Option (Ty × Span)}
    (hannotated : H → ∀ t, annotated = some t → t.Every P)
    (hinit : H → ∀ i, init = some i → i.1.Every P) :
    Obeys P H (do
      record binding (← bindingType annotated init)
      recorded id .unit) (Ty.Every P) :=
  (obeys_bindingType hP hannotated hinit).bind fun _ => (obeys_record fun h => h.2).bind fun _ =>
    obeys_recorded fun _ => every_unit hP

theorem Stmt.obeys_bind {binding : NodeId} {name : String} {ty : Option TypeRef} {init : Option Expr}
    (ih : ∀ e, init = some e → ∀ H, Walk.Obeys P H e.check (Ty.Every P)) :
    Walk.Obeys P H (bind m binding name ty init).check (Ty.Every P) := by
  cases init with
  | none =>
      rw [Stmt.check]
      exact obeys_leaf <| (obeys_readOptional hP .body ty).bind fun annotated =>
        obeys_bound hP (fun h => h.2) (by simp)
  | some e =>
      rw [Stmt.check]
      refine obeys_first (obeys_readOptional hP .body ty) fun annotated =>
        obeys_child (ih e rfl _) fun _ t => obeys_leaf ?_
      refine obeys_bound hP (fun h => h.1.2) fun h i hi => ?_
      rw [← Option.some.inj hi]
      exact h.2

omit hP in
theorem Stmt.obeys_expr {e : Expr} (ih : ∀ H, Walk.Obeys P H e.check (Ty.Every P)) :
    Walk.Obeys P H (expr m e).check (Ty.Every P) := by
  rw [Stmt.check]
  exact obeys_node (ih H) fun _ t => obeys_pure fun h => h.2

theorem Stmt.obeys_semi {e : Expr} (ih : ∀ H, Walk.Obeys P H e.check (Ty.Every P)) :
    Walk.Obeys P H (semi m e).check (Ty.Every P) := by
  rw [Stmt.check]
  exact obeys_node (ih H) fun _ _ => obeys_pure fun _ => every_unit hP

omit hP in
theorem FieldInit.obeys_named {name : String} {e : Expr}
    (ih : ∀ H, Walk.Obeys P H e.check (Ty.Every P)) :
    Walk.Obeys P H (named m name e).checkValue (Ty.Every P) :=
  obeys_child (ih H) fun _ _ => obeys_leaf (obeys_pure fun h => h.2)

omit hP in
theorem FieldInit.obeys_index {i : Nat} {e : Expr} (ih : ∀ H, Walk.Obeys P H e.check (Ty.Every P)) :
    Walk.Obeys P H (index m i e).checkValue (Ty.Every P) :=
  obeys_child (ih H) fun _ _ => obeys_leaf (obeys_pure fun h => h.2)

theorem FieldInit.obeys_short {name : String} {res : Option NodeId} :
    Walk.Obeys P H (short m name res).checkValue (Ty.Every P) :=
  obeys_leaf <| (obeys_pathType hP m.span _).bind fun _ => obeys_recorded fun h => h.2

end

/-! ## Programs -/

/-- The check of a node with its children, by induction on programs. -/
theorem Walk.obeys_check (hP : IsDiscipline P) :
    (∀ (e : Expr) H, Obeys P H e.check (Ty.Every P)) ∧
      (∀ (b : Block) H, Obeys P H b.check (Ty.Every P)) ∧
      (∀ (s : Stmt) H, Obeys P H s.check (Ty.Every P)) ∧
      ∀ (f : FieldInit) H, Obeys P H f.checkValue (Ty.Every P) := by
  apply Expr.induct
  case lit => exact fun _ _ _ => Expr.obeys_lit hP
  case path => exact fun _ _ _ => Expr.obeys_path hP
  case block => exact fun _ _ ih _ => Expr.obeys_block ih
  case struct => exact fun _ _ _ _ _ ihfields ihbase _ => Expr.obeys_struct hP ihfields ihbase
  case field => exact fun _ _ _ ih _ => Expr.obeys_field hP ih
  case tupleIndex => exact fun _ _ _ ih _ => Expr.obeys_tupleIndex hP ih
  case call => exact fun _ _ _ ihcallee ihargs _ => Expr.obeys_call hP ihcallee ihargs
  case unary => exact fun _ _ _ ih _ => Expr.obeys_unary hP ih
  case binary => exact fun _ _ _ _ ihl ihr _ => Expr.obeys_binary hP ihl ihr
  case assign => exact fun _ _ _ ihl ihr _ => Expr.obeys_assign hP ihl ihr
  case paren => exact fun _ _ ih _ => Expr.obeys_paren ih
  case mk => exact fun _ _ _ ihstmts ihtail _ => Block.obeys_mk hP ihstmts ihtail
  case bind => exact fun _ _ _ _ _ ih _ => Stmt.obeys_bind hP ih
  case expr => exact fun _ _ ih _ => Stmt.obeys_expr ih
  case semi => exact fun _ _ ih _ => Stmt.obeys_semi hP ih
  case named => exact fun _ _ _ ih _ => FieldInit.obeys_named ih
  case index => exact fun _ _ _ ih _ => FieldInit.obeys_index ih
  case short => exact fun _ _ _ _ => FieldInit.obeys_short hP

end TypeInference

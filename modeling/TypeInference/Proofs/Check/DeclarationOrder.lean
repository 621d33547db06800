import Mathlib.Data.List.Forall2
import Mathlib.Logic.ExistsUnique
import TypeInference.Proofs.Check.Frame
import TypeInference.Proofs.Ty.Nodes

/-!
# Struct literals end up in declaration order

A literal that reports nothing of its own has a node for every declared field,
in the order of the declaration: the written node of that name, or an access to
the same field of the base.
-/

namespace TypeInference

open Walk Check

/-! ## What a literal reports of its own -/

def Check.reports {α : Type} (x : Check α) (s : Session) : List TypeError :=
  (x.perform s).2.sink.errors.drop s.sink.errors.length

def Walk.reports {ν α : Type} (w : Walk ν α) (s : Session) : List TypeError :=
  (w s).session.sink.errors.drop s.sink.errors.length

namespace FieldInit

/-- What placing and accepting a written field reports, apart from the check of its value. -/
def ownReports (a : Adt Ty) (slots : Slots) (node : FieldInit) (s : Session) : List TypeError :=
  (declaredField a slots node).reports s ++
    match (declaredField a slots node).perform s with
    | (.ok (some f), s) =>
        match (node.checkValue s).outcome with
        | .ok ty =>
            (acceptField f slots (node.checkValue s).node ty).reports (node.checkValue s).session
        | .error _ => []
    | _ => []

def ownReportsAll (a : Adt Ty) : Slots → List FieldInit → Session → List TypeError
  | _, [], _ => []
  | slots, node :: rest, s =>
      node.ownReports a slots s ++
        match (node.check a slots s).outcome with
        | .ok slots' => ownReportsAll a slots' rest (node.check a slots s).session
        | .error _ => []

end FieldInit

/-- The errors that a literal reports, apart from those of its path, its base and its values: that a
field is unknown, duplicated, of another type, or missing. -/
def Walk.literalReports (path : Path) (pathSpan span : Span) (fields : List FieldInit)
    (base : Option Expr) (s : Session) : List TypeError :=
  match (structOf path pathSpan).perform s with
  | (.error _, _) => []
  | (.ok a, s) =>
      let based := literalBase a base s
      match based.outcome with
      | .error _ => []
      | .ok ty =>
          let checked := FieldInit.checkAll a (Slots.empty a.size) fields based.session
          FieldInit.ownReportsAll a (Slots.empty a.size) fields based.session ++
            match checked.outcome with
            | .error _ => []
            | .ok slots =>
                (completeLiteral a ty span based.node checked.node slots).reports checked.session

theorem Check.reports_ne_nil_of_errors {α : Type} {x : Check α} {s : Session} {e : TypeError}
    (h : (x.perform s).2.sink.errors = s.sink.errors ++ [e]) : x.reports s ≠ [] := by
  simp [reports, h]

/-! ## Fields by position -/

namespace Adt

def IsIndexed (a : Adt Ty) : Prop := ∀ (i : Nat) f, a.fields[i]? = some f → f.index = i

variable {a : Adt Ty}

theorem IsIndexed.getElem? (ha : a.IsIndexed) {f : Field Ty} (hf : f ∈ a.fields) :
    a.fields[f.index]? = some f := by
  obtain ⟨i, hi⟩ := List.mem_iff_getElem?.1 hf
  rwa [ha i f hi]

theorem IsIndexed.eq_of_index (ha : a.IsIndexed) {f g : Field Ty} (hf : f ∈ a.fields)
    (hg : g ∈ a.fields) (h : f.index = g.index) : f = g := by
  have hf := ha.getElem? hf
  rw [h, ha.getElem? hg] at hf
  exact (Option.some.inj hf).symm

theorem IsIndexed.index_lt (ha : a.IsIndexed) {f : Field Ty} (hf : f ∈ a.fields) :
    f.index < a.size :=
  (List.getElem?_eq_some_iff.1 (ha.getElem? hf)).1

theorem IsIndexed.map_index (ha : a.IsIndexed) : a.fields.map Field.index = List.range a.size := by
  refine List.ext_getElem (by simp [size]) fun i hi _ => ?_
  rw [List.length_map] at hi
  rw [List.getElem_map, List.getElem_range, ha i _ (List.getElem?_eq_getElem hi)]

theorem field?_eq_some {name : String} {f : Field Ty} (h : a.field? name = some f) :
    f ∈ a.fields ∧ f.name = name :=
  ⟨List.mem_of_find?_eq_some h, by simpa using List.find?_some h⟩

/-- The fields that none of the written nodes is for, in declaration order. -/
def unwritten (a : Adt Ty) (written : List FieldInit) : List (Field Ty) :=
  a.fields.filter fun f => !(written.map FieldInit.fieldName).contains f.name

end Adt

/-! ## Written fields -/

/-- What holds of the slots after these nodes were accepted: each stands in the slot of its name,
and nothing else does. -/
structure Slots.Placed (a : Adt Ty) (written : List FieldInit) (slots : Slots) : Prop where
  not_faulty : slots.isFaulty = false
  taken_eq : slots.taken = (written.map FieldInit.fieldName).reverse
  nodup : (written.map FieldInit.fieldName).Nodup
  length_eq : slots.nodes.length = a.size
  slot_of_mem : ∀ n ∈ written, ∃ f, a.field? n.fieldName = some f ∧
    slots.nodes[f.index]? = some (some n)
  mem_of_slot : ∀ (i : Nat) n, slots.nodes[i]? = some (some n) →
    n ∈ written ∧ ∃ f, a.field? n.fieldName = some f ∧ f.index = i

namespace Slots

variable {a : Adt Ty} {written : List FieldInit} {slots : Slots}

theorem placed_empty (a : Adt Ty) : Placed a [] (empty a.size) := by
  constructor
  case mem_of_slot =>
    intro i n h
    simp [empty, List.getElem?_replicate] at h
  all_goals simp [empty]

/-- Accepting a node for a field of a new name keeps the others where they are. -/
theorem Placed.accept (h : Placed a written slots) (ha : a.IsIndexed) {n : FieldInit} {f : Field Ty}
    (hnew : n.fieldName ∉ slots.taken) (hf : a.field? n.fieldName = some f)
    (hlt : f.index < slots.nodes.length) : Placed a (written ++ [n]) (slots.accept f n) := by
  have hnew' : n.fieldName ∉ written.map FieldInit.fieldName := by
    rw [h.taken_eq, List.mem_reverse] at hnew
    exact hnew
  obtain ⟨hmem, hname⟩ := Adt.field?_eq_some hf
  constructor
  case not_faulty => exact h.not_faulty
  case taken_eq => simp [Slots.accept, h.taken_eq]
  case nodup =>
    rw [List.map_append, List.nodup_append]
    refine ⟨h.nodup, by simp, ?_⟩
    rintro x hx y hy rfl
    obtain rfl : x = n.fieldName := by simpa using hy
    exact hnew' hx
  case length_eq => simp [Slots.accept, fill, h.length_eq]
  case slot_of_mem =>
    intro m hm
    rcases List.mem_append.1 hm with hm | hm
    · obtain ⟨g, hg, hslot⟩ := h.slot_of_mem m hm
      obtain ⟨hgmem, hgname⟩ := Adt.field?_eq_some hg
      refine ⟨g, hg, ?_⟩
      have hne : f.index ≠ g.index := by
        intro heq
        obtain rfl := ha.eq_of_index hmem hgmem heq
        exact hnew' (List.mem_map.2 ⟨m, hm, hgname.symm.trans hname⟩)
      rw [← hslot]
      exact List.getElem?_set_ne hne
    · obtain rfl := List.mem_singleton.1 hm
      refine ⟨f, hf, ?_⟩
      simp [Slots.accept, fill, hlt]
  case mem_of_slot =>
    intro i m hm
    by_cases hi : f.index = i
    · obtain rfl : n = m := by
        subst hi
        simpa [Slots.accept, fill, hlt] using hm
      exact ⟨by simp, f, hf, hi⟩
    · obtain ⟨hw, g, hg⟩ := h.mem_of_slot i m (by
        rw [← hm]
        exact (List.getElem?_set_ne hi).symm)
      exact ⟨List.mem_append_left _ hw, g, hg⟩

end Slots

namespace FieldInit

variable {a : Adt Ty} {slots slots' : Slots} {node : FieldInit} {s : Session}

/-- A written node as some check of it leaves it. -/
def CheckedAs (a : Adt Ty) (w n : FieldInit) : Prop := ∃ slots s, n = (w.check a slots s).node

theorem mark_check (a : Adt Ty) (slots : Slots) (node : FieldInit) (s : Session) :
    (node.check a slots s).node.mark = node.mark ∧
      (node.check a slots s).node.fieldName = node.fieldName := by
  rw [check_eq]
  rcases first_cases node (declaredField a slots node) (node.checkPlaced slots) s with
    ⟨r, s', -, heq⟩ | ⟨e, s', -, heq⟩
  · rw [heq]
    cases r with
    | none => exact ⟨rfl, rfl⟩
    | some f =>
        rw [checkPlaced]
        rcases child_cases node.checkValue id
          (fun node t => leaf node (acceptField f slots node t)) s' with ⟨t, -, heq⟩ | ⟨e, -, heq⟩
        · rw [heq]
          exact mark_checkValue node s'
        · rw [heq]
          exact mark_checkValue node s'
  · rw [heq]
    exact ⟨rfl, rfl⟩

theorem fieldNames_of_checked {written checked : List FieldInit}
    (h : List.Forall₂ (CheckedAs a) written checked) :
    written.map fieldName = checked.map fieldName := by
  induction h with
  | nil => rfl
  | cons hfirst _ ih =>
      obtain ⟨slots, s, rfl⟩ := hfirst
      rw [List.map_cons, List.map_cons, ih, (mark_check a slots _ s).2]

theorem exists_checked {written checked : List FieldInit}
    (h : List.Forall₂ (CheckedAs a) written checked) {w : FieldInit} (hw : w ∈ written) :
    ∃ n ∈ checked, CheckedAs a w n := by
  induction h with
  | nil => simp at hw
  | cons hfirst _ ih =>
      rcases List.mem_cons.1 hw with rfl | hw
      · exact ⟨_, List.mem_cons_self, hfirst⟩
      · obtain ⟨n, hn, hcheck⟩ := ih hw
        exact ⟨n, List.mem_cons_of_mem _ hn, hcheck⟩

/-- A field that is placed without a report is new and declared. -/
theorem declaredField_of_reports {r : Option (Field Ty)} {s' : Session}
    (hrun : (declaredField a slots node).perform s = (.ok r, s'))
    (h : (declaredField a slots node).reports s = []) :
    node.fieldName ∉ slots.taken ∧ s' = s ∧
      ∃ f, r = some f ∧ a.field? node.fieldName = some f ∧ f.index < slots.nodes.length := by
  unfold declaredField at hrun h
  split at hrun
  · rename_i htaken
    rw [if_pos htaken] at h
    exact (reports_ne_nil_of_errors (by rw [perform_bind, perform_report]; rfl) h).elim
  · rename_i htaken
    rw [if_neg htaken] at h
    cases hf : a.field? node.fieldName with
    | none =>
        simp only [hf] at h
        exact (reports_ne_nil_of_errors (by rw [perform_bind, perform_report]; rfl) h).elim
    | some f =>
        simp only [hf] at hrun
        split at hrun
        · rename_i hlt
          obtain ⟨rfl, rfl⟩ : some f = r ∧ s = s' := by simpa using hrun
          exact ⟨by simpa using htaken, rfl, f, rfl, rfl, hlt⟩
        · simp at hrun

theorem acceptField_of_reports {f : Field Ty} {t : Ty} {s' : Session}
    (hrun : (acceptField f slots node t).perform s = (.ok slots', s'))
    (h : (acceptField f slots node t).reports s = []) : slots' = slots.accept f node := by
  unfold acceptField at hrun h
  rw [perform_bind, perform_unify] at hrun
  cases hu : (s.context.unify f.ty t).1 with
  | ok u =>
      simp only [hu, perform_bind, perform_record, perform_pure, Prod.mk.injEq, Except.ok.injEq] at hrun
      exact hrun.1.symm
  | error e =>
      refine (reports_ne_nil_of_errors (e := ⟨.ofUnify e, node.mark.span⟩) ?_ h).elim
      simp only [perform_bind, perform_unify, hu, perform_report, perform_pure, Sink.errors_report]

theorem accepted_of_ownReports (hok : (node.check a slots s).outcome = .ok slots')
    (h : node.ownReports a slots s = []) :
    node.fieldName ∉ slots.taken ∧ ∃ f, a.field? node.fieldName = some f ∧
      f.index < slots.nodes.length ∧ slots' = slots.accept f (node.check a slots s).node := by
  unfold ownReports at h
  obtain ⟨hplace, haccept⟩ := List.append_eq_nil_iff.1 h
  rw [check_eq] at hok ⊢
  rcases first_cases node (declaredField a slots node) (node.checkPlaced slots) s with
    ⟨r, s', hrun, heq⟩ | ⟨e, s', -, heq⟩
  · obtain ⟨hnew, rfl, f, rfl, hf, hlt⟩ := declaredField_of_reports hrun hplace
    rw [heq] at hok ⊢
    refine ⟨hnew, f, hf, hlt, ?_⟩
    rw [hrun] at haccept
    rw [checkPlaced] at hok ⊢
    rcases child_cases node.checkValue id
      (fun node t => leaf node (acceptField f slots node t)) s' with ⟨t, hvalue, heq⟩ | ⟨e, -, heq⟩
    · rw [heq, leaf_outcome] at hok
      rw [heq]
      simp only [hvalue] at haccept
      exact acceptField_of_reports (Prod.ext hok rfl) haccept
    · rw [heq] at hok
      cases hok
  · rw [heq] at hok
    cases hok

/-- Written fields that report nothing of their own are all placed. -/
theorem placed_checkAll (ha : a.IsIndexed) {fields before : List FieldInit}
    (hplaced : Slots.Placed a before slots)
    (hok : (checkAll a slots fields s).outcome = .ok slots')
    (h : ownReportsAll a slots fields s = []) :
    Slots.Placed a (before ++ (checkAll a slots fields s).node) slots' ∧
      List.Forall₂ (CheckedAs a) fields (checkAll a slots fields s).node := by
  induction fields generalizing before slots s with
  | nil =>
      rw [checkAll] at hok ⊢
      obtain rfl : slots = slots' := by simpa [leaf_outcome] using hok
      exact ⟨by simpa using hplaced, .nil⟩
  | cons node rest ih =>
      rw [checkAll] at hok ⊢
      obtain ⟨hfirst, hrest⟩ := List.append_eq_nil_iff.1 h
      rcases child_cases (node.check a slots) (· :: rest) (fun node slots =>
        child (checkAll a slots rest) (node :: ·) fun rest slots =>
          leaf (node :: rest) (return slots)) s with ⟨slots₁, hrun, heq⟩ | ⟨e, -, heq⟩
      · rw [heq] at hok ⊢
        obtain ⟨hnew, f, hf, hlt, rfl⟩ := accepted_of_ownReports hrun hfirst
        have hname := (mark_check a slots node s).2
        have hplaced₁ := hplaced.accept ha (by rwa [hname]) (by rwa [hname]) hlt
        simp only [hrun] at hrest
        have hnode : CheckedAs a node (node.check a slots s).node := ⟨slots, s, rfl⟩
        generalize node.check a slots s = w at *
        rcases child_cases (checkAll a (slots.accept f w.node) rest) (w.node :: ·)
          (fun rest slots => leaf (w.node :: rest) (return slots)) w.session with
          ⟨slots₂, hrun, heq⟩ | ⟨e, -, heq⟩
        · rw [heq] at hok ⊢
          obtain rfl : slots₂ = slots' := by simpa [leaf_outcome] using hok
          obtain ⟨hall, hchecked⟩ := ih hplaced₁ hrun hrest
          exact ⟨by simpa using hall, .cons hnode hchecked⟩
        · rw [heq] at hok
          cases hok
      · rw [heq] at hok
        cases hok

end FieldInit

/-! ## Completed literals -/

/-- Fields that come from the slots of written nodes and, for every other declared field, from a
base. The `k`-th of those takes its identities from `id + 2 * k` on. -/
structure Completed (a : Adt Ty) (written : List FieldInit) (slots : Slots) (base : Option Expr)
    (id : Nat) (fields : List FieldInit) : Prop where
  length_eq : fields.length = a.size
  kept : ∀ (i : Nat), (∀ f ∈ a.unwritten written, f.index ≠ i) →
    slots.nodes[i]? = fields[i]?.map some
  filled : ∀ (k : Nat) f, (a.unwritten written)[k]? = some f →
    ∃ b, base = some b ∧ fields[f.index]? = some (f.fromBase a b (id + 2 * k))

namespace Completed

variable {a : Adt Ty} {written : List FieldInit} {slots : Slots} {base : Option Expr} {id : Nat}
  {fields : List FieldInit}

theorem mem_unwritten {f : Field Ty} :
    f ∈ a.unwritten written ↔ f ∈ a.fields ∧ f.name ∉ written.map FieldInit.fieldName := by
  simp [Adt.unwritten, List.mem_filter]

theorem index_ne_of_written (ha : a.IsIndexed) {f : Field Ty} (hf : f ∈ a.fields)
    (hname : f.name ∈ written.map FieldInit.fieldName) :
    ∀ g ∈ a.unwritten written, g.index ≠ f.index := by
  intro g hg heq
  obtain ⟨hgmem, hgname⟩ := mem_unwritten.1 hg
  exact hgname (ha.eq_of_index hgmem hf heq ▸ hname)

/-- The node in the slot of a written name is the written node. -/
theorem written_of_getElem? (h : Completed a written slots base id fields)
    (hp : slots.Placed a written) (ha : a.IsIndexed) {i : Nat} {f : Field Ty} {n : FieldInit}
    (hf : a.fields[i]? = some f) (hname : f.name ∈ written.map FieldInit.fieldName)
    (hn : fields[i]? = some n) : n ∈ written ∧ a.field? n.fieldName = some f := by
  have hmem := List.mem_of_getElem? hf
  have hindex := ha i f hf
  have hslot := h.kept i (hindex ▸ index_ne_of_written ha hmem hname)
  rw [hn] at hslot
  obtain ⟨hw, g, hg, hgi⟩ := hp.mem_of_slot i n hslot
  obtain rfl := ha.eq_of_index (Adt.field?_eq_some hg).1 hmem (hgi.trans hindex.symm)
  exact ⟨hw, hg⟩

theorem named (h : Completed a written slots base id fields) (hp : slots.Placed a written)
    (ha : a.IsIndexed) (hpositional : a.kind = .tuple → ∀ f ∈ a.fields, f.name = toString f.index)
    {i : Nat} {f : Field Ty} (hf : a.fields[i]? = some f) :
    ∃ n, fields[i]? = some n ∧ n.fieldName = f.name := by
  have hmem := List.mem_of_getElem? hf
  have hlt : i < fields.length := by
    rw [h.length_eq]
    exact (List.getElem?_eq_some_iff.1 hf).1
  refine ⟨fields[i], List.getElem?_eq_getElem hlt, ?_⟩
  by_cases hname : f.name ∈ written.map FieldInit.fieldName
  · have hw := h.written_of_getElem? hp ha hf hname (List.getElem?_eq_getElem hlt)
    exact (Adt.field?_eq_some hw.2).2.symm
  · obtain ⟨k, hk⟩ := List.mem_iff_getElem?.1 (mem_unwritten.2 ⟨hmem, hname⟩)
    obtain ⟨b, -, hb⟩ := h.filled k f hk
    rw [ha i f hf, List.getElem?_eq_getElem hlt] at hb
    rw [Option.some.inj hb, Field.fromBase]
    cases hkind : a.kind with
    | named => rfl
    | tuple => exact (hpositional hkind f hmem).symm

/-- A written node stands at exactly one place, that of its name. -/
theorem existsUnique (h : Completed a written slots base id fields) (hp : slots.Placed a written)
    (ha : a.IsIndexed) (hpositional : a.kind = .tuple → ∀ f ∈ a.fields, f.name = toString f.index)
    {n : FieldInit} (hn : n ∈ written) :
    ∃ i, fields[i]? = some n ∧ ∀ (j : Nat) m, fields[j]? = some m → m.fieldName = n.fieldName → j = i := by
  obtain ⟨g, hg, hslot⟩ := hp.slot_of_mem n hn
  obtain ⟨hmem, hgname⟩ := Adt.field?_eq_some hg
  have hwritten : g.name ∈ written.map FieldInit.fieldName := hgname ▸ List.mem_map_of_mem hn
  refine ⟨g.index, ?_, fun j m hm hname => ?_⟩
  · rw [h.kept g.index (index_ne_of_written ha hmem hwritten)] at hslot
    simpa using hslot
  · have hlt : j < a.fields.length := by
      have := (List.getElem?_eq_some_iff.1 hm).1
      rwa [h.length_eq] at this
    have hf := List.getElem?_eq_getElem hlt
    obtain ⟨m', hm', hfname⟩ := h.named hp ha hpositional hf
    obtain rfl : m = m' := Option.some.inj (hm.symm.trans hm')
    have hw := h.written_of_getElem? hp ha hf (by rw [← hfname, hname, ← hgname]; exact hwritten) hm
    rw [hname, hg] at hw
    rw [Option.some.inj hw.2, ha j _ hf]

end Completed

namespace Walk

variable {a : Adt Ty} {written : List FieldInit} {slots : Slots} {base : Option Expr} {s : Session}
  {t ty : Ty} {span : Span}

theorem untaken_eq (hp : slots.Placed a written) : slots.untaken a = a.unwritten written := by
  unfold Slots.untaken Adt.unwritten
  rw [hp.taken_eq]
  simp

/-- A literal whose slots are all filled ends with them, in the same session. -/
theorem orderLiteral_of_ok (hok : (orderLiteral a t slots s).outcome = .ok ty) :
    slots.nodes = (orderLiteral a t slots s).node.map some ∧
      (orderLiteral a t slots s).session = s := by
  unfold orderLiteral at hok ⊢
  cases hfields : slots.inOrder with
  | ok fields => exact ⟨Slots.inOrder_eq_ok_iff.1 hfields, rfl⟩
  | error i => simp [hfields, leaf_outcome] at hok

theorem unwritten_eq_nil (hp : slots.Placed a written) (ha : a.IsIndexed) {fields : List FieldInit}
    (h : slots.nodes = fields.map some) : a.unwritten written = [] := by
  rw [List.eq_nil_iff_forall_not_mem]
  intro f hf
  obtain ⟨hmem, hname⟩ := Completed.mem_unwritten.1 hf
  have hlt : f.index < fields.length := by
    have hlt := ha.index_lt hmem
    rwa [← hp.length_eq, h, List.length_map] at hlt
  obtain ⟨hw, g, hg, hgi⟩ := hp.mem_of_slot f.index fields[f.index] (by simp [h, hlt])
  obtain ⟨hgmem, hgname⟩ := Adt.field?_eq_some hg
  obtain rfl := ha.eq_of_index hgmem hmem hgi
  exact hname (hgname ▸ List.mem_map_of_mem hw)

/-- A literal that is completed without a report has its written nodes and, where there are none,
located and typed accesses to its base. -/
theorem completed_of_reports (hp : slots.Placed a written) (ha : a.IsIndexed)
    (hok : (completeLiteral a t span base written slots s).outcome = .ok ty)
    (h : (completeLiteral a t span base written slots).reports s = []) :
    Completed a written slots base s.locations.size
        (completeLiteral a t span base written slots s).node ∧
      (completeLiteral a t span base written slots s).session.locations.size =
        s.locations.size + 2 * (a.unwritten written).length ∧
      ∀ (k : Nat) f b, (a.unwritten written)[k]? = some f → base = some b →
        ∀ i, i = s.locations.size + 2 * k ∨ i = s.locations.size + 2 * k + 1 →
          (completeLiteral a t span base written slots s).session.locations.find? i = some b.span ∧
            (completeLiteral a t span base written slots s).session.context.types.find? i =
              some ((completeLiteral a t span base written slots s).session.context.resolve f.ty) := by
  unfold reports at h
  unfold completeLiteral at hok h ⊢
  simp only [hp.not_faulty, Bool.false_eq_true, if_false] at hok h ⊢
  by_cases hall : slots.taken.length = a.size
  · simp only [if_pos hall] at hok ⊢
    obtain ⟨hnodes, hsession⟩ := orderLiteral_of_ok hok
    have hnil := unwritten_eq_nil hp ha hnodes
    rw [hnil, hsession]
    refine ⟨⟨?_, fun i _ => ?_, by simp [hnil]⟩, rfl, by simp⟩
    · rw [← hp.length_eq, hnodes, List.length_map]
    · rw [hnodes, List.getElem?_map]
  · simp only [if_neg hall] at hok h ⊢
    cases base with
    | none => simp [leaf_session] at h
    | some b =>
        simp only [first, perform_fillFromBase, untaken_eq hp] at hok ⊢
        obtain ⟨hnodes, hsession⟩ := orderLiteral_of_ok hok
        rw [hsession]
        have hsub : (a.unwritten written).Sublist a.fields := List.filter_sublist
        have hnodup : ((a.unwritten written).map Field.index).Nodup := by
          refine (hsub.map Field.index).nodup ?_
          rw [ha.map_index]
          exact List.nodup_range
        refine ⟨⟨?_, fun i hi => ?_, fun k f hf => ⟨b, rfl, ?_⟩⟩, by simp,
          fun k f b' hf hb i hi => ?_⟩
        · rw [← hp.length_eq, ← List.length_map, ← hnodes, Slots.length_fillFrom]
        · rw [← List.getElem?_map, ← hnodes, Slots.fillFrom_of_not_mem _ hi]
        · have hlt : f.index < slots.nodes.length := by
            rw [hp.length_eq]
            exact ha.index_lt (hsub.mem (List.mem_of_getElem? hf))
          have hslot : (slots.fillFrom a b s.locations.size (a.unwritten written)).nodes[f.index]? =
              some (some (f.fromBase a b (s.locations.size + 2 * k))) :=
            Slots.fillFrom_of_getElem? s.locations.size hnodup hf hlt
          rw [hnodes, List.getElem?_map] at hslot
          simpa using hslot
        · obtain rfl : b = b' := by simpa using hb
          rw [Session.resolve_synthesizeAll]
          exact Session.spec_synthesizeAll b.span (by simp [hf]) s hi

end Walk

/-! ## The struct that a path names -/

namespace Adt

variable {a d : Adt Ty}

theorem shape_instantiate (a : Adt Ty) (args : List Ty) : (a.instantiate args).shape = a.shape := by
  simp [Adt.instantiate, Adt.shape, Function.comp_def]

theorem shape_apply {args : List Ty} (h : d.apply args = .ok a) : a.shape = d.shape := by
  obtain ⟨-, rfl⟩ | ⟨-, -, rfl⟩ := Adt.apply_eq_ok_iff.1 h
  · rfl
  · exact shape_instantiate d args

theorem shape_freshInstance (c : Context) (d : Adt Ty) : (c.freshInstance d).1.shape = d.shape := by
  unfold Context.freshInstance
  split
  · rfl
  · exact shape_instantiate d _

theorem IsIndexed.of_shape (hd : d.IsIndexed) (h : a.shape = d.shape) : a.IsIndexed := by
  intro i f hf
  have hlabels : a.fields.map Field.label = d.fields.map Field.label := congrArg Shape.fields h
  have hi := congrArg (·[i]?) hlabels
  simp only [List.getElem?_map, hf, Option.map_some] at hi
  obtain ⟨g, hg, hlabel⟩ := Option.map_eq_some_iff.1 hi.symm
  rw [← hd i g hg]
  exact (congrArg Prod.snd hlabel).symm

/-- Fields of the same shape are named alike. -/
theorem named_of_shape (h : a.shape = d.shape) (hd : ∀ f ∈ d.fields, f.name = toString f.index) :
    ∀ f ∈ a.fields, f.name = toString f.index := by
  intro f hf
  have hlabels : a.fields.map Field.label = d.fields.map Field.label := congrArg Shape.fields h
  have hmem : f.label ∈ d.fields.map Field.label := hlabels ▸ List.mem_map_of_mem hf
  obtain ⟨g, hg, hlabel⟩ := List.mem_map.1 hmem
  obtain ⟨hname, hindex⟩ : g.name = f.name ∧ g.index = f.index := by
    simpa [Field.label] using hlabel
  rw [← hname, ← hindex]
  exact hd g hg

end Adt

theorem Check.shape_withArgs {a d : Adt Ty} {args : List Ty} {span : Span} {s s' : Session}
    (hrun : (d.withArgs args span).perform s = (.ok a, s')) : a.shape = d.shape := by
  unfold Adt.withArgs at hrun
  cases h : d.apply args with
  | ok b =>
      simp only [h, perform_pure, Prod.mk.injEq, Except.ok.injEq] at hrun
      rw [← hrun.1]
      exact Adt.shape_apply h
  | error e => simp [h] at hrun

/-- A struct keeps its shape when it is instantiated. -/
theorem Check.shape_instanceIn {a d : Adt Ty} {args : List TypeRef} {span : Span} {s s' : Session}
    (hrun : (d.instanceIn args span).perform s = (.ok a, s')) : a.shape = d.shape := by
  unfold Adt.instanceIn at hrun
  split at hrun
  · rw [perform_freshInstance, Prod.mk.injEq, Except.ok.injEq] at hrun
    rw [← hrun.1, Adt.shape_freshInstance]
  · rw [perform_bind] at hrun
    rcases hread : (TypeRef.readAll .body args).perform s with ⟨e | tys, s₁⟩
    · simp [hread] at hrun
    · simp only [hread] at hrun
      exact shape_withArgs hrun

theorem Check.shape_structOf {path : Path} {span : Span} {s s' : Session} {a d : Adt Ty}
    {res : NodeId} (hres : path.res = some res) (hlookup : s.context.lookup res = some (.adt d))
    (hrun : (structOf path span).perform s = (.ok a, s')) : a.shape = d.shape := by
  unfold structOf at hrun
  simp only [hres, perform_bind, perform_lookup, hlookup] at hrun
  split at hrun
  · exact shape_instanceIn hrun
  · simp only [perform_pure, Prod.mk.injEq, Except.ok.injEq] at hrun
    rw [hrun.1]

/-! ## The result -/

/-- What the fields of a literal are after its check, for a struct `a`: one node for each declared
field, in order, and named after it; every written node, at one place; and for each other field two
new nodes over the base, located there and typed as the field is declared. -/
structure DeclarationOrder (a : Adt Ty) (written : List FieldInit) (before : Session)
    (after : Walked (List FieldInit × Option Expr) Ty) : Prop where
  length_eq : after.node.1.length = a.size
  named : ∀ (i : Nat) f, a.fields[i]? = some f →
    ∃ n, after.node.1[i]? = some n ∧ n.fieldName = f.name
  placed : ∀ w ∈ written, ∃! i : Nat, ∃ n, after.node.1[i]? = some n ∧ n.fieldName = w.fieldName ∧
    n.mark = w.mark ∧ w.CheckedAs a n
  filled : ∃ id, before.locations.size ≤ id ∧
    after.session.locations.size = id + 2 * (a.unwritten written).length ∧
    ∀ (k : Nat) f, (a.unwritten written)[k]? = some f → ∃ b, after.node.2 = some b ∧
      after.node.1[f.index]? = some (f.fromBase a b (id + 2 * k)) ∧
      ∀ i, i = id + 2 * k ∨ i = id + 2 * k + 1 →
        after.session.locations.find? i = some b.span ∧
        after.session.context.types.find? i = some (after.session.context.resolve f.ty)

/-- Checking the parts of a literal never takes locations away. -/
theorem size_le_of_steady {ν α : Type} {ids : List NodeId} {w : Walk ν α} (hw : Walk.Steady ids w)
    (s : Session) : s.locations.size ≤ (w s).session.locations.size :=
  (hw.grows s).size_le

/-- From the fields of a literal on: its written nodes were checked as `checked`. -/
theorem declarationOrder_of_completed {a : Adt Ty} {written checked : List FieldInit} {slots : Slots}
    {base : Option Expr} {before s : Session} {t ty : Ty} {span : Span} (ha : a.IsIndexed)
    (hpositional : a.kind = .tuple → ∀ f ∈ a.fields, f.name = toString f.index)
    (hp : slots.Placed a checked) (hchecked : List.Forall₂ (FieldInit.CheckedAs a) written checked)
    (hsize : before.locations.size ≤ s.locations.size)
    (hok : (completeLiteral a t span base checked slots s).outcome = .ok ty)
    (h : (completeLiteral a t span base checked slots).reports s = []) :
    DeclarationOrder a written before
      ⟨((completeLiteral a t span base checked slots s).node, base), .ok ty,
        (completeLiteral a t span base checked slots s).session⟩ := by
  obtain ⟨hcompleted, hcount, hlocated⟩ := completed_of_reports hp ha hok h
  have hunwritten : a.unwritten written = a.unwritten checked := by
    simp only [Adt.unwritten, FieldInit.fieldNames_of_checked hchecked]
  constructor
  case length_eq => exact hcompleted.length_eq
  case named => exact fun i f hf => hcompleted.named hp ha hpositional hf
  case placed =>
    intro w hw
    obtain ⟨n, hn, hcheck⟩ := FieldInit.exists_checked hchecked hw
    obtain ⟨slots', s', rfl⟩ := hcheck
    obtain ⟨hmark, hname⟩ := FieldInit.mark_check a slots' w s'
    obtain ⟨i, hi, hunique⟩ := hcompleted.existsUnique hp ha hpositional hn
    refine ⟨i, ⟨_, hi, hname, hmark, slots', s', rfl⟩, ?_⟩
    rintro j ⟨m, hm, hmname, -, -⟩
    exact hunique j m hm (hmname.trans hname.symm)
  case filled =>
    refine ⟨s.locations.size, hsize, by rw [hunwritten]; exact hcount, fun k f hf => ?_⟩
    rw [hunwritten] at hf
    obtain ⟨b, hb, hnode⟩ := hcompleted.filled k f hf
    exact ⟨b, hb, hnode, hlocated k f b hf hb⟩

theorem literal_declarationOrder {path : Path} {pathSpan span : Span} {written : List FieldInit}
    {base : Option Expr} {s : Session} {res : NodeId} {d : Adt Ty} {ty : Ty}
    (hres : path.res = some res) (hlookup : s.context.lookup res = some (.adt d))
    (hindex : ∀ (i : Nat) f, d.fields[i]? = some f → f.index = i)
    (hpositional : d.kind = .tuple → ∀ f ∈ d.fields, f.name = toString f.index)
    (hok : (literal path pathSpan span written base s).outcome = .ok ty)
    (hreports : literalReports path pathSpan span written base s = []) :
    ∃ a s', (structOf path pathSpan).perform s = (.ok a, s') ∧ a.shape = d.shape ∧
      DeclarationOrder a written s (literal path pathSpan span written base s) := by
  unfold literalReports at hreports
  unfold literal at hok ⊢
  rcases hstruct : (structOf path pathSpan).perform s with ⟨e | a, s₀⟩
  · rw [first_of_error hstruct] at hok
    cases hok
  have hshape := shape_structOf hres hlookup hstruct
  have ha : a.IsIndexed := Adt.IsIndexed.of_shape hindex hshape
  have hkind : a.kind = d.kind := congrArg Shape.kind hshape
  have hpositional' : a.kind = .tuple → ∀ f ∈ a.fields, f.name = toString f.index := fun h =>
    Adt.named_of_shape hshape (hpositional (hkind ▸ h))
  refine ⟨a, s₀, rfl, hshape, ?_⟩
  rw [first_of_ok hstruct] at hok ⊢
  simp only [hstruct] at hreports
  have hsize₀ := ((steady_structOf pathSpan (List.Subset.refl path.ids)).grows s).size_le
  rw [hstruct] at hsize₀
  rcases child_cases (literalBase a base) (written, ·) _ s₀ with ⟨t, hbase, heq⟩ | ⟨e, -, heq⟩
  · rw [heq] at hok ⊢
    simp only [hbase] at hreports
    obtain ⟨hfields, hcomplete⟩ := List.append_eq_nil_iff.1 hreports
    have hsize₁ := size_le_of_steady (steady_base a base) s₀
    generalize literalBase a base s₀ = based at hok hfields hcomplete hsize₁ ⊢
    rcases child_cases (FieldInit.checkAll a (Slots.empty a.size) written) (·, based.node) _
      based.session with ⟨slots, hslots, heq⟩ | ⟨e, -, heq⟩
    · rw [heq] at hok ⊢
      simp only [hslots] at hcomplete
      obtain ⟨hplaced, hchecked⟩ := FieldInit.placed_checkAll ha (Slots.placed_empty a) hslots hfields
      have hsize₂ :=
        size_le_of_steady (FieldInit.steady_checkAll a (Slots.empty a.size) written) based.session
      generalize FieldInit.checkAll a (Slots.empty a.size) written based.session = checked at *
      rcases child_cases (completeLiteral a t span based.node checked.node slots) (·, based.node) _
        checked.session with ⟨u, hu, heq⟩ | ⟨e, -, heq⟩
      · rw [heq]
        exact declarationOrder_of_completed ha hpositional' hplaced hchecked
          (Nat.le_trans hsize₀ (Nat.le_trans hsize₁ hsize₂)) hu hcomplete
      · rw [heq] at hok
        cases hok
    · rw [heq] at hok
      cases hok
  · rw [heq] at hok
    cases hok

/-- A literal with its fields out of order, one of which is left to the base. -/
theorem literal_declarationOrder_reordered :
    let d : Adt Ty := ⟨0, "P", .named,
      [⟨"x", .prim .i32, 0⟩, ⟨"y", .prim .bool, 1⟩, ⟨"z", .prim .i32, 2⟩], [], none⟩
    let s : Session := ⟨(Context.initial.insert 0 (.adt d)).insert 1 (.adt d),
      ⟨Array.replicate 8 ⟨0, 1⟩⟩, .fresh⟩
    let written : List FieldInit :=
      [.named ⟨4, ⟨4, 5⟩⟩ "z" (.lit ⟨5, ⟨5, 6⟩⟩ (.int 1 none)),
        .named ⟨6, ⟨6, 7⟩⟩ "x" (.lit ⟨7, ⟨7, 8⟩⟩ (.int 2 none))]
    let base : Expr := .path ⟨3, ⟨3, 4⟩⟩ (.ident "base" (some 1))
    ∃ a s', (structOf (.ident "P" (some 0)) ⟨2, 3⟩).perform s = (.ok a, s') ∧ a.shape = d.shape ∧
      DeclarationOrder a written s
        (literal (.ident "P" (some 0)) ⟨2, 3⟩ ⟨2, 9⟩ written (some base) s) := by
  intro d s written base
  have hindex : ∀ (i : Nat) f, d.fields[i]? = some f → f.index = i := by
    intro i f hf
    rcases i with _ | _ | _ | i <;> simp_all [d] <;> rw [← hf]
  have hok : (literal (.ident "P" (some 0)) ⟨2, 3⟩ ⟨2, 9⟩ written (some base) s).outcome =
      .ok (.adt d) := by decide +kernel
  have hreports : literalReports (.ident "P" (some 0)) ⟨2, 3⟩ ⟨2, 9⟩ written (some base) s = [] := by
    decide +kernel
  have hlookup : s.context.lookup 0 = some (.adt d) := rfl
  exact literal_declarationOrder rfl hlookup hindex (by simp [d]) hok hreports

end TypeInference

import Mathlib.Data.List.Nodup
import TypeInference.Proofs.Check.FromBase
import TypeInference.Proofs.Program.Nodes

/-!
# Copies of nodes

The check of a literal copies its base, with the identities in it, once for each
field that it fills. So several nodes of a rewritten program may share an
identity, and these are equal, because a base is copied only after it has been
rewritten. An identity that is new belongs to a field that was filled or to the
access in it.
-/

namespace TypeInference

/-- Whether the field may have been filled from the base: its value is an access to the base, and
both are located where the base is. -/
inductive FieldInit.IsFromBase (base : Expr) : FieldInit → Prop where
  | named (i j : NodeId) (name : String) :
      IsFromBase base (.named ⟨i, base.span⟩ name (.field ⟨j, base.span⟩ base name))
  | index (i j : NodeId) (k : Nat) :
      IsFromBase base (.index ⟨i, base.span⟩ k (.tupleIndex ⟨j, base.span⟩ base k))

def FieldInit.shell : FieldInit → List Node
  | .named m name value => [.field (.named m name value), .expr value]
  | .index m i value => [.field (.index m i value), .expr value]
  | .short m name res => [.field (.short m name res)]

/-- Whether the node is a field that one of these literals filled from its base, or the access in
such a field, and its identity is located where the base is. -/
def Node.IsCopyIn (nodes : List Node) (l : Locations) (n : Node) : Prop :=
  ∃ m path span fields base, .expr (.struct m path span fields (some base)) ∈ nodes ∧
    ∃ f ∈ fields, f.IsFromBase base ∧ n ∈ f.shell ∧ l.find? n.id = some base.span

theorem Node.IsCopyIn.mono {N N' : List Node} {l l' : Locations} {n : Node} (h : n.IsCopyIn N l)
    (hN : N ⊆ N') (hl : l.Within l') : n.IsCopyIn N' l' := by
  obtain ⟨m, path, span, fields, base, hliteral, f, hf, hbase, hn, hspan⟩ := h
  exact ⟨m, path, span, fields, base, hN hliteral, f, hf, hbase, hn, hl _ _ hspan⟩

theorem FieldInit.IsFromBase.nodes_eq {base : Expr} {f : FieldInit} (h : f.IsFromBase base) :
    f.nodes = f.shell ++ base.nodes := by
  cases h <;> rfl

/-- Nodes that are one if their identities are. An identity is one of the given ones, or it was
handed out between the first locations and the second ones. -/
structure Identified (l l' : Locations) (ids : List NodeId) (N : List Node) : Prop where
  within : l.Within l'
  coherent : ∀ n ∈ N, ∀ m ∈ N, n.id = m.id → n = m
  known : ∀ n ∈ N, n.id ∈ ids ∨ l.size ≤ n.id ∧ n.id < l'.size

structure Rewritten (l l' : Locations) (ids : List NodeId) (N : List Node) : Prop
    extends Identified l l' ids N where
  copied : ∀ n ∈ N, l.size ≤ n.id → n.IsCopyIn N l'

/-- Written fields that are rewritten one by one, so that they stay so if others are dropped. -/
structure FieldsRewritten (l l' : Locations) (ids : List NodeId) (fields : List FieldInit) : Prop where
  identified : Identified l l' ids (FieldInit.nodesAll fields)
  each : ∀ f ∈ fields, Rewritten l l' ids f.nodes

structure FilledFrom (l l' : Locations) (base : Option Expr) (fields : List FieldInit) : Prop where
  identified : Identified l l' [] (fields.flatMap FieldInit.shell)
  copies : ∀ f ∈ fields, ∃ b, base = some b ∧ f.IsFromBase b ∧
    ∀ n ∈ f.shell, l'.find? n.id = some b.span

variable {l l' l'' : Locations} {ids ids' : List NodeId} {N N' : List Node}

theorem Locations.Within.forall_lt (h : l.Within l') (hlt : ∀ i ∈ ids, i < l.size) :
    ∀ i ∈ ids, i < l'.size :=
  fun i hi => Nat.lt_of_lt_of_le (hlt i hi) h.size_le

/-! ## Nodes one after the other -/

namespace Identified

theorem nil (hl : l.Within l') : Identified l l' [] [] := ⟨hl, by simp, by simp⟩

/-- Nodes that are left as they are. -/
theorem original (hN : N.map Node.id = ids) (hnodup : ids.Nodup) : Identified l l ids N := by
  subst hN
  refine ⟨.refl l, fun n hn m hm heq => ?_, fun n hn => .inl (List.mem_map_of_mem hn)⟩
  exact List.inj_on_of_nodup_map hnodup hn hm heq

theorem subset (h : Identified l l' ids N) (hN : N' ⊆ N) : Identified l l' ids N' :=
  ⟨h.within, fun n hn m hm => h.coherent n (hN hn) m (hN hm), fun n hn => h.known n (hN hn)⟩

/-- Nodes that were rewritten one after the other have nothing in common. -/
theorem append (h : Identified l l' ids N) (h' : Identified l' l'' ids' N')
    (hnodup : (ids ++ ids').Nodup) (hlt : ∀ i ∈ ids ++ ids', i < l.size) :
    Identified l l'' (ids ++ ids') (N ++ N') := by
  rw [List.forall_mem_append] at hlt
  have hle := h.within.size_le
  have hle' := h'.within.size_le
  -- A given identity lies below all new ones, and the two runs hand out different new ones.
  have hne {n m : Node} (hn : n ∈ N) (hm : m ∈ N') (heq : n.id = m.id) : False := by
    have hm := h'.known m hm
    rw [← heq] at hm
    rcases h.known n hn with hi | hi <;> rcases hm with hj | hj
    · exact List.disjoint_of_nodup_append hnodup hi hj
    · exact Nat.not_lt.2 hj.1 (Nat.lt_of_lt_of_le (hlt.1 _ hi) hle)
    · exact Nat.not_lt.2 hi.1 (hlt.2 _ hj)
    · exact Nat.not_lt.2 hj.1 hi.2
  constructor
  case within => exact h.within.trans h'.within
  case coherent =>
    intro n hn m hm heq
    rcases List.mem_append.1 hn with hn | hn <;> rcases List.mem_append.1 hm with hm | hm
    · exact h.coherent n hn m hm heq
    · exact (hne hn hm heq).elim
    · exact (hne hm hn heq.symm).elim
    · exact h'.coherent n hn m hm heq
  case known =>
    intro n hn
    rcases List.mem_append.1 hn with hn | hn
    · exact (h.known n hn).imp (List.mem_append_left _) fun hi => ⟨hi.1, Nat.lt_of_lt_of_le hi.2 hle'⟩
    · exact (h'.known n hn).imp (List.mem_append_right _) fun hi => ⟨Nat.le_trans hle hi.1, hi.2⟩

end Identified

namespace Rewritten

theorem original (hN : N.map Node.id = ids) (hnodup : ids.Nodup) (hlt : ∀ i ∈ ids, i < l.size) :
    Rewritten l l ids N := by
  refine ⟨.original hN hnodup, fun n hn hle => ?_⟩
  exact (Nat.not_lt.2 hle (hlt _ (hN ▸ List.mem_map_of_mem hn))).elim

/-- What is done to other nodes later does not matter. -/
theorem later (h : Rewritten l l' ids N) (hl : l'.Within l'') : Rewritten l l'' ids N :=
  ⟨⟨h.within.trans hl, h.coherent, fun n hn =>
    (h.known n hn).imp_right fun hi => ⟨hi.1, Nat.lt_of_lt_of_le hi.2 hl.size_le⟩⟩,
    fun n hn hle => (h.copied n hn hle).mono (List.Subset.refl N) hl⟩

/-- What was done to other nodes before does not matter. -/
theorem earlier (h : Rewritten l' l'' ids N) (hl : l.Within l') (hlt : ∀ i ∈ ids, i < l.size) :
    Rewritten l l'' ids N := by
  refine ⟨⟨hl.trans h.within, h.coherent, fun n hn =>
    (h.known n hn).imp_right fun hi => ⟨Nat.le_trans hl.size_le hi.1, hi.2⟩⟩, fun n hn hle => ?_⟩
  rcases h.known n hn with hi | hi
  · exact (Nat.not_lt.2 hle (hlt _ hi)).elim
  · exact h.copied n hn hi.1

theorem mono (h : Rewritten l l' ids N) (hids : ids ⊆ ids') : Rewritten l l' ids' N :=
  ⟨⟨h.within, h.coherent, fun n hn => (h.known n hn).imp_left fun hi => hids hi⟩, h.copied⟩

theorem append (h : Rewritten l l' ids N) (h' : Rewritten l' l'' ids' N')
    (hnodup : (ids ++ ids').Nodup) (hlt : ∀ i ∈ ids ++ ids', i < l.size) :
    Rewritten l l'' (ids ++ ids') (N ++ N') := by
  have hsecond := h'.earlier h.within (List.forall_mem_append.1 hlt).2
  refine ⟨h.toIdentified.append h'.toIdentified hnodup hlt, fun n hn hle => ?_⟩
  rcases List.mem_append.1 hn with hn | hn
  · exact (h.copied n hn hle).mono (List.subset_append_left _ _) h'.within
  · exact (hsecond.copied n hn hle).mono (List.subset_append_right _ _) (.refl _)

/-- Nodes before others that are rewritten. -/
theorem precede (h : Rewritten l l' ids N) (before : List Node)
    (hnodup : (before.map Node.id ++ ids).Nodup) (hlt : ∀ i ∈ before.map Node.id ++ ids, i < l.size) :
    Rewritten l l' (before.map Node.id ++ ids) (before ++ N) := by
  refine (original rfl (List.Nodup.of_append_left hnodup) fun i hi => ?_).append h hnodup hlt
  exact hlt i (List.mem_append_left _ hi)

end Rewritten

/-! ## Fields -/

namespace FieldsRewritten

variable {fields : List FieldInit}

theorem nil (l : Locations) : FieldsRewritten l l [] [] := ⟨.nil (.refl l), by simp⟩

theorem cons {f : FieldInit} (h : Rewritten l l' ids f.nodes) (h' : FieldsRewritten l' l'' ids' fields)
    (hnodup : (ids ++ ids').Nodup) (hlt : ∀ i ∈ ids ++ ids', i < l.size) :
    FieldsRewritten l l'' (ids ++ ids') (f :: fields) := by
  refine ⟨h.toIdentified.append h'.identified hnodup hlt, List.forall_mem_cons.2 ⟨?_, fun g hg => ?_⟩⟩
  · exact (h.later h'.identified.within).mono (List.subset_append_left _ _)
  · have hsecond := (h'.each g hg).earlier h.within fun i hi => hlt i (List.mem_append_right _ hi)
    exact hsecond.mono (List.subset_append_right _ _)

theorem original (hnodup : (FieldInit.idsAll fields).Nodup)
    (hlt : ∀ i ∈ FieldInit.idsAll fields, i < l.size) :
    FieldsRewritten l l (FieldInit.idsAll fields) fields := by
  induction fields with
  | nil => exact nil l
  | cons f rest ih =>
      rw [FieldInit.idsAll] at hnodup hlt ⊢
      have hlt' := List.forall_mem_append.1 hlt
      have hfirst : Rewritten l l f.ids f.nodes := .original f.ids_nodes hnodup.of_append_left hlt'.1
      exact cons hfirst (ih hnodup.of_append_right hlt'.2) hnodup hlt

end FieldsRewritten

theorem FilledFrom.nil (hl : l.Within l') (base : Option Expr) : FilledFrom l l' base [] :=
  ⟨.nil hl, by simp⟩

theorem FilledFrom.cons {b : Expr} {f : FieldInit} {fields : List FieldInit}
    (h : Identified l l' [] f.shell) (hbase : f.IsFromBase b)
    (hlocated : ∀ n ∈ f.shell, l'.find? n.id = some b.span)
    (h' : FilledFrom l' l'' (some b) fields) : FilledFrom l l'' (some b) (f :: fields) := by
  refine ⟨h.append h'.identified List.nodup_nil (by simp), List.forall_mem_cons.2 ⟨?_, h'.copies⟩⟩
  exact ⟨b, rfl, hbase, fun n hn => h'.identified.within _ _ (hlocated n hn)⟩

theorem mem_nodesStruct {m : Mark} {path : Path} {span : Span} {fields : List FieldInit}
    {base : Option Expr} {n : Node} :
    n ∈ (Expr.struct m path span fields base).nodes ↔
      n ∈ .expr (.struct m path span fields base) :: path.nodes ∨ n ∈ Expr.nodesOption base ∨
        ∃ f ∈ fields, n ∈ f.nodes := by
  rw [Expr.nodes, List.mem_cons, List.mem_append, List.mem_append, FieldInit.nodesAll_eq,
    List.mem_flatMap, List.mem_cons, or_assoc]

section

variable {m : Mark} {path : Path} {span : Span} {fields fields' kept filled : List FieldInit}
  {base base' : Option Expr} {l₁ l₂ l₃ : Locations}

/-- A literal whose fields are rewritten ones or filled from its base. -/
theorem Identified.literal (hnodup : (Expr.struct m path span fields base).ids.Nodup)
    (hlt : ∀ i ∈ (Expr.struct m path span fields base).ids, i < l.size)
    (hbase : Identified l l₁ (Expr.idsOption base) (Expr.nodesOption base'))
    (hfields : Identified l₁ l₂ (FieldInit.idsAll fields) (FieldInit.nodesAll fields'))
    (hfilled : FilledFrom l₂ l₃ base' filled) (hkept : kept ⊆ fields' ++ filled) :
    Identified l l₃ (Expr.struct m path span fields base).ids
      (Expr.struct m path span kept base').nodes := by
  have hids : (Expr.struct m path span fields base).ids =
      m.id :: path.ids ++ Expr.idsOption base ++ FieldInit.idsAll fields ++ [] := by
    simp [Expr.ids]
  rw [hids] at hnodup hlt ⊢
  have hroot : Identified l l (m.id :: path.ids)
      (.expr (.struct m path span kept base') :: path.nodes) :=
    .original (congrArg (m.id :: ·) path.ids_nodes) hnodup.of_append_left.of_append_left.of_append_left
  have hlt₁ := (List.forall_mem_append.1 hlt).1
  have hlt₂ := (List.forall_mem_append.1 hlt₁).1
  have hall := ((hroot.append hbase hnodup.of_append_left.of_append_left hlt₂).append hfields
    hnodup.of_append_left hlt₁).append hfilled.identified hnodup hlt
  refine hall.subset fun n hmem => ?_
  simp only [List.mem_append, FieldInit.nodesAll_eq, List.mem_flatMap]
  rcases mem_nodesStruct.1 hmem with hn | hn | ⟨f, hf, hn⟩
  · exact .inl (.inl (.inl hn))
  · exact .inl (.inl (.inr hn))
  · rcases List.mem_append.1 (hkept hf) with hf | hf
    · exact .inl (.inr ⟨f, hf, hn⟩)
    · obtain ⟨b, rfl, hfrom, -⟩ := hfilled.copies f hf
      rw [hfrom.nodes_eq, List.mem_append] at hn
      rcases hn with hn | hn
      · exact .inr ⟨f, hf, hn⟩
      · exact .inl (.inl (.inr hn))

theorem Rewritten.literal (hnodup : (Expr.struct m path span fields base).ids.Nodup)
    (hlt : ∀ i ∈ (Expr.struct m path span fields base).ids, i < l.size)
    (hbase : Rewritten l l₁ (Expr.idsOption base) (Expr.nodesOption base'))
    (hfields : FieldsRewritten l₁ l₂ (FieldInit.idsAll fields) fields')
    (hfilled : FilledFrom l₂ l₃ base' filled) (hkept : kept ⊆ fields' ++ filled) :
    Rewritten l l₃ (Expr.struct m path span fields base).ids
      (Expr.struct m path span kept base').nodes := by
  refine ⟨.literal hnodup hlt hbase.toIdentified hfields.identified hfilled hkept, fun n hmem hle => ?_⟩
  have hbaseCopied (hn : n ∈ Expr.nodesOption base') :
      n.IsCopyIn (Expr.struct m path span kept base').nodes l₃ :=
    (hbase.copied n hn hle).mono (fun k hk => mem_nodesStruct.2 (.inr (.inl hk)))
      (hfields.identified.within.trans hfilled.identified.within)
  rcases mem_nodesStruct.1 hmem with hroot | hn | ⟨f, hf, hn⟩
  · have hmem : n.id ∈ m.id :: path.ids := by
      rw [← path.ids_nodes]
      exact List.mem_map_of_mem (f := Node.id) hroot
    refine (Nat.not_lt.2 hle (hlt _ ?_)).elim
    rw [Expr.ids, ← List.cons_append]
    exact List.mem_append_left _ hmem
  · exact hbaseCopied hn
  · have hsub : f.nodes ⊆ (Expr.struct m path span kept base').nodes := fun k hk =>
      mem_nodesStruct.2 (.inr (.inr ⟨f, hf, hk⟩))
    rcases List.mem_append.1 (hkept hf) with hf' | hf'
    · -- What was copied in a field has its literal in that field, whatever became of the others.
      have hlt' : ∀ i ∈ FieldInit.idsAll fields, i < l.size := fun i hi =>
        hlt i (List.mem_cons_of_mem _ (List.mem_append_right _ (List.mem_append_right _ hi)))
      have hfield := (hfields.each f hf').earlier hbase.within hlt'
      exact (hfield.copied n hn hle).mono hsub hfilled.identified.within
    · obtain ⟨b, rfl, hfrom, hlocated⟩ := hfilled.copies f hf'
      rw [hfrom.nodes_eq, List.mem_append] at hn
      rcases hn with hn | hn
      · exact ⟨m, path, span, kept, b, mem_nodesStruct.2 (.inl List.mem_cons_self), f, hf, hfrom, hn,
          hlocated n hn⟩
      · exact hbaseCopied hn

end

/-! ## Fields from a base -/

theorem Slots.Holds.fill_append {slots : Slots} {fields : List FieldInit}
    (h : slots.Holds (· ∈ fields)) (node : FieldInit) (i : Nat) :
    (slots.fill i node).Holds (· ∈ fields ++ [node]) :=
  (h.imp fun _ => List.mem_append_left _).fill (by simp) i

theorem Field.isFromBase (a : Adt Ty) (b : Expr) (i : NodeId) (f : Field Ty) :
    (f.fromBase a b i).IsFromBase b := by
  unfold fromBase
  cases a.kind with
  | named => exact .named _ _ _
  | tuple => exact .index _ _ _

theorem Field.ids_shell (a : Adt Ty) (b : Expr) (i : NodeId) (f : Field Ty) :
    (f.fromBase a b i).shell.map Node.id = [i + 1, i] := by
  unfold fromBase
  cases a.kind <;> rfl

theorem Session.identified_synthesize (s : Session) (a : Adt Ty) (b : Expr) (f : Field Ty) :
    Identified s.locations (s.synthesize b.span f.ty).locations []
        (f.fromBase a b s.locations.size).shell ∧
      ∀ n ∈ (f.fromBase a b s.locations.size).shell,
        (s.synthesize b.span f.ty).locations.find? n.id = some b.span := by
  have hids := f.ids_shell a b s.locations.size
  have hmem {n : Node} (hn : n ∈ (f.fromBase a b s.locations.size).shell) :
      n.id = s.locations.size + 1 ∨ n.id = s.locations.size := by
    have hmem := List.mem_map_of_mem (f := Node.id) hn
    rw [hids] at hmem
    simpa using hmem
  obtain ⟨hfirst, hsecond⟩ := s.located_synthesize b.span f.ty
  refine ⟨⟨(grows_synthesize [] s b.span f.ty).located, ?_, fun n hn => .inr ?_⟩, fun n hn => ?_⟩
  · exact (Identified.original (l := s.locations) hids (by simp)).coherent
  · rw [size_synthesize]
    rcases hmem hn with h | h <;> rw [h]
    · exact ⟨Nat.le_succ _, Nat.lt_succ_self _⟩
    · exact ⟨Nat.le_refl _, Nat.lt_add_of_pos_right Nat.two_pos⟩
  · rcases hmem hn with h | h <;> rw [h]
    · exact hsecond
    · exact hfirst

/-- What is filled from a base, one field after the other. -/
theorem Session.filled_synthesizeAll (a : Adt Ty) (b : Expr) (fs : List (Field Ty)) {slots : Slots}
    {fields : List FieldInit} (hslots : slots.Holds (· ∈ fields)) (s : Session) :
    ∃ filled,
      FilledFrom s.locations (s.synthesizeAll b.span (fs.map Field.ty)).locations (some b) filled ∧
      (slots.fillFrom a b s.locations.size fs).Holds (· ∈ fields ++ filled) := by
  induction fs generalizing slots fields s with
  | nil => exact ⟨[], .nil (.refl _) _, by rwa [List.append_nil]⟩
  | cons f fs ih =>
      obtain ⟨hidentified, hlocated⟩ := s.identified_synthesize a b f
      obtain ⟨filled, hfilled, hheld⟩ := ih
        (hslots.fill_append (f.fromBase a b s.locations.size) f.index) (s.synthesize b.span f.ty)
      rw [size_synthesize, List.append_assoc] at hheld
      exact ⟨_, .cons hidentified (f.isFromBase a b _) hlocated hfilled, hheld⟩

end TypeInference

import TypeInference.Proofs.Check.DisplacedTypes

/-!
# Struct literals at another place

The fields of a literal are placed by name and filled from a base by position.
Neither depends on the place; the nodes that are made for a base have other
identities there.
-/

namespace TypeInference

open Ty Bindings Check

namespace Check

variable {P : Place} {kinds : List VarKind} {t t' u u' : Ty} {a a' : Adt Ty}

theorem mirrors_unifyBase (ha : P.Structs kinds a a') (ht : P.Types kinds t t') (span span' : Span) :
    Mirrors P kinds (unifyBase a t span) (unifyBase a' t' span') P.Types := by
  refine (mirrors_unify ha ht).bind fun kinds₁ hk r r' hr => ?_
  cases hr with
  | ok h => exact mirrors_pure h
  | error h =>
      exact (mirrors_resolve (ht.mono hk)).bind fun _ _ _ _ _ => mirrors_giveUpAll _ _ span span'

end Check

structure Slots.Alike (slots slots' : Slots) : Prop where
  taken_eq : slots'.taken = slots.taken
  faulty_eq : slots'.isFaulty = slots.isFaulty
  filled_eq : slots'.nodes.map Option.isSome = slots.nodes.map Option.isSome

namespace Slots.Alike

variable {slots slots' : Slots}

theorem length_eq (h : slots.Alike slots') : slots'.nodes.length = slots.nodes.length := by
  simpa using congrArg List.length h.filled_eq

theorem fault (h : slots.Alike slots') : slots.fault.Alike slots'.fault :=
  ⟨h.taken_eq, rfl, h.filled_eq⟩

theorem fill (h : slots.Alike slots') (index : Nat) (node node' : FieldInit) :
    (slots.fill index node).Alike (slots'.fill index node') :=
  ⟨h.taken_eq, h.faulty_eq, by simp [Slots.fill, List.map_set, h.filled_eq]⟩

theorem accept (h : slots.Alike slots') {f f' : Field Ty} (hf : f'.index = f.index)
    {node node' : FieldInit} (hname : node'.fieldName = node.fieldName) :
    (slots.accept f node).Alike (slots'.accept f' node') := by
  have hfill := h.fill f.index node node'
  refine ⟨?_, h.faulty_eq, ?_⟩
  · show node'.fieldName :: slots'.taken = node.fieldName :: slots.taken
    rw [hname, h.taken_eq]
  · show (slots'.fill f'.index node').nodes.map _ = _
    rw [hf]
    exact hfill.filled_eq

/-- Slots are all filled, or the same one is the first that is empty. -/
theorem inOrder (h : slots.Alike slots') : Both Eq (fun _ _ => True) slots.inOrder slots'.inOrder := by
  have hread : ∀ (nodes nodes' : List (Option FieldInit)) (index : Nat),
      nodes'.map Option.isSome = nodes.map Option.isSome →
        Both Eq (fun _ _ => True) (readFrom index nodes) (readFrom index nodes') := by
    intro nodes
    induction nodes with
    | nil =>
        intro nodes' index hsome
        obtain rfl : nodes' = [] := by simpa using hsome
        exact .ok trivial
    | cons node rest ih =>
        intro nodes' index hsome
        obtain ⟨node', rest', rfl⟩ := List.exists_cons_of_length_eq_add_one
          (by simpa using congrArg List.length hsome : nodes'.length = rest.length + 1)
        obtain ⟨hnode, hrest⟩ := List.cons.inj hsome
        cases node with
        | none =>
            obtain rfl : node' = none := by simpa using hnode
            exact .error rfl
        | some n =>
            obtain ⟨n', rfl⟩ := Option.isSome_iff_exists.1 hnode
            exact (ih rest' (index + 1) hrest).map fun _ _ _ => trivial
  exact hread slots.nodes slots'.nodes 0 h.filled_eq

theorem fillFrom (h : slots.Alike slots') (a a' : Adt Ty) (base base' : Expr) (id id' : NodeId)
    (fs : List (Field Ty)) (f : Ty → Ty) :
    (slots.fillFrom a base id fs).Alike (slots'.fillFrom a' base' id' (fs.map (Field.map f))) := by
  induction fs generalizing slots slots' id id' with
  | nil => exact h
  | cons g fs ih => exact ih (h.fill g.index _ _) _ _

end Slots.Alike

def Place.Fields (P : Place) (kinds : List VarKind) (f f' : Field Ty) : Prop :=
  f.ty.WellKinded kinds ∧ f' = f.map P.ty

theorem Place.Displaces.synthesize {P : Place} {kinds : List VarKind} {s s' : Session}
    (h : P.Displaces kinds s s') {t : Ty} (ht : t.WellKinded kinds) (span span' : Span) :
    P.Displaces kinds (s.synthesize span t) (s'.synthesize span' (P.ty t)) := by
  have hresolve : (s.context.resolve t).WellKinded kinds := resolve_wellKinded h.valid ht
  have hfirst := (h.insert s.locations.size hresolve).insert (s.locations.size + 1) hresolve
  have hnode (i : Nat) : P.node (s.locations.size + i) = s'.locations.size + i := by
    rw [Place.node_of_le (Nat.le_add_right_of_le h.base_le), h.size]
    exact Nat.add_right_comm _ _ _
  have hnode₀ : P.node s.locations.size = s'.locations.size := hnode 0
  rw [hnode₀, hnode 1, ← h.resolve] at hfirst
  refine ⟨hfirst.valid, hfirst.wellKinded, hfirst.bindings, hfirst.types, hfirst.builtins, ?_, ?_,
    hfirst.policy, hfirst.errors⟩
  · rw [Session.size_synthesize, Session.size_synthesize, h.size]
    exact Nat.add_right_comm _ _ _
  · rw [Session.size_synthesize]
    exact Nat.le_add_right_of_le h.base_le

theorem Place.Displaces.synthesizeAll {P : Place} {kinds : List VarKind} {s s' : Session}
    (h : P.Displaces kinds s s') {ts : List Ty} (hts : ∀ t ∈ ts, t.WellKinded kinds)
    (span span' : Span) :
    P.Displaces kinds (s.synthesizeAll span ts) (s'.synthesizeAll span' (ts.map P.ty)) := by
  induction ts generalizing s s' with
  | nil => exact h
  | cons t ts ih =>
      exact ih (h.synthesize (hts t List.mem_cons_self) span span') fun u hu =>
        hts u (List.mem_cons_of_mem _ hu)

namespace Check

variable {P : Place} {kinds : List VarKind} {t t' u u' : Ty} {a a' : Adt Ty} {slots slots' : Slots}

theorem mirrors_declaredField (ha : P.Structs kinds a a') (hslots : slots.Alike slots')
    (node : FieldInit) :
    Mirrors P kinds (declaredField a slots node) (declaredField a' slots' node) fun kinds =>
      Option.Rel (P.Fields kinds) := by
  obtain ⟨hwell, rfl⟩ := Place.structs_iff.1 ha
  unfold declaredField
  rw [hslots.taken_eq, Adt.field?_map]
  split
  · exact (mirrors_report _ _ _ _).bind fun _ _ _ _ _ => mirrors_pure .none
  · cases hf : a.field? node.fieldName with
    | none => exact (mirrors_report _ _ _ _).bind fun _ _ _ _ _ => mirrors_pure .none
    | some f =>
        have hmem := (Adt.field?_eq_some hf).1
        have hwell := hwell.part (List.mem_append_left _ (List.mem_map_of_mem hmem))
        simp only [Option.map_some, Field.map, hslots.length_eq]
        split
        · exact mirrors_pure (.some ⟨hwell, rfl⟩)
        · exact mirrors_throw _

theorem mirrors_acceptField {f f' : Field Ty} (hf : P.Fields kinds f f') (hslots : slots.Alike slots')
    {node node' : FieldInit} (hmark : node'.mark = node.mark)
    (hname : node'.fieldName = node.fieldName) (hid : P.inScope node.mark.id)
    (ht : P.Types kinds t t') :
    Mirrors P kinds (acceptField f slots node t) (acceptField f' slots' node' t') fun _ =>
      Slots.Alike := by
  obtain ⟨hwell, rfl⟩ := hf
  unfold acceptField
  rw [hmark]
  refine (mirrors_unify ⟨hwell, rfl⟩ ht).bind fun kinds₁ _ r r' hr => ?_
  cases hr with
  | ok h =>
      exact (mirrors_record hid h).bind fun _ _ _ _ _ => mirrors_pure (hslots.accept rfl hname)
  | error h => exact (mirrors_report _ _ _ _).bind fun _ _ _ _ _ => mirrors_pure hslots.fault

theorem mirrors_fillFromBase (base base' : Expr) {fs : List (Field Ty)}
    (hfs : ∀ f ∈ fs, f.ty.WellKinded kinds) (hslots : slots.Alike slots') :
    Mirrors P kinds (fillFromBase a base fs slots)
      (fillFromBase a' base' (fs.map (Field.map P.ty)) slots') fun _ => Slots.Alike := by
  intro s s' hs
  rw [perform_fillFromBase, perform_fillFromBase]
  have htys : (fs.map (Field.map P.ty)).map Field.ty = (fs.map Field.ty).map P.ty := by
    simp [Field.map]
  rw [htys]
  refine ⟨kinds, List.prefix_rfl, hs.synthesizeAll (fun t ht => ?_) _ _, .ok ?_⟩
  · obtain ⟨f, hf, rfl⟩ := List.mem_map.1 ht
    exact hfs f hf
  · exact hslots.fillFrom _ _ _ _ _ _ _ _

end Check

namespace Walk

variable {P : Place} {kinds : List VarKind} {t t' : Ty} {a a' : Adt Ty} {slots slots' : Slots}

theorem mirrors_orderLiteral (hname : a'.name = a.name) (ht : P.Types kinds t t')
    (hslots : slots.Alike slots') :
    Mirrors P kinds (orderLiteral a t slots) (orderLiteral a' t' slots') P.Types := by
  unfold orderLiteral
  rw [hname]
  have horder := hslots.inOrder
  generalize slots.inOrder = r at horder ⊢
  generalize slots'.inOrder = r' at horder ⊢
  cases horder with
  | ok h => exact mirrors_leaf (mirrors_resolve ht)
  | error h =>
      subst h
      exact mirrors_leaf (mirrors_throw _)

theorem mirrors_completeLiteral (ha : P.Structs kinds a a') (ht : P.Types kinds t t') (span : Span)
    {base base' : Option Expr} (hbase : base'.isSome = base.isSome) (written written' : List FieldInit)
    (hslots : slots.Alike slots') :
    Mirrors P kinds (completeLiteral a t span base written slots)
      (completeLiteral a' t' span base' written' slots') P.Types := by
  obtain ⟨hwell, rfl⟩ := Place.structs_iff.1 ha
  have hsize : (a.map P.ty).size = a.size := by simp [Adt.size, Adt.map]
  have huntaken : slots'.untaken (a.map P.ty) = (slots.untaken a).map (Field.map P.ty) := by
    rw [Slots.untaken, Slots.untaken, Adt.map, List.filter_map, hslots.taken_eq]
    rfl
  unfold completeLiteral
  rw [hslots.faulty_eq, hslots.taken_eq, hsize, huntaken]
  split
  · exact mirrors_leaf (mirrors_pure Place.types_error)
  · split
    · exact mirrors_orderLiteral rfl ht hslots
    · rcases base with _ | b <;> rcases base' with _ | b'
      · exact mirrors_leaf (mirrors_reportTyped _ _ span span)
      · cases hbase
      · cases hbase
      · refine mirrors_first (mirrors_fillFromBase b b' (fun f hf => ?_) hslots)
          fun kinds₁ hk slots slots' hslots => mirrors_orderLiteral rfl (ht.mono hk) hslots
        have hmem : f ∈ a.fields := List.mem_of_mem_filter hf
        exact hwell.part (List.mem_append_left _ (List.mem_map_of_mem hmem))

theorem mirrors_literalBase {base : Option Expr} (ha : P.Structs kinds a a')
    (h : ∀ b, base = some b → Mirrors P kinds b.check b.check P.Types) :
    Mirrors P kinds (literalBase a base) (literalBase a' base) P.Types := by
  cases base with
  | none => exact mirrors_leaf (mirrors_pure ha)
  | some b =>
      exact mirrors_child (h b rfl) fun _ _ _ hk _ _ ht =>
        mirrors_leaf (mirrors_unifyBase (ha.mono hk) ht _ _)

theorem isSome_literalBase (a : Adt Ty) (base : Option Expr) (s : Session) :
    (literalBase a base s).node.isSome = base.isSome := by
  cases base with
  | none => rfl
  | some b =>
      rw [literalBase]
      rcases child_cases b.check some (fun b ty => leaf (some b) (unifyBase a ty b.span)) s with
        ⟨t, -, heq⟩ | ⟨e, -, heq⟩ <;> rw [heq] <;> rfl

theorem mirrors_checkField {node : FieldInit} (ha : P.Structs kinds a a')
    (hslots : slots.Alike slots') (hid : P.inScope node.mark.id)
    (h : ∀ kinds, Mirrors P kinds node.checkValue node.checkValue P.Types) :
    Mirrors P kinds (node.check a slots) (node.check a' slots') fun _ => Slots.Alike := by
  rw [FieldInit.check_eq, FieldInit.check_eq]
  refine mirrors_first (mirrors_declaredField ha hslots node) fun kinds₁ hk r r' hr => ?_
  cases hr with
  | none => exact mirrors_leaf (mirrors_pure hslots.fault)
  | some hf =>
      refine mirrors_child (h kinds₁) fun s s' kinds₂ hk₂ t t' ht => mirrors_leaf ?_
      obtain ⟨hmark, hname⟩ := mark_checkValue node s
      obtain ⟨hmark', hname'⟩ := mark_checkValue node s'
      exact mirrors_acceptField ⟨hf.1.mono_kinds hk₂, hf.2⟩ hslots (hmark'.trans hmark.symm)
        (hname'.trans hname.symm) (hmark ▸ hid) ht

theorem mirrors_checkFields {fields : List FieldInit} (ha : P.Structs kinds a a')
    (hslots : slots.Alike slots') (h : ∀ f ∈ fields, P.inScope f.mark.id ∧
      ∀ kinds, Mirrors P kinds f.checkValue f.checkValue P.Types) :
    Mirrors P kinds (FieldInit.checkAll a slots fields) (FieldInit.checkAll a' slots' fields)
      fun _ => Slots.Alike := by
  induction fields generalizing kinds slots slots' with
  | nil =>
      rw [FieldInit.checkAll, FieldInit.checkAll]
      exact mirrors_leaf (mirrors_pure hslots)
  | cons f rest ih =>
      rw [FieldInit.checkAll, FieldInit.checkAll]
      obtain ⟨hid, hvalue⟩ := h f List.mem_cons_self
      refine mirrors_child (mirrors_checkField ha hslots hid hvalue) fun _ _ _ hk _ _ hslots => ?_
      refine mirrors_child (ih (ha.mono hk) hslots fun g hg => h g (List.mem_cons_of_mem _ hg))
        fun _ _ _ _ _ _ hslots => ?_
      exact mirrors_leaf (mirrors_pure hslots)

theorem mirrors_literal {path : Path} {fields : List FieldInit} {base : Option Expr}
    (pathSpan span : Span) (hres : ∀ id ∈ path.res.toList, P.inScope id)
    (hargs : ∀ t ∈ path.args, P.AdmitsType t)
    (hfields : ∀ f ∈ fields, P.inScope f.mark.id ∧
      ∀ kinds, Mirrors P kinds f.checkValue f.checkValue P.Types)
    (hbase : ∀ b, base = some b → ∀ kinds, Mirrors P kinds b.check b.check P.Types) :
    Mirrors P kinds (literal path pathSpan span fields base) (literal path pathSpan span fields base)
      P.Types := by
  refine mirrors_first (mirrors_structOf pathSpan hres hargs) fun kinds₁ _ a a' ha => ?_
  have hempty : (Slots.empty a.size).Alike (Slots.empty a'.size) := by
    obtain ⟨-, rfl⟩ := Place.structs_iff.1 ha
    have hsize : (a.map P.ty).size = a.size := by simp [Adt.size, Adt.map]
    rw [hsize]
    exact ⟨rfl, rfl, rfl⟩
  refine mirrors_child (mirrors_literalBase ha fun b hb => hbase b hb kinds₁)
    fun s s' kinds₂ hk₂ t t' ht => ?_
  refine mirrors_child (mirrors_checkFields (ha.mono hk₂) hempty hfields)
    fun _ _ kinds₃ hk₃ slots slots' hslots => ?_
  have hsome : (literalBase a' base s').node.isSome = (literalBase a base s).node.isSome := by
    rw [isSome_literalBase, isSome_literalBase]
  refine mirrors_child (mirrors_completeLiteral (ha.mono (hk₂.trans hk₃)) (ht.mono hk₃) span hsome
    _ _ hslots) fun _ _ _ _ _ _ hu => ?_
  exact mirrors_leaf (mirrors_pure hu)

end Walk

end TypeInference

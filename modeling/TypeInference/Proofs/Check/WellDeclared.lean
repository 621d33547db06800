import Mathlib.Order.WellFoundedSet
import TypeInference.Proofs.Check.SignatureTable
import TypeInference.Proofs.Program.Visited

/-!
# Declarations that are in order

What may be wrong with a signature, without looking at how signatures are read:
a name that did not resolve, a wrong number of arguments, or a struct that
contains itself. A program in which nothing of this occurs is one whose structs
can be declared one after the other.
-/

namespace TypeInference

/-- Whether a written type is resolved and, if it is a builtin, one that exists. -/
def TypeRef.IsResolved : TypeRef → Prop
  | .path _ _ none _ => False
  | .path _ name (some .builtin) _ => ∃ q : Prim, q.name = name
  | _ => True

/-- Whether the written type, if it names a generic struct, has one argument for each parameter. -/
def TypeRef.HasItsArgs (structs : NodeId → Option (Item × StructDecl)) : TypeRef → Prop
  | .path _ _ (some (.adt id)) args => ∀ item decl, structs id = some (item, decl) →
      decl.generics ≠ [] → args.length = decl.generics.length
  | _ => True

/-- Whether everything that is read with the written type is in order. -/
def TypeRef.IsReadable (structs : NodeId → Option (Item × StructDecl)) (t : TypeRef) : Prop :=
  ∀ u ∈ t.visited, u.IsResolved ∧ u.HasItsArgs structs

section

variable (structs : NodeId → Option (Item × StructDecl))

/-- Whether a struct can be declared after the structs that its fields name. -/
inductive Declarable : NodeId → Prop where
  | intro {id : NodeId} {item : Item} {decl : StructDecl} (hstruct : structs id = some (item, decl))
      (hbefore : ∀ x ∈ decl.fields, ∀ z ∈ x.ty.structs, Declarable z)
      (hfields : ∀ x ∈ decl.fields, x.ty.IsReadable structs) : Declarable id

structure TypeRef.IsDeclarable (t : TypeRef) : Prop where
  before : ∀ z ∈ t.structs, Declarable structs z
  readable : t.IsReadable structs

end

/-- Whether no signature refers to anything but structs of the program and generics of its own
struct. -/
structure Program.SignaturesResolve (p : Program) : Prop where
  adt : ∀ item ∈ p.items, ∀ id, .adt id ∈ TypeRef.resolutionsAll item.kind.signatureTypes →
    ∃ s ∈ p.items, s.id = id ∧ ∃ decl, s.kind = .struct decl
  param : ∀ item ∈ p.items, ∀ id, .param id ∈ TypeRef.resolutionsAll item.kind.signatureTypes →
    id ∈ item.kind.generics.map (·.mark.id)

theorem Program.signaturesResolve_iff {p : Program} :
    p.SignaturesResolve ↔ ∀ item ∈ p.items,
      ∀ r ∈ TypeRef.resolutionsAll item.kind.signatureTypes, p.offers item r := by
  simp only [offers_all_iff]
  exact ⟨fun hp item hitem => ⟨hp.adt item hitem, hp.param item hitem⟩,
    fun h => ⟨fun item hitem => (h item hitem).1, fun item hitem => (h item hitem).2⟩⟩

instance (p : Program) : Decidable p.SignaturesResolve :=
  decidable_of_iff' _ Program.signaturesResolve_iff

variable {structs : NodeId → Option (Item × StructDecl)} {id : NodeId} {item : Item}
  {decl : StructDecl}

/-! ## Written types -/

/-- A reference to a struct is readable if its arguments are and there are as many as needed. -/
theorem TypeRef.isReadable_adt_iff {m : Mark} {name : String} {args : List TypeRef} :
    TypeRef.IsReadable structs (.path m name (some (.adt id)) args) ↔
      (∀ t ∈ args, t.IsReadable structs) ∧
        TypeRef.HasItsArgs structs (.path m name (some (.adt id)) args) := by
  simp only [IsReadable, visited_adt, List.forall_mem_cons, List.mem_flatMap]
  constructor
  · rintro ⟨⟨-, hself⟩, hargs⟩
    exact ⟨fun t ht u hu => hargs u ⟨t, ht, hu⟩, hself⟩
  · rintro ⟨hargs, hself⟩
    exact ⟨⟨trivial, hself⟩, fun u ⟨t, ht, hu⟩ => hargs t ht u hu⟩

@[simp] theorem TypeRef.isReadable_unit (m : Mark) : TypeRef.IsReadable structs (.unit m) := by
  simp [IsReadable, visited, IsResolved, HasItsArgs]

@[simp] theorem TypeRef.isReadable_infer (m : Mark) : TypeRef.IsReadable structs (.infer m) := by
  simp [IsReadable, visited, IsResolved, HasItsArgs]

@[simp] theorem TypeRef.not_isReadable_unresolved (m : Mark) (name : String)
    (args : List TypeRef) : ¬ TypeRef.IsReadable structs (.path m name none args) := by
  simp [IsReadable, visited, IsResolved]

@[simp] theorem TypeRef.isReadable_builtin_iff (m : Mark) (name : String) (args : List TypeRef) :
    TypeRef.IsReadable structs (.path m name (some .builtin) args) ↔ ∃ q : Prim, q.name = name := by
  simp [IsReadable, visited, IsResolved, HasItsArgs]

@[simp] theorem TypeRef.isReadable_param (m : Mark) (name : String) (id : NodeId)
    (args : List TypeRef) : TypeRef.IsReadable structs (.path m name (some (.param id)) args) := by
  simp [IsReadable, visited, IsResolved, HasItsArgs]

/-! ## Structs -/

theorem declarable_iff (hstruct : structs id = some (item, decl)) :
    Declarable structs id ↔ ∀ x ∈ decl.fields, x.ty.IsDeclarable structs := by
  constructor
  · intro h
    cases h with
    | intro hstruct' hbefore hfields =>
        obtain ⟨rfl, rfl⟩ : _ = item ∧ _ = decl := by simpa using hstruct'.symm.trans hstruct
        exact fun x hx => ⟨hbefore x hx, hfields x hx⟩
  · exact fun h => .intro hstruct (fun x hx => (h x hx).before) fun x hx => (h x hx).readable

theorem Declarable.acc (h : Declarable structs id) : Acc (NamedBy structs) id := by
  induction h with
  | intro hstruct _ _ ih =>
      refine ⟨_, ?_⟩
      rintro z ⟨item', decl', hstruct', x, hx, hz⟩
      obtain ⟨-, rfl⟩ : item' = _ ∧ decl' = _ := by simpa using hstruct'.symm.trans hstruct
      exact ih x hx z hz

/-- No struct that can be declared is among those that it rests on. -/
theorem Declarable.not_cyclic (h : Declarable structs id) :
    ¬ Relation.TransGen (NamedBy structs) id id :=
  not_cyclic_of_acc h.acc

/-! ## Programs -/

theorem ItemKind.ids_subset_of_mem {kind : ItemKind} {t : TypeRef} (ht : t ∈ kind.signatureTypes) :
    t.ids ⊆ kind.signatureIds := by
  have hnames {xs : List TypedName} {x : TypedName} (hx : x ∈ xs) :
      x.ty.ids ⊆ xs.flatMap TypedName.ids := fun i hi =>
    List.mem_flatMap.2 ⟨x, hx, List.mem_cons_of_mem _ hi⟩
  cases kind with
  | struct decl =>
      obtain ⟨x, hx, rfl⟩ := List.mem_map.1 ht
      exact fun i hi => List.mem_append_right _ (hnames hx hi)
  | fn decl =>
      rcases List.mem_append.1 ht with ht | ht
      · obtain ⟨x, hx, rfl⟩ := List.mem_map.1 ht
        exact fun i hi => List.mem_append_left _ (hnames hx hi)
      · rw [Option.mem_toList] at ht
        intro i hi
        rw [signatureIds, ht]
        exact List.mem_append_right _ hi
  | const decl =>
      obtain rfl := List.mem_singleton.1 ht
      exact fun i hi => hi

/-- Whether every type of a signature can be read after the structs that it names. -/
def Item.IsDeclarable (structs : NodeId → Option (Item × StructDecl)) (item : Item) : Prop :=
  ∀ t ∈ item.kind.signatureTypes, t.IsDeclarable structs

namespace Program

variable {p : Program}

/-- A struct item can be declared if the types of its fields can be read. -/
theorem declarable_iff_item (hnodup : p.signatureIds.Nodup) (hitem : item ∈ p.items)
    (hkind : item.kind = .struct decl) :
    Declarable p.struct? item.id ↔ item.IsDeclarable p.struct? := by
  rw [declarable_iff (struct?_of_mem hnodup hitem hkind), Item.IsDeclarable, hkind,
    ItemKind.signatureTypes, List.forall_mem_map]

theorem SignaturesResolve.isSome_struct? (hp : p.SignaturesResolve) (hnodup : p.signatureIds.Nodup)
    (hitem : item ∈ p.items) {t : TypeRef} (ht : t ∈ item.kind.signatureTypes) {id : NodeId}
    (hid : id ∈ t.structs) : (p.struct? id).isSome := by
  obtain ⟨s, hs, rfl, decl, hkind⟩ := hp.adt item hitem id (by
    rw [TypeRef.resolutionsAll_eq]
    exact List.mem_flatMap.2 ⟨t, ht, TypeRef.mem_structs_iff.1 hid⟩)
  rw [struct?_of_mem hnodup hs hkind]
  rfl

theorem finite_structs (p : Program) : {id | (p.struct? id).isSome}.Finite := by
  refine (p.items.map Item.id).finite_toSet.subset fun id hid => ?_
  obtain ⟨⟨item, decl⟩, hstruct⟩ := Option.isSome_iff_exists.1 hid
  obtain ⟨hitem, -, rfl⟩ := mem_of_struct? hstruct
  exact List.mem_map_of_mem hitem

/-- There are finitely many structs, so where none rests on itself all of them can be declared. -/
theorem declarable_of_acyclic (hnodup : p.signatureIds.Nodup) (hp : p.SignaturesResolve)
    (hreadable : ∀ item ∈ p.items, ∀ t ∈ item.kind.signatureTypes, t.IsReadable p.struct?)
    (hacyclic : ∀ id, ¬ Relation.TransGen (NamedBy p.struct?) id id) {id : NodeId}
    (hid : (p.struct? id).isSome) : Declarable p.struct? id := by
  have hirrefl : Std.Irrefl (Relation.TransGen (NamedBy p.struct?)) := ⟨hacyclic⟩
  have hstrict : IsStrictOrder NodeId (Relation.TransGen (NamedBy p.struct?)) := ⟨⟩
  have hfounded := p.finite_structs.wellFoundedOn (r := Relation.TransGen (NamedBy p.struct?))
  refine hfounded.induction (P := Declarable p.struct?) hid fun y hy ih => ?_
  obtain ⟨⟨item, decl⟩, hstruct⟩ := Option.isSome_iff_exists.1 hy
  obtain ⟨hitem, hkind, -⟩ := mem_of_struct? hstruct
  have htype {x : TypedName} (hx : x ∈ decl.fields) : x.ty ∈ item.kind.signatureTypes := by
    rw [hkind]
    exact List.mem_map_of_mem hx
  refine .intro hstruct (fun x hx z hz => ?_) fun x hx => hreadable item hitem _ (htype hx)
  exact ih z (hp.isSome_struct? hnodup hitem (htype hx) hz)
    (.single ⟨item, decl, hstruct, x, hx, hz⟩)

/-- All items can be declared exactly if everything that is read in signatures is in order and no
struct rests on itself. -/
theorem isDeclarable_iff (hnodup : p.signatureIds.Nodup) (hp : p.SignaturesResolve) :
    (∀ item ∈ p.items, item.IsDeclarable p.struct?) ↔
      (∀ item ∈ p.items, ∀ t ∈ item.kind.signatureTypes, t.IsReadable p.struct?) ∧
        ∀ id, ¬ Relation.TransGen (NamedBy p.struct?) id id := by
  constructor
  · intro h
    refine ⟨fun item hitem t ht => (h item hitem t ht).readable, fun id hcycle => ?_⟩
    obtain ⟨_, -, item, decl, hstruct, -⟩ := Relation.TransGen.tail'_iff.1 hcycle
    obtain ⟨hitem, hkind, rfl⟩ := mem_of_struct? hstruct
    exact ((declarable_iff_item hnodup hitem hkind).2 (h item hitem)).not_cyclic hcycle
  · rintro ⟨hreadable, hacyclic⟩ item hitem t ht
    exact ⟨fun z hz => declarable_of_acyclic hnodup hp hreadable hacyclic
      (hp.isSome_struct? hnodup hitem ht hz), hreadable item hitem t ht⟩

end Program

end TypeInference

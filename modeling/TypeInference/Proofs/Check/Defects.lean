import TypeInference.Proofs.Check.DisciplinedPasses

/-!
# Defects

A signature pass that reports nothing leaves the signature of every item, and no
check of a body takes one away. Struct types have the fields of a declaration,
at their positions. So a check ends without a defect, except where a program
declares a struct with two fields of one name: a literal of such a struct may be
left with a slot that no written field and no field of the base fills.
-/

namespace TypeInference

open Ty Check

/-! ## Signatures -/

namespace Declare

variable {α β : Type}

def RecordsFn (id : NodeId) (x : Declare α) : Prop :=
  ∀ d a, (x.perform d).1 = .ok a →
    ∃ ps r, (x.perform d).2.session.context.types.find? id = some (.fn ps r)

theorem recordsFn_bind {id : NodeId} (x : Declare α) {f : α → Declare β}
    (hf : ∀ a, RecordsFn id (f a)) : RecordsFn id (x >>= f) := by
  intro d b hok
  rw [perform_bind] at hok ⊢
  rcases hrun : x.perform d with ⟨e | a, d'⟩
  · simp [hrun] at hok
  · simp only [hrun] at hok ⊢
    exact hf a d' b hok

theorem recordsFn_fn (demand : NodeId → Declare Unit) (item : Item) (decl : FnDecl) :
    RecordsFn item.id (fn demand item decl) := by
  have hlast (ps : List Ty) (r : Ty) : RecordsFn item.id (ofCheck (record item.id (.fn ps r))) :=
    fun d _ _ => ⟨ps, r, by simp [Context.insert, NodeTypes.find?_insert]⟩
  unfold fn
  cases decl.ret with
  | none => exact recordsFn_bind _ fun ps => hlast ps .unit
  | some t => exact recordsFn_bind _ fun ps => recordsFn_bind _ fun r => hlast ps r

end Declare

namespace Program

variable {p : Program}

/-- A declared item has its signature. -/
theorem isSigned_declare (item : Item) (d : Declaring)
    (hok : ((p.declare item).perform d).1 = .ok ()) :
    item.IsSigned ((p.declare item).perform d).2.session := by
  unfold declare at hok ⊢
  unfold Item.IsSigned
  cases hkind : item.kind with
  | struct decl => trivial
  | fn decl =>
      simp only [hkind] at hok ⊢
      exact Declare.recordsFn_fn p.demand item decl d () hok
  | const decl =>
      simp only [hkind] at hok ⊢
      exact Declare.leaves_const p.demand item decl d () hok item.id (List.mem_singleton_self _)

/-- The identity of an item that is no struct belongs to no other declaration. -/
theorem steady_declare_other (hnodup : p.signatureIds.Nodup) {item : Item} (hitem : item ∈ p.items)
    (hkind : ∀ decl, item.kind ≠ .struct decl) {item' : Item} (hitem' : item' ∈ p.items)
    (hne : item' ≠ item) :
    Declare.Steady (p.signatureIds.filter (· ≠ item.id)) (p.declare item') := by
  have hother {i : Item} (hi : i ∈ p.items) (hne : i ≠ item) :
      i.signatureIds ⊆ p.signatureIds.filter (· ≠ item.id) := by
    intro id hid
    refine List.mem_filter.2 ⟨List.cons_subset.2 (signatureIds_subset hi) hid, ?_⟩
    have : id ≠ item.id := by
      rintro rfl
      exact hne (eq_of_mem_signatureIds hnodup hi hitem hid List.mem_cons_self)
    simpa using this
  refine steady_declare_of (fun id i decl hstruct => ?_) (hother hitem' hne)
  obtain ⟨hi, hstructKind, -⟩ := mem_of_struct? hstruct
  rw [← hstructKind]
  refine List.cons_subset.1 (hother hi ?_)
  rintro rfl
  exact hkind decl hstructKind

/-- The declarations of other items leave a signature alone. -/
theorem isSigned_declareAll (hnodup : p.signatureIds.Nodup) {item : Item} (hitem : item ∈ p.items)
    {items : List Item} (hitems : ∀ item' ∈ items, item' ∈ p.items ∧ item' ≠ item) {d : Declaring}
    (hsigned : item.IsSigned d.session) (hlt : item.id < d.session.locations.size) :
    item.IsSigned (p.declareAll items d).2.session := by
  by_cases hkind : ∀ decl, item.kind ≠ .struct decl
  · have hgrows := grows_declareAll_of (fun item' h =>
      steady_declare_other hnodup hitem hkind (hitems item' h).1 (hitems item' h).2) d
    exact hsigned.after hgrows (by simp) hlt
  · simp only [not_forall, not_not] at hkind
    obtain ⟨decl, hkind⟩ := hkind
    rw [Item.IsSigned, hkind]
    trivial

/-- Where nothing is reported, every item has its signature. -/
theorem isSigned_signatures (hnodup : p.signatureIds.Nodup) {items : List Item}
    (hitems : ∀ item ∈ items, item ∈ p.items) (hdistinct : items.Nodup) {d : Declaring}
    (hlt : ∀ id ∈ p.signatureIds, id < d.session.locations.size) (hexplained : d.Explained)
    (hended : (p.declareAll items d).1 = .ok ())
    (herrors : (p.declareAll items d).2.session.sink.errors = []) :
    ∀ item ∈ items, item.IsSigned (p.declareAll items d).2.session := by
  induction items generalizing d with
  | nil => simp
  | cons item rest ih =>
      obtain ⟨d', hrun, hexplained', heq⟩ := p.declareAll_cons_of_errors hitems hexplained hended herrors
      rw [List.forall_mem_cons] at hitems
      rw [List.nodup_cons] at hdistinct
      have hgrows := (steady_declare hitems.1).grows d
      have hsigned := isSigned_declare item d (by rw [hrun])
      rw [hrun] at hgrows hsigned
      have hlt' : ∀ id ∈ p.signatureIds, id < d'.session.locations.size := fun id hid =>
        Nat.lt_of_lt_of_le (hlt id hid) hgrows.size_le
      rw [heq] at hended herrors ⊢
      refine List.forall_mem_cons.2 ⟨?_, ih hitems.2 hdistinct.2 hlt' hexplained' hended herrors⟩
      refine isSigned_declareAll hnodup hitems.1 (fun item' h => ⟨hitems.2 item' h, ?_⟩) hsigned
        (hlt' _ (signatureIds_subset hitems.1).1)
      rintro rfl
      exact hdistinct.1 h

/-! ## Struct types -/

/-- Whether a type that is a struct has the name of a struct of the program, and fields of that
struct in order. -/
def Declares (p : Program) (t : Ty) : Prop :=
  ∀ shape, t.shape? = some shape → shape.IsIndexed ∧ ∃ item ∈ p.items, ∃ decl,
    item.kind = .struct decl ∧ shape.name = item.name ∧
      (shape.fields.map Prod.fst).Sublist (decl.fields.map TypedName.name)

theorem isDiscipline_declares (p : Program) : IsDiscipline p.Declares := by
  refine ⟨fun _ hshape h => ?_, fun {t} _ hadt shape h => ?_, fun {a} args h shape hshape => ?_⟩
  · rwa [Declares, ← hshape]
  · cases t with
    | adt a => exact (hadt a rfl).elim
    | _ => cases h
  · refine h shape ?_
    rwa [shape?, Adt.shape_instantiate] at hshape

theorem isStrict_declares (p : Program) : IsStrict p.Declares := by
  refine ⟨fun shape h => ?_, fun {a} h i f hf => ?_⟩
  · cases h
  · exact (h a.shape rfl).1 i f.label (by simp [Adt.shape, hf])

theorem admits_declares (p : Program) : Declare.Admits p.Declares p.struct? := by
  intro id item decl hstruct tys shape hshape
  obtain ⟨hitem, hkind, -⟩ := mem_of_struct? hstruct
  obtain rfl := Option.some.inj hshape
  refine ⟨fun i l hl => ?_, item, hitem, decl, hkind, rfl, ?_⟩
  · simp only [Adt.shape, Declare.fields, List.getElem?_map, List.getElem?_mapIdx,
      Option.map_eq_some_iff] at hl
    obtain ⟨_, ⟨_, -, rfl⟩, rfl⟩ := hl
    rfl
  · refine (List.prefix_iff_getElem?.2 fun i hi => ?_).sublist
    have hlt : i < min decl.fields.length tys.length := by
      simpa [Adt.shape, Declare.fields] using hi
    simp [Adt.shape, Declare.fields, Field.label, Nat.lt_of_lt_of_le hlt (Nat.min_le_left _ _)]

/-- The one defect that such types allow. -/
theorem allows_declares {d : Defect} (h : Allows p.Declares d) :
    ∃ item ∈ p.items, ∃ decl index, item.kind = .struct decl ∧
      ¬(decl.fields.map TypedName.name).Nodup ∧ d = .unfilledFieldSlot item.name index := by
  obtain ⟨a, index, ha, hnames, rfl⟩ := h
  obtain ⟨-, item, hitem, decl, hkind, hname, hsub⟩ := ha a.shape rfl
  have hfields : a.shape.fields.map Prod.fst = a.fields.map Field.name := by
    simp [Adt.shape, Field.label, Function.comp_def]
  exact ⟨item, hitem, decl, index, hkind, fun hnodup => hnames (hfields ▸ hnodup.sublist hsub),
    congrArg (Defect.unfilledFieldSlot · index) hname⟩

/-! ## The check -/

/-- Where nothing is reported, the signatures are there when the body pass begins, and they stay. -/
theorem areSigned_signaturePass {locations : Locations} (hnodup : p.ids.Nodup)
    (hlocated : ∀ id ∈ p.ids, id < locations.size)
    (hended : (p.signaturePass (.start locations .fresh)).ended = .ok ())
    (herrors : (p.signaturePass (.start locations .fresh)).session.sink.errors = []) :
    Item.AreSigned p.bodyIds p.items (p.signaturePass (.start locations .fresh)).session := by
  obtain ⟨hsignatures, -, hdisjoint⟩ := List.nodup_append.1 (p.ids_perm.nodup_iff.1 hnodup)
  have hlt : ∀ id ∈ p.signatureIds, id < locations.size := fun id hid =>
    hlocated id (p.ids_perm.mem_iff.2 (List.mem_append_left _ hid))
  have hdistinct : p.items.Nodup := by
    refine (List.nodup_flatMap.1 hsignatures).2.imp fun {i j} hdisjoint heq => ?_
    exact hdisjoint List.mem_cons_self (heq ▸ List.mem_cons_self)
  have hgrows := p.grows_declareAll (fun _ h => h) (.start (.start locations .fresh))
  intro item hitem
  have hid := (signatureIds_subset hitem).1
  refine ⟨isSigned_signatures hsignatures (fun _ h => h) hdistinct hlt (fun h => (h rfl).elim) hended
    herrors item hitem, fun hbody => hdisjoint _ hid _ hbody rfl, ?_⟩
  exact Nat.lt_of_lt_of_le (hlt _ hid) hgrows.size_le

/-- The defects of a check are those that the struct types of the program allow. -/
theorem allows_of_defect {locations : Locations} (hnodup : p.ids.Nodup)
    (hlocated : ∀ id ∈ p.ids, id < locations.size) {d : Defect}
    (hdefect : (p.check locations .fresh).outcome = .error d) : Allows p.Declares d := by
  have hP := p.isDiscipline_declares
  have hdeclared := run_declareAll (H := True) hP p.admits_declares p.items
    (.start (.start locations .fresh))
  have hstart := Session.obeys_start hP locations .fresh
  have hobeys := hdeclared.obeys trivial hstart
  rw [p.check_eq locations] at hdefect
  split at hdefect
  · rename_i e hended
    refine hdeclared.defects trivial hstart p.isStrict_declares d ?_
    rw [hended, ← Except.error.inj hdefect]
    rfl
  · rename_i hended
    split at hdefect
    · cases hdefect
    · rename_i hnone
      have hsigned := areSigned_signaturePass hnodup hlocated hended (not_not.1 hnone)
      have hchecked := run_checkAll hP p.bodyIds p.items
        (p.signaturePass (.start locations .fresh)).session fun item hitem id hid =>
          List.mem_flatMap.2 ⟨item, hitem, hid⟩
      split at hdefect
      · rename_i e hended'
        refine hchecked.defects (fun _ => hsigned) hobeys p.isStrict_declares d ?_
        rw [← Except.error.inj hdefect]
        exact congrArg (Except.mapError Abort.defect) hended'
      · split at hdefect
        · cases hdefect
        · split at hdefect <;> cases hdefect

/--
A check ends without a defect, or else the program declares a struct with two
fields of one name, and a slot of a literal of that struct was left without a
node.
-/
theorem ends_or_leaves_slot {locations : Locations} (hnodup : p.ids.Nodup)
    (hlocated : ∀ id ∈ p.ids, id < locations.size) :
    (∃ o, (p.check locations .fresh).outcome = .ok o) ∨
      ∃ item ∈ p.items, ∃ decl index, item.kind = .struct decl ∧
        ¬(decl.fields.map TypedName.name).Nodup ∧
        (p.check locations .fresh).outcome = .error (.unfilledFieldSlot item.name index) := by
  cases houtcome : (p.check locations .fresh).outcome with
  | ok o => exact .inl ⟨o, rfl⟩
  | error d =>
      obtain ⟨item, hitem, decl, index, hkind, hnames, rfl⟩ :=
        allows_declares (allows_of_defect hnodup hlocated houtcome)
      exact .inr ⟨item, hitem, decl, index, hkind, hnames, rfl⟩

/-- The program `struct S { x: i32, second: i32 }` with `fn f(b: S) { S { x: 1, ..b }; }`. -/
def updating (second : String) : Program :=
  let int (id : NodeId) : TypeRef := .path ⟨id, ⟨id, id + 1⟩⟩ "i32" (some .builtin) []
  let literal : Expr := .struct ⟨11, ⟨11, 12⟩⟩ (.ident "S" (some 4)) ⟨10, 11⟩
    [.named ⟨8, ⟨8, 9⟩⟩ "x" (.lit ⟨7, ⟨7, 8⟩⟩ (.int 1 none))]
    (some (.path ⟨9, ⟨9, 10⟩⟩ (.ident "b" (some 6))))
  ⟨[⟨⟨4, ⟨4, 5⟩⟩, "S", .struct ⟨.named, [],
      [⟨⟨1, ⟨1, 2⟩⟩, "x", int 0⟩, ⟨⟨3, ⟨3, 4⟩⟩, second, int 2⟩]⟩⟩,
    ⟨⟨14, ⟨14, 15⟩⟩, "f", .fn ⟨[⟨⟨6, ⟨6, 7⟩⟩, "b", .path ⟨5, ⟨5, 6⟩⟩ "S" (some (.adt 4)) []⟩], none,
      .mk ⟨13, ⟨13, 14⟩⟩ [.semi ⟨12, ⟨12, 13⟩⟩ literal] none⟩⟩]⟩

theorem ends_of_distinct_names :
    let p := updating "y"
    let locations : Locations := ⟨Array.replicate 15 ⟨0, 1⟩⟩
    p.ids.Nodup ∧ (∀ id ∈ p.ids, id < locations.size) ∧
      ∃ o, (p.check locations .fresh).outcome = .ok o := by
  intro p locations
  have hnodup : p.ids.Nodup := by decide +kernel
  have hlocated : ∀ id ∈ p.ids, id < locations.size := by decide +kernel
  refine ⟨hnodup, hlocated, (ends_or_leaves_slot hnodup hlocated).resolve_right ?_⟩
  rintro ⟨item, hitem, decl, index, hkind, hnames, -⟩
  have hall : ∀ item ∈ p.items, ∀ decl, item.kind = .struct decl →
      (decl.fields.map TypedName.name).Nodup := by
    simp [p, updating]
  exact hnames (hall item hitem decl hkind)

/-- With two fields of one name, the second slot stays empty: the written field is accepted for the
first one, and for the base no name is left. -/
theorem leaves_slot_of_shared_name :
    let p := updating "x"
    let locations : Locations := ⟨Array.replicate 15 ⟨0, 1⟩⟩
    p.ids.Nodup ∧ (∀ id ∈ p.ids, id < locations.size) ∧
      (p.check locations .fresh).outcome = .error (.unfilledFieldSlot "S" 1) := by
  decide +kernel

end Program

end TypeInference

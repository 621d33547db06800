import TypeInference.Proofs.Check.Coherence
import TypeInference.Proofs.Check.Declared

/-!
# Signatures keep types coherent

Structs are declared one after the other, each from types that agree with those
declared before. A struct whose declaration is underway is not declared again,
so a declaration that has been recorded stays as it is.
-/

namespace TypeInference

open Ty Check

/-- Further structs are declared, but none of those whose declaration is underway. -/
structure Declarations.Extends (path : List NodeId) (D D' : Declarations) : Prop where
  retained : ∀ id d, D id = some d → D' id = some d
  pending : ∀ id ∈ path, D' id = D id

namespace Declarations.Extends

variable {D D' D'' : Declarations} {path : List NodeId}

theorem refl (path : List NodeId) (D : Declarations) : D.Extends path D :=
  ⟨fun _ _ h => h, fun _ _ => rfl⟩

theorem trans (h : D.Extends path D') (h' : D'.Extends path D'') : D.Extends path D'' :=
  ⟨fun id d hd => h'.retained id d (h.retained id d hd),
    fun id hid => (h'.pending id hid).trans (h.pending id hid)⟩

theorem of_subset {path' : List NodeId} (h : D.Extends path D') (hsub : path' ⊆ path) :
    D.Extends path' D' :=
  ⟨h.retained, fun id hid => h.pending id (hsub hid)⟩

end Declarations.Extends

theorem Adt.IsDeclaration.mono {D D' : Declarations} {id : NodeId} {d : Adt Ty}
    (h : d.IsDeclaration D id) (hD : ∀ id d, D id = some d → D' id = some d) :
    d.IsDeclaration D' id :=
  ⟨h.decl_eq, h.args_eq, h.bounded, fun f hf => (h.coherent f hf).mono hD⟩

def Declarations.declare (D : Declarations) (id : NodeId) (d : Adt Ty) : Declarations :=
  fun i => if i = id then some d else D i

theorem Declarations.extends_declare {D : Declarations} {id : NodeId} {path : List NodeId}
    (d : Adt Ty) (hnone : D id = none) (hid : id ∉ path) : D.Extends path (D.declare id d) := by
  refine ⟨fun i e he => ?_, fun i hi => ?_⟩
  · have hne : i ≠ id := fun heq => by simp [heq, hnone] at he
    rwa [declare, if_neg hne]
  · have hne : i ≠ id := fun heq => hid (heq ▸ hi)
    rw [declare, if_neg hne]

theorem Declarations.Closed.declare {D : Declarations} (hD : D.Closed) {id : NodeId} {d : Adt Ty}
    (hnone : D id = none) (hd : d.IsDeclaration D id) : (D.declare id d).Closed := by
  have hretained := (D.extends_declare d hnone List.not_mem_nil).retained
  intro i e he
  by_cases heq : i = id
  · obtain rfl : d = e := by simpa [Declarations.declare, heq] using he
    exact heq ▸ hd.mono hretained
  · rw [Declarations.declare, if_neg heq] at he
    exact (hD i e he).mono hretained

/-! ## The scope of a program -/

/-- What written types in a program may name once these structs have been declared. -/
def Program.scope (p : Program) (D : Declarations) : Scope where
  isStruct id := (p.struct? id).isSome
  structs := D
  params id q := ∃ item ∈ p.items, ∃ i g, item.kind.generics[i]? = some g ∧ g.mark.id = id ∧
    q = ⟨i, g.name⟩

variable {p : Program} {D D' : Declarations} {path : List NodeId} {s s' : Session}

theorem Session.Declares.record (hs : s.Declares (p.scope D)) {id : NodeId} {d : Adt Ty}
    (hstruct : (p.struct? id).isSome) (hparam : ∀ q, ¬(p.scope D).params id q) (hnone : D id = none)
    (hd : d.IsDeclaration D id) :
    ({ s with context := s.context.insert id (.adt d) } : Session).Declares
      (p.scope (D.declare id d)) := by
  have hretained := (D.extends_declare d hnone List.not_mem_nil).retained
  have hfind (i : NodeId) : (s.context.insert id (.adt d)).types.find? i =
      if i = id then some (.adt d) else s.context.types.find? i := by
    rw [Context.insert, NodeTypes.find?_insert]
  constructor
  case closed => exact hs.closed.declare hnone hd
  case coherent =>
    refine ⟨fun k v => (hs.coherent.bindings k v).mono hretained, fun i t ht hi => ?_,
      fun i t q ht hq => ?_, fun i t ht hi => ?_, hs.coherent.located⟩
    · rw [hfind] at ht
      by_cases heq : i = id
      · rw [if_pos heq] at ht
        exact ⟨d, by simp [Program.scope, Declarations.declare, heq], (Option.some.inj ht).symm⟩
      · rw [if_neg heq] at ht
        obtain ⟨e, he, rfl⟩ := hs.coherent.structs i t ht hi
        exact ⟨e, hretained i e he, rfl⟩
    · have hne : i ≠ id := fun heq => hparam q (heq ▸ hq)
      rw [hfind, if_neg hne] at ht
      exact hs.coherent.params i t q ht hq
    · have hne : i ≠ id := fun heq => hi (heq ▸ hstruct)
      rw [hfind, if_neg hne] at ht
      exact (hs.coherent.types i t ht hi).mono hretained
  case recorded =>
    intro i e he
    change (D.declare id d) i = some e at he
    rw [hfind]
    by_cases heq : i = id
    · obtain rfl : d = e := by simpa [Declarations.declare, heq] using he
      exact ⟨heq ▸ hstruct, if_pos heq⟩
    · rw [Declarations.declare, if_neg heq] at he
      rw [if_neg heq]
      exact hs.recorded i e he

namespace Declare

variable {α β : Type} {P : Declarations → α → Prop} {Q : Declarations → β → Prop}

/-- Whether a declaration only declares further structs, and gives a result with this property if
any. -/
def Extends (p : Program) (path : List NodeId) (D : Declarations) (x : Declare α)
    (P : Declarations → α → Prop) : Prop :=
  ∀ d : Declaring, d.session.Declares (p.scope D) → ∃ D', D.Extends path D' ∧
    (x.perform d).2.session.Declares (p.scope D') ∧ ∀ a, (x.perform d).1 = .ok a → P D' a

theorem extends_pure {a : α} (h : P D a) : Extends p path D (pure a) P := by
  refine fun d hd => ⟨D, .refl path D, hd, fun b hb => ?_⟩
  obtain rfl : a = b := by simpa using hb
  exact h

theorem Extends.bind {x : Declare α} {f : α → Declare β} (hx : Extends p path D x P)
    (hf : ∀ a D', D.Extends path D' → P D' a → Extends p path D' (f a) Q) :
    Extends p path D (x >>= f) Q := by
  intro d hd
  obtain ⟨D', hD', hd', hresult⟩ := hx d hd
  rw [perform_bind]
  rcases hrun : x.perform d with ⟨e | a, d'⟩
  · rw [hrun] at hd'
    exact ⟨D', hD', hd', fun b hb => by cases hb⟩
  · rw [hrun] at hd' hresult
    obtain ⟨D'', hD'', hd'', hresult'⟩ := hf a D' hD' (hresult a rfl) d' hd'
    exact ⟨D'', hD'.trans hD'', hd'', hresult'⟩

/-- A check that keeps types coherent declares nothing. -/
theorem extends_ofCheck {R : α → Prop} {ids : List NodeId} {x : Check α}
    (hx : Check.Preserves (p.scope D) x R) (hsteady : Check.Steady ids x)
    (hR : ∀ a, R a → P D a) : Extends p path D (ofCheck x) P := by
  intro d hd
  obtain ⟨hcoherent, hresult⟩ := hx d.session hd.coherent
  exact ⟨D, .refl path D, hd.after hcoherent (hsteady.grows d.session).retained,
    fun a ha => hR a (hresult a ha)⟩

theorem extends_record {id : NodeId} {t : Ty} (hid : p.struct? id = none)
    (hparam : ∀ q, (p.scope D).params id q → t = .param q) (ht : t.Coherent D) :
    Extends p path D (ofCheck (record id t)) fun _ _ => True := by
  intro d hd
  have hcoherent : ({ d.session with context := d.session.context.insert id t } : Session).Coherent
      (p.scope D) := coherent_insert hd.coherent (by simp [Program.scope, hid]) hparam ht
  have hgrows : d.session.Grows [id] { d.session with context := d.session.context.insert id t } :=
    grows_insert (List.mem_singleton_self id) d.session t
  exact ⟨D, .refl path D, hd.after hcoherent hgrows.retained, fun _ _ => trivial⟩

/-- A struct is recorded once, since it is on the path of everything that is declared before. -/
theorem Extends.record_struct {x : Declare α} {id : NodeId} {e : α → Adt Ty}
    (hx : Extends p (id :: path) D x P) (hstruct : (p.struct? id).isSome)
    (hparam : ∀ q, ¬(p.scope D).params id q) (hnone : D id = none) (hid : id ∉ path)
    (he : ∀ D' a, P D' a → (e a).IsDeclaration D' id) :
    Extends p path D (x >>= fun a => ofCheck (record id (.adt (e a)))) fun _ _ => True := by
  intro d hd
  obtain ⟨D', hD', hd', hresult⟩ := hx d hd
  have hsub : D.Extends path D' := hD'.of_subset (List.subset_cons_self _ _)
  rw [perform_bind]
  rcases hrun : x.perform d with ⟨err | a, d'⟩
  · rw [hrun] at hd'
    exact ⟨D', hsub, hd', fun _ _ => trivial⟩
  · rw [hrun] at hd' hresult
    have hnone' : D' id = none := (hD'.pending id List.mem_cons_self).trans hnone
    exact ⟨D'.declare id (e a), hsub.trans (D'.extends_declare _ hnone' hid),
      hd'.record hstruct hparam hnone' (he D' a (hresult a rfl)), fun _ _ => trivial⟩

theorem Extends.noting {x : Declare Unit} {R : Declarations → Unit → Prop} (id : NodeId)
    (hx : Extends p path D x R) : Extends p path D (noting id x) fun _ _ => True := by
  intro d hd
  obtain ⟨D', hD', hd', -⟩ := hx d hd
  rw [perform_noting]
  rcases hrun : x.perform d with ⟨e | a, d'⟩ <;> rw [hrun] at hd' <;>
    exact ⟨D', hD', hd', fun _ _ => trivial⟩

theorem extends_unlessKnown (path : List NodeId) (id : NodeId)
    {declare : Item → StructDecl → Declare Unit} (hdeclare : ∀ item decl,
      p.struct? id = some (item, decl) → id ∉ path → D id = none →
      Extends p path D (declare item decl) fun _ _ => True) :
    Extends p path D (unlessKnown p.struct? path id declare) fun _ _ => True := by
  intro d hd
  rw [perform_unlessKnown]
  split
  · exact ⟨D, .refl path D, hd, fun _ _ => trivial⟩
  · split
    · exact ⟨D, .refl path D, hd, fun _ _ => trivial⟩
    · rename_i item decl hstruct
      split
      · exact ⟨D, .refl path D, ⟨hd.closed, coherent_sink hd.coherent _, hd.recorded⟩,
          fun _ _ => trivial⟩
      · rename_i hpath
        split
        · exact ⟨D, .refl path D, hd, fun _ _ => trivial⟩
        · rename_i hcontains
          exact (hdeclare item decl hstruct (by simpa using hpath)
            (hd.structs_eq_none hcontains)).noting id d hd

theorem extends_forM {demand : NodeId → Declare Unit}
    (hdemand : ∀ D id, Extends p path D (demand id) fun _ _ => True) (l : List NodeId) :
    Extends p path D (l.forM demand) fun _ _ => True := by
  induction l generalizing D with
  | nil => exact extends_pure trivial
  | cons id rest ih => exact (hdemand D id).bind fun _ _ _ _ => ih

theorem extends_recordParams {gs : List (GenericParam × Param)}
    (hgs : ∀ g ∈ gs, p.struct? g.1.mark.id = none ∧
      ∀ q, (p.scope D).params g.1.mark.id q → q = g.2) :
    Extends p path D (recordParams gs) fun _ _ => True := by
  induction gs generalizing D with
  | nil => exact extends_pure trivial
  | cons g gs ih =>
      rw [List.forall_mem_cons] at hgs
      obtain ⟨⟨hid, hparam⟩, hgs⟩ := hgs
      refine (extends_record hid (fun q hq => by rw [hparam q hq]) ?_).bind fun _ _ _ _ => ih hgs
      exact coherent_leaf (by simp) rfl

end Declare

/-! ## Written types in signatures -/

/-- What the types in a declaration with `n` parameters have to be like. -/
def Ty.Declarable (D : Declarations) (n : Nat) (t : Ty) : Prop := t.Coherent D ∧ t.Bounded n

theorem Ty.bounded_leaf {n : Nat} {t : Ty} (hleaves : t.leaves = [t]) (hvar : ∀ k v, t ≠ .infer k v)
    (hparam : ∀ q, t = .param q → q.index < n) : t.Bounded n := by
  intro l hl
  rw [hleaves, List.mem_singleton] at hl
  subst hl
  exact ⟨hvar, hparam⟩

theorem Ty.bounded_adt {n : Nat} {a : Adt Ty} (h : ∀ t ∈ a.parts, t.Bounded n) :
    (Ty.adt a).Bounded n := by
  intro l hl
  rw [leaves_adt, List.mem_flatMap] at hl
  obtain ⟨t, ht, hl⟩ := hl
  exact h t ht l hl

theorem Program.scope_closes_declarable (p : Program) (hD : D.Closed) (n : Nat) :
    (p.scope D).Closes (Ty.Declarable D n) := by
  have hcoherent := (p.scope D).closes_coherent hD
  constructor
  case coherent => exact fun t ht => ht.1
  case unit => exact ⟨hcoherent.unit, bounded_leaf rfl (by simp) (by simp)⟩
  case prim => exact fun q => ⟨hcoherent.prim q, bounded_leaf rfl (by simp) (by simp)⟩
  case plain =>
    intro id d hd hparams
    refine ⟨hcoherent.plain hd hparams, bounded_adt fun t ht => ?_⟩
    obtain ⟨-, hargs, hbounded, -⟩ := hD id d hd
    simp only [Adt.parts, hargs, Option.getD_none, List.append_nil, List.mem_map] at ht
    obtain ⟨f, hf, rfl⟩ := ht
    exact (hbounded f hf).mono (by simp [hparams])
  case generic =>
    intro id d args hd hparams hlen hargs
    refine ⟨hcoherent.generic hd hparams hlen fun u hu => (hargs u hu).1,
      bounded_adt fun t ht => ?_⟩
    obtain ⟨-, -, hbounded, -⟩ := hD id d hd
    rw [Adt.parts_instantiate, List.mem_append, List.map_map, List.mem_map] at ht
    rcases ht with ⟨f, hf, rfl⟩ | ht
    · exact (hlen ▸ hbounded f hf).substitute fun u hu => (hargs u hu).2
    · exact (hargs t ht).2

/-! ## Names in signatures -/

namespace Program

section

variable (hnodup : p.signatureIds.Nodup) {item : Item}
include hnodup

/-- The generic of a node is known by its position. -/
theorem scope_params (hitem : item ∈ p.items) {id : NodeId} (hid : id ∈ item.signatureIds)
    {q : Param} (hq : (p.scope D).params id q) :
    ∃ i g, item.kind.generics[i]? = some g ∧ g.mark.id = id ∧ q = ⟨i, g.name⟩ := by
  obtain ⟨item', hitem', i, g, hg, rfl, rfl⟩ := hq
  have hmem : g.mark.id ∈ item'.signatureIds := by
    have hgeneric := List.mem_map_of_mem (f := (·.mark.id)) (List.mem_of_getElem? hg)
    obtain ⟨mark, name, kind⟩ := item'
    cases kind with
    | struct decl => exact List.mem_cons_of_mem _ (List.mem_append_left _ hgeneric)
    | _ => simp [ItemKind.generics] at hg
  obtain rfl := eq_of_mem_signatureIds hnodup hitem' hitem hmem hid
  exact ⟨i, g, hg, rfl, rfl⟩

/-- Each generic of a struct is its parameter. -/
theorem eq_of_scope_params {decl : StructDecl} (hitem : item ∈ p.items)
    (hkind : item.kind = .struct decl) {g : GenericParam × Param}
    (hg : g ∈ decl.generics.zip (Declare.params decl.generics)) {q : Param}
    (hq : (p.scope D).params g.1.mark.id q) : q = g.2 := by
  have hmem : g.1.mark.id ∈ (ItemKind.struct decl).signatureIds :=
    List.mem_append_left _ (List.mem_map_of_mem (List.of_mem_zip hg).1)
  have hids := (List.nodup_cons.1 ((List.nodup_flatMap.1 hnodup).1 item hitem)).2
  rw [hkind, ItemKind.signatureIds, List.nodup_append] at hids
  obtain ⟨i, g', hi, hid, rfl⟩ := scope_params hnodup hitem (List.mem_cons_of_mem _ (hkind ▸ hmem)) hq
  rw [hkind] at hi
  obtain ⟨j, hj⟩ := List.mem_iff_getElem?.1 hg
  obtain ⟨hgeneric, hparam⟩ := List.getElem?_zip_eq_some.1 hj
  have hi' : (decl.generics.map (·.mark.id))[i]? = some g.1.mark.id := by
    rw [List.getElem?_map]
    exact (congrArg (Option.map (·.mark.id)) hi).trans (congrArg some hid)
  have hj' : (decl.generics.map (·.mark.id))[j]? = some g.1.mark.id := by
    rw [List.getElem?_map, hgeneric]
    rfl
  obtain rfl : i = j :=
    (List.getElem?_inj (List.getElem?_eq_some_iff.1 hi').choose hids.1).1 (hi'.trans hj'.symm)
  obtain rfl : g' = g.1 := Option.some.inj (hi.symm.trans hgeneric)
  rw [Declare.params, List.getElem?_mapIdx, hgeneric] at hparam
  exact Option.some.inj hparam

/-- What is written in a signature, apart from its generics, may be given any coherent type. -/
theorem scope_free (hitem : item ∈ p.items) {id : NodeId} (hid : id ∈ item.signatureIds)
    (hstruct : p.struct? id = none) (hgeneric : id ∉ item.kind.generics.map (·.mark.id)) :
    (p.scope D).Free id := by
  refine ⟨by simp [scope, hstruct], fun q hq => hgeneric ?_⟩
  obtain ⟨i, g, hg, hgid, -⟩ := scope_params hnodup hitem hid hq
  exact List.mem_map.2 ⟨g, List.mem_of_getElem? hg, hgid⟩

theorem scope_free_field {decl : StructDecl} (hitem : item ∈ p.items)
    (hkind : item.kind = .struct decl) {id : NodeId} (hid : id ∈ decl.fields.flatMap TypedName.ids) :
    (p.scope D).Free id := by
  have hmem : id ∈ item.kind.signatureIds := hkind ▸ List.mem_append_right _ hid
  refine scope_free hnodup hitem (List.mem_cons_of_mem _ hmem)
    (struct?_eq_none_of_mem hnodup hitem hmem) fun hgeneric => ?_
  have hitemIds := (List.nodup_cons.1 ((List.nodup_flatMap.1 hnodup).1 item hitem)).2
  rw [hkind, ItemKind.signatureIds, List.nodup_append] at hitemIds
  rw [hkind] at hgeneric
  exact hitemIds.2.2 id hgeneric id hid rfl

/-- A function or a constant declares no generics. -/
theorem scope_free_of_kind (hitem : item ∈ p.items) (hkind : ∀ decl, item.kind ≠ .struct decl)
    {id : NodeId} (hid : id ∈ item.signatureIds) : (p.scope D).Free id := by
  have hgenerics : item.kind.generics = [] := by
    cases h : item.kind with
    | struct decl => exact (hkind decl h).elim
    | _ => rfl
  refine scope_free hnodup hitem hid ?_ (by simp [hgenerics])
  rcases List.mem_cons.1 hid with rfl | hmem
  · exact struct?_eq_none_of_kind hnodup hitem hkind
  · exact struct?_eq_none_of_mem hnodup hitem hmem

theorem not_params_of_mem (hitem : item ∈ p.items) (q : Param) :
    ¬(p.scope D).params item.id q := by
  intro hq
  obtain ⟨i, g, hg, hid, -⟩ := scope_params hnodup hitem List.mem_cons_self hq
  have hnotMem := (List.nodup_cons.1 ((List.nodup_flatMap.1 hnodup).1 item hitem)).1
  obtain ⟨mark, name, kind⟩ := item
  cases kind with
  | struct decl =>
      refine hnotMem (List.mem_append_left _ ?_)
      exact hid ▸ List.mem_map_of_mem (f := (·.mark.id)) (List.mem_of_getElem? hg)
  | _ => simp [ItemKind.generics] at hg

/-- A name that resolved to what it may stands for a type that may be declared. -/
theorem WellResolved.allows (hp : p.WellResolved) (hitem : item ∈ p.items) {r : TypeRes}
    (hr : r ∈ item.resolutions) :
    (p.scope D).Allows (Ty.Declarable D item.kind.generics.length) r := by
  cases r with
  | builtin => trivial
  | adt id =>
      obtain ⟨item', hitem', rfl, decl, hkind⟩ := hp.adt item hitem id hr
      show (p.struct? item'.id).isSome
      rw [struct?_of_mem hnodup hitem' hkind]
      rfl
  | param id =>
      obtain ⟨g, hg, hid⟩ := List.mem_map.1 (hp.param item hitem id hr)
      obtain ⟨i, hi⟩ := List.mem_iff_getElem?.1 hg
      have hlt : i < item.kind.generics.length := (List.getElem?_eq_some_iff.1 hi).choose
      refine ⟨⟨i, g.name⟩, ⟨item, hitem, i, g, hi, hid, rfl⟩, coherent_leaf (by simp) rfl, ?_⟩
      exact bounded_leaf rfl (by simp) fun q hq => Ty.param.inj hq ▸ hlt

end

end Program

namespace Declare

/-- A function or a constant gets a type that agrees with the structs declared before. -/
theorem extends_record_item (hnodup : p.signatureIds.Nodup) {item : Item} (hitem : item ∈ p.items)
    (hkind : ∀ decl, item.kind ≠ .struct decl) {t : Ty} (ht : t.Coherent D) :
    Extends p path D (ofCheck (record item.id t)) fun _ _ => True := by
  have hfree : (p.scope D).Free item.id :=
    Program.scope_free_of_kind hnodup hitem hkind List.mem_cons_self
  exact extends_record (by simpa [Program.scope] using hfree.1) (fun q hq => (hfree.2 q hq).elim) ht

section

variable (hnodup : p.signatureIds.Nodup) (hp : p.WellResolved) {demand : NodeId → Declare Unit}
  {item : Item} (hitem : item ∈ p.items)
  (hdemand : ∀ D id, Extends p path D (demand id) fun _ _ => True)
include hnodup hp hitem hdemand

/-- A type that is written in the signature of an item. -/
theorem extends_read {t : TypeRef} (ht : t ∈ item.kind.signatureTypes)
    (hfree : ∀ D, ∀ id ∈ t.ids, (p.scope D).Free id) :
    Extends p path D (read demand t) fun D' ty => ty.Declarable D' item.kind.generics.length := by
  refine (extends_forM hdemand t.structs).bind fun _ D' _ _ => ?_
  intro d hd
  have hres : ∀ r ∈ t.resolutions,
      (p.scope D').Allows (Ty.Declarable D' item.kind.generics.length) r := by
    intro r hr
    refine hp.allows hnodup hitem (List.mem_append_left _ ?_)
    rw [TypeRef.resolutionsAll_eq]
    exact List.mem_flatMap.2 ⟨t, ht, hr⟩
  have hcomplete : Position.signature.Infers (Ty.Declarable D' item.kind.generics.length) t :=
    hp.complete item hitem t ht
  exact extends_ofCheck (preserves_read hd.closed (p.scope_closes_declarable hd.closed _) (hfree D')
    hres hcomplete) (Check.steady_read (List.Subset.refl _)) (fun _ h => h) d hd

theorem extends_readNames {xs : List TypedName}
    (hxs : ∀ x ∈ xs, x.ty ∈ item.kind.signatureTypes)
    (hfree : ∀ D, ∀ id ∈ xs.flatMap TypedName.ids, (p.scope D).Free id) :
    Extends p path D (readNames demand xs) fun D' tys =>
      ∀ ty ∈ tys, ty.Declarable D' item.kind.generics.length := by
  induction xs generalizing D with
  | nil => exact extends_pure (by simp)
  | cons x xs ih =>
      simp only [List.forall_mem_cons] at hxs
      simp only [List.flatMap_cons, TypedName.ids, List.forall_mem_append, List.forall_mem_cons]
        at hfree
      refine (extends_read hnodup hp hitem hdemand hxs.1 fun D => (hfree D).1.2).bind
        fun ty D₁ _ hty => ?_
      have hx := (hfree D₁).1.1
      refine (extends_record (by simpa [Program.scope] using hx.1) (fun q hq => (hx.2 q hq).elim)
        hty.1).bind fun _ D₂ hD₂ _ => ?_
      refine (ih hxs.2 fun D => (hfree D).2).bind fun tys D₃ hD₃ htys => extends_pure ?_
      exact List.forall_mem_cons.2 ⟨⟨hty.1.mono (hD₂.trans hD₃).retained, hty.2⟩, htys⟩

theorem extends_fn {decl : FnDecl} (hkind : item.kind = .fn decl) :
    Extends p path D (fn demand item decl) fun _ _ => True := by
  have hne : ∀ decl, item.kind ≠ .struct decl := by simp [hkind]
  have hfree : ∀ D, ∀ id ∈ (ItemKind.fn decl).signatureIds, (p.scope D).Free id := fun D id hid =>
    Program.scope_free_of_kind hnodup hitem hne (List.mem_cons_of_mem _ (hkind ▸ hid))
  simp only [ItemKind.signatureIds, List.forall_mem_append] at hfree
  have htypes : ∀ t ∈ decl.params.map TypedName.ty ++ decl.ret.toList,
      t ∈ item.kind.signatureTypes := by
    rw [hkind]
    exact fun _ h => h
  rw [List.forall_mem_append, List.forall_mem_map] at htypes
  refine (extends_readNames hnodup hp hitem hdemand htypes.1 fun D => (hfree D).1).bind
    fun tys D₁ hD₁ htys => ?_
  have hlast {D₂ : Declarations} {t : Ty} (hD : D₁.Extends path D₂) (ht : t.Coherent D₂) :
      Extends p path D₂ (ofCheck (record item.id (.fn tys t))) fun _ _ => True := by
    refine extends_record_item hnodup hitem hne (every_iff.2 ⟨trivial, fun u hu => ?_⟩)
    rcases List.mem_append.1 hu with hu | hu
    · exact (htys u hu).1.mono hD.retained
    · exact List.mem_singleton.1 hu ▸ ht
  cases hret : decl.ret with
  | none => exact hlast (.refl path D₁) (coherent_leaf (by simp) rfl)
  | some t =>
      rw [hret] at htypes hfree
      exact (extends_read hnodup hp hitem hdemand (htypes.2 t (List.mem_singleton_self t))
        fun D => (hfree D).2).bind fun u D₂ hD₂ hu => hlast hD₂ hu.1

theorem extends_const {decl : ConstDecl} (hkind : item.kind = .const decl) :
    Extends p path D (const demand item decl) fun _ _ => True := by
  have hne : ∀ decl, item.kind ≠ .struct decl := by simp [hkind]
  have htype : decl.ty ∈ item.kind.signatureTypes := by
    rw [hkind]
    exact List.mem_singleton_self decl.ty
  refine (extends_read hnodup hp hitem hdemand htype fun D id hid => ?_).bind fun t D' _ ht =>
    extends_record_item hnodup hitem hne ht.1
  exact Program.scope_free_of_kind hnodup hitem hne (List.mem_cons_of_mem _ (hkind ▸ hid))

end

variable (hnodup : p.signatureIds.Nodup) (hp : p.WellResolved)
include hnodup hp

/-- A struct that is not underway is declared from types that agree with what was declared before. -/
theorem extends_struct {demand : NodeId → Declare Unit} {item : Item} {decl : StructDecl}
    (hitem : item ∈ p.items) (hkind : item.kind = .struct decl) (hpath : item.id ∉ path)
    (hnone : D item.id = none)
    (hdemand : ∀ D id, Extends p (item.id :: path) D (demand id) fun _ _ => True) :
    Extends p path D (struct demand item decl) fun _ _ => True := by
  have hassoc : struct demand item decl =
      (recordParams (decl.generics.zip (params decl.generics)) >>= fun _ =>
        readNames demand decl.fields) >>= fun tys => ofCheck (record item.id
          (.adt ⟨item.id, item.name, decl.kind, fields decl.fields tys, params decl.generics, none⟩)) := by
    rw [bind_assoc]
    rfl
  have hstruct : p.struct? item.id = some (item, decl) := Program.struct?_of_mem hnodup hitem hkind
  have hgenerics : ∀ g ∈ decl.generics.zip (params decl.generics), p.struct? g.1.mark.id = none ∧
      ∀ q, (p.scope D).params g.1.mark.id q → q = g.2 := by
    intro g hg
    have hmem : g.1.mark.id ∈ (ItemKind.struct decl).signatureIds :=
      List.mem_append_left _ (List.mem_map_of_mem (List.of_mem_zip hg).1)
    exact ⟨Program.struct?_eq_none_of_mem hnodup hitem (hkind ▸ hmem),
      fun q hq => Program.eq_of_scope_params hnodup hitem hkind hg hq⟩
  rw [hassoc]
  refine Extends.record_struct (P := fun D' tys => ∀ ty ∈ tys, ty.Declarable D' decl.generics.length)
    ?_ (by simp [hstruct]) (Program.not_params_of_mem hnodup hitem) hnone hpath
    fun D' tys htys => ?_
  · refine (extends_recordParams hgenerics).bind fun _ D' _ _ => ?_
    have htypes : ∀ x ∈ decl.fields, x.ty ∈ item.kind.signatureTypes := fun x hx => by
      rw [hkind]
      exact List.mem_map_of_mem hx
    have hfields := extends_readNames (D := D') hnodup hp hitem hdemand htypes fun D id hid =>
      Program.scope_free_field hnodup hitem hkind hid
    rwa [hkind] at hfields
  · have hfield : ∀ f ∈ fields decl.fields tys, f.ty.Declarable D' decl.generics.length :=
      fun f hf => htys _ (ty_mem_of_fields hf)
    exact ⟨rfl, rfl, fun f hf => by simpa [params] using (hfield f hf).2, fun f hf => (hfield f hf).1⟩

/-- A struct is declared after the structs that its fields name, none of which is on the path. -/
theorem extends_demand (depth : Nat) (path : List NodeId) (id : NodeId) :
    Extends p path D (demand p.struct? depth path id) fun _ _ => True := by
  induction depth generalizing path id D with
  | zero => exact extends_unlessKnown path id fun _ _ _ _ _ => extends_pure trivial
  | succ depth ih =>
      refine extends_unlessKnown path id fun item decl hstruct hpath hnone => ?_
      obtain ⟨hitem, hkind, rfl⟩ := Program.mem_of_struct? hstruct
      exact extends_struct hnodup hp hitem hkind hpath hnone fun _ i => ih (item.id :: path) i

end Declare

/-! ## The signature pass -/

namespace Program

variable (hnodup : p.signatureIds.Nodup) (hp : p.WellResolved)
include hnodup hp

theorem extends_demand (D : Declarations) (id : NodeId) :
    Declare.Extends p [] D (p.demand id) fun _ _ => True :=
  Declare.extends_demand hnodup hp _ [] id

theorem extends_declare (D : Declarations) {item : Item} (hitem : item ∈ p.items) :
    Declare.Extends p [] D (p.declare item) fun _ _ => True := by
  have hdemand := extends_demand hnodup hp
  unfold declare
  split
  · exact hdemand D item.id
  · rename_i hkind
    exact Declare.extends_fn hnodup hp hitem hdemand hkind
  · rename_i hkind
    exact Declare.extends_const hnodup hp hitem hdemand hkind

/-- Declarations, whether they succeed or fail, leave a session that agrees with what was declared. -/
theorem declares_declareAll {items : List Item} (hitems : ∀ item ∈ items, item ∈ p.items)
    {d : Declaring} (hd : d.session.Declares (p.scope D)) :
    ∃ D', (p.declareAll items d).2.session.Declares (p.scope D') := by
  induction items generalizing D d with
  | nil => exact ⟨D, hd⟩
  | cons item rest ih =>
      obtain ⟨D', -, hd', -⟩ := extends_declare hnodup hp D (hitems item List.mem_cons_self) d hd
      rw [declareAll]
      split
      · rename_i hrun
        rw [hrun] at hd'
        exact ⟨D', hd'⟩
      · rename_i hrun
        rw [hrun] at hd'
        exact ⟨D', hd'⟩
      · rename_i hrun
        rw [hrun] at hd'
        exact ih (fun item' h' => hitems item' (List.mem_cons_of_mem _ h')) hd'

end Program

end TypeInference

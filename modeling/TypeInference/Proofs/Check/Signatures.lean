import TypeInference.Check.Declaration
import TypeInference.Proofs.Check.TypedLiteral

/-!
# Declared signatures

Declaring records types for the nodes of signatures only, and explains every
failure: a struct that failed before has been reported. Where nothing fails,
the recorded types are fine for the shapes that the program declares.
-/

namespace TypeInference

open Ty

/-! ## Declared shapes -/

def StructDecl.shape (decl : StructDecl) (name : String) : Shape :=
  ⟨name, decl.kind, Declare.params decl.generics, decl.fields.mapIdx fun index x => (x.name, index)⟩

def Program.shapes (p : Program) (id : NodeId) : Shape :=
  match p.struct? id with
  | some (item, decl) => decl.shape item.name
  | none => ⟨"", .named, [], []⟩

theorem Program.shapes_isIndexed (p : Program) (id : NodeId) : (p.shapes id).IsIndexed := by
  intro i l hl
  unfold Program.shapes at hl
  split at hl
  · rw [StructDecl.shape, List.getElem?_mapIdx] at hl
    obtain ⟨x, -, rfl⟩ := Option.map_eq_some_iff.1 hl
    rfl
  · simp at hl

namespace Declare

theorem label_fields {xs : List TypedName} {tys : List Ty} (hlen : tys.length = xs.length) :
    (fields xs tys).map Field.label = xs.mapIdx fun index x => (x.name, index) := by
  refine List.ext_getElem (by simp [fields, hlen]) fun i _ _ => ?_
  simp [fields, Field.label]

theorem ty_mem_of_fields {xs : List TypedName} {tys : List Ty} {f : Field Ty}
    (hf : f ∈ fields xs tys) : f.ty ∈ tys := by
  obtain ⟨i, hi, rfl⟩ := List.mem_mapIdx.1 hf
  exact (List.of_mem_zip (List.getElem_mem hi)).2

variable {α β : Type} {ids : List NodeId}

/-! ## Performing declarations -/

theorem perform_bind (x : Declare α) (f : α → Declare β) (d : Declaring) :
    perform (x >>= f) d =
      match perform x d with
      | (.ok a, d) => perform (f a) d
      | (.error e, d) => (.error e, d) := by
  simp only [perform, ExceptT.run_bind, StateT.run_bind]
  rcases x.run.run d with ⟨a | e, d⟩ <;> rfl

@[simp] theorem perform_pure (a : α) (d : Declaring) : perform (pure a) d = (.ok a, d) := rfl

@[simp] theorem perform_throw (e : Abort) (d : Declaring) :
    perform (throw e : Declare α) d = (.error e, d) := rfl

@[simp] theorem perform_ofCheck (x : Check α) (d : Declaring) :
    perform (ofCheck x) d = ((x.perform d.session).1, { d with session := (x.perform d.session).2 }) :=
  rfl

theorem perform_noting (id : NodeId) (x : Declare Unit) (d : Declaring) :
    perform (noting id x) d =
      match perform x d with
      | (.ok _, d) => (.ok (), d)
      | (.error e, d) => (.error e, { d with failed := id :: d.failed }) := by
  simp only [perform, noting, ExceptT.run_mk, StateT.run_bind]
  rcases x.run.run d with ⟨a | e, d⟩ <;> rfl

end Declare

def Declaring.Explained (d : Declaring) : Prop := d.failed ≠ [] → d.session.sink.errors ≠ []

namespace Declare

variable {α β : Type} {ids : List NodeId}

/-! ## What declarations leave alone -/

structure Steady (ids : List NodeId) (x : Declare α) : Prop where
  grows : ∀ d : Declaring, d.session.Grows ids (x.perform d).2.session
  explained : ∀ d : Declaring, d.Explained → ∀ a, (x.perform d).1 = .ok a → (x.perform d).2.Explained
  explains : ∀ d : Declaring, d.Explained → ∀ e, (x.perform d).1 = .error e →
    e.Explained (x.perform d).2.session

theorem steady_pure (a : α) : Steady ids (pure a : Declare α) :=
  ⟨fun d => .refl ids d.session, fun _ h _ _ => h, fun _ _ _ he => by cases he⟩

theorem Steady.bind {x : Declare α} {f : α → Declare β} (hx : Steady ids x)
    (hf : ∀ a, Steady ids (f a)) : Steady ids (x >>= f) := by
  constructor
  case grows =>
    intro d
    have hd := hx.grows d
    rw [perform_bind]
    rcases hrun : x.perform d with ⟨e | a, d'⟩
    · rwa [hrun] at hd
    · rw [hrun] at hd
      exact hd.trans ((hf a).grows d')
  case explained =>
    intro d hd b
    rw [perform_bind]
    rcases hrun : x.perform d with ⟨e | a, d'⟩
    · intro hb
      cases hb
    · have hd' := hx.explained d hd a (by rw [hrun])
      rw [hrun] at hd'
      exact (hf a).explained d' hd' b
  case explains =>
    intro d hd e
    rw [perform_bind]
    rcases hrun : x.perform d with ⟨e' | a, d'⟩
    · intro he
      obtain rfl : e' = e := by simpa using he
      have he := hx.explains d hd e' (by rw [hrun])
      rwa [hrun] at he
    · have hd' := hx.explained d hd a (by rw [hrun])
      rw [hrun] at hd'
      exact (hf a).explains d' hd' e

theorem steady_ofCheck {x : Check α} (hx : Check.Steady ids x) : Steady ids (ofCheck x) where
  grows d := hx.grows d.session
  explained d hd _ _ hfailed := fun herrors =>
    hd hfailed ((hx.grows d.session).errors_eq_nil herrors)
  explains d _ e he := hx.explains d.session e he

theorem steady_noting {x : Declare Unit} (id : NodeId) (hx : Steady ids x) :
    Steady ids (noting id x) := by
  constructor
  case grows =>
    intro d
    have hd := hx.grows d
    rw [perform_noting]
    rcases hrun : x.perform d with ⟨e | a, d'⟩ <;> rwa [hrun] at hd
  case explained =>
    intro d hd b
    rw [perform_noting]
    rcases hrun : x.perform d with ⟨e | a, d'⟩
    · intro hb
      cases hb
    · have hd' := hx.explained d hd a (by rw [hrun])
      rw [hrun] at hd'
      exact fun _ => hd'
  case explains =>
    intro d hd e
    rw [perform_noting]
    rcases hrun : x.perform d with ⟨e' | a, d'⟩
    · intro he
      obtain rfl : e' = e := by simpa using he
      have he := hx.explains d hd e' (by rw [hrun])
      rwa [hrun] at he
    · intro he
      cases he

theorem steady_forM {demand : NodeId → Declare Unit} (hdemand : ∀ id, Steady ids (demand id))
    (structs : List NodeId) : Steady ids (structs.forM demand) := by
  induction structs with
  | nil => exact steady_pure ()
  | cons id rest ih => exact (hdemand id).bind fun _ => ih

theorem steady_recordParams {gs : List (GenericParam × Param)}
    (hgs : ∀ g ∈ gs, g.1.mark.id ∈ ids) : Steady ids (recordParams gs) := by
  induction gs with
  | nil => exact steady_pure ()
  | cons g gs ih =>
      exact (steady_ofCheck (Check.steady_record (hgs g List.mem_cons_self) _)).bind fun _ =>
        ih fun g' hg' => hgs g' (List.mem_cons_of_mem _ hg')

section

variable {demand : NodeId → Declare Unit} (hdemand : ∀ id, Steady ids (demand id))
include hdemand

theorem steady_read {t : TypeRef} (ht : t.ids ⊆ ids) : Steady ids (read demand t) :=
  (steady_forM hdemand t.structs).bind fun _ => steady_ofCheck (Check.steady_read ht)

theorem steady_readNames {xs : List TypedName} (hxs : xs.flatMap TypedName.ids ⊆ ids) :
    Steady ids (readNames demand xs) := by
  induction xs with
  | nil => exact steady_pure []
  | cons x xs ih =>
      rw [List.flatMap_cons, List.append_subset, TypedName.ids, List.cons_subset] at hxs
      obtain ⟨⟨hx, hty⟩, hxs⟩ := hxs
      exact (steady_read hdemand hty).bind fun ty =>
        (steady_ofCheck (Check.steady_record hx ty)).bind fun _ => (ih hxs).bind fun _ =>
          steady_pure _

theorem steady_struct {item : Item} {decl : StructDecl} (hid : item.id ∈ ids)
    (hdecl : (ItemKind.struct decl).signatureIds ⊆ ids) : Steady ids (struct demand item decl) := by
  rw [ItemKind.signatureIds, List.append_subset] at hdecl
  refine (steady_recordParams fun g hg =>
    hdecl.1 (List.mem_map_of_mem (List.of_mem_zip hg).1)).bind fun _ => ?_
  exact (steady_readNames hdemand hdecl.2).bind fun tys => steady_ofCheck (Check.steady_record hid _)

theorem steady_fn {item : Item} {decl : FnDecl} (hid : item.id ∈ ids)
    (hdecl : (ItemKind.fn decl).signatureIds ⊆ ids) : Steady ids (fn demand item decl) := by
  rw [ItemKind.signatureIds, List.append_subset] at hdecl
  refine (steady_readNames hdemand hdecl.1).bind fun tys => ?_
  have hlast (t : Ty) : Steady ids (ofCheck (Check.record item.id (.fn tys t))) :=
    steady_ofCheck (Check.steady_record hid _)
  cases hret : decl.ret with
  | none => exact hlast .unit
  | some t =>
      rw [hret] at hdecl
      exact (steady_read hdemand hdecl.2).bind hlast

theorem steady_const {item : Item} {decl : ConstDecl} (hid : item.id ∈ ids)
    (hdecl : (ItemKind.const decl).signatureIds ⊆ ids) : Steady ids (const demand item decl) :=
  (steady_read hdemand hdecl).bind fun _ => steady_ofCheck (Check.steady_record hid _)

end

/-- What is looked up when a struct is to be declared. -/
theorem perform_unlessKnown (structs : NodeId → Option (Item × StructDecl)) (path : List NodeId)
    (id : NodeId) (declare : Item → StructDecl → Declare Unit) (d : Declaring) :
    perform (unlessKnown structs path id declare) d =
      if d.failed.contains id then (.error .item, d)
      else
        match structs id with
        | none => (.ok (), d)
        | some (item, decl) =>
            if path.contains id then
              (.error .item, ⟨{ d.session with
                sink := d.session.sink.report ⟨.recursiveType item.name, item.mark.span⟩ },
                id :: d.failed⟩)
            else if d.session.context.contains id then (.ok (), d)
            else perform (noting id (declare item decl)) d := by
  have hget : perform (get : Declare Declaring) d = (.ok d, d) := rfl
  rw [unlessKnown, perform_bind, hget]
  simp only
  split
  · rfl
  · cases structs id with
    | none => rfl
    | some p =>
        obtain ⟨item, decl⟩ := p
        simp only
        split
        · rfl
        · split <;> rfl

theorem steady_unlessKnown {structs : NodeId → Option (Item × StructDecl)} (path : List NodeId)
    (id : NodeId) {declare : Item → StructDecl → Declare Unit}
    (hdeclare : ∀ item decl, structs id = some (item, decl) → Steady ids (declare item decl)) :
    Steady ids (unlessKnown structs path id declare) := by
  constructor
  case grows =>
    intro d
    rw [perform_unlessKnown]
    split
    · exact .refl ids d.session
    · split
      · exact .refl ids d.session
      · rename_i item decl hstruct
        split
        · exact Check.grows_report d.session _
        · split
          · exact .refl ids d.session
          · exact (steady_noting id (hdeclare item decl hstruct)).grows d
  case explained =>
    intro d hd a
    rw [perform_unlessKnown]
    split
    · exact fun _ => hd
    · split
      · exact fun _ => hd
      · rename_i item decl hstruct
        split
        · intro ha
          cases ha
        · split
          · exact fun _ => hd
          · exact (steady_noting id (hdeclare item decl hstruct)).explained d hd a
  case explains =>
    intro d hd e
    rw [perform_unlessKnown]
    split
    · rename_i hfailed
      refine fun _ => .inr (hd fun hnil => ?_)
      rw [hnil] at hfailed
      cases hfailed
    · split
      · intro he
        cases he
      · rename_i item decl hstruct
        split
        · exact fun _ => .inr (by simp)
        · split
          · intro he
            cases he
          · exact (steady_noting id (hdeclare item decl hstruct)).explains d hd e

/-- Whether the identities of the signatures of these structs are among the given ones. -/
def Covers (structs : NodeId → Option (Item × StructDecl)) (ids : List NodeId) : Prop :=
  ∀ id item decl, structs id = some (item, decl) →
    item.id ∈ ids ∧ (ItemKind.struct decl).signatureIds ⊆ ids

theorem steady_demand {structs : NodeId → Option (Item × StructDecl)} (hstructs : Covers structs ids)
    (depth : Nat) (path : List NodeId) (id : NodeId) : Steady ids (demand structs depth path id) := by
  induction depth generalizing path id with
  | zero => exact steady_unlessKnown path id fun _ _ _ => steady_pure ()
  | succ depth ih =>
      refine steady_unlessKnown path id fun item decl h => ?_
      obtain ⟨hid, hdecl⟩ := hstructs id item decl h
      exact steady_struct (ih (id :: path)) hid hdecl

/-! ## What declarations record -/

/-- Whether a success in a sound session leaves a sound one, with a result that has the property. -/
def Keeps (shapes : NodeId → Shape) (ids : List NodeId) (kinds : List VarKind) (x : Declare α)
    (P : List VarKind → α → Prop) : Prop :=
  ∀ d : Declaring, d.session.Sound shapes kinds → (∀ id ∈ ids, id < d.session.locations.size) →
    ∀ a, (x.perform d).1 = .ok a → ∃ kinds', kinds <+: kinds' ∧
      (x.perform d).2.session.Sound shapes kinds' ∧ P kinds' a

variable {shapes : NodeId → Shape} {kinds : List VarKind} {P : List VarKind → α → Prop}
  {P' : List VarKind → β → Prop}

theorem keeps_pure {a : α} (h : P kinds a) : Keeps shapes ids kinds (pure a) P := by
  intro d hd _ b hb
  obtain rfl : a = b := by simpa using hb
  exact ⟨kinds, List.prefix_rfl, hd, h⟩

theorem Keeps.bind {x : Declare α} {f : α → Declare β} (hx : Keeps shapes ids kinds x P)
    (hsteady : Steady ids x)
    (hf : ∀ kinds' a, kinds <+: kinds' → P kinds' a → Keeps shapes ids kinds' (f a) P') :
    Keeps shapes ids kinds (x >>= f) P' := by
  intro d hd hlt b
  have hsize := (hsteady.grows d).size_le
  have hkeep := hx d hd hlt
  rw [perform_bind]
  rcases hrun : x.perform d with ⟨e | a, d'⟩
  · intro hb
    cases hb
  · rw [hrun] at hsize hkeep
    obtain ⟨kinds', hprefix, hd', ha⟩ := hkeep a rfl
    intro hb
    obtain ⟨kinds'', hprefix', hd'', hb'⟩ := hf kinds' a hprefix ha d' hd'
      (fun id hid => Nat.lt_of_lt_of_le (hlt id hid) hsize) b hb
    exact ⟨kinds'', hprefix.trans hprefix', hd'', hb'⟩

theorem keeps_record {id : NodeId} {t : Ty} (hid : id ∈ ids) (ht : t.Fine shapes kinds) :
    Keeps shapes ids kinds (ofCheck (Check.record id t)) fun _ _ => True :=
  fun _ hd hlt _ _ => ⟨kinds, List.prefix_rfl, hd.insert ht (hlt id hid), trivial⟩

theorem keeps_noting {x : Declare Unit} (id : NodeId) (h : Keeps shapes ids kinds x fun _ _ => True) :
    Keeps shapes ids kinds (noting id x) fun _ _ => True := by
  intro d hd hlt b
  have hkeep := h d hd hlt
  rw [perform_noting]
  rcases hrun : x.perform d with ⟨e | a, d'⟩
  · intro hb
    cases hb
  · rw [hrun] at hkeep
    exact fun _ => hkeep a rfl

theorem keeps_recordParams {gs : List (GenericParam × Param)} (hgs : ∀ g ∈ gs, g.1.mark.id ∈ ids) :
    Keeps shapes ids kinds (recordParams gs) fun _ _ => True := by
  induction gs generalizing kinds with
  | nil => exact keeps_pure trivial
  | cons g gs ih =>
      have hg := hgs g List.mem_cons_self
      exact (keeps_record hg (.param g.2)).bind (steady_ofCheck (Check.steady_record hg _))
        fun _ _ _ _ => ih fun g' hg' => hgs g' (List.mem_cons_of_mem _ hg')

section

variable {demand : NodeId → Declare Unit} (hsteady : ∀ id, Steady ids (demand id))
  (hdemand : ∀ kinds id, Keeps shapes ids kinds (demand id) fun _ _ => True)
include hsteady hdemand

theorem keeps_forM (structs : List NodeId) :
    Keeps shapes ids kinds (structs.forM demand) fun _ _ => True := by
  induction structs generalizing kinds with
  | nil => exact keeps_pure trivial
  | cons id rest ih => exact (hdemand kinds id).bind (hsteady id) fun _ _ _ _ => ih

theorem keeps_read {t : TypeRef} (ht : t.ids ⊆ ids) :
    Keeps shapes ids kinds (read demand t) (Fine shapes) := by
  refine (keeps_forM hsteady hdemand t.structs).bind (steady_forM hsteady t.structs)
    fun kinds' _ _ _ d hd hlt ty hty => ?_
  obtain ⟨kinds'', hext, hfine, -⟩ :=
    TypeRef.extends_read .signature t hd (fun id hid => hlt id (ht hid)) hty
  exact ⟨kinds'', hext.prefix_kinds, hext.sound, hfine⟩

theorem keeps_readNames {xs : List TypedName} (hxs : xs.flatMap TypedName.ids ⊆ ids) :
    Keeps shapes ids kinds (readNames demand xs)
      fun kinds tys => (∀ t ∈ tys, t.Fine shapes kinds) ∧ tys.length = xs.length := by
  induction xs generalizing kinds with
  | nil => exact keeps_pure ⟨by simp, rfl⟩
  | cons x xs ih =>
      rw [List.flatMap_cons, List.append_subset, TypedName.ids, List.cons_subset] at hxs
      obtain ⟨⟨hx, hty⟩, hxs⟩ := hxs
      refine (keeps_read hsteady hdemand hty).bind (steady_read hsteady hty) fun kinds₁ t _ ht => ?_
      refine (keeps_record hx ht).bind (steady_ofCheck (Check.steady_record hx t)) fun kinds₂ _ hk _ => ?_
      refine (ih hxs).bind (steady_readNames hsteady hxs) fun kinds₃ tys hk' htys => ?_
      refine keeps_pure ⟨fun u hu => ?_, by simp [htys.2]⟩
      rcases List.mem_cons.1 hu with rfl | hu
      · exact (ht.mono hk).mono hk'
      · exact htys.1 u hu

theorem keeps_struct {item : Item} {decl : StructDecl} (hid : item.id ∈ ids)
    (hdecl : (ItemKind.struct decl).signatureIds ⊆ ids) (hshape : shapes item.id = decl.shape item.name) :
    Keeps shapes ids kinds (struct demand item decl) fun _ _ => True := by
  have hids := hdecl
  rw [ItemKind.signatureIds, List.append_subset] at hids
  have hgenerics : ∀ g ∈ decl.generics.zip (params decl.generics), g.1.mark.id ∈ ids := fun g hg =>
    hids.1 (List.mem_map_of_mem (List.of_mem_zip hg).1)
  refine (keeps_recordParams hgenerics).bind (steady_recordParams hgenerics) fun kinds₁ _ _ _ => ?_
  refine (keeps_readNames hsteady hdemand hids.2).bind (steady_readNames hsteady hids.2)
    fun kinds₂ tys _ htys => keeps_record hid ?_
  refine .of_parts trivial ⟨?_, by simp⟩ fun t ht => ?_
  · show Adt.shape _ = shapes item.id
    rw [hshape]
    exact congrArg (Shape.mk _ _ _) (label_fields htys.2)
  · simp only [parts, Adt.parts, Option.getD_none, List.append_nil] at ht
    obtain ⟨f, hf, rfl⟩ := List.mem_map.1 ht
    exact htys.1 _ (ty_mem_of_fields hf)

theorem keeps_fn {item : Item} {decl : FnDecl} (hid : item.id ∈ ids)
    (hdecl : (ItemKind.fn decl).signatureIds ⊆ ids) :
    Keeps shapes ids kinds (fn demand item decl) fun _ _ => True := by
  rw [ItemKind.signatureIds, List.append_subset] at hdecl
  refine (keeps_readNames hsteady hdemand hdecl.1).bind (steady_readNames hsteady hdecl.1)
    fun kinds₁ tys _ htys => ?_
  cases hret : decl.ret with
  | none => exact keeps_record hid (.fn htys.1 .unit)
  | some t =>
      rw [hret] at hdecl
      refine (keeps_read hsteady hdemand hdecl.2).bind (steady_read hsteady hdecl.2)
        fun kinds₂ ret hk hfine => ?_
      exact keeps_record hid (.fn (fun p hp => (htys.1 p hp).mono hk) hfine)

theorem keeps_const {item : Item} {decl : ConstDecl} (hid : item.id ∈ ids)
    (hdecl : (ItemKind.const decl).signatureIds ⊆ ids) :
    Keeps shapes ids kinds (const demand item decl) fun _ _ => True :=
  (keeps_read hsteady hdemand hdecl).bind (steady_read hsteady hdecl)
    fun _ _ _ hfine => keeps_record hid hfine

end

theorem keeps_unlessKnown {structs : NodeId → Option (Item × StructDecl)} (path : List NodeId)
    (id : NodeId) {declare : Item → StructDecl → Declare Unit}
    (hdeclare : ∀ item decl, structs id = some (item, decl) →
      Keeps shapes ids kinds (declare item decl) fun _ _ => True) :
    Keeps shapes ids kinds (unlessKnown structs path id declare) fun _ _ => True := by
  intro d hd hlt a
  have hsame : ∃ kinds', kinds <+: kinds' ∧ d.session.Sound shapes kinds' ∧ True :=
    ⟨kinds, List.prefix_rfl, hd, trivial⟩
  rw [perform_unlessKnown]
  split
  · exact fun _ => hsame
  · split
    · exact fun _ => hsame
    · rename_i item decl hstruct
      split
      · intro ha
        cases ha
      · split
        · exact fun _ => hsame
        · exact keeps_noting id (hdeclare item decl hstruct) d hd hlt a

theorem keeps_demand {structs : NodeId → Option (Item × StructDecl)} (hstructs : Covers structs ids)
    (hshapes : ∀ id item decl, structs id = some (item, decl) →
      shapes item.id = decl.shape item.name) (depth : Nat) (path : List NodeId) (id : NodeId) :
    Keeps shapes ids kinds (demand structs depth path id) fun _ _ => True := by
  induction depth generalizing kinds path id with
  | zero => exact keeps_unlessKnown path id fun _ _ _ => keeps_pure trivial
  | succ depth ih =>
      refine keeps_unlessKnown path id fun item decl h => ?_
      obtain ⟨hid, hdecl⟩ := hstructs id item decl h
      exact keeps_struct (steady_demand hstructs depth (id :: path))
        (fun kinds id' => @ih kinds (id :: path) id') hid hdecl (hshapes id item decl h)

end Declare

end TypeInference

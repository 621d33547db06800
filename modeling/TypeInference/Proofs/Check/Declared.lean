import Mathlib.Data.List.Nodup
import Mathlib.Data.List.Pairwise
import TypeInference.Proofs.Check.Coverage
import TypeInference.Proofs.Check.Passes

/-!
# Every declared node gets a type

A struct is recorded after its generics and its fields, and no other node of a
signature is a struct. So a struct that has a type has been declared completely,
whichever item demanded it first.
-/

namespace TypeInference

open Check

namespace Check

variable {α β : Type}

def AllocatesNone (x : Check α) : Prop := ∀ s, (x.perform s).2.locations = s.locations

theorem AllocatesNone.bind {x : Check α} {f : α → Check β} (hx : AllocatesNone x)
    (hf : ∀ a, AllocatesNone (f a)) : AllocatesNone (x >>= f) := by
  intro s
  have hs := hx s
  rw [perform_bind]
  rcases hrun : x.perform s with ⟨e | a, s'⟩
  · rwa [hrun] at hs
  · rw [hrun] at hs
    exact (hf a s').trans hs

theorem allocatesNone_giveUp (cause : Cause) (span : Span) :
    AllocatesNone (giveUp cause span : Check α) := fun _ => rfl

theorem allocatesNone_lookup (id : NodeId) : AllocatesNone (lookup id) := fun _ => rfl

theorem allocatesNone_recorded (id : NodeId) (t : Ty) : AllocatesNone (recorded id t) := fun _ => rfl

theorem allocatesNone_freshInstance (a : Adt Ty) : AllocatesNone (freshInstance a) := fun _ => rfl

theorem allocatesNone_withArgs (a : Adt Ty) (args : List Ty) (span : Span) :
    AllocatesNone (a.withArgs args span) := by
  intro s
  unfold Adt.withArgs
  split <;> rfl

theorem allocatesNone_readAll {position : Position} {ts : List TypeRef}
    (h : ∀ t ∈ ts, AllocatesNone (t.read position)) :
    AllocatesNone (TypeRef.readAll position ts) := by
  induction ts with
  | nil =>
      intro s
      rw [TypeRef.readAll]
      rfl
  | cons t ts ih =>
      rw [TypeRef.readAll]
      exact (h t List.mem_cons_self).bind fun _ =>
        (ih fun u hu => h u (List.mem_cons_of_mem _ hu)).bind fun _ _ => rfl

theorem allocatesNone_read (position : Position) (t : TypeRef) : AllocatesNone (t.read position) := by
  induction t with
  | unit m => exact allocatesNone_recorded m.id .unit
  | infer m =>
      have hvar : AllocatesNone (newVar .general) := fun _ => rfl
      exact hvar.bind fun t => allocatesNone_recorded m.id t
  | unresolved m name args => exact allocatesNone_giveUp _ _
  | builtin m name args =>
      have hbuiltin : AllocatesNone (builtin? name) := fun _ => rfl
      refine hbuiltin.bind fun r => ?_
      cases r with
      | none => exact allocatesNone_giveUp _ _
      | some t => exact allocatesNone_recorded m.id t
  | adt m name id args ih =>
      refine (allocatesNone_lookup id).bind fun r => ?_
      split
      · rename_i a
        split
        · exact (allocatesNone_freshInstance a).bind fun b => allocatesNone_recorded m.id (.adt b)
        · exact (allocatesNone_readAll ih).bind fun tys =>
            (allocatesNone_withArgs a tys _).bind fun b => allocatesNone_recorded m.id (.adt b)
      · exact allocatesNone_giveUp _ _
      · exact allocatesNone_giveUp _ _
  | param m name id args =>
      refine (allocatesNone_lookup id).bind fun r => ?_
      cases r with
      | none => exact allocatesNone_giveUp _ _
      | some t => exact allocatesNone_recorded m.id t

end Check

/-! ## Structs that have been declared -/

/-- Whether a struct that has a type has types for its generics and its fields as well. -/
def Session.Complete (structs : NodeId → Option (Item × StructDecl)) (s : Session) : Prop :=
  ∀ id item decl, structs id = some (item, decl) → s.context.contains id →
    s.Has (ItemKind.struct decl).declaredIds

variable {structs : NodeId → Option (Item × StructDecl)}

/-- If no struct is given a type, nothing is left incomplete. -/
theorem Session.Complete.after {s s' : Session} {ids : List NodeId} (h : s.Complete structs)
    (hgrows : s.Grows ids s') (hlocations : s'.locations = s.locations)
    (hids : ∀ i ∈ ids, structs i = none) : s'.Complete structs := by
  intro id item decl hstruct hcontains
  have hsame : s'.context.types.find? id = s.context.types.find? id := by
    by_contra hne
    rcases hgrows.changed id hne with hid | ⟨hle, hlt⟩
    · rw [hids id hid] at hstruct
      cases hstruct
    · rw [hlocations] at hlt
      exact Nat.not_lt.2 hle hlt
  have hbefore : s.context.contains id := by
    rwa [Context.contains, NodeTypes.contains, hsame] at hcontains
  exact (h id item decl hstruct hbefore).after hgrows

namespace Declare

variable {α β : Type} {ids l l' : List NodeId}

def Leaves (x : Declare α) (l : List NodeId) : Prop :=
  ∀ d a, (x.perform d).1 = .ok a → (x.perform d).2.session.Has l

theorem leaves_nil (x : Declare α) : Leaves x [] := fun d _ _ => (x.perform d).2.session.has_nil

theorem Leaves.bind {x : Declare α} {f : α → Declare β} (hx : Leaves x l)
    (hsteady : ∀ a, Steady ids (f a)) (hf : ∀ a, Leaves (f a) l') : Leaves (x >>= f) (l ++ l') := by
  intro d b hok
  have hd := hx d
  rw [perform_bind] at hok ⊢
  rcases hrun : x.perform d with ⟨e | a, d'⟩
  · simp [hrun] at hok
  · rw [hrun] at hd
    simp only [hrun] at hok ⊢
    exact Session.has_append.2 ⟨(hd a rfl).after ((hsteady a).grows d'), hf a d' b hok⟩

theorem leaves_record (id : NodeId) (t : Ty) : Leaves (ofCheck (record id t)) [id] :=
  fun d _ _ => d.session.has_insert id t

theorem leaves_recordParams (gs : List (GenericParam × Param)) :
    Leaves (recordParams gs) (gs.map fun g => g.1.mark.id) := by
  induction gs with
  | nil => exact leaves_nil _
  | cons g gs ih =>
      have hrest : Steady (gs.map fun g => g.1.mark.id) (recordParams gs) :=
        steady_recordParams fun g' hg' => List.mem_map.2 ⟨g', hg', rfl⟩
      exact (leaves_record g.1.mark.id _).bind (fun _ => hrest) fun _ => ih

theorem ids_zip_params (generics : List GenericParam) :
    (generics.zip (params generics)).map (fun g => g.1.mark.id) = generics.map (·.mark.id) := by
  have hfst : (generics.zip (params generics)).map Prod.fst = generics :=
    List.map_fst_zip (by simp [params])
  calc (generics.zip (params generics)).map (fun g => g.1.mark.id)
      = ((generics.zip (params generics)).map Prod.fst).map (·.mark.id) := by rw [List.map_map]; rfl
    _ = generics.map (·.mark.id) := by rw [hfst]

theorem leaves_const (demand : NodeId → Declare Unit) (item : Item) (decl : ConstDecl) :
    Leaves (const demand item decl) [item.id] := by
  have hlast (t : Ty) : Steady [item.id] (ofCheck (record item.id t)) :=
    steady_ofCheck (steady_record (List.mem_singleton_self _) t)
  exact (leaves_nil (read demand decl.ty)).bind hlast fun t => leaves_record item.id t

section

variable {demand : NodeId → Declare Unit} (hdemand : ∀ id, Steady ids (demand id))
include hdemand

theorem leaves_readNames {xs : List TypedName} (hxs : xs.flatMap TypedName.ids ⊆ ids) :
    Leaves (readNames demand xs) (xs.map (·.mark.id)) := by
  induction xs with
  | nil => exact leaves_nil _
  | cons x xs ih =>
      rw [List.flatMap_cons, List.append_subset, TypedName.ids, List.cons_subset] at hxs
      obtain ⟨⟨hx, -⟩, hxs⟩ := hxs
      have hrest (ty : Ty) : Steady ids (readNames demand xs >>= fun tys => pure (ty :: tys)) :=
        (steady_readNames hdemand hxs).bind fun _ => steady_pure _
      have hrecord (ty : Ty) : Steady ids (ofCheck (record x.mark.id ty) >>= fun _ =>
          readNames demand xs >>= fun tys => pure (ty :: tys)) :=
        (steady_ofCheck (steady_record hx ty)).bind fun _ => hrest ty
      refine (leaves_nil (read demand x.ty)).bind hrecord fun ty => ?_
      refine (leaves_record x.mark.id ty).bind (fun _ => hrest ty) fun _ => ?_
      have hlast (tys : List Ty) : Steady ids (pure (ty :: tys) : Declare (List Ty)) := steady_pure _
      have hnames := (ih hxs).bind hlast fun tys => leaves_nil (pure (ty :: tys))
      rwa [List.append_nil] at hnames

theorem leaves_struct {item : Item} {decl : StructDecl} (hid : item.id ∈ ids)
    (hdecl : (ItemKind.struct decl).signatureIds ⊆ ids) :
    Leaves (struct demand item decl) ((ItemKind.struct decl).declaredIds ++ [item.id]) := by
  rw [ItemKind.signatureIds, List.append_subset] at hdecl
  have hlast (tys : List Ty) : Steady ids (ofCheck (record item.id
      (.adt ⟨item.id, item.name, decl.kind, fields decl.fields tys, params decl.generics, none⟩))) :=
    steady_ofCheck (steady_record hid _)
  have hparams := leaves_recordParams (decl.generics.zip (params decl.generics))
  rw [ids_zip_params] at hparams
  have h := hparams.bind
    (fun _ => (steady_readNames hdemand hdecl.2).bind hlast) fun _ =>
    (leaves_readNames hdemand hdecl.2).bind hlast fun tys => leaves_record item.id _
  rwa [← List.append_assoc] at h

theorem leaves_fn {item : Item} {decl : FnDecl} (hid : item.id ∈ ids)
    (hdecl : (ItemKind.fn decl).signatureIds ⊆ ids) :
    Leaves (fn demand item decl) ((ItemKind.fn decl).declaredIds ++ [item.id]) := by
  rw [ItemKind.signatureIds, List.append_subset] at hdecl
  have hlast (tys : List Ty) (t : Ty) : Steady ids (ofCheck (record item.id (.fn tys t))) :=
    steady_ofCheck (steady_record hid _)
  unfold fn
  cases hret : decl.ret with
  | none => exact (leaves_readNames hdemand hdecl.1).bind (fun tys => hlast tys .unit) fun tys =>
      leaves_record item.id _
  | some t =>
      rw [hret] at hdecl
      refine (leaves_readNames hdemand hdecl.1).bind
        (fun tys => (steady_read hdemand hdecl.2).bind (hlast tys)) fun tys => ?_
      exact (leaves_nil (read demand t)).bind (hlast tys) fun u => leaves_record item.id _

end

/-! ## What declarations complete -/

/-- Whether the session stays complete, also if the declaration fails. -/
def Completes (structs : NodeId → Option (Item × StructDecl)) (x : Declare α) : Prop :=
  ∀ d : Declaring, d.session.Complete structs → (x.perform d).2.session.Complete structs

theorem completes_pure (a : α) : Completes structs (pure a : Declare α) := fun _ h => h

theorem Completes.bind {x : Declare α} {f : α → Declare β} (hx : Completes structs x)
    (hf : ∀ a, Completes structs (f a)) : Completes structs (x >>= f) := by
  intro d hd
  have hd' := hx d hd
  rw [perform_bind]
  rcases hrun : x.perform d with ⟨e | a, d'⟩
  · rwa [hrun] at hd'
  · rw [hrun] at hd'
    exact hf a d' hd'

theorem completes_ofCheck {x : Check α} (hx : Check.Steady ids x) (hlocations : AllocatesNone x)
    (hids : ∀ i ∈ ids, structs i = none) : Completes structs (ofCheck x) :=
  fun d hd => hd.after (hx.grows d.session) (hlocations d.session) hids

theorem completes_record {id : NodeId} (t : Ty) (hid : structs id = none) :
    Completes structs (ofCheck (record id t)) :=
  completes_ofCheck (steady_record (List.mem_singleton_self id) t) (fun _ => rfl) fun _ hi =>
    List.mem_singleton.1 hi ▸ hid

/-- A struct may be recorded once its generics and its fields have types. -/
theorem Completes.record_last {x : Declare α} {id : NodeId} {item : Item} {decl : StructDecl}
    (hx : Completes structs x) (hleaves : Leaves x (ItemKind.struct decl).declaredIds)
    (hstruct : structs id = some (item, decl)) (t : α → Ty) :
    Completes structs (x >>= fun a => ofCheck (record id (t a))) := by
  intro d hd
  have hd' := hx d hd
  have hl := hleaves d
  rw [perform_bind]
  rcases hrun : x.perform d with ⟨e | a, d'⟩
  · rwa [hrun] at hd'
  · rw [hrun] at hd' hl
    have hgrows := (steady_record (List.mem_singleton_self id) (t a)).grows d'.session
    intro id' item' decl' hstruct' hcontains
    by_cases heq : id' = id
    · subst heq
      obtain ⟨-, rfl⟩ : item = item' ∧ decl = decl' := by simpa [hstruct] using hstruct'
      exact (hl a rfl).after hgrows
    · have hbefore : d'.session.context.contains id' := by simpa [heq] using hcontains
      exact (hd' id' item' decl' hstruct' hbefore).after hgrows

theorem completes_noting {x : Declare Unit} (id : NodeId) (hx : Completes structs x) :
    Completes structs (noting id x) := by
  intro d hd
  have hd' := hx d hd
  rw [perform_noting]
  rcases hrun : x.perform d with ⟨e | a, d'⟩ <;> rwa [hrun] at hd'

theorem completes_forM {demand : NodeId → Declare Unit} (hdemand : ∀ id, Completes structs (demand id))
    (l : List NodeId) : Completes structs (l.forM demand) := by
  induction l with
  | nil => exact completes_pure ()
  | cons id rest ih => exact (hdemand id).bind fun _ => ih

theorem completes_recordParams {gs : List (GenericParam × Param)}
    (hgs : ∀ g ∈ gs, structs g.1.mark.id = none) : Completes structs (recordParams gs) := by
  induction gs with
  | nil => exact completes_pure ()
  | cons g gs ih =>
      exact (completes_record _ (hgs g List.mem_cons_self)).bind fun _ =>
        ih fun g' hg' => hgs g' (List.mem_cons_of_mem _ hg')

section

variable {demand : NodeId → Declare Unit} (hdemand : ∀ id, Completes structs (demand id))
include hdemand

theorem completes_read {t : TypeRef} (ht : ∀ i ∈ t.ids, structs i = none) :
    Completes structs (read demand t) :=
  (completes_forM hdemand t.structs).bind fun _ =>
    completes_ofCheck (Check.steady_read (List.Subset.refl _)) (allocatesNone_read _ t) ht

theorem completes_readNames {xs : List TypedName}
    (hxs : ∀ i ∈ xs.flatMap TypedName.ids, structs i = none) :
    Completes structs (readNames demand xs) := by
  induction xs with
  | nil => exact completes_pure []
  | cons x xs ih =>
      simp only [List.flatMap_cons, TypedName.ids, List.cons_append, List.mem_cons, List.mem_append]
        at hxs
      refine (completes_read hdemand fun i hi => hxs i (.inr (.inl hi))).bind fun ty => ?_
      refine (completes_record ty (hxs _ (.inl rfl))).bind fun _ => ?_
      exact (ih fun i hi => hxs i (.inr (.inr hi))).bind fun tys => completes_pure _

/-- A struct is recorded when its generics and its fields have types, so it completes itself. -/
theorem completes_struct (hsteady : ∀ id, Steady ids (demand id)) {item : Item} {decl : StructDecl}
    (hdecl : (ItemKind.struct decl).signatureIds ⊆ ids)
    (hstruct : structs item.id = some (item, decl))
    (hnone : ∀ i ∈ (ItemKind.struct decl).signatureIds, structs i = none) :
    Completes structs (struct demand item decl) := by
  have hassoc : struct demand item decl =
      (recordParams (decl.generics.zip (params decl.generics)) >>= fun _ =>
        readNames demand decl.fields) >>= fun tys => ofCheck (record item.id
          (.adt ⟨item.id, item.name, decl.kind, fields decl.fields tys, params decl.generics, none⟩)) := by
    rw [bind_assoc]
    rfl
  rw [ItemKind.signatureIds, List.append_subset] at hdecl
  have hgenerics : Completes structs (recordParams (decl.generics.zip (params decl.generics))) := by
    refine completes_recordParams fun g hg => hnone _ (List.mem_append_left _ ?_)
    rw [← ids_zip_params]
    exact List.mem_map_of_mem hg
  have hleaves := (leaves_recordParams (decl.generics.zip (params decl.generics))).bind
    (fun _ => steady_readNames hsteady hdecl.2) fun _ => leaves_readNames hsteady hdecl.2
  rw [ids_zip_params] at hleaves
  rw [hassoc]
  refine (hgenerics.bind fun _ => completes_readNames hdemand fun i hi => ?_).record_last hleaves hstruct _
  exact hnone i (List.mem_append_right _ hi)

theorem completes_fn {item : Item} {decl : FnDecl} (hid : structs item.id = none)
    (hnone : ∀ i ∈ (ItemKind.fn decl).signatureIds, structs i = none) :
    Completes structs (fn demand item decl) := by
  unfold fn
  have hparams := completes_readNames hdemand fun i hi => hnone i (List.mem_append_left _ hi)
  cases hret : decl.ret with
  | none => exact hparams.bind fun tys => completes_record _ hid
  | some t =>
      have ht : ∀ i ∈ t.ids, structs i = none := fun i hi =>
        hnone i (List.mem_append_right _ (by rwa [hret, TypeRef.idsOption]))
      exact hparams.bind fun tys => (completes_read hdemand ht).bind fun u => completes_record _ hid

theorem completes_const {item : Item} {decl : ConstDecl} (hid : structs item.id = none)
    (hnone : ∀ i ∈ decl.ty.ids, structs i = none) : Completes structs (const demand item decl) :=
  (completes_read hdemand hnone).bind fun t => completes_record t hid

end

/-- Whether structs are found under their own identities, and no other node of their signatures
is a struct. -/
def Separate (structs : NodeId → Option (Item × StructDecl)) : Prop :=
  ∀ id item decl, structs id = some (item, decl) → item.id = id ∧
    ∀ i ∈ (ItemKind.struct decl).signatureIds, structs i = none

theorem completes_unlessKnown (path : List NodeId) (id : NodeId)
    {declare : Item → StructDecl → Declare Unit}
    (hdeclare : ∀ item decl, structs id = some (item, decl) → Completes structs (declare item decl)) :
    Completes structs (unlessKnown structs path id declare) := by
  intro d hd
  rw [perform_unlessKnown]
  split
  · exact hd
  · split
    · exact hd
    · rename_i item decl hstruct
      split
      · exact hd
      · split
        · exact hd
        · exact completes_noting id (hdeclare item decl hstruct) d hd

theorem completes_demand (hcovers : Covers structs ids) (hseparate : Separate structs) (depth : Nat)
    (path : List NodeId) (id : NodeId) : Completes structs (demand structs depth path id) := by
  induction depth generalizing path id with
  | zero => exact completes_unlessKnown path id fun _ _ _ => completes_pure ()
  | succ depth ih =>
      refine completes_unlessKnown path id fun item decl hstruct => ?_
      obtain ⟨-, hdecl⟩ := hcovers id item decl hstruct
      obtain ⟨rfl, hnone⟩ := hseparate id item decl hstruct
      exact completes_struct (ih (item.id :: path)) (steady_demand hcovers depth (item.id :: path))
        hdecl hstruct hnone

/-- What a demand leaves if it succeeds: the struct had been declared, or it is declared now. -/
theorem has_demand (hcovers : Covers structs ids) {depth : Nat} {item : Item} {decl : StructDecl}
    (hstruct : structs item.id = some (item, decl)) {d : Declaring}
    (hd : d.session.Complete structs)
    (hok : ((demand structs (depth + 1) [] item.id).perform d).1 = .ok ()) :
    ((demand structs (depth + 1) [] item.id).perform d).2.session.Has
      (item.id :: (ItemKind.struct decl).declaredIds) := by
  obtain ⟨hid, hdecl⟩ := hcovers _ item decl hstruct
  have hleaves := leaves_struct (steady_demand hcovers depth [item.id]) hid hdecl d
  rw [demand, perform_unlessKnown] at hok ⊢
  split at hok
  · cases hok
  · rename_i hfailed
    rw [if_neg hfailed]
    simp only [hstruct, List.contains_nil, Bool.false_eq_true, if_false] at hok ⊢
    split at hok
    · rename_i hcontains
      rw [if_pos hcontains]
      exact Session.has_cons.2 ⟨hcontains, hd _ item decl hstruct hcontains⟩
    · rename_i hcontains
      rw [if_neg hcontains, perform_noting]
      rw [perform_noting] at hok
      rcases hrun : (struct (demand structs depth [item.id]) item decl).perform d with ⟨e | u, d'⟩
      · simp [hrun] at hok
      · rw [hrun] at hleaves
        obtain ⟨hdeclared, hitem⟩ := Session.has_append.1 (hleaves u rfl)
        exact Session.has_cons.2 ⟨hitem item.id (List.mem_singleton_self _), hdeclared⟩

end Declare

namespace Program

variable {p : Program}

/-! ## The signature pass -/

theorem eq_of_mem_signatureIds (hnodup : p.signatureIds.Nodup) {item item' : Item} {id : NodeId}
    (hitem : item ∈ p.items) (hitem' : item' ∈ p.items) (hid : id ∈ item.signatureIds)
    (hid' : id ∈ item'.signatureIds) : item = item' := by
  by_contra hne
  have hsymm : Std.Symm (Function.onFun List.Disjoint Item.signatureIds) := ⟨fun _ _ h _ hi hi' =>
    h hi' hi⟩
  exact (List.nodup_flatMap.1 hnodup).2.forall hitem hitem' hne hid hid'

theorem struct?_of_mem (hnodup : p.signatureIds.Nodup) {item : Item} {decl : StructDecl}
    (hitem : item ∈ p.items) (hkind : item.kind = .struct decl) :
    p.struct? item.id = some (item, decl) := by
  have hmem : (item, decl) ∈ p.structs.reverse := by
    rw [List.mem_reverse, structs, List.mem_filterMap]
    exact ⟨item, hitem, by rw [hkind]⟩
  have hsome : (p.struct? item.id).isSome :=
    List.find?_isSome.2 ⟨(item, decl), hmem, beq_self_eq_true item.id⟩
  obtain ⟨⟨item', decl'⟩, hstruct⟩ := Option.isSome_iff_exists.1 hsome
  obtain ⟨hitem', hkind', hid⟩ := mem_of_struct? hstruct
  obtain rfl : item' = item := eq_of_mem_signatureIds hnodup hitem' hitem
    (hid ▸ List.mem_cons_self) List.mem_cons_self
  obtain rfl : decl' = decl := ItemKind.struct.inj (hkind'.symm.trans hkind)
  exact hstruct

theorem struct?_eq_none_of_mem (hnodup : p.signatureIds.Nodup) {item : Item} (hitem : item ∈ p.items)
    {i : NodeId} (hi : i ∈ item.kind.signatureIds) : p.struct? i = none := by
  rw [Option.eq_none_iff_forall_not_mem]
  rintro ⟨item', decl'⟩ hstruct
  obtain ⟨hitem', -, rfl⟩ := mem_of_struct? hstruct
  obtain rfl : item' = item := eq_of_mem_signatureIds hnodup hitem' hitem List.mem_cons_self
    (List.mem_cons_of_mem _ hi)
  exact (List.nodup_cons.1 ((List.nodup_flatMap.1 hnodup).1 _ hitem)).1 hi

theorem struct?_eq_none_of_kind (hnodup : p.signatureIds.Nodup) {item : Item} (hitem : item ∈ p.items)
    (hkind : ∀ decl, item.kind ≠ .struct decl) : p.struct? item.id = none := by
  rw [Option.eq_none_iff_forall_not_mem]
  rintro ⟨item', decl'⟩ hstruct
  obtain ⟨hitem', hkind', hid⟩ := mem_of_struct? hstruct
  obtain rfl : item' = item := eq_of_mem_signatureIds hnodup hitem' hitem
    (hid ▸ List.mem_cons_self) List.mem_cons_self
  exact hkind decl' hkind'

theorem separate_struct? (hnodup : p.signatureIds.Nodup) : Declare.Separate p.struct? := by
  intro id item decl hstruct
  obtain ⟨hitem, hkind, hid⟩ := mem_of_struct? hstruct
  exact ⟨hid, fun i hi => struct?_eq_none_of_mem hnodup hitem (hkind ▸ hi)⟩

theorem completes_demand (hnodup : p.signatureIds.Nodup) (id : NodeId) :
    Declare.Completes p.struct? (p.demand id) :=
  Declare.completes_demand p.covers_struct? (separate_struct? hnodup) _ [] id

theorem completes_declare (hnodup : p.signatureIds.Nodup) {item : Item} (hitem : item ∈ p.items) :
    Declare.Completes p.struct? (p.declare item) := by
  have hnone (i : NodeId) := struct?_eq_none_of_mem hnodup hitem (i := i)
  have hid := struct?_eq_none_of_kind hnodup hitem
  unfold declare
  cases hkind : item.kind with
  | struct decl => exact completes_demand hnodup item.id
  | fn decl =>
      rw [hkind] at hnone hid
      exact Declare.completes_fn (completes_demand hnodup) (hid (by simp)) hnone
  | const decl =>
      rw [hkind] at hnone hid
      exact Declare.completes_const (completes_demand hnodup) (hid (by simp)) hnone

/-- An item that has been declared has a type, and so has everything that it declares. -/
theorem has_declare (hnodup : p.signatureIds.Nodup) {item : Item} (hitem : item ∈ p.items)
    {d : Declaring} (hd : d.session.Complete p.struct?)
    (hok : ((p.declare item).perform d).1 = .ok ()) :
    ((p.declare item).perform d).2.session.Has (item.id :: item.kind.declaredIds) := by
  obtain ⟨hid, hsub⟩ := signatureIds_subset hitem
  unfold declare at hok ⊢
  cases hkind : item.kind with
  | struct decl =>
      have hstruct := struct?_of_mem hnodup hitem hkind
      have hlength : p.structs.length = p.structs.length - 1 + 1 := by
        have hmem := List.mem_reverse.1 (List.mem_of_find?_eq_some hstruct)
        have := List.length_pos_of_mem hmem
        omega
      simp only [hkind, demand] at hok ⊢
      rw [hlength] at hok ⊢
      exact Declare.has_demand p.covers_struct? hstruct hd hok
  | fn decl =>
      rw [hkind] at hsub
      simp only [hkind] at hok ⊢
      have hleaves := Declare.leaves_fn p.steady_demand hid hsub d () hok
      exact Session.has_cons.2 ⟨(Session.has_append.1 hleaves).2 _ (List.mem_singleton_self _),
        (Session.has_append.1 hleaves).1⟩
  | const decl =>
      simp only [hkind] at hok ⊢
      exact Declare.leaves_const p.demand item decl d () hok

/-- Where nothing is reported, every item has been declared. -/
theorem has_declareAll (hnodup : p.signatureIds.Nodup) {items : List Item}
    (hitems : ∀ item ∈ items, item ∈ p.items) {d : Declaring} (hd : d.session.Complete p.struct?)
    (hexplained : d.Explained) (hended : (p.declareAll items d).1 = .ok ())
    (herrors : (p.declareAll items d).2.session.sink.errors = []) :
    ∀ item ∈ items, (p.declareAll items d).2.session.Has (item.id :: item.kind.declaredIds) := by
  induction items generalizing d with
  | nil => simp
  | cons item rest ih =>
      obtain ⟨d', hrun, hexplained', heq⟩ := p.declareAll_cons_of_errors hitems hexplained hended herrors
      have hitem := hitems item List.mem_cons_self
      have hrest : ∀ item' ∈ rest, item' ∈ p.items := fun item' h' =>
        hitems item' (List.mem_cons_of_mem _ h')
      have hd' := completes_declare hnodup hitem d hd
      have hfirst := has_declare hnodup hitem hd (by rw [hrun])
      rw [hrun] at hd' hfirst
      rw [heq] at hended herrors ⊢
      intro item' h'
      rcases List.mem_cons.1 h' with rfl | h'
      · exact hfirst.after (p.grows_declareAll hrest d')
      · exact ih hrest hd' hexplained' hended herrors item' h'

end Program

end TypeInference

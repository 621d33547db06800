import TypeInference.Proofs.Check.Declared
import TypeInference.Proofs.Check.DisciplinedBodies
import TypeInference.Proofs.Check.Fallback

/-!
# Passes keep a discipline

If every struct type that a program can declare obeys the discipline, so does
every type that a pass records. The body pass has to find the signature of every
item whose body it checks.
-/

namespace TypeInference

open Ty Check

variable {P : Ty → Prop} {H : Prop} {α β : Type} {Q : α → Prop} {R : β → Prop}

/-! ## Signatures -/

def StructDecl.typeWith (decl : StructDecl) (item : Item) (tys : List Ty) : Ty :=
  .adt ⟨item.id, item.name, decl.kind, Declare.fields decl.fields tys, Declare.params decl.generics,
    none⟩

/-- Whether the types of these structs obey the condition, whatever types their fields have. -/
def Declare.Admits (P : Ty → Prop) (structs : NodeId → Option (Item × StructDecl)) : Prop :=
  ∀ id item decl, structs id = some (item, decl) → ∀ tys, P (decl.typeWith item tys)

namespace Declare

def Obeys (P : Ty → Prop) (H : Prop) (x : Declare α) (Q : α → Prop) : Prop :=
  ∀ d, Session.Run P H d.session (x.perform d).1 (x.perform d).2.session Q

theorem obeys_pure {a : α} (h : H → Q a) : Obeys P H (pure a : Declare α) Q :=
  fun _ => .same fun hH _ _ => h hH

theorem Obeys.bind {x : Declare α} {f : α → Declare β} (hx : Obeys P H x Q)
    (hf : ∀ a, Obeys P (H ∧ Q a) (f a) R) : Obeys P H (x >>= f) R := by
  intro d
  have hd := hx d
  rw [perform_bind]
  rcases hrun : x.perform d with ⟨e | a, d'⟩
  · rw [hrun] at hd
    exact hd.abort
  · rw [hrun] at hd
    exact hd.trans (hf a d')

theorem obeys_ofCheck {x : Check α} (h : Check.Obeys P H x Q) : Obeys P H (ofCheck x) Q :=
  fun d => h d.session

theorem obeys_noting (id : NodeId) {x : Declare Unit} (h : Obeys P H x fun _ => True) :
    Obeys P H (noting id x) fun _ => True := by
  intro d
  have hd := h d
  rw [perform_noting]
  rcases hrun : x.perform d with ⟨e | a, d'⟩
  · rw [hrun] at hd
    exact hd.abort
  · rwa [hrun] at hd

theorem obeys_unlessKnown {structs : NodeId → Option (Item × StructDecl)} (path : List NodeId)
    (id : NodeId) {declare : Item → StructDecl → Declare Unit}
    (h : ∀ item decl, structs id = some (item, decl) →
      Obeys P H (declare item decl) fun _ => True) :
    Obeys P H (unlessKnown structs path id declare) fun _ => True := by
  intro d
  rw [perform_unlessKnown]
  split
  · exact .ended
  · split
    · exact .same fun _ _ _ => trivial
    · rename_i item decl hstruct
      split
      · have hreport : Check.Obeys P H (report (.recursiveType item.name) item.mark.span)
            fun _ => P .error := obeys_report rfl _
        exact (hreport d.session).trans .ended
      · split
        · exact .same fun _ _ _ => trivial
        · exact obeys_noting id (h item decl hstruct) d

theorem obeys_forM {demand : NodeId → Declare Unit} (h : ∀ id H, Obeys P H (demand id) fun _ => True)
    (structs : List NodeId) : Obeys P H (structs.forM demand) fun _ => True := by
  induction structs generalizing H with
  | nil => exact obeys_pure fun _ => trivial
  | cons id rest ih => exact (h id H).bind fun _ => ih

theorem obeys_recordParams (hP : IsDiscipline P) (gs : List (GenericParam × Param)) :
    Obeys P H (recordParams gs) fun _ => True := by
  induction gs generalizing H with
  | nil => exact obeys_pure fun _ => trivial
  | cons g gs ih =>
      exact (obeys_ofCheck (obeys_record fun _ => hP.leaf (by simp) (by simp) rfl)).bind fun _ => ih

section

variable (hP : IsDiscipline P) {demand : NodeId → Declare Unit}
  (hdemand : ∀ id H, Obeys P H (demand id) fun _ => True)
include hP hdemand

theorem obeys_read (t : TypeRef) : Obeys P H (read demand t) (Ty.Every P) :=
  (obeys_forM hdemand t.structs).bind fun _ => obeys_ofCheck (Check.obeys_read hP .signature t)

theorem obeys_readNames (xs : List TypedName) :
    Obeys P H (readNames demand xs) fun tys => ∀ t ∈ tys, t.Every P := by
  induction xs generalizing H with
  | nil => exact obeys_pure (by simp)
  | cons x xs ih =>
      refine (obeys_read hP hdemand x.ty).bind fun ty => ?_
      refine (obeys_ofCheck (obeys_record fun h => h.2)).bind fun _ => ih.bind fun tys => ?_
      exact obeys_pure fun h => List.forall_mem_cons.2 ⟨h.1.1.2, h.2⟩

theorem obeys_struct {item : Item} {decl : StructDecl} (hdecl : ∀ tys, P (decl.typeWith item tys)) :
    Obeys P H (struct demand item decl) fun _ => True := by
  refine (obeys_recordParams hP _).bind fun _ => ?_
  refine (obeys_readNames hP hdemand decl.fields).bind fun tys => obeys_ofCheck (obeys_record ?_)
  intro h
  refine every_iff.2 ⟨hdecl tys, fun p hp => ?_⟩
  rw [parts, Adt.parts, Option.getD_none, List.append_nil, List.mem_map] at hp
  obtain ⟨f, hf, rfl⟩ := hp
  exact h.2 f.ty (ty_mem_of_fields hf)

theorem obeys_fn (item : Item) (decl : FnDecl) : Obeys P H (fn demand item decl) fun _ => True := by
  refine (obeys_readNames hP hdemand decl.params).bind fun tys => ?_
  cases hret : decl.ret with
  | none =>
      exact obeys_ofCheck (obeys_record fun h => hP.fn h.2 (hP.leaf (by simp) (by simp) rfl))
  | some t =>
      exact (obeys_read hP hdemand t).bind fun ret =>
        obeys_ofCheck (obeys_record fun h => hP.fn h.1.2 h.2)

theorem obeys_const (item : Item) (decl : ConstDecl) :
    Obeys P H (const demand item decl) fun _ => True :=
  (obeys_read hP hdemand decl.ty).bind fun _ => obeys_ofCheck (obeys_record fun h => h.2)

end

theorem obeys_demand (hP : IsDiscipline P) {structs : NodeId → Option (Item × StructDecl)}
    (hstructs : Admits P structs) (depth : Nat) (path : List NodeId) (id : NodeId) :
    Obeys P H (demand structs depth path id) fun _ => True := by
  induction depth generalizing H path id with
  | zero => exact obeys_unlessKnown path id fun _ _ _ => obeys_pure fun _ => trivial
  | succ depth ih =>
      refine obeys_unlessKnown path id fun item decl h => ?_
      exact obeys_struct hP (fun id' _ => ih (id :: path) id') (hstructs id item decl h)

end Declare

namespace Program

variable {p : Program} (hP : IsDiscipline P) (hstructs : Declare.Admits P p.struct?)
include hP hstructs

theorem obeys_declare (item : Item) : Declare.Obeys P H (p.declare item) fun _ => True := by
  have hdemand (id : NodeId) (H : Prop) : Declare.Obeys P H (p.demand id) fun _ => True :=
    Declare.obeys_demand hP hstructs _ [] id
  unfold declare
  split
  · exact hdemand item.id H
  · exact Declare.obeys_fn hP hdemand item _
  · exact Declare.obeys_const hP hdemand item _

/-- A run of declarations keeps the discipline. -/
theorem run_declareAll (items : List Item) (d : Declaring) :
    Session.Run P H d.session ((p.declareAll items d).1.mapError .defect)
      (p.declareAll items d).2.session fun _ => True := by
  induction items generalizing H d with
  | nil => exact .same fun _ _ _ => trivial
  | cons item rest ih =>
      have hfirst := obeys_declare (H := H) hP hstructs item d
      rw [declareAll]
      rcases hrun : (p.declare item).perform d with ⟨e | u, d'⟩
      · rw [hrun] at hfirst
        cases e with
        | defect e => exact hfirst.abort
        | program => exact hfirst.skipped ()
        | item => exact (hfirst.skipped ()).trans (ih d')
      · rw [hrun] at hfirst
        exact hfirst.trans (ih d')

end Program

/-! ## Bodies -/

/-- Whether what the check of the item needs to know of its signature is recorded. -/
def Item.IsSigned (item : Item) (s : Session) : Prop :=
  match item.kind with
  | .struct _ => True
  | .fn _ => ∃ ps r, s.context.types.find? item.id = some (.fn ps r)
  | .const _ => s.context.contains item.id

section

variable (hP : IsDiscipline P)
include hP

theorem Check.run_returnType (id : NodeId) (s : Session) :
    Session.Run P (IsStrict P → ∃ ps r, s.context.types.find? id = some (.fn ps r)) s
      ((returnType id).perform s).1 ((returnType id).perform s).2 (Ty.Every P) := by
  rw [returnType, perform_bind, perform_lookup]
  simp only
  split
  · rename_i ps ret hlookup
    exact .same fun _ hs henforces =>
      (hs.lookup hP henforces hlookup).part (List.mem_append_right _ (List.mem_singleton_self ret))
  · rename_i hnone
    refine obeys_throw (fun h hstrict d _ => ?_) s
    obtain ⟨ps, r, hfind⟩ := h hstrict
    refine (hnone (ps.map s.context.resolve) (s.context.resolve r) ?_).elim
    rw [Context.lookup, hfind]
    exact congrArg some (rewrite_fn _ _ ps r)

theorem Check.run_constType (id : NodeId) (s : Session) :
    Session.Run P (IsStrict P → s.context.contains id) s
      ((constType id).perform s).1 ((constType id).perform s).2 (Ty.Every P) := by
  rw [constType, perform_bind, perform_lookup]
  simp only
  split
  · rename_i t hlookup
    exact .same fun _ hs henforces => hs.lookup hP henforces hlookup
  · rename_i hnone
    refine obeys_throw (fun h hstrict d _ => ?_) s
    have hcontains := h hstrict
    rw [Context.contains_eq_isSome_lookup, hnone] at hcontains
    cases hcontains

/-- The check of an item keeps the discipline. It may assume that the signature is there. -/
theorem Item.run_check (item : Item) (s : Session) :
    Session.Run P (IsStrict P → item.IsSigned s) s (item.check s).outcome (item.check s).session
      fun _ => True := by
  unfold Item.check Item.IsSigned
  cases item.kind with
  | struct decl => exact .same fun _ _ _ => trivial
  | fn decl =>
      exact Walk.run_first (Check.run_returnType hP item.id s) fun ret =>
        Walk.obeys_child ((Walk.obeys_check hP).2.1 decl.body _) fun _ t =>
          Walk.obeys_leaf (obeys_requireType hP _ (fun h => h.1.2) fun h => h.2)
  | const decl =>
      exact Walk.run_first (Check.run_constType hP item.id s) fun expected =>
        Walk.obeys_child ((Walk.obeys_check hP).1 decl.value _) fun _ t =>
          Walk.obeys_leaf (obeys_requireType hP _ (fun h => h.1.2) fun h => h.2)

omit hP in
/-- The check of other nodes leaves a signature alone. -/
theorem Item.IsSigned.after {item : Item} {s s' : Session} {ids : List NodeId}
    (h : item.IsSigned s) (hgrows : s.Grows ids s') (hid : item.id ∉ ids)
    (hlt : item.id < s.locations.size) : item.IsSigned s' := by
  unfold Item.IsSigned at h ⊢
  have hkept := hgrows.kept item.id hid hlt
  split at h
  · trivial
  · rwa [hkept]
  · exact hgrows.retained item.id h

/-- Whether all signatures are there and the check of these nodes leaves them alone. -/
def Item.AreSigned (ids : List NodeId) (items : List Item) (s : Session) : Prop :=
  ∀ item ∈ items, item.IsSigned s ∧ item.id ∉ ids ∧ item.id < s.locations.size

/-- A run of item checks keeps the discipline. It may assume that all signatures are there. -/
theorem Program.run_checkAll (ids : List NodeId) (items : List Item) (s : Session)
    (hids : ∀ item ∈ items, item.bodyIds ⊆ ids) :
    Session.Run P (IsStrict P → Item.AreSigned ids items s) s
      ((checkAll items s).2.1.mapError .defect) (checkAll items s).2.2 fun _ => True := by
  induction items generalizing s with
  | nil => exact .same fun _ _ _ => trivial
  | cons item rest ih =>
      rw [List.forall_mem_cons] at hids
      have hgrows := (item.steady_check.grows s).mono hids.1
      have hafter (h : Item.AreSigned ids (item :: rest) s) :
          Item.AreSigned ids rest (item.check s).session := by
        intro item' hitem'
        obtain ⟨hsigned, hid, hlt⟩ := h item' (List.mem_cons_of_mem _ hitem')
        exact ⟨hsigned.after hgrows hid hlt, hid, Nat.lt_of_lt_of_le hlt hgrows.size_le⟩
      have hfirst : Session.Run P (IsStrict P → Item.AreSigned ids (item :: rest) s) s
          (item.check s).outcome (item.check s).session fun _ => True :=
        (item.run_check hP s).imp (fun h hstrict => (h hstrict item List.mem_cons_self).1)
          fun _ _ h => h
      have hrest : Session.Run P ((IsStrict P → Item.AreSigned ids (item :: rest) s) ∧ True)
          (item.check s).session _ _ fun _ => True :=
        (ih (item.check s).session hids.2).imp (fun h hstrict => hafter (h.1 hstrict)) fun _ _ h => h
      rw [checkAll]
      rcases hrun : item.check s with ⟨n, e | u, s'⟩
      · rw [hrun] at hfirst hrest
        cases e with
        | defect e => exact hfirst.abort
        | program => exact hfirst.skipped ()
        | item => exact (hfirst.skipped ()).trans hrest
      · rw [hrun] at hfirst hrest
        exact hfirst.trans hrest

end

end TypeInference

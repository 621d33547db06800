import TypeInference.Proofs.Check.Maintained
import TypeInference.Proofs.Program.Visited

/-!
# Signatures without variables

The only variables that the signature pass creates are those for `_`. If none is
written where a signature is read, then no recorded type mentions a variable,
whatever else is wrong with the program, and no body can learn anything from
another one through a signature that they share.
-/

namespace TypeInference

open Ty Check

/-- Whether the type mentions neither a variable nor an error. -/
abbrev Ty.IsGround (t : Ty) : Prop := t.Every fun n => n.isSettled = true

theorem Ty.isLocal_isSettled : IsLocal fun n => n.isSettled = true :=
  fun hhead _ h => (isSettled_of_head hhead).symm.trans h

theorem Ty.IsGround.not_hasVar {t : Ty} (h : t.IsGround) (v : VarId) : t.hasVar v = false := by
  refine Bool.eq_false_iff.2 fun hv => ?_
  obtain ⟨k, hk⟩ := hasVar_iff.1 hv
  cases h _ hk

theorem Ty.IsGround.resolve {t : Ty} (h : t.IsGround) (b : Bindings) : b.resolve t = t :=
  Bindings.resolve_of_forall_unbound fun v hv => by simp [h.not_hasVar v] at hv

theorem Ty.isGround_leaf {t : Ty} (h : t.isSettled = true) (hparts : t.parts = []) : t.IsGround :=
  every_leaf h hparts

def Session.IsGround (s : Session) : Prop :=
  ∀ id t, s.context.types.find? id = some t → t.IsGround

theorem Session.IsGround.lookup {s : Session} (hs : s.IsGround) {id : NodeId} {t : Ty}
    (h : s.context.lookup id = some t) : t.IsGround := by
  obtain ⟨u, hu, rfl⟩ := Option.map_eq_some_iff.1 h
  have hground := hs id u hu
  rw [show s.context.resolve u = u from hground.resolve _]
  exact hground

theorem Session.IsGround.insert {s : Session} (hs : s.IsGround) (id : NodeId) {t : Ty}
    (ht : t.IsGround) : Session.IsGround { s with context := s.context.insert id t } := by
  intro i u hu
  by_cases hi : i = id
  · obtain rfl : t = u := by simpa [Context.insert, hi] using hu
    exact ht
  · exact hs i u (by simpa [Context.insert, hi] using hu)

theorem Session.isQuiet_isGround : IsQuiet Session.IsGround := fun _ _ _ hs => hs

/-! ## Reading types -/

namespace Check

theorem ground_record (id : NodeId) {t : Ty} (ht : t.IsGround) :
    Maintains Session.IsGround (record id t) fun _ => True :=
  fun _ hs => ⟨hs.insert id ht, fun _ _ => trivial⟩

theorem ground_recorded (id : NodeId) {t : Ty} (ht : t.IsGround) :
    Maintains Session.IsGround (recorded id t) Ty.IsGround :=
  (ground_record id ht).bind fun _ _ => maintains_pure ht

theorem ground_lookup (id : NodeId) :
    Maintains Session.IsGround (lookup id) fun r => ∀ t, r = some t → t.IsGround :=
  fun _ hs => ⟨hs, fun _ hr _ ht => hs.lookup ((Except.ok.inj hr).trans ht)⟩

theorem ground_builtin? (name : String) :
    Maintains Session.IsGround (builtin? name) fun r => ∀ t, r = some t → t.IsGround := by
  refine fun s hs => ⟨hs, fun r hr t ht => ?_⟩
  obtain ⟨p, -, rfl⟩ := Option.map_eq_some_iff.1 ((Except.ok.inj hr).trans ht)
  exact isGround_leaf rfl rfl

theorem ground_withArgs {a : Adt Ty} (ha : (Ty.adt a).IsGround) {args : List Ty}
    (hargs : ∀ u ∈ args, u.IsGround) (span : Span) :
    Maintains Session.IsGround (a.withArgs args span) fun b => (Ty.adt b).IsGround := by
  unfold Adt.withArgs
  split
  · rename_i b hb
    refine maintains_pure ?_
    obtain ⟨-, rfl⟩ | ⟨-, -, rfl⟩ := Adt.apply_eq_ok_iff.1 hb
    · exact ha
    · exact every_instantiate isLocal_isSettled rfl ha hargs
  · exact maintains_giveUp Session.isQuiet_isGround _ _

/-- A type of a signature has no variables unless `_` is read in it. -/
theorem ground_read (t : TypeRef) (h : ∀ u ∈ t.visited, u.isHole = false) :
    Maintains Session.IsGround (t.read .signature) Ty.IsGround := by
  have hgiveUp {cause : Cause} {span : Span} :
      Maintains Session.IsGround (giveUp cause span : Check Ty) Ty.IsGround :=
    maintains_giveUp Session.isQuiet_isGround cause span
  induction t with
  | unit m => exact ground_recorded m.id (isGround_leaf rfl rfl)
  | infer m => cases h _ (TypeRef.self_mem_visited _)
  | unresolved m name args => exact hgiveUp
  | builtin m name args =>
      refine (ground_builtin? name).bind fun r hr => ?_
      cases r with
      | none => exact hgiveUp
      | some t => exact ground_recorded m.id (hr t rfl)
  | adt m name id args ih =>
      refine (ground_lookup id).bind fun r hr => ?_
      split
      · rename_i a
        split
        · rename_i hbody
          simp at hbody
        · refine (maintains_readAll fun t ht => ih t ht fun u hu =>
            h u (TypeRef.visited_arg_subset ht hu)).bind fun tys htys => ?_
          exact (ground_withArgs (hr _ rfl) htys m.span).bind fun b hb => ground_recorded m.id hb
      · exact hgiveUp
      · exact hgiveUp
  | param m name id args =>
      refine (ground_lookup id).bind fun r hr => ?_
      cases r with
      | none => exact hgiveUp
      | some t => exact ground_recorded m.id (hr t rfl)

end Check

/-! ## Declarations -/

/-- Whether `_` is read in none of the types written for these names. -/
def TypedName.AreClosed (xs : List TypedName) : Prop :=
  ∀ x ∈ xs, ∀ u ∈ x.ty.visited, u.isHole = false

namespace Declare

section

variable {demand : NodeId → Declare Unit}
  (hdemand : ∀ id, Maintains Session.IsGround (demand id) fun _ => True)
include hdemand

theorem ground_readNames {xs : List TypedName} (hxs : TypedName.AreClosed xs) :
    Maintains Session.IsGround (readNames demand xs) fun tys => ∀ t ∈ tys, t.IsGround := by
  have hread := maintains_readNames hdemand (Q := fun _ => Ty.IsGround)
    (fun x hx => Check.ground_read x.ty (hxs x hx)) fun x _ _ hty => Check.ground_record x.mark.id hty
  refine fun d hd => ⟨(hread d hd).1, fun tys htys t ht => ?_⟩
  obtain ⟨x, -, hground⟩ := (exists_of_forall₂ ((hread d hd).2 tys htys)).1 t ht
  exact hground

theorem ground_struct (item : Item) {decl : StructDecl} (hdecl : TypedName.AreClosed decl.fields) :
    Maintains Session.IsGround (struct demand item decl) fun _ => True := by
  refine (maintains_recordParams fun g _ => Check.ground_record g.1.mark.id
    (isGround_leaf rfl rfl)).bind fun _ _ => ?_
  refine (ground_readNames hdemand hdecl).bind fun tys htys => maintains_ofCheck ?_
  refine Check.ground_record item.id (every_iff.2 ⟨rfl, fun p hp => ?_⟩)
  rw [parts, Adt.parts, Option.getD_none, List.append_nil, List.mem_map] at hp
  obtain ⟨f, hf, rfl⟩ := hp
  exact htys f.ty (ty_mem_of_fields hf)

theorem ground_fn (item : Item) {decl : FnDecl} (hparams : TypedName.AreClosed decl.params)
    (hret : ∀ t ∈ decl.ret, ∀ u ∈ t.visited, u.isHole = false) :
    Maintains Session.IsGround (fn demand item decl) fun _ => True := by
  refine (ground_readNames hdemand hparams).bind fun tys htys => ?_
  have hlast {r : Ty} (hr : r.IsGround) : Maintains Session.IsGround
      (ofCheck (Check.record item.id (.fn tys r))) fun _ => True := by
    refine maintains_ofCheck (Check.ground_record item.id (every_iff.2 ⟨rfl, fun p hp => ?_⟩))
    rcases List.mem_append.1 hp with hp | hp
    · exact htys p hp
    · rwa [List.mem_singleton.1 hp]
  cases hdecl : decl.ret with
  | none => exact hlast (isGround_leaf rfl rfl)
  | some t =>
      exact (maintains_read hdemand (Check.ground_read t (hret t hdecl))).bind fun _ hr => hlast hr

theorem ground_const (item : Item) {decl : ConstDecl}
    (hdecl : ∀ u ∈ decl.ty.visited, u.isHole = false) :
    Maintains Session.IsGround (const demand item decl) fun _ => True :=
  (maintains_read hdemand (Check.ground_read decl.ty hdecl)).bind fun _ hty =>
    maintains_ofCheck (Check.ground_record item.id hty)

end

end Declare

/-! ## The signature pass -/

namespace Program

/-- Whether `_` is read nowhere in a signature. -/
def HasClosedSignatures (p : Program) : Prop :=
  ∀ item ∈ p.items, ∀ t ∈ item.kind.signatureTypes, ∀ u ∈ t.visited, u.isHole = false

instance (p : Program) : Decidable p.HasClosedSignatures := by
  unfold HasClosedSignatures
  infer_instance

variable {p : Program}

theorem HasClosedSignatures.areClosed (h : p.HasClosedSignatures) {item : Item}
    (hitem : item ∈ p.items) {xs : List TypedName} (hxs : ∀ x ∈ xs, x.ty ∈ item.kind.signatureTypes) :
    TypedName.AreClosed xs :=
  fun x hx => h item hitem x.ty (hxs x hx)

theorem ground_declare (h : p.HasClosedSignatures) {item : Item} (hitem : item ∈ p.items) :
    Declare.Maintains Session.IsGround (p.declare item) fun _ => True := by
  have hdemand (id : NodeId) : Declare.Maintains Session.IsGround (p.demand id) fun _ => True := by
    refine Declare.maintains_demand Session.isQuiet_isGround
      (fun demand id item decl hstruct hdemand => ?_) _ [] id
    obtain ⟨hmem, hkind, -⟩ := mem_of_struct? hstruct
    refine Declare.ground_struct hdemand item (h.areClosed hmem fun x hx => ?_)
    rw [hkind]
    exact List.mem_map_of_mem hx
  unfold declare
  split
  · exact hdemand item.id
  · rename_i decl hkind
    refine Declare.ground_fn hdemand item (h.areClosed hitem fun x hx => ?_) fun t ht => ?_
    · rw [hkind]
      exact List.mem_append_left _ (List.mem_map_of_mem hx)
    · refine h item hitem t ?_
      rw [hkind]
      exact List.mem_append_right _ (Option.mem_toList.2 ht)
  · rename_i decl hkind
    refine Declare.ground_const hdemand item (h item hitem decl.ty ?_)
    rw [hkind]
    exact List.mem_singleton_self decl.ty

/-- If `_` is read nowhere in a signature, then after the signature pass no recorded type mentions a
variable at any depth. -/
theorem ground_signaturePass (h : p.HasClosedSignatures) (locations : Locations) (sink : Sink)
    {id : NodeId} {t : Ty}
    (ht : (p.signaturePass (.start locations sink)).session.context.lookup id = some t) (v : VarId) :
    t.hasVar v = false := by
  have hstart : (Session.start locations sink).IsGround := by
    intro i u hu
    simp [Session.start, Context.initial, Context.bare, NodeTypes.empty, NodeTypes.find?] at hu
  have hground := maintains_declareAll (d := .start _) (fun item hitem => ground_declare h hitem)
    hstart
  exact (hground.lookup ht).not_hasVar v

/-- A struct that is declared on demand, with its argument in the type of a field. -/
theorem ground_signaturePass_nested :
    let wrapper : Item := ⟨⟨2, ⟨2, 3⟩⟩, "W", .struct ⟨.named, [⟨⟨0, ⟨0, 1⟩⟩, "T"⟩],
      [⟨⟨1, ⟨1, 2⟩⟩, "x", .path ⟨3, ⟨3, 4⟩⟩ "T" (some (.param 0)) []⟩]⟩⟩
    let holder : Item := ⟨⟨7, ⟨7, 8⟩⟩, "S", .struct ⟨.named, [], [⟨⟨6, ⟨6, 7⟩⟩, "w",
      .path ⟨5, ⟨5, 6⟩⟩ "W" (some (.adt 2)) [.path ⟨4, ⟨4, 5⟩⟩ "i32" (some .builtin) []]⟩]⟩⟩
    let p : Program := ⟨[holder, wrapper]⟩
    let c := (p.signaturePass (.start ⟨Array.replicate 8 ⟨0, 1⟩⟩ .fresh)).session.context
    p.HasClosedSignatures ∧ (c.lookup 7).isSome ∧
      ∀ t, c.lookup 7 = some t → ∀ v, t.hasVar v = false := by
  intro wrapper holder p c
  have hclosed : p.HasClosedSignatures := by decide +kernel
  exact ⟨hclosed, by decide +kernel, fun t ht => ground_signaturePass hclosed _ _ ht⟩

/-- A field of type `_` is recorded with a variable, and nothing is reported. -/
theorem not_ground_signaturePass_hole :
    let p : Program := ⟨[⟨⟨2, ⟨2, 3⟩⟩, "S", .struct ⟨.named, [],
      [⟨⟨1, ⟨1, 2⟩⟩, "x", .infer ⟨0, ⟨0, 1⟩⟩⟩]⟩⟩]⟩
    let s := (p.signaturePass (.start ⟨Array.replicate 3 ⟨0, 1⟩⟩ .fresh)).session
    p.ids.Nodup ∧ s.sink.errors = [] ∧
      ¬∀ item ∈ p.items, ∀ t, s.context.lookup item.id = some t → ∀ v, t.hasVar v = false := by
  intro p s
  let struct : Ty := .adt ⟨2, "S", .named, [⟨"x", .infer .general 0, 0⟩], [], none⟩
  have hstruct : s.context.lookup 2 = some struct := by decide +kernel
  refine ⟨by decide +kernel, by decide +kernel, fun hground => ?_⟩
  have hvar : struct.hasVar 0 = false := hground _ List.mem_cons_self struct hstruct 0
  cases hvar

end Program

end TypeInference

import TypeInference.Proofs.Check.Instances
import TypeInference.Proofs.Check.RearrangedBodies
import TypeInference.Proofs.Check.Soundness

/-!
# The order of the fields of a literal does not matter

Signatures do not depend on bodies. After them the runs with the fields in one
order and in the other are twins, and twins have the same defaults. So a
program is lowerable with the fields of its literals in any order if it is with
them in some order, and the rewritten programs and the types are the same.
-/

namespace TypeInference

open Ty Walk Check

variable {W : Setting} {P : Pairing} {o o' : FieldOrder} {s s' : Session} {p : Program} {item : Item}
  {D : Declarations} {locations : Locations}

/-! ## Items -/

/-- An item is checked alike with the fields in its body in either order. -/
theorem Walk.follows_checkItem
    (hplain : (∀ decl, item.kind ≠ .struct decl) → ¬W.scope.isStruct item.id)
    (h : W.Rearranges o o' item.bodyIds item.kind.bodyResolutions item.kind.literals) :
    Follows (.twins W) P (item.arranged o).check (item.arranged o').check
      fun _ n n' _ _ => n' = n := by
  obtain ⟨mark, name, kind⟩ := item
  cases kind with
  | struct decl => exact follows_leaf (follows_pure rfl)
  | fn decl =>
      refine follows_first (follows_returnType (hplain (by simp))) (fun _ => ?_) fun Q t t' _ ht => ?_
      · exact keepsErrors_child (Block.steady _).keepsErrors fun _ _ =>
          keepsErrors_leaf (keepsErrors_requireType _ _ _)
      · refine follows_child (follows_check.2.1 decl.body h Q)
          (fun _ _ => keepsErrors_leaf (keepsErrors_requireType _ _ _)) ?_
        rintro R n n' u u' hlead ⟨rfl, hu⟩
        exact follows_leaf ((follows_requireType _ (ht.mono hlead) hu).imp fun _ _ _ _ _ => rfl)
  | const decl =>
      refine follows_first (follows_constType (hplain (by simp))) (fun _ => ?_) fun Q t t' _ ht => ?_
      · exact keepsErrors_child (Expr.steady _).keepsErrors fun _ _ =>
          keepsErrors_leaf (keepsErrors_requireType _ _ _)
      · refine follows_child (follows_check.1 decl.value h Q)
          (fun _ _ => keepsErrors_leaf (keepsErrors_requireType _ _ _)) ?_
        rintro R n n' u u' hlead ⟨rfl, hu⟩
        exact follows_leaf ((follows_requireType _ (ht.mono hlead) hu).imp fun _ _ _ _ _ => rfl)

namespace Program

/-- Bodies that are checked in twins leave twins, and the same rewritten items. -/
theorem twins_checkAll {items : List Item}
    (h : ∀ item ∈ items, ∀ P, Follows (.twins W) P (item.arranged o).check (item.arranged o').check
      fun _ n n' _ _ => n' = n) (hs : P.Twins W s s')
    (hended : (checkAll (items.map (Item.arranged o)) s).2.1 = .ok ())
    (herrors : (checkAll (items.map (Item.arranged o)) s).2.2.sink.errors = []) :
    ∃ (Q : Pairing) (u' : Session), checkAll (items.map (Item.arranged o')) s' =
        ((checkAll (items.map (Item.arranged o)) s).1, .ok (), u') ∧
      Q.Twins W (checkAll (items.map (Item.arranged o)) s).2.2 u' := by
  induction items generalizing P s s' with
  | nil => exact ⟨P, s', rfl, hs⟩
  | cons item rest ih =>
      simp only [List.map_cons] at hended herrors ⊢
      obtain ⟨hok, heq⟩ := checkAll_cons_of_errors hended herrors
      rw [heq] at hended herrors ⊢
      obtain ⟨Q, _, -, htwins, hok', hnode⟩ := h item List.mem_cons_self P s s' hs () hok
        ((grows_checkAll _ _).errors_eq_nil herrors)
      obtain ⟨R, u', hrest, htwins'⟩ := ih (fun i hi => h i (List.mem_cons_of_mem _ hi)) htwins hended
        herrors
      refine ⟨R, u', ?_, htwins'⟩
      rw [checkAll_cons_of_ok hok', hrest, hnode]

/-! ## Signatures -/

section

variable (p o)

/-- Structs have no body, so they stay as they are. -/
theorem structs_arranged : (p.arranged o).structs = p.structs := by
  rw [structs, structs, arranged, List.filterMap_map]
  refine congrArg (List.filterMap · p.items) (funext fun item => ?_)
  obtain ⟨mark, name, kind⟩ := item
  cases kind <;> rfl

theorem demand_arranged : (p.arranged o).demand = p.demand := by
  funext id
  have hstruct : (p.arranged o).struct? = p.struct? := by
    funext id
    rw [struct?, structs_arranged, ← struct?]
  rw [demand, hstruct, structs_arranged, ← demand]

theorem declare_arranged (item : Item) : (p.arranged o).declare (item.arranged o) = p.declare item := by
  obtain ⟨mark, name, kind⟩ := item
  unfold declare
  rw [demand_arranged]
  cases kind <;> rfl

theorem declareAll_arranged (items : List Item) (d : Declaring) :
    (p.arranged o).declareAll (items.map (Item.arranged o)) d = p.declareAll items d := by
  induction items generalizing d with
  | nil => rfl
  | cons item rest ih =>
      rw [List.map_cons, declareAll, declareAll, declare_arranged]
      split
      · rfl
      · rfl
      · exact ih _

end

def setting (p : Program) (D : Declarations) (base : Nat) : Setting where
  shapes := p.shapes
  scope := (p.scope D).withoutParams
  base := base
  indexed := p.shapes_isIndexed
  noParams _ _ h := h

section

variable (hnodup : p.ids.Nodup) (hlocated : ∀ id ∈ p.ids, id < locations.size) (hp : p.WellResolved)
include hnodup hlocated hp

/-- A signature pass that reports nothing leaves a session that is its own twin. -/
theorem twins_signatures {d : Declaring}
    (hrun : p.declareAll p.items (.start (.start locations .fresh)) = (.ok (), d))
    (herrors : d.session.sink.errors = []) :
    ∃ (D : Declarations) (P : Pairing), P.Twins (p.setting D locations.size) d.session d.session := by
  have hsignatures := (List.nodup_append.1 (p.ids_perm.nodup_iff.1 hnodup)).1
  obtain ⟨kinds, hsound, -⟩ := sound_signatures hnodup hlocated hrun herrors
  obtain ⟨D, hD⟩ := declares_declareAll hsignatures hp (fun _ h => h)
    (d := .start (.start locations .fresh)) (declares_start (located_structs hlocated) .fresh)
  have hgrows := p.grows_declareAll (fun _ h => h) (.start (.start locations .fresh))
  rw [hrun] at hD hgrows
  have hclean : d.session.IsClean (p.setting D locations.size) kinds :=
    ⟨hsound, hD.withoutParams, hgrows.size_le, herrors⟩
  exact ⟨D, _, hclean.same⟩

/-- The nodes of a body are no structs, and the names in it are those of builtin types and structs. -/
theorem rearranges_body (hitem : item ∈ p.items)
    (hapart : ∀ l ∈ item.kind.literals, l.2.all FieldInit.isLeaf →
      o.arrange l.1 l.2 ≠ o'.arrange l.1 l.2 → l.2.Pairwise FieldInit.Apart) :
    (p.setting D locations.size).Rearranges o o' item.bodyIds item.kind.bodyResolutions
      item.kind.literals := by
  have hids := List.nodup_append.1 (p.ids_perm.nodup_iff.1 hnodup)
  refine ⟨⟨fun id hid => ⟨fun hstruct => ?_, ?_⟩, fun r hr => ?_⟩, ?_, hapart⟩
  · obtain ⟨⟨item', decl⟩, hx⟩ := Option.isSome_iff_exists.1 hstruct
    obtain ⟨hitem', -, rfl⟩ := mem_of_struct? hx
    exact hids.2.2 _ (signatureIds_subset hitem').1 _ (List.mem_flatMap.2 ⟨item, hitem, hid⟩) rfl
  · exact hlocated id (p.ids_perm.mem_iff.2
      (List.mem_append_right _ (List.mem_flatMap.2 ⟨item, hitem, hid⟩)))
  · rcases hp.body hitem hr with rfl | ⟨item', hitem', rfl, decl, hkind⟩
    · exact .inl rfl
    · refine .inr ⟨_, rfl, ?_⟩
      show (p.struct? item'.id).isSome
      rw [struct?_of_mem hids.1 hitem' hkind]
      rfl
  · exact (List.nodup_flatMap.1 hids.2.1).1 item hitem

end

end Program

/-! ## The fallback -/

/-- Types that are alike get the same defaults, if one of them has defaults. -/
theorem Ty.Alike.rel_withDefaults {r r' : Option Ty} (h : Option.Rel Alike r r')
    (hr : ∀ t, r = some t → t.firstUnresolved? = none) (defaults : Defaults) :
    (∀ t', r' = some t' → t'.firstUnresolved? = none) ∧
      r'.map (Ty.withDefaults defaults) = r.map (Ty.withDefaults defaults) := by
  cases h with
  | none => exact ⟨by simp, rfl⟩
  | some halike =>
      have ht := hr _ rfl
      refine ⟨fun t' ht' => ?_, congrArg some (halike.withDefaults ht defaults)⟩
      rw [← Option.some.inj ht']
      exact halike.firstUnresolved? ht

namespace Pairing.Twins

variable (h : P.Twins W s s')
include h

/-- The types of a node in twins are alike, also those of a struct. -/
theorem rel_lookup (id : NodeId) :
    Option.Rel Ty.Alike (s.context.lookup id) (s'.context.lookup id) := by
  by_cases hid : W.scope.isStruct id
  · rw [h.holds.left.lookup_struct hid, h.holds.right.lookup_struct hid]
    cases W.scope.structs id with
    | none => exact .none
    | some d => exact .some rfl
  · exact rel_mono (h.alike_lookup hid) fun _ _ ht => ht.2

/-- If the fallback reports nothing, it reports nothing for the twin, and leaves the same types. -/
theorem applyDefaults (herrors : (Check.applyDefaults.perform s).2.sink.errors = []) :
    (Check.applyDefaults.perform s').2.sink.errors = [] ∧ ∀ id,
      (Check.applyDefaults.perform s').2.context.lookup id =
        (Check.applyDefaults.perform s).2.context.lookup id := by
  have hs := h.holds.left
  have hs' := h.holds.right
  have hresolved := (errors_applyDefaults_iff hs.sound.builtins hs.errors_eq).1 herrors
  have hdefaults (id : NodeId) :=
    Ty.Alike.rel_withDefaults (h.rel_lookup id) (hresolved id) .prims
  have herrors' := (errors_applyDefaults_iff hs'.sound.builtins hs'.errors_eq).2 fun id =>
    (hdefaults id).1
  refine ⟨herrors', fun id => ?_⟩
  rw [lookup_applyDefaults hs'.sound.builtins herrors', lookup_applyDefaults hs.sound.builtins herrors]
  exact (hdefaults id).2

end Pairing.Twins

/-! ## The check -/

namespace Program

section

variable (hnodup : p.ids.Nodup) (hlocated : ∀ id ∈ p.ids, id < locations.size) (hp : p.WellResolved)
include hnodup hlocated hp

/-- A program that is lowerable with the fields in one order is so with them in the other. -/
theorem lowerable_arranged (o o' : FieldOrder)
    (hapart : ∀ l ∈ p.literals, l.2.all FieldInit.isLeaf →
      o.arrange l.1 l.2 ≠ o'.arrange l.1 l.2 → l.2.Pairwise FieldInit.Apart)
    (hok : ((p.arranged o).check locations .fresh).outcome = .ok .lowerable) :
    ((p.arranged o').check locations .fresh).outcome = .ok .lowerable ∧
      ((p.arranged o').check locations .fresh).program =
        ((p.arranged o).check locations .fresh).program ∧
      ∀ id, ((p.arranged o').check locations .fresh).typeOf id =
        ((p.arranged o).check locations .fresh).typeOf id := by
  obtain ⟨d, items, s, hdeclare, herrors₁, hcheck, herrors₂, -, herrors₃, hprogram, hsession⟩ :=
    passes_of_lowerable hok
  have hdeclared : p.declareAll p.items (.start (.start locations .fresh)) = (.ok (), d) :=
    (p.declareAll_arranged o p.items _).symm.trans hdeclare
  obtain ⟨D, P, hstart⟩ := twins_signatures hnodup hlocated hp hdeclared herrors₁
  have hids := List.nodup_append.1 (p.ids_perm.nodup_iff.1 hnodup)
  have hitems : ∀ item ∈ p.items, ∀ P, Follows (.twins (p.setting D locations.size)) P
      (item.arranged o).check (item.arranged o').check fun _ n n' _ _ => n' = n := by
    intro item hitem P
    refine follows_checkItem (fun hkind hstruct => ?_)
      (rearranges_body hnodup hlocated hp hitem fun l hl =>
        hapart l (List.mem_flatMap.2 ⟨item, hitem, hl⟩))
    have hsome : (p.struct? item.id).isSome := hstruct
    simp [struct?_eq_none_of_kind hids.1 hitem hkind] at hsome
  have hcheck₁ : checkAll (p.items.map (Item.arranged o)) d.session = (items, .ok (), s) := hcheck
  obtain ⟨Q, u', hcheck', htwins⟩ := twins_checkAll hitems hstart (by rw [hcheck₁])
    (by rw [hcheck₁]; exact herrors₂)
  rw [hcheck₁] at hcheck' htwins
  obtain ⟨herrors₃', htypes⟩ := htwins.applyDefaults herrors₃
  have hdeclare' : (p.arranged o').declareAll (p.arranged o').items
      (.start (.start locations .fresh)) = (.ok (), d) :=
    (p.declareAll_arranged o' p.items _).trans hdeclared
  have hcheck₂ : checkAll (p.arranged o').items d.session = (items, .ok (), u') := hcheck'
  have hcheck' := check_of_passes hdeclare' herrors₁ hcheck₂ htwins.holds.right.errors_eq herrors₃'
  rw [hcheck']
  refine ⟨rfl, hprogram.symm, fun id => ?_⟩
  rw [Checked.typeOf, Checked.typeOf, hsession]
  exact htypes id

/--
The order in which the fields of literals are written does not matter, where
their values are leaves and no value is a path to a node of another field of
the literal: in any order the program is lowerable if it is in the order
written, the rewritten programs are the same, and every node has the same type.
-/
theorem check_arranged (o : FieldOrder)
    (hapart : ∀ l ∈ p.literals, l.2.all FieldInit.isLeaf → o.arrange l.1 l.2 ≠ l.2 →
      l.2.Pairwise FieldInit.Apart) :
    (((p.arranged o).check locations .fresh).outcome = .ok .lowerable ↔
        (p.check locations .fresh).outcome = .ok .lowerable) ∧
      ((p.check locations .fresh).outcome = .ok .lowerable →
        ((p.arranged o).check locations .fresh).program = (p.check locations .fresh).program ∧
        ∀ id, ((p.arranged o).check locations .fresh).typeOf id =
          (p.check locations .fresh).typeOf id) := by
  have hforth := lowerable_arranged hnodup hlocated hp .written o
    fun l hl hleaf hne => hapart l hl hleaf (Ne.symm hne)
  have hback := lowerable_arranged hnodup hlocated hp o .written hapart
  rw [p.arranged_written] at hforth hback
  exact ⟨⟨fun hok => (hback hok).1, fun hok => (hforth hok).1⟩, fun hok => (hforth hok).2⟩

end

/-- A literal of a generic struct whose argument is known from the second field only. -/
theorem check_arranged_reversed :
    let reversed : FieldOrder := ⟨fun _ fields => fields.reverse, fun _ fields => fields.reverse_perm⟩
    let generic (id : NodeId) : TypeRef := .path ⟨id, ⟨id, id + 1⟩⟩ "T" (some (.param 0)) []
    let pair : Item := ⟨⟨5, ⟨5, 6⟩⟩, "Pair", .struct ⟨.named, [⟨⟨0, ⟨0, 1⟩⟩, "T"⟩],
      [⟨⟨2, ⟨2, 3⟩⟩, "x", generic 1⟩, ⟨⟨4, ⟨4, 5⟩⟩, "y", generic 3⟩]⟩⟩
    let literal : Expr := .struct ⟨11, ⟨11, 12⟩⟩ (.ident "Pair" (some 5)) ⟨11, 12⟩
      [.named ⟨9, ⟨9, 10⟩⟩ "x" (.lit ⟨8, ⟨8, 9⟩⟩ (.int 1 none)), .short ⟨10, ⟨10, 11⟩⟩ "y" (some 7)] none
    let make : Item := ⟨⟨14, ⟨14, 15⟩⟩, "make", .fn ⟨[⟨⟨7, ⟨7, 8⟩⟩, "y",
      .path ⟨6, ⟨6, 7⟩⟩ "u8" (some .builtin) []⟩], none,
      .mk ⟨13, ⟨13, 14⟩⟩ [.semi ⟨12, ⟨12, 13⟩⟩ literal] none⟩⟩
    let p : Program := ⟨[pair, make]⟩
    let c := p.check ⟨Array.replicate 15 ⟨0, 1⟩⟩ .fresh
    let c' := (p.arranged reversed).check ⟨Array.replicate 15 ⟨0, 1⟩⟩ .fresh
    p.ids.Nodup ∧ (∀ id ∈ p.ids, id < 15) ∧ p.WellResolved ∧
      (∀ l ∈ p.literals, l.2.Pairwise FieldInit.Apart) ∧
      c.outcome = .ok .lowerable ∧ c.typeOf 8 = some (.prim .u8) ∧
      c'.outcome = .ok .lowerable ∧ c'.program = c.program ∧ c'.typeOf 8 = some (.prim .u8) := by
  intro reversed generic pair literal make p c c'
  have hnodup : p.ids.Nodup := by decide +kernel
  have hlocated : ∀ id ∈ p.ids, id < (⟨Array.replicate 15 ⟨0, 1⟩⟩ : Locations).size := by
    decide +kernel
  have hp : p.WellResolved := by decide +kernel
  have hapart : ∀ l ∈ p.literals, l.2.Pairwise FieldInit.Apart := by decide +kernel
  have hok : c.outcome = .ok .lowerable := by decide +kernel
  have htype : c.typeOf 8 = some (.prim .u8) := by decide +kernel
  -- From here on the program need not be evaluated.
  clear_value p
  obtain ⟨hiff, hsame⟩ := check_arranged hnodup hlocated hp reversed fun l hl _ _ => hapart l hl
  obtain ⟨hprogram, htypes⟩ := hsame hok
  exact ⟨hnodup, hlocated, hp, hapart, hok, htype, hiff.2 hok, hprogram, (htypes 8).trans htype⟩

/-- A literal with a field whose value is a path to the value of another field. In the order written
that value has no type yet when the path is checked; in the other order it has one. -/
theorem not_check_arranged_crossed :
    let reversed : FieldOrder := ⟨fun _ fields => fields.reverse, fun _ fields => fields.reverse_perm⟩
    let int (id : NodeId) : TypeRef := .path ⟨id, ⟨id, id + 1⟩⟩ "i32" (some .builtin) []
    let pair : Item := ⟨⟨4, ⟨4, 5⟩⟩, "Pair", .struct ⟨.named, [],
      [⟨⟨1, ⟨1, 2⟩⟩, "x", int 0⟩, ⟨⟨3, ⟨3, 4⟩⟩, "y", int 2⟩]⟩⟩
    let fields : List FieldInit := [.named ⟨6, ⟨6, 7⟩⟩ "y" (.path ⟨5, ⟨5, 6⟩⟩ (.ident "v" (some 7))),
      .named ⟨8, ⟨8, 9⟩⟩ "x" (.lit ⟨7, ⟨7, 8⟩⟩ (.int 1 none))]
    let literal : Expr := .struct ⟨10, ⟨10, 11⟩⟩ (.ident "Pair" (some 4)) ⟨9, 10⟩ fields none
    let make : Item := ⟨⟨13, ⟨13, 14⟩⟩, "make",
      .fn ⟨[], none, .mk ⟨12, ⟨12, 13⟩⟩ [.semi ⟨11, ⟨11, 12⟩⟩ literal] none⟩⟩
    let p : Program := ⟨[pair, make]⟩
    p.ids.Nodup ∧ (∀ id ∈ p.ids, id < 14) ∧ p.literals = [(10, fields)] ∧
      fields.all FieldInit.isLeaf ∧
      (p.check ⟨Array.replicate 14 ⟨0, 1⟩⟩ .fresh).outcome = .ok (.rejected .bodies) ∧
      ((p.arranged reversed).check ⟨Array.replicate 14 ⟨0, 1⟩⟩ .fresh).outcome = .ok .lowerable := by
  intro reversed int pair fields literal make p
  exact ⟨by decide +kernel, by decide +kernel, rfl, rfl, by decide +kernel, by decide +kernel⟩

/-- A literal with a field whose generic argument is read as the value of another field. No field is a
path to a node of the other, but the argument has no type yet in the order written either. -/
theorem not_check_arranged_misread :
    let reversed : FieldOrder := ⟨fun _ fields => fields.reverse, fun _ fields => fields.reverse_perm⟩
    let int (id : NodeId) : TypeRef := .path ⟨id, ⟨id, id + 1⟩⟩ "i32" (some .builtin) []
    let wrap : Item := ⟨⟨3, ⟨3, 4⟩⟩, "Wrap", .struct ⟨.named, [⟨⟨0, ⟨0, 1⟩⟩, "T"⟩],
      [⟨⟨2, ⟨2, 3⟩⟩, "v", .path ⟨1, ⟨1, 2⟩⟩ "T" (some (.param 0)) []⟩]⟩⟩
    let pair : Item := ⟨⟨9, ⟨9, 10⟩⟩, "Pair", .struct ⟨.named, [],
      [⟨⟨5, ⟨5, 6⟩⟩, "x", int 4⟩,
        ⟨⟨8, ⟨8, 9⟩⟩, "y", .path ⟨7, ⟨7, 8⟩⟩ "Wrap" (some (.adt 3)) [int 6]⟩]⟩⟩
    let written : Path := ⟨[⟨"Wrap", [.path ⟨10, ⟨10, 11⟩⟩ "N" (some (.param 13)) []]⟩], some 3⟩
    let fields : List FieldInit := [.named ⟨12, ⟨12, 13⟩⟩ "y" (.path ⟨11, ⟨11, 12⟩⟩ written),
      .named ⟨14, ⟨14, 15⟩⟩ "x" (.lit ⟨13, ⟨13, 14⟩⟩ (.int 1 none))]
    let literal : Expr := .struct ⟨16, ⟨16, 17⟩⟩ (.ident "Pair" (some 9)) ⟨15, 16⟩ fields none
    let make : Item := ⟨⟨19, ⟨19, 20⟩⟩, "make",
      .fn ⟨[], none, .mk ⟨18, ⟨18, 19⟩⟩ [.semi ⟨17, ⟨17, 18⟩⟩ literal] none⟩⟩
    let p : Program := ⟨[wrap, pair, make]⟩
    p.ids.Nodup ∧ (∀ id ∈ p.ids, id < 20) ∧ p.literals = [(16, fields)] ∧
      fields.Pairwise FieldInit.Apart ∧
      (p.check ⟨Array.replicate 20 ⟨0, 1⟩⟩ .fresh).outcome = .ok (.rejected .bodies) ∧
      ((p.arranged reversed).check ⟨Array.replicate 20 ⟨0, 1⟩⟩ .fresh).outcome = .ok .lowerable := by
  intro reversed int wrap pair written fields literal make p
  exact ⟨by decide +kernel, by decide +kernel, rfl, by decide +kernel, by decide +kernel,
    by decide +kernel⟩

/-- A struct with an inferred field, and a literal of it that makes the field a parameter of the
struct. A path to the struct in another field is an instance of what the struct is by then. -/
theorem not_check_arranged_hole :
    let reversed : FieldOrder := ⟨fun _ fields => fields.reverse, fun _ fields => fields.reverse_perm⟩
    let pair : Item := ⟨⟨5, ⟨5, 6⟩⟩, "Pair", .struct ⟨.named, [⟨⟨0, ⟨0, 1⟩⟩, "T"⟩],
      [⟨⟨2, ⟨2, 3⟩⟩, "x", .infer ⟨1, ⟨1, 2⟩⟩⟩,
        ⟨⟨4, ⟨4, 5⟩⟩, "y", .path ⟨3, ⟨3, 4⟩⟩ "T" (some (.param 0)) []⟩]⟩⟩
    let written : Path := ⟨[⟨"Pair", [.path ⟨8, ⟨8, 9⟩⟩ "i32" (some .builtin) []]⟩], some 5⟩
    let fields : List FieldInit := [.named ⟨7, ⟨7, 8⟩⟩ "x" (.path ⟨6, ⟨6, 7⟩⟩ (.ident "T" (some 0))),
      .named ⟨10, ⟨10, 11⟩⟩ "y" (.path ⟨9, ⟨9, 10⟩⟩ written)]
    let literal : Expr := .struct ⟨12, ⟨12, 13⟩⟩ (.ident "Pair" (some 5)) ⟨11, 12⟩ fields none
    let make : Item := ⟨⟨15, ⟨15, 16⟩⟩, "make",
      .fn ⟨[], none, .mk ⟨14, ⟨14, 15⟩⟩ [.semi ⟨13, ⟨13, 14⟩⟩ literal] none⟩⟩
    let p : Program := ⟨[pair, make]⟩
    let c := p.check ⟨Array.replicate 16 ⟨0, 1⟩⟩ .fresh
    let c' := (p.arranged reversed).check ⟨Array.replicate 16 ⟨0, 1⟩⟩ .fresh
    p.ids.Nodup ∧ (∀ id ∈ p.ids, id < 16) ∧ p.literals = [(12, fields)] ∧
      fields.Pairwise FieldInit.Apart ∧ c.outcome = .ok .lowerable ∧ c'.outcome = .ok .lowerable ∧
      c'.typeOf 9 ≠ c.typeOf 9 := by
  intro reversed pair written fields literal make p c c'
  exact ⟨by decide +kernel, by decide +kernel, rfl, by decide +kernel, by decide +kernel,
    by decide +kernel, by decide +kernel⟩

/-- Without locations, a node that is made for a literal takes the id of the struct `G`, which from then
on is an instance. A later literal makes its argument a parameter of `G`, and what `G` is in a type
written in another field depends on whether that is so by then. -/
theorem not_check_arranged_unlocated :
    let reversed : FieldOrder := ⟨fun _ fields => fields.reverse, fun _ fields => fields.reverse_perm⟩
    let int (id : NodeId) : TypeRef := .path ⟨id, ⟨id, id + 1⟩⟩ "i32" (some .builtin) []
    let wrap : Item := ⟨⟨0, ⟨0, 1⟩⟩, "G", .struct ⟨.named, [⟨⟨6, ⟨6, 7⟩⟩, "T"⟩],
      [⟨⟨7, ⟨7, 8⟩⟩, "x", .path ⟨1, ⟨1, 2⟩⟩ "T" (some (.param 6)) []⟩]⟩⟩
    let holder : Item := ⟨⟨13, ⟨13, 14⟩⟩, "H",
      .struct ⟨.named, [⟨⟨8, ⟨8, 9⟩⟩, "A"⟩, ⟨⟨9, ⟨9, 10⟩⟩, "B"⟩],
      [⟨⟨10, ⟨10, 11⟩⟩, "g", .path ⟨2, ⟨2, 3⟩⟩ "G" (some (.adt 0))
          [.path ⟨3, ⟨3, 4⟩⟩ "A" (some (.param 8)) []]⟩,
        ⟨⟨11, ⟨11, 12⟩⟩, "w", .path ⟨4, ⟨4, 5⟩⟩ "B" (some (.param 9)) []⟩,
        ⟨⟨12, ⟨12, 13⟩⟩, "z", .path ⟨5, ⟨5, 6⟩⟩ "A" (some (.param 8)) []⟩]⟩⟩
    let base (id : NodeId) : Option Expr := some (.path ⟨id, ⟨id, id + 1⟩⟩ (.ident "b" (some 15)))
    let written : Path := ⟨[⟨"H", [.path ⟨21, ⟨21, 22⟩⟩ "G" (some (.adt 0)) [int 20], int 22]⟩], some 13⟩
    let fields : List FieldInit := [.named ⟨24, ⟨24, 25⟩⟩ "w" (.path ⟨23, ⟨23, 24⟩⟩ written),
      .named ⟨26, ⟨26, 27⟩⟩ "z" (.path ⟨25, ⟨25, 26⟩⟩ (.ident "T" (some 6)))]
    let literal (id : NodeId) (fields : List FieldInit) (base : Option Expr) : Expr :=
      .struct ⟨id, ⟨id, id + 1⟩⟩ (.ident "b" (some 15)) ⟨id, id + 1⟩ fields base
    let make : Item := ⟨⟨31, ⟨31, 32⟩⟩, "make", .fn ⟨[], none, .mk ⟨30, ⟨30, 31⟩⟩
      [.bind ⟨16, ⟨16, 17⟩⟩ 15 "b" none (some (.path ⟨14, ⟨14, 15⟩⟩ (.ident "H" (some 13)))),
        .semi ⟨19, ⟨19, 20⟩⟩ (literal 18 [] (base 17)),
        .semi ⟨29, ⟨29, 30⟩⟩ (literal 28 fields (base 27))] none⟩⟩
    let p : Program := ⟨[wrap, holder, make]⟩
    let c := p.check ⟨#[]⟩ .fresh
    let c' := (p.arranged reversed).check ⟨#[]⟩ .fresh
    p.ids.Nodup ∧ p.WellResolved ∧ p.literals = [(18, []), (28, fields)] ∧
      fields.Pairwise FieldInit.Apart ∧ c.outcome = .ok .lowerable ∧ c'.outcome = .ok .lowerable ∧
      c'.typeOf 23 ≠ c.typeOf 23 := by
  intro reversed int wrap holder base written fields literal make p c c'
  exact ⟨by decide +kernel, by decide +kernel, rfl, by decide +kernel, by decide +kernel,
    by decide +kernel, by decide +kernel⟩

end Program

end TypeInference

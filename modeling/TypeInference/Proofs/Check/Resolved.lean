import TypeInference.Proofs.Check.Fallback
import TypeInference.Proofs.Check.Maintained
import TypeInference.Proofs.Check.ResolvedBodies
import TypeInference.Proofs.Check.SignatureTable

/-!
# References in lowerable programs are resolved

A struct is recorded once its fields have been read, whichever item demanded it,
and functions and constants are recorded once their types have been read. So a
check that reports nothing has found every reference resolved that it has to
follow.
-/

namespace TypeInference

open Check

/-! ## Signatures -/

/-- Whether a struct that has a type has the declared one, and its fields have been read. -/
def Session.Established (structs : NodeId → Option (Item × StructDecl)) (s : Session) : Prop :=
  ∀ id item decl, structs id = some (item, decl) → ∀ t, s.context.types.find? id = some t →
    (∃ tys, t = decl.declared item tys) ∧
      Reference.Resolve (ItemKind.struct decl).signatureLookups

variable {structs : NodeId → Option (Item × StructDecl)} {ids : List NodeId} {α : Type}

theorem Session.isQuiet_established : IsQuiet (Session.Established structs) :=
  fun _ _ _ hs => hs

/-- What is recorded for other nodes changes nothing. -/
theorem Check.established_of_steady {x : Check α} {Q : α → Prop} (hx : Steady ids x)
    (hlocations : AllocatesNone x) (hids : ∀ i ∈ ids, structs i = none)
    (hQ : ∀ s a, (x.perform s).1 = .ok a → Q a) :
    Maintains (Session.Established structs) x Q := by
  refine fun s hs => ⟨fun id item decl hstruct t ht => hs id item decl hstruct t ?_, hQ s⟩
  by_contra hne
  rcases (hx.grows s).changed id (fun heq => hne (heq.symm.trans ht)) with hid | ⟨hle, hlt⟩
  · rw [hids id hid] at hstruct
    cases hstruct
  · rw [hlocations s] at hlt
    exact Nat.not_lt.2 hle hlt

theorem Check.established_record {id : NodeId} (t : Ty) (hid : structs id = none) :
    Maintains (Session.Established structs) (record id t) fun _ => True :=
  established_of_steady (steady_record (List.mem_singleton_self id) t) (fun _ => rfl)
    (fun i hi => by rwa [List.mem_singleton.1 hi]) fun _ _ _ => trivial

theorem Check.established_read {t : TypeRef} (ht : ∀ i ∈ t.ids, structs i = none) :
    Maintains (Session.Established structs) (t.read .signature)
      fun _ => Reference.Resolve t.lookups :=
  established_of_steady (steady_read (List.Subset.refl t.ids)) (allocatesNone_read .signature t) ht
    fun _ _ hok => t.resolve_of_read hok

namespace Declare

section

variable {demand : NodeId → Declare Unit}
  (hdemand : ∀ id, Maintains (Session.Established structs) (demand id) fun _ => True)
include hdemand

theorem established_readNames {xs : List TypedName}
    (hxs : ∀ i ∈ xs.flatMap TypedName.ids, structs i = none) :
    Maintains (Session.Established structs) (readNames demand xs)
      fun _ => Reference.Resolve ((xs.map TypedName.ty).flatMap TypeRef.lookups) := by
  have hnone {x : TypedName} (hx : x ∈ xs) (i : NodeId) (hi : i ∈ x.ids) : structs i = none :=
    hxs i (List.mem_flatMap.2 ⟨x, hx, hi⟩)
  have hread := maintains_readNames hdemand (Q := fun x _ => Reference.Resolve x.ty.lookups)
    (fun x hx => established_read fun i hi => hnone hx i (List.mem_cons_of_mem _ hi))
    fun x hx ty _ => established_record ty (hnone hx x.mark.id List.mem_cons_self)
  refine fun d hd => ⟨(hread d hd).1, fun tys htys r hr => ?_⟩
  obtain ⟨t, ht, hr⟩ := List.mem_flatMap.1 hr
  obtain ⟨x, hx, rfl⟩ := List.mem_map.1 ht
  obtain ⟨-, -, hresolve⟩ := (exists_of_forall₂ ((hread d hd).2 tys htys)).2 x hx
  exact hresolve r hr

theorem established_struct {item : Item} {decl : StructDecl}
    (hstruct : structs item.id = some (item, decl))
    (hnone : ∀ i ∈ (ItemKind.struct decl).signatureIds, structs i = none) :
    Maintains (Session.Established structs) (struct demand item decl) fun _ => True := by
  simp only [ItemKind.signatureIds, List.mem_append] at hnone
  refine (maintains_recordParams fun g hg => established_record _ (hnone _ (.inl ?_))).bind
    fun _ _ => ?_
  · exact List.mem_map_of_mem (List.of_mem_zip hg).1
  refine (established_readNames hdemand fun i hi => hnone i (.inr hi)).bind fun tys hresolve => ?_
  refine maintains_ofCheck fun s hs => ⟨fun id item' decl' hstruct' t ht => ?_, fun _ _ => trivial⟩
  by_cases hid : id = item.id
  · obtain ⟨rfl, rfl⟩ : item = item' ∧ decl = decl' := by
      rw [hid, hstruct] at hstruct'
      simpa using hstruct'
    refine ⟨⟨tys, ?_⟩, hresolve⟩
    simpa [Context.insert, hid, eq_comm, StructDecl.declared] using ht
  · exact hs id item' decl' hstruct' t (by simpa [Context.insert, hid] using ht)

theorem established_fn {item : Item} {decl : FnDecl} (hid : structs item.id = none)
    (hnone : ∀ i ∈ (ItemKind.fn decl).signatureIds, structs i = none) :
    Maintains (Session.Established structs) (fn demand item decl)
      fun _ => Reference.Resolve (ItemKind.fn decl).signatureLookups := by
  simp only [ItemKind.signatureIds, List.mem_append] at hnone
  refine (established_readNames hdemand fun i hi => hnone i (.inl hi)).bind fun tys hparams => ?_
  rw [ItemKind.signatureLookups, ItemKind.signatureTypes, List.flatMap_append]
  have hlast (t : Ty) (hret : Reference.Resolve (decl.ret.toList.flatMap TypeRef.lookups)) :
      Maintains (Session.Established structs) (ofCheck (Check.record item.id (.fn tys t)))
        fun _ => Reference.Resolve ((decl.params.map TypedName.ty).flatMap TypeRef.lookups ++
          decl.ret.toList.flatMap TypeRef.lookups) :=
    maintains_ofCheck fun s hs =>
      ⟨(established_record (.fn tys t) hid s hs).1, fun _ _ => hparams.append hret⟩
  cases hret : decl.ret with
  | none =>
      rw [hret] at hlast
      exact hlast .unit Reference.resolve_nil
  | some t =>
      rw [hret] at hlast hnone
      refine (maintains_read hdemand (established_read fun i hi => hnone i (.inr hi))).bind
        fun ty hty => hlast ty ?_
      simpa using hty

theorem established_const {item : Item} {decl : ConstDecl} (hid : structs item.id = none)
    (hnone : ∀ i ∈ decl.ty.ids, structs i = none) :
    Maintains (Session.Established structs) (const demand item decl)
      fun _ => Reference.Resolve (ItemKind.const decl).signatureLookups := by
  refine (maintains_read hdemand (established_read hnone)).bind fun ty hty => ?_
  refine maintains_ofCheck fun s hs => ⟨(established_record ty hid s hs).1, fun _ _ => ?_⟩
  simpa [ItemKind.signatureLookups, ItemKind.signatureTypes] using hty

end

end Declare

namespace Program

variable {p : Program} (hnodup : p.signatureIds.Nodup)
include hnodup

theorem established_demand (id : NodeId) :
    Declare.Maintains (Session.Established p.struct?) (p.demand id) fun _ => True := by
  refine Declare.maintains_demand Session.isQuiet_established
    (fun demand id item decl hstruct hdemand => ?_) _ [] id
  obtain ⟨rfl, hnone⟩ := separate_struct? hnodup id item decl hstruct
  exact Declare.established_struct hdemand hstruct hnone

/-- An item that is no struct is declared from types that have been read. -/
theorem established_declare {item : Item} (hitem : item ∈ p.items) :
    Declare.Maintains (Session.Established p.struct?) (p.declare item) fun _ =>
      (∀ decl, item.kind ≠ .struct decl) → Reference.Resolve item.kind.signatureLookups := by
  have hnone (i : NodeId) := struct?_eq_none_of_mem hnodup hitem (i := i)
  have hid := struct?_eq_none_of_kind hnodup hitem
  unfold declare
  cases hkind : item.kind with
  | struct decl =>
      exact fun d hd => ⟨(established_demand hnodup item.id d hd).1, fun _ _ h => (h decl rfl).elim⟩
  | fn decl =>
      rw [hkind] at hnone hid
      have hfn := Declare.established_fn (established_demand hnodup) (hid (by simp)) hnone
      exact fun d hd => ⟨(hfn d hd).1, fun u hu _ => (hfn d hd).2 u hu⟩
  | const decl =>
      rw [hkind] at hnone hid
      have hconst := Declare.established_const (established_demand hnodup) (hid (by simp)) hnone
      exact fun d hd => ⟨(hconst d hd).1, fun u hu _ => (hconst d hd).2 u hu⟩

/-- Where nothing is reported, the types of functions and constants have been read. -/
theorem resolve_declareAll {items : List Item} (hitems : ∀ item ∈ items, item ∈ p.items)
    {d : Declaring} (hd : d.session.Established p.struct?) (hexplained : d.Explained)
    (hended : (p.declareAll items d).1 = .ok ())
    (herrors : (p.declareAll items d).2.session.sink.errors = []) :
    ∀ item ∈ items, (∀ decl, item.kind ≠ .struct decl) →
      Reference.Resolve item.kind.signatureLookups := by
  induction items generalizing d with
  | nil => simp
  | cons item rest ih =>
      obtain ⟨d', hrun, hexplained', heq⟩ := p.declareAll_cons_of_errors hitems hexplained hended herrors
      obtain ⟨hd', hresolve⟩ := established_declare hnodup (hitems item List.mem_cons_self) d hd
      rw [hrun] at hd' hresolve
      rw [heq] at hended herrors
      refine List.forall_mem_cons.2 ⟨hresolve () rfl, ?_⟩
      exact ih (fun item' h' => hitems item' (List.mem_cons_of_mem _ h')) hd' hexplained' hended herrors

/-- A signature pass that reports nothing has found all references in signatures resolved, and every
struct has the declared type. -/
theorem established_signatures {locations : Locations} {d : Declaring}
    (hrun : p.declareAll p.items (.start (.start locations .fresh)) = (.ok (), d))
    (herrors : d.session.sink.errors = []) :
    (∀ item ∈ p.items, Reference.Resolve item.kind.signatureLookups) ∧
      ∀ id item decl, p.struct? id = some (item, decl) →
        ∃ tys, d.session.context.types.find? id = some (decl.declared item tys) := by
  have hempty (id : NodeId) : (Session.start locations .fresh).context.types.find? id = none := rfl
  have hstart : (Session.start locations .fresh).Established p.struct? := by
    intro id item decl _ t ht
    rw [hempty] at ht
    cases ht
  have hcomplete : (Session.start locations .fresh).Complete p.struct? := by
    intro id item decl _ hcontains
    rw [Context.contains, NodeTypes.contains, hempty] at hcontains
    cases hcontains
  have hexplained : (Declaring.start (.start locations .fresh)).Explained := fun h => (h rfl).elim
  have hitems : ∀ item ∈ p.items, item ∈ p.items := fun _ h => h
  have hmaintains := maintains_declareAll (d := .start (.start locations .fresh))
    (fun item hitem d hd => ⟨(established_declare hnodup hitem d hd).1, fun _ _ => trivial⟩) hstart
  have hhas := has_declareAll hnodup hitems (d := .start (.start locations .fresh)) hcomplete
    hexplained (by rw [hrun]) (by rw [hrun]; exact herrors)
  have hresolve := resolve_declareAll hnodup hitems (d := .start (.start locations .fresh)) hstart
    hexplained (by rw [hrun]) (by rw [hrun]; exact herrors)
  rw [hrun] at hmaintains hhas
  have hentry {item : Item} {decl : StructDecl} (hitem : item ∈ p.items)
      (hkind : item.kind = .struct decl) : (∃ tys, d.session.context.types.find? item.id =
        some (decl.declared item tys)) ∧ Reference.Resolve item.kind.signatureLookups := by
    obtain ⟨t, ht⟩ := Option.isSome_iff_exists.1 (hhas item hitem item.id List.mem_cons_self)
    obtain ⟨⟨tys, rfl⟩, hfields⟩ :=
      hmaintains item.id item decl (struct?_of_mem hnodup hitem hkind) t ht
    exact ⟨⟨tys, ht⟩, hkind ▸ hfields⟩
  refine ⟨fun item hitem => ?_, fun id item decl hstruct => ?_⟩
  · by_cases hkind : ∃ decl, item.kind = .struct decl
    · obtain ⟨decl, hkind⟩ := hkind
      exact (hentry hitem hkind).2
    · exact hresolve item hitem fun decl h => hkind ⟨decl, h⟩
  · obtain ⟨hitem, hkind, rfl⟩ := mem_of_struct? hstruct
    exact (hentry hitem hkind).1

omit hnodup in
/-- The structs that declare parameters are recorded as such before any body is checked. -/
theorem hasGeneric_of_established {locations : Locations} {d : Declaring} (hnodup : p.ids.Nodup)
    (hlocated : ∀ x ∈ p.structs, x.1.id < locations.size)
    (hsize : locations.size ≤ d.session.locations.size)
    (hstructs : ∀ id item decl, p.struct? id = some (item, decl) →
      ∃ tys, d.session.context.types.find? id = some (decl.declared item tys)) :
    d.session.HasGeneric p.isGeneric p.bodyIds := by
  intro id hid
  unfold isGeneric at hid
  split at hid
  · rename_i item decl hstruct
    obtain ⟨hitem, hkind, rfl⟩ := mem_of_struct? hstruct
    obtain ⟨tys, ht⟩ := hstructs item.id item decl hstruct
    refine ⟨fun hbody => ?_, ?_, _, ht, ?_⟩
    · exact (List.nodup_append'.1 (p.ids_perm.nodup_iff.1 hnodup)).2.2
        (signatureIds_subset hitem).1 hbody
    · refine Nat.lt_of_lt_of_le (hlocated (item, decl) ?_) hsize
      exact List.mem_reverse.1 (List.mem_of_find?_eq_some hstruct)
    · simpa [Adt.isUninstantiated, Adt.isGeneric, Declare.params] using hid
  · cases hid

omit hnodup in
/-- Every reference that the check of a program has to follow has resolved if the program is lowerable.
Structs have to be located, so that no node that is made later takes the place of one. -/
theorem resolve_of_lowerable {locations : Locations} (hnodup : p.ids.Nodup)
    (hlocated : ∀ x ∈ p.structs, x.1.id < locations.size)
    (hok : (p.check locations .fresh).outcome = .ok .lowerable) : Reference.Resolve p.lookups := by
  obtain ⟨d, items, s, hdeclare, herrors₁, hcheck, herrors₂, -, -, -, -⟩ := passes_of_lowerable hok
  have hsignatures : p.signatureIds.Nodup :=
    (List.nodup_append'.1 (p.ids_perm.nodup_iff.1 hnodup)).1
  obtain ⟨hread, hstructs⟩ := established_signatures hsignatures hdeclare herrors₁
  have hgrows := p.grows_declareAll (fun _ h => h) (.start (.start locations .fresh))
  rw [hdeclare] at hgrows
  have hbodies := resolve_checkAll
    (fun item (hitem : item ∈ p.items) i hi => List.mem_flatMap.2 ⟨item, hitem, hi⟩)
    (hasGeneric_of_established hnodup hlocated hgrows.size_le hstructs) (by rw [hcheck])
    (by rw [hcheck]; exact herrors₂)
  intro r hr
  obtain ⟨item, hitem, hr⟩ := List.mem_flatMap.1 hr
  rcases List.mem_append.1 hr with hr | hr
  · exact hread item hitem r hr
  · exact hbodies item hitem r hr

omit hnodup in
/-- A generic struct named in a path with its argument, and in an annotation. -/
theorem resolve_of_lowerable_instance :
    let wrapper : Item := ⟨⟨2, ⟨2, 3⟩⟩, "W", .struct ⟨.named, [⟨⟨0, ⟨0, 1⟩⟩, "T"⟩],
      [⟨⟨1, ⟨1, 2⟩⟩, "x", .path ⟨3, ⟨3, 4⟩⟩ "T" (some (.param 0)) []⟩]⟩⟩
    let int (id : NodeId) : TypeRef := .path ⟨id, ⟨id, id + 1⟩⟩ "i32" (some .builtin) []
    let annotation : TypeRef := .path ⟨5, ⟨5, 6⟩⟩ "W" (some (.adt 2)) [int 4]
    let literal : Expr := .struct ⟨9, ⟨9, 10⟩⟩ ⟨[⟨"W", [int 6]⟩], some 2⟩ ⟨9, 10⟩
      [.named ⟨8, ⟨8, 9⟩⟩ "x" (.lit ⟨7, ⟨7, 8⟩⟩ (.int 1 none))] none
    let main : Item := ⟨⟨13, ⟨13, 14⟩⟩, "f", .fn ⟨[], none, .mk ⟨12, ⟨12, 13⟩⟩
      [.bind ⟨11, ⟨11, 12⟩⟩ 10 "w" (some annotation) (some literal)] none⟩⟩
    let p : Program := ⟨[wrapper, main]⟩
    p.ids.Nodup ∧ (∀ x ∈ p.structs, x.1.id < 14) ∧
      (p.check ⟨Array.replicate 14 ⟨0, 1⟩⟩ .fresh).outcome = .ok .lowerable ∧
      p.lookups = [.type (some (.param 0)), .type (some (.adt 2)), .type (some .builtin),
        .value (some 2), .type (some .builtin)] ∧ Reference.Resolve p.lookups := by
  intro wrapper int annotation literal main p
  have hnodup : p.ids.Nodup := by decide +kernel
  have hlocated : ∀ x ∈ p.structs, x.1.id < (⟨Array.replicate 14 ⟨0, 1⟩⟩ : Locations).size := by
    have hids : ∀ id ∈ p.structs.map (·.1.id),
        id < (⟨Array.replicate 14 ⟨0, 1⟩⟩ : Locations).size := by decide +kernel
    exact fun x hx => hids x.1.id (List.mem_map_of_mem hx)
  have hok : (p.check ⟨Array.replicate 14 ⟨0, 1⟩⟩ .fresh).outcome = .ok .lowerable := by
    decide +kernel
  have hlookups : p.lookups = [.type (some (.param 0)), .type (some (.adt 2)),
      .type (some .builtin), .value (some 2), .type (some .builtin)] := by decide +kernel
  exact ⟨hnodup, hlocated, hok, hlookups, resolve_of_lowerable hnodup hlocated hok⟩

omit hnodup in
/-- An unknown name written as an argument of a builtin type is not found out. -/
theorem not_resolve_of_lowerable_builtin :
    let missing : TypeRef := .path ⟨0, ⟨0, 1⟩⟩ "Missing" none []
    let annotation : TypeRef := .path ⟨1, ⟨1, 2⟩⟩ "i32" (some .builtin) [missing]
    let main : Item := ⟨⟨6, ⟨6, 7⟩⟩, "f", .fn ⟨[], none, .mk ⟨5, ⟨5, 6⟩⟩
      [.bind ⟨4, ⟨4, 5⟩⟩ 3 "x" (some annotation) (some (.lit ⟨2, ⟨2, 3⟩⟩ (.int 1 none)))] none⟩⟩
    let p : Program := ⟨[main]⟩
    p.ids.Nodup ∧ (p.check ⟨Array.replicate 7 ⟨0, 1⟩⟩ .fresh).outcome = .ok .lowerable ∧
      annotation.references = [.type (some .builtin), .type none] ∧
      ¬Reference.Resolve annotation.references := by
  intro missing annotation main p
  have hnodup : p.ids.Nodup := by decide +kernel
  have hok : (p.check ⟨Array.replicate 7 ⟨0, 1⟩⟩ .fresh).outcome = .ok .lowerable := by
    decide +kernel
  have hreferences : annotation.references = [.type (some .builtin), .type none] := by
    decide +kernel
  refine ⟨hnodup, hok, hreferences, fun hresolve => ?_⟩
  rw [hreferences] at hresolve
  exact absurd (hresolve (.type none) (by simp)) (by decide)

end Program

end TypeInference

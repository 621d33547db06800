import TypeInference.Proofs.Check.Maintained
import TypeInference.Proofs.Check.SignatureEnds
import TypeInference.Proofs.Check.SignatureOrder

/-!
# What signatures mean

The types that a signature pass records are those that the declarations stand
for, item by item. What a written type stands for is said without the procedure
that reads it: parameters by their position, and a reference to a generic struct
by its declaration with each parameter replaced by the argument in its place.
-/

namespace TypeInference

open Declare

/-! ## Replacing parameters -/

namespace Ty

/-- A type over the first parameters, made of builtin types and structs. -/
inductive Over (n : Nat) : Ty → Prop where
  | unit : Over n .unit
  | prim (q : Prim) : Over n (.prim q)
  | param {p : Param} (h : p.index < n) : Over n (.param p)
  | adt {a : Adt Ty} (hfields : ∀ f ∈ a.fields, Over n f.ty)
      (hargs : ∀ ts, a.args = some ts → ∀ t ∈ ts, Over n t) : Over n (.adt a)

/-- Whether the second type is the first one with every parameter replaced by the argument in its
place. -/
inductive Filled (args : List Ty) : Ty → Ty → Prop where
  | unit : Filled args .unit .unit
  | prim (q : Prim) : Filled args (.prim q) (.prim q)
  | param {p : Param} {t : Ty} (h : args[p.index]? = some t) : Filled args (.param p) t
  | adt {a : Adt Ty} {f : Ty → Ty} (hfields : ∀ x ∈ a.fields, Filled args x.ty (f x.ty))
      (hargs : ∀ ts, a.args = some ts → ∀ t ∈ ts, Filled args t (f t)) :
      Filled args (.adt a) (.adt (a.map f))

variable {m n : Nat} {args : List Ty} {t : Ty}

theorem Over.mono (h : t.Over m) (hle : m ≤ n) : t.Over n := by
  induction h with
  | unit => exact .unit
  | prim q => exact .prim q
  | param h => exact .param (Nat.lt_of_lt_of_le h hle)
  | adt _ _ ihfields ihargs => exact .adt ihfields ihargs

/-- Where there is an argument for every parameter, substitution replaces them all. -/
theorem Over.filled (h : t.Over n) (hle : n ≤ args.length) : Filled args t (substitute args t) := by
  induction h with
  | unit => exact .unit
  | prim q => exact .prim q
  | @param p h =>
      refine .param ?_
      rw [substitute_param, List.getElem?_eq_getElem (Nat.lt_of_lt_of_le h hle)]
      rfl
  | @adt a _ _ ihfields ihargs =>
      rw [substitute_adt]
      exact .adt ihfields ihargs

/-- The parameters of the result are those of the arguments. -/
theorem Over.substitute (h : t.Over m) (hle : m ≤ args.length) (hargs : ∀ u ∈ args, u.Over n) :
    (substitute args t).Over n := by
  induction h with
  | unit => exact .unit
  | prim q => exact .prim q
  | @param p h =>
      have hlt : p.index < args.length := Nat.lt_of_lt_of_le h hle
      rw [substitute_param, List.getElem?_eq_getElem hlt]
      exact hargs _ (List.getElem_mem hlt)
  | @adt a _ _ ihfields ihargs =>
      rw [substitute_adt]
      refine .adt (fun f hf => ?_) fun ts hts t ht => ?_
      · obtain ⟨x, hx, rfl⟩ := List.mem_map.1 hf
        exact ihfields x hx
      · obtain ⟨us, hus, rfl⟩ := Option.map_eq_some_iff.1 hts
        obtain ⟨u, hu, rfl⟩ := List.mem_map.1 ht
        exact ihargs us hus u hu

theorem Over.instantiate {a : Adt Ty} (hfields : ∀ f ∈ a.fields, f.ty.Over m)
    (hle : m ≤ args.length) (hargs : ∀ u ∈ args, u.Over n) : (Ty.adt (a.instantiate args)).Over n := by
  refine .adt (fun f hf => ?_) fun ts hts t ht => ?_
  · obtain ⟨x, hx, rfl⟩ := List.mem_map.1 hf
    exact (hfields x hx).substitute hle hargs
  · obtain rfl : args = ts := Option.some.inj hts
    exact hargs t ht

end Ty

/-! ## Meanings -/

structure Adt.Filled (args : List Ty) (a b : Adt Ty) : Prop where
  decl : b.decl = a.decl
  name : b.name = a.name
  kind : b.kind = a.kind
  params : b.params = a.params
  fields : List.Forall₂ (fun x y => y.name = x.name ∧ y.index = x.index ∧ Ty.Filled args x.ty y.ty)
    a.fields b.fields
  args : b.args = some args

mutual

/-- Whether a written type stands for the type, below these generics and with these declarations. -/
def TypeRef.Means (T : Typing) (generics : List GenericParam) : TypeRef → Ty → Prop
  | .unit _, ty => ty = .unit
  | .infer _, _ => False
  | .path _ _ none _, _ => False
  | .path _ name (some .builtin) _, ty => ∃ q : Prim, q.name = name ∧ ty = .prim q
  | .path _ _ (some (.param id)) _, ty =>
      ∃ j g, generics[j]? = some g ∧ g.mark.id = id ∧ ty = .param ⟨j, g.name⟩
  | .path _ _ (some (.adt id)) args, ty => ∃ a, T id = some (.adt a) ∧
      (a.params = [] ∧ ty = .adt a ∨
        ∃ tys b, a.params ≠ [] ∧ TypeRef.MeanAll T generics args tys ∧
          tys.length = a.params.length ∧ Adt.Filled tys a b ∧ ty = .adt b)

def TypeRef.MeanAll (T : Typing) (generics : List GenericParam) : List TypeRef → List Ty → Prop
  | [], tys => tys = []
  | t :: ts, tys => ∃ ty rest, tys = ty :: rest ∧ t.Means T generics ty ∧
      TypeRef.MeanAll T generics ts rest

end

/-- Whether the types are those of the declared names, and recorded for them. -/
def TypedName.MeanAll (T : Typing) (generics : List GenericParam) (xs : List TypedName)
    (tys : List Ty) : Prop :=
  List.Forall₂ (fun x ty => x.ty.Means T generics ty ∧ T x.mark.id = some ty) xs tys

/-- Whether a struct is recorded as what it declares. -/
structure StructDecl.RecordedIn (T : Typing) (item : Item) (decl : StructDecl) (a : Adt Ty)
    (tys : List Ty) : Prop where
  recorded : T item.id = some (.adt a)
  decl_eq : a.decl = item.id
  name : a.name = item.name
  kind : a.kind = decl.kind
  args : a.args = none
  params : ∀ j, a.params[j]? = decl.generics[j]?.map fun g => (⟨j, g.name⟩ : Param)
  generics : ∀ j g, decl.generics[j]? = some g → T g.mark.id = some (.param ⟨j, g.name⟩)
  types : TypedName.MeanAll T decl.generics decl.fields tys
  fields : ∀ i, a.fields[i]? = (decl.fields.zip tys)[i]?.map fun x =>
    (⟨x.1.name, x.2, i⟩ : Field Ty)

/-- Whether an item is recorded as what it declares. -/
def Item.RecordedIn (T : Typing) (item : Item) : Prop :=
  match item.kind with
  | .struct decl => ∃ a tys, decl.RecordedIn T item a tys
  | .fn decl => ∃ tys ret, TypedName.MeanAll T [] decl.params tys ∧
      (match decl.ret with
        | some t => t.Means T [] ret
        | none => ret = .unit) ∧
      T item.id = some (.fn tys ret)
  | .const decl => ∃ t, decl.ty.Means T [] t ∧ T item.id = some t

/-! ## From tables to meanings -/

variable {T : Typing} {generics : List GenericParam}

/-- Whether a struct of the table is a declaration over its own parameters. -/
def Typing.IsClosedAt (T : Typing) (id : NodeId) : Prop :=
  ∀ a, T id = some (.adt a) → a.args = none ∧ ∀ f ∈ a.fields, f.ty.Over a.params.length

theorem Adt.filled_instantiate {a : Adt Ty} {args : List Ty}
    (hfields : ∀ f ∈ a.fields, f.ty.Over args.length) : Adt.Filled args a (a.instantiate args) := by
  refine ⟨rfl, rfl, rfl, rfl, ?_, rfl⟩
  rw [instantiate, List.forall₂_map_right_iff, List.forall₂_same]
  exact fun f hf => ⟨rfl, rfl, (hfields f hf).filled (Nat.le_refl _)⟩

/-- A generic is recorded as the parameter at its position. -/
theorem param_of_zip (h : ∀ g ∈ generics.zip (params generics), T g.1.mark.id = some (.param g.2))
    {j : Nat} {g : GenericParam} (hg : generics[j]? = some g) :
    T g.mark.id = some (.param ⟨j, g.name⟩) := by
  refine h (g, ⟨j, g.name⟩) (List.mem_of_getElem? (i := j) ?_)
  simp [params, List.getElem?_zip_eq_some, hg]

section

variable (hgenerics : ∀ g ∈ generics.zip (params generics), T g.1.mark.id = some (.param g.2))
include hgenerics

omit hgenerics in
theorem TypeRef.means_struct {m : Mark} {name : String} {id : NodeId} {args : List TypeRef}
    {tys : List Ty} {a b : Adt Ty} (ha : T id = some (.adt a)) (hclosed : T.IsClosedAt id)
    (hmean : MeanAll T generics args tys) (hover : ∀ ty ∈ tys, ty.Over generics.length)
    (hb : a.apply tys = .ok b) :
    (path m name (some (.adt id)) args).Means T generics (.adt b) ∧
      (Ty.adt b).Over generics.length := by
  obtain ⟨hnone, hfields⟩ := hclosed a ha
  obtain ⟨hparams, rfl⟩ | ⟨hparams, hlength, rfl⟩ := Adt.apply_eq_ok_iff.1 hb
  · rw [hparams, List.length_nil] at hfields
    exact ⟨⟨b, ha, .inl ⟨hparams, rfl⟩⟩, .adt (fun f hf => (hfields f hf).mono (Nat.zero_le _))
      fun ts hts => by rw [hnone] at hts; cases hts⟩
  · rw [← hlength] at hfields
    exact ⟨⟨a, ha, .inr ⟨tys, _, hparams, hmean, hlength, Adt.filled_instantiate hfields, rfl⟩⟩,
      .instantiate hfields (Nat.le_refl _) hover⟩

/-- What is read off a table of declarations is what is meant. -/
theorem TypeRef.Reads.means {t : TypeRef}
    (hscope : ∀ id, .param id ∈ t.resolutions → id ∈ generics.map (·.mark.id))
    (hstructs : ∀ z ∈ t.structs, T.IsClosedAt z) {ty : Ty} (h : t.Reads T ty) :
    t.Means T generics ty ∧ ty.Over generics.length := by
  refine @TypeRef.rec
    (fun t => (∀ id, .param id ∈ t.resolutions → id ∈ generics.map (·.mark.id)) →
      (∀ z ∈ t.structs, T.IsClosedAt z) → ∀ ty, t.Reads T ty →
        t.Means T generics ty ∧ ty.Over generics.length)
    (fun ts => (∀ id, .param id ∈ resolutionsAll ts → id ∈ generics.map (·.mark.id)) →
      (∀ z ∈ structsOfAll ts, T.IsClosedAt z) → ∀ tys, TypeRef.ReadsAll T ts tys →
        MeanAll T generics ts tys ∧ ∀ ty ∈ tys, ty.Over generics.length)
    ?unit ?infer ?path ?nil ?cons t hscope hstructs ty h
  case unit =>
    rintro m - - ty ⟨rfl, -⟩
    exact ⟨rfl, .unit⟩
  case infer => exact fun _ _ _ _ h => h.elim
  case path =>
    intro m name res args ih hscope hstructs ty h
    rcases res with _ | _ | id | id
    · exact h.elim
    · obtain ⟨q, hq, rfl⟩ := Option.map_eq_some_iff.1 h.1
      exact ⟨⟨q, by simpa using List.find?_some hq, rfl⟩, .prim q⟩
    · obtain ⟨a, tys, b, ha, hargs, hb, rfl, -⟩ := h
      obtain ⟨hmean, hover⟩ := ih (fun id' h' => hscope id' (List.mem_append_right _ h'))
        (fun z hz => hstructs z (List.mem_cons_of_mem _ hz)) tys hargs
      exact means_struct ha (hstructs id List.mem_cons_self) hmean hover hb
    · obtain ⟨g, hg, rfl⟩ := List.mem_map.1 (hscope id List.mem_cons_self)
      obtain ⟨j, hj⟩ := List.mem_iff_getElem?.1 hg
      have hty : ty = .param ⟨j, g.name⟩ :=
        Option.some.inj (h.1.symm.trans (param_of_zip hgenerics hj))
      refine ⟨⟨j, g, hj, rfl, hty⟩, hty ▸ .param ?_⟩
      exact (List.getElem?_eq_some_iff.1 hj).1
  case nil =>
    rintro - - _ rfl
    exact ⟨rfl, by simp⟩
  case cons =>
    rintro t ts iht ihts hscope hstructs _ ⟨ty, rest, rfl, ht, hts⟩
    obtain ⟨hmean, hover⟩ := iht (fun id h => hscope id (List.mem_append_left _ h))
      (fun z hz => hstructs z (List.mem_append_left _ hz)) ty ht
    obtain ⟨hmean', hover'⟩ := ihts (fun id h => hscope id (List.mem_append_right _ h))
      (fun z hz => hstructs z (List.mem_append_right _ hz)) rest hts
    exact ⟨⟨ty, rest, rfl, hmean, hmean'⟩, List.forall_mem_cons.2 ⟨hover, hover'⟩⟩

end

/-! ## Programs -/

namespace Program

variable {p : Program}

section

variable (hp : p.WellResolved)
include hp

theorem WellResolved.mem_generics {item : Item} (hitem : item ∈ p.items) {t : TypeRef}
    (ht : t ∈ item.kind.signatureTypes) {id : NodeId} (hid : .param id ∈ t.resolutions) :
    id ∈ item.kind.generics.map (·.mark.id) := by
  refine hp.param item hitem id (List.mem_append_left _ ?_)
  rw [TypeRef.resolutionsAll_eq]
  exact List.mem_flatMap.2 ⟨t, ht, hid⟩

/-- Parameters are not captured: the fields of a struct mention its own only, whatever structs they
were instantiated from. -/
theorem isClosedAt_of_founded {id : NodeId} (h : Founded p.struct? T id) : T.IsClosedAt id := by
  induction h with
  | @intro id item decl tys hstruct _ hgenerics hfields hdeclared ih =>
      obtain ⟨hitem, hkind, -⟩ := mem_of_struct? hstruct
      intro a ha
      obtain rfl : _ = a := Ty.adt.inj (Option.some.inj (hdeclared.symm.trans ha))
      refine ⟨rfl, fun f hf => ?_⟩
      obtain ⟨x, hx, hread⟩ := (exists_of_forall₂ hfields).1 f.ty (ty_mem_of_fields hf)
      have htype : x.ty ∈ item.kind.signatureTypes := by
        rw [hkind]
        exact List.mem_map_of_mem hx
      have hscope (id : NodeId) (hid : .param id ∈ x.ty.resolutions) :
          id ∈ decl.generics.map (·.mark.id) := by
        have hmem := hp.mem_generics hitem htype hid
        rwa [hkind] at hmem
      have hover := (hread.1.means hgenerics hscope (ih x hx)).2
      rwa [show (params decl.generics).length = decl.generics.length by simp [params]]

theorem meanAll_of_reads {item : Item} (hitem : item ∈ p.items)
    (hgenerics : ∀ g ∈ item.kind.generics.zip (params item.kind.generics),
      T g.1.mark.id = some (.param g.2)) {xs : List TypedName} {tys : List Ty}
    (hxs : ∀ x ∈ xs, x.ty ∈ item.kind.signatureTypes)
    (hbefore : ∀ x ∈ xs, ∀ z ∈ x.ty.structs, Founded p.struct? T z)
    (h : TypedName.ReadsAll T xs tys) : TypedName.MeanAll T item.kind.generics xs tys := by
  induction h with
  | nil => exact .nil
  | cons hx _ ih =>
      rw [List.forall_mem_cons] at hxs hbefore
      refine .cons ⟨(hx.1.means hgenerics (fun id => hp.mem_generics hitem hxs.1) fun z hz => ?_).1,
        hx.2⟩ (ih hxs.2 hbefore.2)
      exact isClosedAt_of_founded hp (hbefore.1 z hz)

/-- What a table declares for an item is what the item means. -/
theorem recordedIn_of_signedIn (hnodup : p.signatureIds.Nodup) {item : Item} (hitem : item ∈ p.items)
    (h : item.SignedIn p.struct? T) : item.RecordedIn T := by
  have hmeans {t : TypeRef} (ht : t ∈ item.kind.signatureTypes) (hnone : item.kind.generics = [])
      (hbefore : ∀ z ∈ t.structs, Founded p.struct? T z) {ty : Ty} (hread : t.Reads T ty) :
      t.Means T [] ty := by
    refine (hread.means (by simp) (fun id hid => ?_) fun z hz =>
      isClosedAt_of_founded hp (hbefore z hz)).1
    have hmem := hp.mem_generics hitem ht hid
    rwa [hnone] at hmem
  have hnames {xs : List TypedName} {tys : List Ty} (hnone : item.kind.generics = [])
      (hxs : ∀ x ∈ xs, x.ty ∈ item.kind.signatureTypes)
      (hbefore : ∀ x ∈ xs, ∀ z ∈ x.ty.structs, Founded p.struct? T z)
      (h : TypedName.ReadsAll T xs tys) : TypedName.MeanAll T [] xs tys := by
    rw [← hnone]
    exact meanAll_of_reads hp hitem (by simp [hnone]) hxs hbefore h
  unfold Item.SignedIn at h
  unfold Item.RecordedIn
  cases hkind : item.kind with
  | struct decl =>
      simp only [hkind] at h ⊢
      cases h with
      | @intro _ item' decl' tys hstruct hbefore hgenerics hfields hdeclared =>
          obtain ⟨rfl, rfl⟩ : item' = item ∧ decl' = decl := by
            simpa using hstruct.symm.trans (struct?_of_mem hnodup hitem hkind)
          have hmean := meanAll_of_reads hp hitem (by rwa [hkind])
            (fun x hx => by rw [hkind]; exact List.mem_map_of_mem hx) hbefore hfields
          rw [hkind] at hmean
          exact ⟨_, tys, hdeclared, rfl, rfl, rfl, rfl, fun j => by simp [params],
            fun j g hg => param_of_zip hgenerics hg, hmean, fun i => by simp [Declare.fields]⟩
  | fn decl =>
      have hnone : item.kind.generics = [] := by
        rw [hkind]
        rfl
      simp only [hkind] at h ⊢
      obtain ⟨tys, ret, hbefore, hparams, hret, hrecorded⟩ := h
      refine ⟨tys, ret, hnames hnone (fun x hx => ?_) hbefore hparams, ?_, hrecorded⟩
      · rw [hkind]
        exact List.mem_append_left _ (List.mem_map_of_mem hx)
      · cases hdecl : decl.ret with
        | none => simpa [hdecl] using hret
        | some t =>
            simp only [hdecl] at hret ⊢
            refine hmeans ?_ hnone hret.1 hret.2
            rw [hkind, ItemKind.signatureTypes, hdecl]
            exact List.mem_append_right _ List.mem_cons_self
  | const decl =>
      have hnone : item.kind.generics = [] := by
        rw [hkind]
        rfl
      simp only [hkind] at h ⊢
      obtain ⟨t, hbefore, hread, hrecorded⟩ := h
      refine ⟨t, hmeans ?_ hnone hbefore hread, hrecorded⟩
      rw [hkind]
      exact List.mem_singleton_self decl.ty

end

/-- A signature pass that reports nothing records every item as what it declares, no matter where a
struct is declared. -/
theorem recordedIn_signaturePass (hnodup : p.ids.Nodup) (hp : p.WellResolved) (locations : Locations)
    (hsilent : (p.signaturePass (.start locations .fresh)).session.sink.errors = []) :
    (p.signaturePass (.start locations .fresh)).ended = .ok () ∧
      ∀ item ∈ p.items,
        item.RecordedIn (p.signaturePass (.start locations .fresh)).session.context.lookup := by
  have hnodup' : p.signatureIds.Nodup :=
    (List.nodup_append.1 (p.ids_perm.nodup_iff.1 hnodup)).1
  refine ⟨p.ended_signaturePass _, fun item hitem => ?_⟩
  have hrun : p.declareAll p.items (.start (.start locations .fresh)) =
      (.ok (), (p.declareAll p.items (.start (.start locations .fresh))).2) :=
    Prod.ext (p.ended_signaturePass (.start locations .fresh)) rfl
  obtain ⟨N, hsession, hsigned⟩ := signedIn_of_signatures hnodup' hp hrun hsilent
  have hlookup : (p.signaturePass (.start locations .fresh)).session.context.lookup = N.find? := by
    funext id
    exact (congrArg (fun s : Session => s.context.lookup id) hsession).trans
      (Session.lookup_signing locations .fresh N id)
  rw [hlookup]
  exact recordedIn_of_signedIn hp hnodup' hitem (hsigned item hitem)

/-- An instance within an instance, of a struct that is declared later under a parameter of the same
name. -/
theorem recordedIn_signaturePass_nested :
    let pair : Item := ⟨⟨8, ⟨8, 9⟩⟩, "P", .struct ⟨.named, [⟨⟨0, ⟨0, 1⟩⟩, "T"⟩],
      [⟨⟨1, ⟨1, 2⟩⟩, "b", .path ⟨2, ⟨2, 3⟩⟩ "B" (some (.adt 9))
        [.path ⟨3, ⟨3, 4⟩⟩ "bool" (some .builtin) [],
          .path ⟨4, ⟨4, 5⟩⟩ "B" (some (.adt 9)) [.path ⟨5, ⟨5, 6⟩⟩ "T" (some (.param 0)) [],
            .unit ⟨6, ⟨6, 7⟩⟩]]⟩]⟩⟩
    let box : Item := ⟨⟨9, ⟨9, 10⟩⟩, "B", .struct ⟨.named,
      [⟨⟨10, ⟨10, 11⟩⟩, "U"⟩, ⟨⟨11, ⟨11, 12⟩⟩, "T"⟩],
      [⟨⟨12, ⟨12, 13⟩⟩, "x", .path ⟨13, ⟨13, 14⟩⟩ "T" (some (.param 11)) []⟩]⟩⟩
    let p : Program := ⟨[pair, box]⟩
    let passed := p.signaturePass (.start ⟨Array.replicate 14 ⟨0, 1⟩⟩ .fresh)
    let inner : Ty := .adt ⟨9, "B", .named, [⟨"x", .unit, 0⟩], [⟨0, "U"⟩, ⟨1, "T"⟩],
      some [.param ⟨0, "T"⟩, .unit]⟩
    p.ids.Nodup ∧ p.WellResolved ∧ passed.session.sink.errors = [] ∧
      (∀ item ∈ p.items, item.RecordedIn passed.session.context.lookup) ∧
      passed.session.context.lookup 1 = some (.adt ⟨9, "B", .named, [⟨"x", inner, 0⟩],
        [⟨0, "U"⟩, ⟨1, "T"⟩], some [.prim .bool, inner]⟩) := by
  intro pair box p passed inner
  have hp : p.WellResolved := by decide +kernel
  have hnodup : p.ids.Nodup := by decide +kernel
  have hsilent : passed.session.sink.errors = [] := by decide +kernel
  exact ⟨hnodup, hp, hsilent, (recordedIn_signaturePass hnodup hp _ hsilent).2, by decide +kernel⟩

end Program

end TypeInference

import TypeInference.Proofs.Check.Declared
import TypeInference.Proofs.Program.Resolutions

/-!
# Tables of signatures

What a table of types has to say so that a signature may be read off it: every
written type stands for the type that its parts stand for, and a struct rests
on the structs that its fields name, and on no cycle of them. Nothing here
depends on the order in which items are declared.
-/

namespace TypeInference

open Declare

def Typing.Within (T F : Typing) : Prop := ∀ id t, T id = some t → F id = some t

theorem Typing.Within.refl (T : Typing) : T.Within T := fun _ _ h => h

theorem Typing.Within.trans {T F G : Typing} (h : T.Within F) (h' : F.Within G) : T.Within G :=
  fun id t ht => h' id t (h id t ht)

mutual

/-- Whether a type written in a signature stands for the type, in a table that says so for the
written type and for every written type in it. -/
def TypeRef.Reads (T : Typing) : TypeRef → Ty → Prop
  | .unit m, ty => ty = .unit ∧ T m.id = some ty
  | .infer _, _ => False
  | .path _ _ none _, _ => False
  | .path m name (some .builtin) _, ty =>
      Context.initial.builtin? name = some ty ∧ T m.id = some ty
  | .path m _ (some (.param id)) _, ty => T id = some ty ∧ T m.id = some ty
  | .path m _ (some (.adt id)) args, ty =>
      ∃ a tys b, T id = some (.adt a) ∧ TypeRef.ReadsAll T args tys ∧ a.apply tys = .ok b ∧
        ty = .adt b ∧ T m.id = some ty

def TypeRef.ReadsAll (T : Typing) : List TypeRef → List Ty → Prop
  | [], tys => tys = []
  | t :: ts, tys => ∃ ty rest, tys = ty :: rest ∧ t.Reads T ty ∧ TypeRef.ReadsAll T ts rest

end

/-- Whether names are declared with the types, in a table that gives them to the names as well. -/
def TypedName.ReadsAll (T : Typing) (xs : List TypedName) (tys : List Ty) : Prop :=
  List.Forall₂ (fun x ty => x.ty.Reads T ty ∧ T x.mark.id = some ty) xs tys

/-- The type that is recorded for a struct whose fields have these types. -/
def StructDecl.declared (decl : StructDecl) (item : Item) (tys : List Ty) : Ty :=
  .adt ⟨item.id, item.name, decl.kind, Declare.fields decl.fields tys, params decl.generics, none⟩

section

variable (structs : NodeId → Option (Item × StructDecl)) (T : Typing)

/-- Whether the table declares a struct, and before it the structs that its fields name. -/
inductive Founded : NodeId → Prop where
  | intro {id : NodeId} {item : Item} {decl : StructDecl} {tys : List Ty}
      (hstruct : structs id = some (item, decl))
      (hbefore : ∀ x ∈ decl.fields, ∀ z ∈ x.ty.structs, Founded z)
      (hgenerics : ∀ g ∈ decl.generics.zip (params decl.generics), T g.1.mark.id = some (.param g.2))
      (hfields : TypedName.ReadsAll T decl.fields tys)
      (hitem : T id = some (decl.declared item tys)) : Founded id

def Item.SignedIn (item : Item) : Prop :=
  match item.kind with
  | .struct _ => Founded structs T item.id
  | .fn decl => ∃ tys ret, (∀ x ∈ decl.params, ∀ z ∈ x.ty.structs, Founded structs T z) ∧
      TypedName.ReadsAll T decl.params tys ∧
      (match decl.ret with
        | some t => (∀ z ∈ t.structs, Founded structs T z) ∧ t.Reads T ret
        | none => ret = .unit) ∧
      T item.id = some (.fn tys ret)
  | .const decl => ∃ t, (∀ z ∈ decl.ty.structs, Founded structs T z) ∧ decl.ty.Reads T t ∧
      T item.id = some t

end

/-! ## Larger tables -/

section

variable {structs : NodeId → Option (Item × StructDecl)} {T F : Typing}

theorem TypeRef.Reads.within (hT : T.Within F) {t : TypeRef} {ty : Ty} (h : t.Reads T ty) :
    t.Reads F ty := by
  refine @TypeRef.rec (fun t => ∀ ty, t.Reads T ty → t.Reads F ty)
    (fun ts => ∀ tys, TypeRef.ReadsAll T ts tys → TypeRef.ReadsAll F ts tys)
    ?unit ?infer ?path ?nil ?cons t ty h
  case unit =>
    rintro m ty ⟨rfl, h⟩
    exact ⟨rfl, hT _ _ h⟩
  case infer => exact fun _ _ h => h
  case path =>
    intro m name res args ih ty h
    rcases res with _ | _ | id | id
    · exact h
    · exact ⟨h.1, hT _ _ h.2⟩
    · obtain ⟨a, tys, b, ha, hargs, hb, rfl, hm⟩ := h
      exact ⟨a, tys, b, hT _ _ ha, ih tys hargs, hb, rfl, hT _ _ hm⟩
    · exact ⟨hT _ _ h.1, hT _ _ h.2⟩
  case nil => exact fun _ h => h
  case cons =>
    rintro t ts iht ihts _ ⟨ty, rest, rfl, ht, hts⟩
    exact ⟨ty, rest, rfl, iht ty ht, ihts rest hts⟩

theorem TypeRef.ReadsAll.within (hT : T.Within F) {ts : List TypeRef} {tys : List Ty}
    (h : TypeRef.ReadsAll T ts tys) : TypeRef.ReadsAll F ts tys := by
  induction ts generalizing tys with
  | nil => exact h
  | cons t ts ih =>
      obtain ⟨ty, rest, rfl, ht, hts⟩ := h
      exact ⟨ty, rest, rfl, ht.within hT, ih hts⟩

theorem TypedName.ReadsAll.within (hT : T.Within F) {xs : List TypedName} {tys : List Ty}
    (h : ReadsAll T xs tys) : ReadsAll F xs tys :=
  h.imp fun _ _ h => ⟨h.1.within hT, hT _ _ h.2⟩

theorem Founded.within (hT : T.Within F) {id : NodeId} (h : Founded structs T id) :
    Founded structs F id := by
  induction h with
  | intro hstruct _ hgenerics hfields hitem ih =>
      exact .intro hstruct ih (fun g hg => hT _ _ (hgenerics g hg)) (hfields.within hT) (hT _ _ hitem)

theorem Item.SignedIn.within (hT : T.Within F) {item : Item} (h : item.SignedIn structs T) :
    item.SignedIn structs F := by
  unfold SignedIn at h ⊢
  cases hkind : item.kind with
  | struct decl =>
      rw [hkind] at h
      exact Founded.within hT h
  | fn decl =>
      simp only [hkind] at h ⊢
      obtain ⟨tys, ret, hbefore, hparams, hret, hitem⟩ := h
      refine ⟨tys, ret, fun x hx z hz => (hbefore x hx z hz).within hT, hparams.within hT, ?_,
        hT _ _ hitem⟩
      cases hdecl : decl.ret with
      | none => simpa [hdecl] using hret
      | some t =>
          simp only [hdecl] at hret ⊢
          exact ⟨fun z hz => (hret.1 z hz).within hT, hret.2.within hT⟩
  | const decl =>
      simp only [hkind] at h ⊢
      obtain ⟨t, hbefore, ht, hitem⟩ := h
      exact ⟨t, fun z hz => (hbefore z hz).within hT, ht.within hT, hT _ _ hitem⟩

end

/-! ## Dependencies -/

def NamedBy (structs : NodeId → Option (Item × StructDecl)) (z id : NodeId) : Prop :=
  ∃ item decl, structs id = some (item, decl) ∧ ∃ x ∈ decl.fields, z ∈ x.ty.structs

variable {structs : NodeId → Option (Item × StructDecl)} {T : Typing}

theorem Founded.isSome {id : NodeId} (h : Founded structs T id) : (structs id).isSome := by
  cases h with
  | intro hstruct => rw [hstruct]; rfl

theorem Founded.acc {id : NodeId} (h : Founded structs T id) : Acc (NamedBy structs) id := by
  induction h with
  | @intro id item decl _ hstruct _ _ _ _ ih =>
      refine ⟨id, ?_⟩
      rintro z ⟨item', decl', hstruct', x, hx, hz⟩
      obtain ⟨-, rfl⟩ : item = item' ∧ decl = decl' := by simpa [hstruct] using hstruct'
      exact ih x hx z hz

theorem not_cyclic_of_acc {id : NodeId} (h : Acc (NamedBy structs) id) :
    ¬ Relation.TransGen (NamedBy structs) id id := by
  have hacc := h.transGen
  clear h
  induction hacc with
  | intro id _ ih => exact fun hcycle => ih id hcycle hcycle

/-- No struct that a table declares is among those that it rests on. -/
theorem Founded.not_cyclic {id : NodeId} (h : Founded structs T id) :
    ¬ Relation.TransGen (NamedBy structs) id id :=
  not_cyclic_of_acc h.acc

/-! ## Programs -/

theorem TypeRef.mem_structs_iff {t : TypeRef} {id : NodeId} :
    id ∈ t.structs ↔ .adt id ∈ t.resolutions := by
  refine @TypeRef.rec (fun t => id ∈ t.structs ↔ .adt id ∈ t.resolutions)
    (fun ts => id ∈ structsOfAll ts ↔ .adt id ∈ resolutionsAll ts) ?unit ?infer ?path ?nil ?cons t
  case unit => simp [structs, resolutions]
  case infer => simp [structs, resolutions]
  case path =>
    intro m name res args ih
    rcases res with _ | _ | z | z <;> simp [structs, resolutions, ih]
  case nil => simp [structsOfAll, resolutionsAll]
  case cons =>
    intro t ts iht ihts
    rw [structsOfAll, resolutionsAll, List.mem_append, List.mem_append, iht, ihts]

namespace Program

variable {p : Program}

/-- What a signature names has been declared as a struct. -/
theorem WellResolved.isSome_struct? (hp : p.WellResolved) (hnodup : p.signatureIds.Nodup)
    {item : Item} (hitem : item ∈ p.items) {t : TypeRef} (ht : t ∈ item.kind.signatureTypes)
    {id : NodeId} (hid : id ∈ t.structs) : (p.struct? id).isSome := by
  obtain ⟨s, hs, rfl, decl, hkind⟩ := hp.adt item hitem id (List.mem_append_left _ (by
    rw [TypeRef.resolutionsAll_eq]
    exact List.mem_flatMap.2 ⟨t, ht, TypeRef.mem_structs_iff.1 hid⟩))
  rw [struct?_of_mem hnodup hs hkind]
  rfl

structure Underway (p : Program) (depth : Nat) (path : List NodeId) : Prop where
  nodup : path.Nodup
  isSome : ∀ id ∈ path, (p.struct? id).isSome
  depth_eq : depth + path.length = p.structs.length

theorem underway_nil (p : Program) : p.Underway p.structs.length [] := ⟨.nil, by simp, rfl⟩

/-- The depth is not used up as long as there is a struct that is not on the path. -/
theorem Underway.cons {depth : Nat} {path : List NodeId} (h : p.Underway depth path) {id : NodeId}
    (hid : id ∉ path) (hstruct : (p.struct? id).isSome) :
    ∃ depth', depth = depth' + 1 ∧ p.Underway depth' (id :: path) := by
  have hnodup : (id :: path).Nodup := List.nodup_cons.2 ⟨hid, h.nodup⟩
  have hsome : ∀ z ∈ id :: path, (p.struct? z).isSome := List.forall_mem_cons.2 ⟨hstruct, h.isSome⟩
  have hsub : id :: path ⊆ p.structs.map fun s => s.1.id := by
    intro z hz
    obtain ⟨s, hs⟩ := Option.isSome_iff_exists.1 (hsome z hz)
    obtain rfl : s.1.id = z := by simpa using List.find?_some hs
    exact List.mem_map_of_mem (List.mem_reverse.1 (List.mem_of_find?_eq_some hs))
  have hle := (List.subperm_of_subset hnodup hsub).length_le
  have heq := h.depth_eq
  rw [List.length_map, List.length_cons] at hle
  refine ⟨depth - 1, by omega, hnodup, hsome, ?_⟩
  rw [List.length_cons]
  omega

end Program

/-! ## The session of a signature pass -/

/-- Where no variable is bound, a node is known to be what was recorded. -/
theorem Context.lookup_of_empty {c : Context} (h : c.bindings = .empty) (id : NodeId) :
    c.lookup id = c.types.find? id := by
  have hresolve : c.resolve = fun t => t := by
    funext t
    rw [resolve, h]
    exact Bindings.resolve_empty t
  rw [lookup, hresolve, Option.map_id_fun']
  rfl

def Session.signing (l : Locations) (k : Sink) (T : NodeTypes) : Session :=
  ⟨{ Context.initial with types := T }, l, k⟩

namespace Session

variable (l : Locations) (k : Sink) (N : NodeTypes)

@[simp] theorem types_signing : (signing l k N).context.types = N := rfl

@[simp] theorem lookup_signing (id : NodeId) : (signing l k N).context.lookup id = N.find? id :=
  Context.lookup_of_empty rfl id

@[simp] theorem insert_signing (id : NodeId) (t : Ty) :
    { signing l k N with context := (signing l k N).context.insert id t } =
      signing l k (N.insert id t) := rfl

end Session

end TypeInference

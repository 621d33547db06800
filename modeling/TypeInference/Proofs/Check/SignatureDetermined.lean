import TypeInference.Proofs.Check.SignatureSolved

/-!
# What a table of signatures determines

If some table declares every item, then declaring the items in any order
succeeds and records nothing but entries of that table.
-/

namespace TypeInference

open Declare

/-- Whether a table keeps what it has an entry for and has entries of `F` only. -/
structure NodeTypes.Toward (F : Typing) (N N' : NodeTypes) : Prop where
  within : Typing.Within N'.find? F
  kept : ∀ i, N.contains i → N'.contains i

namespace NodeTypes

variable {F : Typing} {N N' N'' : NodeTypes}

theorem toward_refl (h : Typing.Within N.find? F) : Toward F N N := ⟨h, fun _ h => h⟩

theorem Toward.trans (h : Toward F N N') (h' : Toward F N' N'') : Toward F N N'' :=
  ⟨h'.within, fun i hi => h'.kept i (h.kept i hi)⟩

theorem toward_insert (h : Typing.Within N.find? F) {i : NodeId} {t : Ty} (ht : F i = some t) :
    Toward F N (N.insert i t) := by
  constructor
  case within =>
    intro j u hu
    rw [find?_insert] at hu
    split at hu
    · rename_i heq
      rw [heq, ht, hu]
    · exact h j u hu
  case kept => exact fun j hj => by rw [contains_insert, hj, Bool.or_true]

theorem find?_of_contains (h : Typing.Within N.find? F) {i : NodeId} {t : Ty} (ht : F i = some t)
    (hi : N.contains i) : N.find? i = some t := by
  obtain ⟨u, hu⟩ := contains_iff.1 hi
  rw [hu, ← h i u hu, ht]

end NodeTypes

variable {α β : Type} {l : Locations} {k : Sink} {N : NodeTypes} {F : Typing}

/-! ## Computations that succeed -/

/-- Whether the computation succeeds, and what holds of the table and of the result. -/
def Check.Succeeds (l : Locations) (k : Sink) (N : NodeTypes) (x : Check α)
    (Q : NodeTypes → α → Prop) : Prop :=
  ∃ N' a, x.perform (.signing l k N) = (.ok a, .signing l k N') ∧ Q N' a

/-- Whether the declaration succeeds where no struct has failed. -/
def Declare.Succeeds (l : Locations) (k : Sink) (N : NodeTypes) (x : Declare α)
    (Q : NodeTypes → α → Prop) : Prop :=
  ∃ N' a, x.perform ⟨.signing l k N, []⟩ = (.ok a, ⟨.signing l k N', []⟩) ∧ Q N' a

namespace Check

variable {Q : NodeTypes → α → Prop} {Q' : NodeTypes → β → Prop}

theorem Succeeds.bind {x : Check α} {f : α → Check β} (hx : Succeeds l k N x Q)
    (hf : ∀ N' a, Q N' a → Succeeds l k N' (f a) Q') : Succeeds l k N (x >>= f) Q' := by
  obtain ⟨N₁, a, hrun, ha⟩ := hx
  obtain ⟨N₂, b, hrun', hb⟩ := hf N₁ a ha
  exact ⟨N₂, b, by rw [perform_bind, hrun]; exact hrun', hb⟩

theorem succeeds_lookup {id : NodeId} {t : Ty} (h : N.find? id = some t) :
    Succeeds l k N (lookup id) fun N' r => N' = N ∧ r = some t :=
  ⟨N, _, by rw [perform_lookup, Session.lookup_signing], rfl, h⟩

theorem succeeds_recorded (hN : Typing.Within N.find? F) {id : NodeId} {t : Ty} (ht : F id = some t) :
    Succeeds l k N (recorded id t) fun N' u => u = t ∧ N.Toward F N' :=
  ⟨N.insert id t, t, rfl, rfl, NodeTypes.toward_insert hN ht⟩

end Check

/-! ## Reading written types -/

namespace TypeRef

open Check NodeTypes

def KnownIn (N : NodeTypes) (t : TypeRef) : Prop :=
  ∀ id, .adt id ∈ t.resolutions ∨ .param id ∈ t.resolutions → N.contains id

/-- What reading a type comes to, if the table `F` says what it stands for. -/
def Determined (F : Typing) (t : TypeRef) : Prop :=
  ∀ l k (N : NodeTypes) ty, t.Reads F ty → Typing.Within N.find? F → t.KnownIn N →
    Succeeds l k N (t.read .signature) fun N' u => u = ty ∧ N.Toward F N'

theorem succeeds_readAll {ts : List TypeRef} (h : ∀ t ∈ ts, t.Determined F) {tys : List Ty}
    (hreads : ReadsAll F ts tys) (hN : Typing.Within N.find? F) (hknown : ∀ t ∈ ts, t.KnownIn N) :
    Succeeds l k N (readAll .signature ts) fun N' us => us = tys ∧ N.Toward F N' := by
  induction ts generalizing N tys with
  | nil =>
      rw [readAll]
      obtain rfl : tys = [] := hreads
      exact ⟨N, [], rfl, rfl, toward_refl hN⟩
  | cons t ts ih =>
      rw [readAll]
      obtain ⟨ty, rest, rfl, ht, hrest⟩ := hreads
      rw [List.forall_mem_cons] at h hknown
      refine (h.1 l k N ty ht hN hknown.1).bind ?_
      rintro N₁ _ ⟨rfl, hN₁⟩
      refine (ih h.2 hrest hN₁.within fun u hu id hid => hN₁.kept id (hknown.2 u hu id hid)).bind ?_
      rintro N₂ _ ⟨rfl, hN₂⟩
      exact ⟨N₂, _, rfl, rfl, hN₁.trans hN₂⟩

theorem KnownIn.arg {m : Mark} {name : String} {res : Option TypeRes} {args : List TypeRef}
    (h : (path m name res args).KnownIn N) {t : TypeRef} (ht : t ∈ args) : t.KnownIn N := by
  have hsub : t.resolutions ⊆ (path m name res args).resolutions := fun r hr =>
    List.mem_append_right _ (resolutions_subset_resolutionsAll ht hr)
  exact fun id hid => h id (hid.imp (fun h => hsub h) fun h => hsub h)

theorem determined_struct {m : Mark} {name : String} {id : NodeId} {args : List TypeRef}
    (ih : ∀ t ∈ args, t.Determined F) : (path m name (some (.adt id)) args).Determined F := by
  rintro l k N _ ⟨a, tys, b, ha, hargs, hb, rfl, hm⟩ hN hknown
  have hid : N.contains id := hknown id (.inl (by simp [resolutions]))
  refine (succeeds_lookup (find?_of_contains hN ha hid)).bind ?_
  rintro N _ ⟨rfl, rfl⟩
  have hwritten : ¬ (args.isEmpty && Position.signature == .body) := by simp
  simp only [if_neg hwritten]
  refine (succeeds_readAll ih hargs hN fun t ht => hknown.arg ht).bind ?_
  rintro N₁ us ⟨rfl, hN₁⟩
  have happly : Succeeds l k N₁ (a.withArgs us m.span) fun N' r => N' = N₁ ∧ r = b := by
    refine ⟨N₁, b, ?_, rfl, rfl⟩
    rw [Adt.withArgs, hb]
    rfl
  refine happly.bind ?_
  rintro _ _ ⟨rfl, rfl⟩
  obtain ⟨N₂, u, hrun, rfl, hN₂⟩ := succeeds_recorded (l := l) (k := k) hN₁.within hm
  exact ⟨N₂, _, hrun, rfl, hN₁.trans hN₂⟩

theorem determined (F : Typing) (t : TypeRef) : t.Determined F := by
  induction t with
  | unit m =>
      rintro l k N ty ⟨rfl, hm⟩ hN -
      exact succeeds_recorded hN hm
  | infer m => exact fun _ _ _ _ h => h.elim
  | unresolved m name args => exact fun _ _ _ _ h => h.elim
  | builtin m name args =>
      rintro l k N ty ⟨hname, hm⟩ hN -
      have hbuiltin : Succeeds l k N (builtin? name) fun N' r => N' = N ∧ r = some ty :=
        ⟨N, _, rfl, rfl, hname⟩
      refine hbuiltin.bind ?_
      rintro _ _ ⟨rfl, rfl⟩
      exact succeeds_recorded hN hm
  | adt m name id args ih => exact determined_struct ih
  | param m name id args =>
      rintro l k N ty ⟨hty, hm⟩ hN hknown
      have hid : N.contains id := hknown id (.inr (by simp [resolutions]))
      refine (succeeds_lookup (find?_of_contains hN hty hid)).bind ?_
      rintro N _ ⟨rfl, rfl⟩
      exact succeeds_recorded hN hm

end TypeRef

namespace Declare

variable {Q : NodeTypes → α → Prop} {Q' : NodeTypes → β → Prop}

theorem Succeeds.bind {x : Declare α} {f : α → Declare β} (hx : Succeeds l k N x Q)
    (hf : ∀ N' a, Q N' a → Succeeds l k N' (f a) Q') : Succeeds l k N (x >>= f) Q' := by
  obtain ⟨N₁, a, hrun, ha⟩ := hx
  obtain ⟨N₂, b, hrun', hb⟩ := hf N₁ a ha
  exact ⟨N₂, b, by rw [perform_bind, hrun]; exact hrun', hb⟩

theorem succeeds_ofCheck {x : Check α} (hx : Check.Succeeds l k N x Q) :
    Succeeds l k N (ofCheck x) Q := by
  obtain ⟨N', a, hrun, ha⟩ := hx
  exact ⟨N', a, by rw [perform_ofCheck, hrun], ha⟩

theorem succeeds_record (hN : Typing.Within N.find? F) {id : NodeId} {t : Ty} (ht : F id = some t) :
    Succeeds l k N (ofCheck (Check.record id t)) fun N' _ => N' = N.insert id t ∧ N.Toward F N' :=
  ⟨N.insert id t, (), rfl, rfl, NodeTypes.toward_insert hN ht⟩

theorem succeeds_recordParams {gs : List (GenericParam × Param)} (hN : Typing.Within N.find? F)
    (hgs : ∀ g ∈ gs, F g.1.mark.id = some (.param g.2)) :
    Succeeds l k N (recordParams gs) fun N' _ =>
      N.Toward F N' ∧ ∀ g ∈ gs, N'.contains g.1.mark.id := by
  induction gs generalizing N with
  | nil => exact ⟨N, (), rfl, NodeTypes.toward_refl hN, by simp⟩
  | cons g gs ih =>
      rw [List.forall_mem_cons] at hgs
      refine (succeeds_record hN hgs.1).bind ?_
      rintro N₁ _ ⟨hinsert, hN₁⟩
      obtain ⟨N₂, u, hrun, hN₂, hall⟩ := ih hN₁.within hgs.2
      refine ⟨N₂, u, hrun, hN₁.trans hN₂, List.forall_mem_cons.2 ⟨hN₂.kept _ ?_, hall⟩⟩
      rw [hinsert]
      simp

end Declare

/-! ## Declarations -/

namespace Program

open NodeTypes

variable {p : Program} {path : List NodeId} {demand : NodeId → Declare Unit}

/-- Whether demands for structs that `F` declares succeed while the structs on the path are being
declared. A struct that one on the path rests on is not on the path itself. -/
def ServesFrom (p : Program) (F : Typing) (path : List NodeId) (demand : NodeId → Declare Unit) :
    Prop :=
  ∀ l k (N : NodeTypes) id, Founded p.struct? F id →
    (∀ y ∈ path, Relation.TransGen (NamedBy p.struct?) id y) → Typing.Within N.find? F →
      Succeeds l k N (demand id) fun N' _ => N.Toward F N' ∧ N'.contains id

section

variable (hdemand : p.ServesFrom F path demand)
include hdemand

theorem succeeds_forM {ids : List NodeId} (hids : ∀ id ∈ ids, Founded p.struct? F id)
    (hpath : ∀ id ∈ ids, ∀ y ∈ path, Relation.TransGen (NamedBy p.struct?) id y)
    (hN : Typing.Within N.find? F) :
    Succeeds l k N (ids.forM demand) fun N' _ => N.Toward F N' ∧ ∀ id ∈ ids, N'.contains id := by
  induction ids generalizing N with
  | nil => exact ⟨N, (), rfl, toward_refl hN, by simp⟩
  | cons id ids ih =>
      rw [List.forall_mem_cons] at hids hpath
      refine (hdemand l k N id hids.1 hpath.1 hN).bind ?_
      rintro N₁ _ ⟨hN₁, hid⟩
      obtain ⟨N₂, u, hrun, hN₂, hall⟩ := ih hids.2 hpath.2 hN₁.within
      exact ⟨N₂, u, hrun, hN₁.trans hN₂, List.forall_mem_cons.2 ⟨hN₂.kept _ hid, hall⟩⟩

theorem succeeds_read {t : TypeRef} {ty : Ty} (hids : ∀ id ∈ t.structs, Founded p.struct? F id)
    (hpath : ∀ id ∈ t.structs, ∀ y ∈ path, Relation.TransGen (NamedBy p.struct?) id y)
    (hreads : t.Reads F ty) (hN : Typing.Within N.find? F)
    (hparams : ∀ id, .param id ∈ t.resolutions → N.contains id) :
    Succeeds l k N (read demand t) fun N' u => u = ty ∧ N.Toward F N' := by
  refine (succeeds_forM hdemand hids hpath hN).bind ?_
  rintro N₁ _ ⟨hN₁, hall⟩
  refine succeeds_ofCheck ?_
  obtain ⟨N₂, u, hrun, rfl, hN₂⟩ := t.determined F l k N₁ ty hreads hN₁.within fun id hid =>
    hid.elim (fun h => hall id (TypeRef.mem_structs_iff.2 h)) fun h => hN₁.kept id (hparams id h)
  exact ⟨N₂, u, hrun, rfl, hN₁.trans hN₂⟩

theorem succeeds_readNames {xs : List TypedName} {tys : List Ty}
    (hids : ∀ x ∈ xs, ∀ id ∈ x.ty.structs, Founded p.struct? F id)
    (hpath : ∀ x ∈ xs, ∀ id ∈ x.ty.structs, ∀ y ∈ path, Relation.TransGen (NamedBy p.struct?) id y)
    (hreads : TypedName.ReadsAll F xs tys) (hN : Typing.Within N.find? F)
    (hparams : ∀ x ∈ xs, ∀ id, .param id ∈ x.ty.resolutions → N.contains id) :
    Succeeds l k N (readNames demand xs) fun N' us => us = tys ∧ N.Toward F N' := by
  induction xs generalizing N tys with
  | nil =>
      cases hreads
      exact ⟨N, [], rfl, rfl, toward_refl hN⟩
  | cons x xs ih =>
      cases hreads with
      | @cons _ ty _ rest hread hreads =>
          rw [List.forall_mem_cons] at hids hpath hparams
          refine (succeeds_read hdemand hids.1 hpath.1 hread.1 hN hparams.1).bind ?_
          rintro N₁ u ⟨rfl, hN₁⟩
          refine (succeeds_record hN₁.within hread.2).bind ?_
          rintro N₂ _ ⟨-, hN₂⟩
          refine (ih hids.2 hpath.2 hreads hN₂.within fun x hx id hid =>
            hN₂.kept _ (hN₁.kept _ (hparams.2 x hx id hid))).bind ?_
          rintro N₃ us ⟨rfl, hN₃⟩
          exact ⟨N₃, _, rfl, rfl, (hN₁.trans hN₂).trans hN₃⟩

end

/-! ## Structs and items -/

section

variable (hp : p.WellResolved)
include hp

theorem succeeds_struct {id : NodeId} (hdemand : p.ServesFrom F (id :: path) demand) {item : Item}
    {decl : StructDecl} (hstruct : p.struct? id = some (item, decl)) (hfounded : Founded p.struct? F id)
    (hpath : ∀ y ∈ path, Relation.TransGen (NamedBy p.struct?) id y) (hN : Typing.Within N.find? F) :
    Succeeds l k N (struct demand item decl) fun N' _ => N.Toward F N' ∧ N'.contains id := by
  obtain ⟨hitem, hkind, rfl⟩ := mem_of_struct? hstruct
  cases hfounded with
  | @intro _ item' decl' tys hstruct' hbefore hgenerics hfields hself =>
      obtain ⟨rfl, rfl⟩ : item = item' ∧ decl = decl' := by simpa [hstruct] using hstruct'
      refine (succeeds_recordParams hN hgenerics).bind ?_
      rintro N₁ _ ⟨hN₁, hparams⟩
      have hdeclared (x : TypedName) (hx : x ∈ decl.fields) (z : NodeId)
          (hz : .param z ∈ x.ty.resolutions) : N₁.contains z := by
        have hmem := hp.param item hitem z (List.mem_append_left _ (by
          rw [hkind, ItemKind.signatureTypes, TypeRef.resolutionsAll_eq]
          exact List.mem_flatMap.2 ⟨x.ty, List.mem_map_of_mem hx, hz⟩))
        rw [hkind, ItemKind.generics, ← ids_zip_params] at hmem
        obtain ⟨g, hg, rfl⟩ := List.mem_map.1 hmem
        exact hparams g hg
      refine (succeeds_readNames hdemand hbefore (fun x hx z hz y hy => ?_) hfields hN₁.within
        hdeclared).bind ?_
      · have hnamed : NamedBy p.struct? z item.id := ⟨item, decl, hstruct, x, hx, hz⟩
        rcases List.mem_cons.1 hy with rfl | hy
        · exact .single hnamed
        · exact .head hnamed (hpath y hy)
      rintro N₂ us ⟨rfl, hN₂⟩
      obtain ⟨N₃, u, hrun, hinsert, hN₃⟩ := succeeds_record (l := l) (k := k) hN₂.within hself
      refine ⟨N₃, u, hrun, (hN₁.trans hN₂).trans hN₃, ?_⟩
      rw [hinsert]
      simp

/-- A demand for a struct that the table declares succeeds: no cycle leads back to it. -/
theorem servesFrom_demand {depth : Nat} (hunderway : p.Underway depth path) :
    p.ServesFrom F path (Declare.demand p.struct? depth path) := by
  induction depth generalizing path with
  | zero =>
      intro l k N id hfounded hpath hN
      obtain ⟨⟨item, decl⟩, hstruct⟩ := Option.isSome_iff_exists.1 hfounded.isSome
      have hid : id ∉ path := fun h => hfounded.not_cyclic (hpath id h)
      obtain ⟨depth', hdepth, -⟩ := hunderway.cons hid hfounded.isSome
      omega
  | succ depth ih =>
      intro l k N id hfounded hpath hN
      obtain ⟨⟨item, decl⟩, hstruct⟩ := Option.isSome_iff_exists.1 hfounded.isSome
      have hid : id ∉ path := fun h => hfounded.not_cyclic (hpath id h)
      rw [Succeeds, Declare.demand, perform_unlessKnown]
      by_cases hknown : N.contains id
      · exact ⟨N, (), by simp [Context.contains, hknown, hstruct, hid], toward_refl hN, hknown⟩
      · obtain ⟨depth', hdepth, hunderway'⟩ := hunderway.cons hid hfounded.isSome
        obtain rfl : depth' = depth := by omega
        obtain ⟨N', u, hrun, hN'⟩ :=
          succeeds_struct (l := l) (k := k) hp (ih hunderway') hstruct hfounded hpath hN
        refine ⟨N', u, ?_, hN'⟩
        simp only [List.contains_nil, Bool.false_eq_true, if_false, hstruct, List.contains_iff_mem, hid,
          Session.types_signing, Context.contains, hknown, perform_noting, hrun]

/-- An item that the table declares is declared without an error. -/
theorem succeeds_declare {item : Item} (hitem : item ∈ p.items) (hsigned : item.SignedIn p.struct? F)
    (hN : Typing.Within N.find? F) :
    Succeeds l k N (p.declare item) fun N' _ => N.Toward F N' := by
  have hdemand : p.ServesFrom F [] p.demand := servesFrom_demand hp p.underway_nil
  have hparam (hgenerics : item.kind.generics = []) (t : TypeRef) (ht : t ∈ item.kind.signatureTypes)
      (id : NodeId) (hid : .param id ∈ t.resolutions) : N.contains id := by
    have hmem := hp.param item hitem id (List.mem_append_left _ (by
      rw [TypeRef.resolutionsAll_eq]
      exact List.mem_flatMap.2 ⟨t, ht, hid⟩))
    rw [hgenerics] at hmem
    simp at hmem
  unfold declare
  unfold Item.SignedIn at hsigned
  cases hkind : item.kind with
  | struct decl =>
      rw [hkind] at hsigned
      obtain ⟨N', u, hrun, hN', -⟩ := hdemand l k N item.id hsigned (by simp) hN
      exact ⟨N', u, hrun, hN'⟩
  | fn decl =>
      simp only [hkind] at hsigned
      obtain ⟨tys, ret, hbefore, hparams, hret, hself⟩ := hsigned
      rw [hkind] at hparam
      refine (succeeds_readNames hdemand hbefore (by simp) hparams hN fun x hx =>
        hparam rfl x.ty (List.mem_append_left _ (List.mem_map_of_mem hx))).bind ?_
      rintro N₁ us ⟨rfl, hN₁⟩
      have hlast {N₂ : NodeTypes} (hN₂ : N.Toward F N₂) :
          Succeeds l k N₂ (ofCheck (Check.record item.id (.fn us ret))) fun N' _ => N.Toward F N' := by
        obtain ⟨N₃, u, hrun, -, hN₃⟩ := succeeds_record (l := l) (k := k) hN₂.within hself
        exact ⟨N₃, u, hrun, hN₂.trans hN₃⟩
      cases hdecl : decl.ret with
      | none =>
          rw [hdecl] at hret
          obtain rfl : ret = .unit := hret
          exact hlast hN₁
      | some t =>
          rw [hdecl] at hret
          refine (succeeds_read hdemand hret.1 (by simp) hret.2 hN₁.within fun id hid =>
            hN₁.kept _ (hparam rfl t (List.mem_append_right _ (by simp [hdecl])) id hid)).bind ?_
          rintro N₂ u ⟨rfl, hN₂⟩
          exact hlast (hN₁.trans hN₂)
  | const decl =>
      simp only [hkind] at hsigned
      obtain ⟨t, hbefore, ht, hself⟩ := hsigned
      rw [hkind] at hparam
      refine (succeeds_read hdemand hbefore (by simp) ht hN
        (hparam rfl decl.ty (List.mem_singleton_self _))).bind ?_
      rintro N₁ u ⟨rfl, hN₁⟩
      obtain ⟨N₂, u, hrun, -, hN₂⟩ := succeeds_record (l := l) (k := k) hN₁.within hself
      exact ⟨N₂, u, hrun, hN₁.trans hN₂⟩

theorem declareAll_of_signedIn {items : List Item} (hitems : ∀ item ∈ items, item ∈ p.items)
    (hsigned : ∀ item ∈ items, item.SignedIn p.struct? F) (hN : Typing.Within N.find? F) :
    ∃ N', p.declareAll items ⟨.signing l k N, []⟩ = (.ok (), ⟨.signing l k N', []⟩) ∧
      Typing.Within N'.find? F := by
  induction items generalizing N with
  | nil => exact ⟨N, rfl, hN⟩
  | cons item rest ih =>
      rw [List.forall_mem_cons] at hitems hsigned
      obtain ⟨N₁, u, hrun, hN₁⟩ := succeeds_declare (l := l) (k := k) hp hitems.1 hsigned.1 hN
      obtain ⟨N₂, heq, hN₂⟩ := ih hitems.2 hsigned.2 hN₁.within
      exact ⟨N₂, by rw [declareAll, hrun]; exact heq, hN₂⟩

end

end Program

end TypeInference

import Mathlib.Data.List.Forall2
import TypeInference.Proofs.Check.CoherentBodies
import TypeInference.Proofs.Check.TypedLiteral
import TypeInference.Proofs.Ty.Renumber

/-!
# Sessions that agree in their solutions

Two runs may create their variables and bind them in different orders. What
they have in common is not the types that they record, but what these types
become in the solutions of either: a solution of one session is paired with
solutions of the other, and in every pair each node has one type.
-/

namespace TypeInference

open Ty Bindings Check

/-! ## Sessions of a program -/

/-- What the bodies of a program are checked against: the shapes and the declarations of its structs,
and how many nodes are located. -/
structure Setting where
  shapes : NodeId → Shape
  scope : Scope
  base : Nat
  indexed : ∀ d, (shapes d).IsIndexed
  noParams : ∀ id q, ¬scope.params id q

variable {W : Setting} {kinds kinds' : List VarKind} {s s' : Session} {id : NodeId} {t t' u u' : Ty}

structure Setting.Owns (W : Setting) (id : NodeId) : Prop where
  plain : ¬W.scope.isStruct id
  located : id < W.base

structure Setting.IsType (W : Setting) (kinds : List VarKind) (t : Ty) : Prop where
  fine : t.Fine W.shapes kinds
  coherent : t.Coherent W.scope.structs

structure Session.IsClean (W : Setting) (kinds : List VarKind) (s : Session) : Prop where
  sound : s.Sound W.shapes kinds
  declares : s.Declares W.scope
  base_le : W.base ≤ s.locations.size
  errors_eq : s.sink.errors = []

def Session.more (s : Session) (n : Nat) : Session :=
  { s with context := { s.context with bindings := (s.context.bindings.newVars n).2 } }

/-- New variables may be of any kinds. -/
theorem Bindings.Sound.more {P : Ty → Prop} {b : Bindings} (hb : b.Sound kinds P)
    (hP : ∀ k v, P (.infer k v)) (ks : List VarKind) :
    (b.newVars ks.length).2.Sound (kinds ++ ks) P := by
  induction ks generalizing b kinds with
  | nil =>
      rw [List.append_nil]
      exact hb
  | cons k ks ih =>
      have hrest := ih (hb.newVar hP k)
      rw [List.append_assoc, List.singleton_append] at hrest
      rwa [Bindings.newVars, List.length_cons, Nat.add_comm ks.length 1, ← Nat.add_assoc]

namespace Setting.IsType

theorem mono (h : W.IsType kinds t) (hk : kinds <+: kinds') : W.IsType kinds' t :=
  ⟨h.fine.mono hk, h.coherent⟩

theorem unit : W.IsType kinds .unit := ⟨.unit, coherent_leaf (by simp) rfl⟩

theorem prim (p : Prim) : W.IsType kinds (.prim p) := ⟨.prim p, coherent_leaf (by simp) rfl⟩

theorem infer {k : VarKind} {v : VarId} (h : kinds[v]? = some k) : W.IsType kinds (.infer k v) :=
  ⟨.infer h, coherent_leaf (by simp) rfl⟩

theorem part (h : W.IsType kinds t) {p : Ty} (hp : p ∈ t.parts) : W.IsType kinds p :=
  ⟨h.fine.part hp, h.coherent.part hp⟩

end Setting.IsType

namespace Session.IsClean

variable (h : s.IsClean W kinds)
include h

theorem closed : W.scope.structs.Closed := h.declares.closed

theorem resolve (ht : W.IsType kinds t) : W.IsType kinds (s.context.resolve t) :=
  ⟨ht.fine.resolve h.sound.bindings, h.declares.coherent.bindings.resolve h.closed ht.coherent⟩

/-- A struct has its declaration for a type, if it has been declared. -/
theorem lookup_struct (hid : W.scope.isStruct id) :
    s.context.lookup id = (W.scope.structs id).map .adt := by
  cases hd : W.scope.structs id with
  | none =>
      rw [Option.map_none, Option.eq_none_iff_forall_ne_some]
      intro t ht
      obtain ⟨d, hd', -⟩ := (h.declares.coherent.lookup h.closed ht).1 hid
      simp [hd] at hd'
  | some d =>
      have hfind := (h.declares.recorded id d hd).2
      rw [Context.lookup, hfind, Option.map_some, Option.map_some]
      refine congrArg some ((rewrite_adt _ _ d).trans (congrArg Ty.adt ?_))
      exact (h.closed id d hd).map_vars_eq _

theorem isType_find? (hid : ¬W.scope.isStruct id) (ht : s.context.types.find? id = some t) :
    W.IsType kinds t :=
  ⟨h.sound.types id t ht, h.declares.coherent.types id t ht hid⟩

/-- A declaration is over no variables, so it is fine in every session. -/
theorem fine_declaration {d : Adt Ty} (hd : W.scope.structs id = some d) :
    (Ty.adt d).Fine W.shapes kinds :=
  h.sound.types id _ (h.declares.recorded id d hd).2

theorem lt_size (hid : W.Owns id) : id < s.locations.size :=
  Nat.lt_of_lt_of_le hid.located h.base_le

theorem insert (hid : ¬W.scope.isStruct id) (hlt : id < s.locations.size) (ht : W.IsType kinds t) :
    Session.IsClean W kinds { s with context := s.context.insert id t } := by
  refine ⟨h.sound.insert ht.fine hlt, ?_, h.base_le, h.errors_eq⟩
  refine h.declares.after (coherent_insert h.declares.coherent hid
    (fun q hq => (W.noParams id q hq).elim) ht.coherent) fun i hi => ?_
  show (s.context.insert id t).contains i
  rw [Context.contains_insert, hi, Bool.or_true]

theorem setBindings {b : Bindings} (hb : b.Sound kinds' (IsProper W.shapes))
    (hcoherent : b.Coherent W.scope.structs) (hk : kinds <+: kinds') :
    Session.IsClean W kinds' { s with context := { s.context with bindings := b } } := by
  refine ⟨⟨hb, fun i u hu => (h.sound.types i u hu).mono hk, h.sound.located, h.sound.builtins⟩, ?_,
    h.base_le, h.errors_eq⟩
  have hs := h.declares.coherent
  exact h.declares.after ⟨hcoherent, hs.structs, hs.params, hs.types, hs.located⟩ fun _ hi => hi

theorem unify (ht : W.IsType kinds t) (hu : W.IsType kinds u) :
    Session.IsClean W kinds { s with context := (s.context.unify t u).2 } := by
  obtain ⟨-, htypes, hbuiltins⟩ := Context.unify_eq_iff.1 (Prod.eta (s.context.unify t u)).symm
  have hleads := (h.sound.leads_unify ht.fine hu.fine).1
  have hcoherent := (Context.coherent_unify h.closed ht.coherent hu.coherent
    h.declares.coherent.bindings).1
  exact h.setBindings hleads.sound.bindings hcoherent List.prefix_rfl

theorem isType_unify (ht : W.IsType kinds t) (hu : W.IsType kinds u) {c : Ty}
    (hok : (s.context.unify t u).1 = .ok c) : W.IsType kinds c := by
  obtain ⟨hc, -⟩ := (h.sound.leads_unify ht.fine hu.fine).2 c hok
  have hresolved := (h.unify ht hu).resolve ht
  rwa [show Context.resolve _ t = c from hc] at hresolved

/-- Types that a solution makes equal unify. -/
theorem unify_of_subst_eq (ht : W.IsType kinds t) (hu : W.IsType kinds u) {σ : VarId → Ty}
    (hkinds : RespectsKinds kinds σ) (hσ : s.context.bindings.SatisfiedBy σ)
    (heq : t.subst σ = u.subst σ) : ∃ c, (s.context.unify t u).1 = .ok c ∧
      (s.context.unify t u).2.bindings.SatisfiedBy σ := by
  obtain ⟨hrun, -, -⟩ := Context.unify_eq_iff.1 (Prod.eta (s.context.unify t u)).symm
  have hready := h.sound.bindings.ready (isLocal_isProper _) ht.fine.wellKinded hu.fine.wellKinded
    ht.fine.proper hu.fine.proper
  obtain ⟨c, b, hrun', hb⟩ := Solve.succeeds_unify hready hkinds hσ heq
  obtain ⟨hc, rfl⟩ := Prod.mk.inj (hrun.symm.trans hrun')
  exact ⟨c, hc, hb⟩

/-- What solves the bindings after two types have been unified: the solutions that make them equal. -/
theorem satisfiedBy_unify_iff (ht : W.IsType kinds t) (hu : W.IsType kinds u) {c : Ty}
    (hok : (s.context.unify t u).1 = .ok c) {σ : VarId → Ty} (hkinds : RespectsKinds kinds σ) :
    (s.context.unify t u).2.bindings.SatisfiedBy σ ↔
      s.context.bindings.SatisfiedBy σ ∧ t.subst σ = u.subst σ := by
  refine ⟨fun hσ => ⟨?_, ?_⟩, fun ⟨hσ, heq⟩ => ?_⟩
  · obtain ⟨hrun, -, -⟩ := Context.unify_eq_iff.1 (Prod.eta (s.context.unify t u)).symm
    have hsteps := Solve.steps_unify (isLocal_isProper _) (h.sound.bindings.ready
      (isLocal_isProper _) ht.fine.wellKinded hu.fine.wellKinded ht.fine.proper hu.fine.proper)
    rw [hrun] at hsteps
    exact hσ.of_steps h.sound.bindings.toValid hsteps
  · obtain ⟨htc, huc⟩ := (h.sound.leads_unify ht.fine hu.fine).2 c hok
    rw [← hσ t, ← hσ u]
    exact congrArg (Ty.subst σ) (htc.trans huc.symm)
  · obtain ⟨c, -, hσ⟩ := h.unify_of_subst_eq ht hu hkinds hσ heq
    exact hσ

theorem more (ks : List VarKind) : Session.IsClean W (kinds ++ ks) (s.more ks.length) :=
  h.setBindings (h.sound.bindings.more (fun _ _ => ⟨trivial, by simp⟩) ks)
    h.declares.coherent.bindings (List.prefix_append _ _)

theorem setLocations {l : Locations} (hle : s.locations.size ≤ l.size) :
    Session.IsClean W kinds { s with locations := l } := by
  refine ⟨(h.sound.leads_locations hle).sound, ?_, Nat.le_trans h.base_le hle, h.errors_eq⟩
  have hs := h.declares.coherent
  exact h.declares.after ⟨hs.bindings, hs.structs, hs.params, hs.types, fun i hi =>
    Nat.lt_of_lt_of_le (hs.located i hi) hle⟩ fun _ hi => hi

end Session.IsClean

/-! ## Variables that a substitution has to agree on -/

theorem Ty.subst_adt (σ : VarId → Ty) (a : Adt Ty) : (Ty.adt a).subst σ = .adt (a.map (Ty.subst σ)) :=
  rewrite_adt _ _ a

theorem Ty.subst_fn (σ : VarId → Ty) (ps : List Ty) (r : Ty) :
    (Ty.fn ps r).subst σ = .fn (ps.map (Ty.subst σ)) (r.subst σ) := rewrite_fn _ _ ps r

theorem Ty.subst_congr {σ τ : VarId → Ty} (ht : t.WellKinded kinds)
    (h : ∀ v < kinds.length, σ v = τ v) : t.subst σ = t.subst τ := by
  refine rewrite_congr (fun k v hkv => h v ?_) fun _ _ => rfl
  exact (List.getElem?_eq_some_iff.1 (ht _ (mem_nodes_of_mem_leaves hkv))).1

/-- Bindings say nothing about variables that have not been created. -/
theorem Bindings.SatisfiedBy.congr {b : Bindings} {σ τ : VarId → Ty} (hσ : b.SatisfiedBy σ)
    (hb : b.Valid kinds) (h : ∀ v < kinds.length, σ v = τ v) : b.SatisfiedBy τ := by
  have hafter : b.after τ = τ := by
    funext v
    by_cases hlt : v < kinds.length
    · have hkind : kinds[v]? = some kinds[v] := List.getElem?_eq_getElem hlt
      rw [after, resolve, subst, rewrite_infer, ← subst, subst_chase _ _ kinds[v]]
      have hresolved := hσ (.infer kinds[v] v)
      rw [subst_congr (hb.wellKinded v _ hkind) h, subst_infer, h v hlt] at hresolved
      exact hresolved
    · have hunbound : b.isBound v = false := by
        rw [Bool.eq_false_iff]
        exact fun hbound => hlt (hb.count_eq ▸ hb.lt_of_bound v hbound)
      rw [after, resolve_infer_of_unbound hunbound, subst_infer]
  intro t
  rw [← subst_after, hafter]

theorem RespectsKinds.congr {σ τ : VarId → Ty} (hσ : RespectsKinds kinds σ)
    (h : ∀ v < kinds.length, σ v = τ v) : RespectsKinds kinds τ := by
  intro v k hv
  rw [← h v (List.getElem?_eq_some_iff.1 hv).1]
  exact hσ v k hv

/-- Substitutions that agree on new variables respect the kinds of these together. -/
theorem RespectsKinds.append {σ σ' : VarId → Ty} {ks : List VarKind} (hσ' : RespectsKinds kinds' σ')
    (hσ : RespectsKinds (kinds ++ ks) σ) (h : ∀ i, σ (kinds.length + i) = σ' (kinds'.length + i)) :
    RespectsKinds (kinds' ++ ks) σ' := by
  intro v k hv
  by_cases hlt : v < kinds'.length
  · exact hσ' v k (by rwa [List.getElem?_append_left hlt] at hv)
  · obtain ⟨i, rfl⟩ := Nat.exists_eq_add_of_le (Nat.le_of_not_lt hlt)
    rw [← h i]
    refine hσ _ k ?_
    rwa [List.getElem?_append_right (Nat.le_add_right _ _), Nat.add_sub_cancel_left] at hv ⊢

/-- The most general solution of bindings: every variable that is not bound stands for itself. -/
def Bindings.general (b : Bindings) (kinds : List VarKind) : VarId → Ty :=
  b.after fun v => .infer (kinds[v]?.getD .general) v

theorem Bindings.respectsKinds_general {b : Bindings} (hb : b.Valid kinds) :
    RespectsKinds kinds (b.general kinds) := by
  refine respectsKinds_after hb fun v k hv => ?_
  rw [hv, Option.getD_some]
  exact accepts_infer k v

theorem Bindings.satisfiedBy_general {b : Bindings} (hb : b.Valid kinds) :
    b.SatisfiedBy (b.general kinds) := satisfiedBy_after hb _

theorem Bindings.subst_general {b : Bindings} (hb : b.Valid kinds) (ht : t.WellKinded kinds) :
    t.subst (b.general kinds) = b.resolve t := by
  rw [general, subst_after]
  refine (rewrite_congr (fun k v hkv => ?_) fun _ _ => rfl).trans (rewrite_id _)
  have hkind : kinds[v]? = some k := resolve_wellKinded hb ht _ (mem_nodes_of_mem_leaves hkv)
  show Ty.infer (kinds[v]?.getD .general) v = .infer k v
  rw [hkind, Option.getD_some]

/-! ## Pairings -/

section

variable {α β γ δ : Type} {R : α → β → Prop}

theorem rel_map {S : γ → δ → Prop} {f : α → γ} {g : β → δ} {o : Option α} {o' : Option β}
    (h : Option.Rel R o o') (hfg : ∀ a b, R a b → S (f a) (g b)) :
    Option.Rel S (o.map f) (o'.map g) := by
  cases h with
  | none => exact .none
  | some hab => exact .some (hfg _ _ hab)

theorem rel_comp {S : β → γ → Prop} {T : α → γ → Prop} {o : Option α} {o' : Option β} {o'' : Option γ}
    (h : Option.Rel R o o') (h' : Option.Rel S o' o'') (hT : ∀ a b c, R a b → S b c → T a c) :
    Option.Rel T o o'' := by
  cases h with
  | none =>
      cases h'
      exact .none
  | some hab =>
      cases h' with
      | some hbc => exact .some (hT _ _ _ hab hbc)

theorem rel_mono {S : α → β → Prop} {o : Option α} {o' : Option β} (h : Option.Rel R o o')
    (hRS : ∀ a b, R a b → S a b) : Option.Rel S o o' := by
  cases h with
  | none => exact .none
  | some hab => exact .some (hRS _ _ hab)

end

/-- The kinds of the variables of two sessions, and which of their solutions go together. -/
structure Pairing where
  kinds : List VarKind
  kinds' : List VarKind
  joint : (VarId → Ty) → (VarId → Ty) → Prop

namespace Pairing

def more (P : Pairing) (ks : List VarKind) : Pairing := ⟨P.kinds ++ ks, P.kinds' ++ ks, P.joint⟩

/-- Of the pairs those are left that solve these bindings on the first side. -/
def narrow (P : Pairing) (b : Bindings) : Pairing :=
  ⟨P.kinds, P.kinds', fun σ σ' => P.joint σ σ' ∧ RespectsKinds P.kinds σ ∧ b.SatisfiedBy σ⟩

/-- Types of the two sessions that become one type in every pair of solutions. -/
structure Types (P : Pairing) (W : Setting) (t t' : Ty) : Prop where
  left : W.IsType P.kinds t
  right : W.IsType P.kinds' t'
  equal : ∀ {σ σ'}, P.joint σ σ' → t.subst σ = t'.subst σ'

/-- Whether a pairing comes after another: more variables may have been created, and what the pairs
say about the former variables, former pairs have said. -/
structure Leads (P Q : Pairing) : Prop where
  left : P.kinds <+: Q.kinds
  right : P.kinds' <+: Q.kinds'
  joint : ∀ {σ σ'}, Q.joint σ σ' → ∃ τ τ', P.joint τ τ' ∧
    (∀ v < P.kinds.length, τ v = σ v) ∧ ∀ v < P.kinds'.length, τ' v = σ' v

/-- Two sessions of the setting whose solutions are paired. The new variables of one are those of the
other, also the ones that are created later. Nodes have one type in every pair, if they are shared. -/
structure Holds (P : Pairing) (W : Setting) (shared : NodeId → Prop) (s s' : Session) : Prop where
  left : s.IsClean W P.kinds
  right : s'.IsClean W P.kinds'
  locations_eq : s'.locations = s.locations
  entries : ∀ id, shared id → ¬W.scope.isStruct id →
    Option.Rel (P.Types W) (s.context.types.find? id) (s'.context.types.find? id)
  satisfied : ∀ {σ σ'}, P.joint σ σ' →
    s.context.bindings.SatisfiedBy σ ∧ s'.context.bindings.SatisfiedBy σ'
  respects : ∀ {σ σ'}, P.joint σ σ' → RespectsKinds P.kinds σ → RespectsKinds P.kinds' σ'
  aligned : ∀ {σ σ'}, P.joint σ σ' → ∀ i, σ (P.kinds.length + i) = σ' (P.kinds'.length + i)

variable {P Q : Pairing} {shared : NodeId → Prop}

namespace Leads

theorem refl (P : Pairing) : P.Leads P :=
  ⟨List.prefix_rfl, List.prefix_rfl, fun h => ⟨_, _, h, fun _ _ => rfl, fun _ _ => rfl⟩⟩

theorem trans {R : Pairing} (h : P.Leads Q) (h' : Q.Leads R) : P.Leads R := by
  refine ⟨h.left.trans h'.left, h.right.trans h'.right, fun hjoint => ?_⟩
  obtain ⟨τ, τ', hjoint, hτ, hτ'⟩ := h'.joint hjoint
  obtain ⟨υ, υ', hjoint, hυ, hυ'⟩ := h.joint hjoint
  exact ⟨υ, υ', hjoint,
    fun v hv => (hυ v hv).trans (hτ v (Nat.lt_of_lt_of_le hv h.left.length_le)),
    fun v hv => (hυ' v hv).trans (hτ' v (Nat.lt_of_lt_of_le hv h.right.length_le))⟩

theorem more (P : Pairing) (ks : List VarKind) : P.Leads (P.more ks) :=
  ⟨List.prefix_append _ _, List.prefix_append _ _,
    fun h => ⟨_, _, h, fun _ _ => rfl, fun _ _ => rfl⟩⟩

theorem narrow (P : Pairing) (b : Bindings) : P.Leads (P.narrow b) :=
  ⟨List.prefix_rfl, List.prefix_rfl, fun h => ⟨_, _, h.1, fun _ _ => rfl, fun _ _ => rfl⟩⟩

end Leads

namespace Types

theorem mono (h : P.Types W t t') (hlead : P.Leads Q) : Q.Types W t t' := by
  refine ⟨h.left.mono hlead.left, h.right.mono hlead.right, fun hjoint => ?_⟩
  obtain ⟨τ, τ', hjoint, hτ, hτ'⟩ := hlead.joint hjoint
  rw [← subst_congr h.left.fine.wellKinded hτ, ← subst_congr h.right.fine.wellKinded hτ']
  exact h.equal hjoint

theorem unit : P.Types W .unit .unit := ⟨.unit, .unit, fun _ => rfl⟩

theorem prim (p : Prim) : P.Types W (.prim p) (.prim p) := ⟨.prim p, .prim p, fun _ => rfl⟩

/-- Function types have parameters of the same types, and the same result. -/
theorem fn {ps qs : List Ty} {r r' : Ty} (h : P.Types W (.fn ps r) (.fn qs r'))
    (hjoint : ∃ σ σ', P.joint σ σ') : List.Forall₂ (P.Types W) ps qs ∧ P.Types W r r' := by
  have hfn {σ σ' : VarId → Ty} (hjoint : P.joint σ σ') :
      ps.map (Ty.subst σ) = qs.map (Ty.subst σ') ∧ r.subst σ = r'.subst σ' := by
    have heq := h.equal hjoint
    rw [subst_fn, subst_fn] at heq
    exact Ty.fn.inj heq
  refine ⟨List.forall₂_iff_get.2 ⟨?_, fun i hi hi' => ?_⟩, ?_⟩
  · obtain ⟨σ, σ', hjoint⟩ := hjoint
    simpa using congrArg List.length (hfn hjoint).1
  · refine ⟨h.left.part (List.mem_append_left _ (List.get_mem _ _)),
      h.right.part (List.mem_append_left _ (List.get_mem _ _)), fun hjoint => ?_⟩
    have hget := congrArg (·[i]?) (hfn hjoint).1
    simpa [hi, hi'] using hget
  · exact ⟨h.left.part (List.mem_append_right _ (List.mem_singleton_self r)),
      h.right.part (List.mem_append_right _ (List.mem_singleton_self r')),
      fun hjoint => (hfn hjoint).2⟩

/-- Struct types of one declaration have fields of the same types. -/
theorem field {a a' : Adt Ty} (h : P.Types W (.adt a) (.adt a')) {i : Nat} {f f' : Field Ty}
    (hf : a.fields[i]? = some f) (hf' : a'.fields[i]? = some f') : P.Types W f.ty f'.ty := by
  have hmem := List.mem_of_getElem? hf
  have hmem' := List.mem_of_getElem? hf'
  refine ⟨h.left.part (List.mem_append_left _ (List.mem_map_of_mem hmem)),
    h.right.part (List.mem_append_left _ (List.mem_map_of_mem hmem')), fun {σ σ'} hjoint => ?_⟩
  have hadt := h.equal hjoint
  rw [subst_adt, subst_adt] at hadt
  have hfields := congrArg (·[i]?) (congrArg Adt.fields (Ty.adt.inj hadt))
  simpa [Adt.map, hf, hf', Field.map] using congrArg (Option.map Field.ty) hfields

end Types

abbrev TypesAll (P : Pairing) (W : Setting) : List Ty → List Ty → Prop := List.Forall₂ (P.Types W)

namespace TypesAll

variable {ts ts' : List Ty}

theorem mono (h : P.TypesAll W ts ts') (hlead : P.Leads Q) : Q.TypesAll W ts ts' :=
  List.Forall₂.imp (fun _ _ ht => ht.mono hlead) h

theorem left (h : P.TypesAll W ts ts') : ∀ t ∈ ts, W.IsType P.kinds t := by
  induction h with
  | nil => simp
  | cons ht _ ih => exact List.forall_mem_cons.2 ⟨ht.left, ih⟩

theorem right (h : P.TypesAll W ts ts') : ∀ t ∈ ts', W.IsType P.kinds' t := by
  induction h with
  | nil => simp
  | cons ht _ ih => exact List.forall_mem_cons.2 ⟨ht.right, ih⟩

theorem equal (h : P.TypesAll W ts ts') {σ σ' : VarId → Ty} (hjoint : P.joint σ σ') :
    ts.map (Ty.subst σ) = ts'.map (Ty.subst σ') := by
  induction h with
  | nil => rfl
  | cons ht _ ih => rw [List.map_cons, List.map_cons, ht.equal hjoint, ih]

end TypesAll

namespace Holds

variable (h : P.Holds W shared s s')
include h

/-! ## Types of both sessions -/

theorem declaration {d : Adt Ty} (hd : W.scope.structs id = some d) (hparams : d.params = []) :
    P.Types W (.adt d) (.adt d) := by
  have hcoherent := coherent_declaration h.left.closed hd hparams
  refine ⟨⟨h.left.fine_declaration hd, hcoherent⟩, ⟨h.right.fine_declaration hd, hcoherent⟩,
    fun {σ σ'} _ => ?_⟩
  have hmap := (h.left.closed id d hd).map_vars_eq
  rw [subst_adt, subst_adt]
  exact congrArg Ty.adt ((hmap _).trans (hmap _).symm)

/-- A declaration that needs no arguments where it is named. -/
theorem declaration_of_free {d : Adt Ty} (hd : W.scope.structs id = some d)
    (hfree : ¬d.isUninstantiated) : P.Types W (.adt d) (.adt d) := by
  refine h.declaration hd ?_
  simpa [Adt.isUninstantiated, Adt.isGeneric, (h.left.closed id d hd).args_eq] using hfree

theorem instantiate {d : Adt Ty} (hd : W.scope.structs id = some d) (hparams : d.params ≠ [])
    {args args' : List Ty} (hlen : args.length = d.params.length) (hargs : P.TypesAll W args args') :
    P.Types W (.adt (d.instantiate args)) (.adt (d.instantiate args')) := by
  have hlen' : args'.length = d.params.length := hargs.length_eq.symm.trans hlen
  have hdeclaration := h.left.closed id d hd
  refine ⟨⟨?_, ?_⟩, ⟨?_, ?_⟩, fun {σ σ'} hjoint => ?_⟩
  · exact (h.left.fine_declaration hd).instantiate fun u hu => (hargs.left u hu).fine
  · exact coherent_instantiate h.left.closed hd hparams hlen fun u hu => (hargs.left u hu).coherent
  · exact (h.right.fine_declaration hd).instantiate fun u hu => (hargs.right u hu).fine
  · exact coherent_instantiate h.left.closed hd hparams hlen' fun u hu => (hargs.right u hu).coherent
  · rw [subst_adt, subst_adt]
    refine congrArg Ty.adt (.trans (hdeclaration.map_instantiate hlen _ _) (.trans ?_
      (hdeclaration.map_instantiate hlen' _ _).symm))
    exact congrArg d.instantiate (hargs.equal hjoint)

theorem resolve (ht : P.Types W t t') :
    P.Types W (s.context.resolve t) (s'.context.resolve t') := by
  refine ⟨h.left.resolve ht.left, h.right.resolve ht.right, fun {σ σ'} hjoint => ?_⟩
  obtain ⟨hσ, hσ'⟩ := h.satisfied hjoint
  exact (hσ t).trans ((ht.equal hjoint).trans (hσ' t').symm)

theorem lookup (hid : shared id) (hplain : ¬W.scope.isStruct id) :
    Option.Rel (P.Types W) (s.context.lookup id) (s'.context.lookup id) := by
  rw [Context.lookup, Context.lookup]
  exact rel_map (h.entries id hid hplain) fun _ _ ht => h.resolve ht

/-! ## Steps of both sessions -/

theorem insert (hid : ¬W.scope.isStruct id) (hlt : id < s.locations.size) (ht : P.Types W t t') :
    P.Holds W shared { s with context := s.context.insert id t }
      { s' with context := s'.context.insert id t' } where
  left := h.left.insert hid hlt ht.left
  right := h.right.insert hid (h.locations_eq ▸ hlt) ht.right
  locations_eq := h.locations_eq
  entries i hi hplain := by
    show Option.Rel _ ((s.context.types.insert id t).find? i) ((s'.context.types.insert id t').find? i)
    rw [NodeTypes.find?_insert, NodeTypes.find?_insert]
    split
    · exact .some ht
    · exact h.entries i hi hplain
  satisfied := h.satisfied
  respects := h.respects
  aligned := h.aligned

theorem setLocations {l : Locations} (hle : s.locations.size ≤ l.size) :
    P.Holds W shared { s with locations := l } { s' with locations := l } where
  left := h.left.setLocations hle
  right := h.right.setLocations (h.locations_eq ▸ hle)
  locations_eq := rfl
  entries := h.entries
  satisfied := h.satisfied
  respects := h.respects
  aligned := h.aligned

/-- Variables of the same kinds are created in both sessions. -/
theorem more (ks : List VarKind) :
    (P.more ks).Holds W shared (s.more ks.length) (s'.more ks.length) where
  left := h.left.more ks
  right := h.right.more ks
  locations_eq := h.locations_eq
  entries i hi hplain := rel_mono (h.entries i hi hplain) fun _ _ ht => ht.mono (.more P ks)
  satisfied hjoint := h.satisfied hjoint
  respects hjoint hσ :=
    (h.respects hjoint (hσ.of_prefix (List.prefix_append _ _))).append hσ (h.aligned hjoint)
  aligned {σ σ'} hjoint i := by
    simp only [Pairing.more, List.length_append, Nat.add_assoc]
    exact h.aligned hjoint _

/-- A new variable of each session; they stand for one type. -/
theorem types_infer {ks : List VarKind} {i : Nat} {k : VarKind} (hk : ks[i]? = some k) :
    (P.more ks).Types W (.infer k (s.context.bindings.count + i))
      (.infer k (s'.context.bindings.count + i)) := by
  rw [h.left.sound.bindings.count_eq, h.right.sound.bindings.count_eq]
  refine ⟨.infer ?_, .infer ?_, fun hjoint => h.aligned hjoint i⟩ <;>
    rwa [Pairing.more, List.getElem?_append_right (Nat.le_add_right _ _), Nat.add_sub_cancel_left]

/-- If the first two types unify and some pair solves what that binds, then the other two types unify,
and exactly the pairs are left that solve it. -/
theorem unify (ht : P.Types W t t') (hu : P.Types W u u') {c : Ty}
    (hok : (s.context.unify t u).1 = .ok c)
    (hsolvable : ∃ σ σ', (P.narrow (s.context.unify t u).2.bindings).joint σ σ') :
    ∃ c', (s'.context.unify t' u').1 = .ok c' ∧
      (P.narrow (s.context.unify t u).2.bindings).Holds W shared
        { s with context := (s.context.unify t u).2 }
        { s' with context := (s'.context.unify t' u').2 } ∧
      (P.narrow (s.context.unify t u).2.bindings).Types W c c' := by
  obtain ⟨-, htypes, -⟩ := Context.unify_eq_iff.1 (Prod.eta (s.context.unify t u)).symm
  obtain ⟨-, htypes', -⟩ := Context.unify_eq_iff.1 (Prod.eta (s'.context.unify t' u')).symm
  -- Whatever is left of the pairs makes the other two types equal as well.
  have hsucceeds {σ σ' : VarId → Ty}
      (hjoint : (P.narrow (s.context.unify t u).2.bindings).joint σ σ') :
      ∃ c', (s'.context.unify t' u').1 = .ok c' ∧
        (s'.context.unify t' u').2.bindings.SatisfiedBy σ' := by
    obtain ⟨hjoint, hkinds, hσ⟩ := hjoint
    obtain ⟨-, heq⟩ := (h.left.satisfiedBy_unify_iff ht.left hu.left hok hkinds).1 hσ
    rw [ht.equal hjoint, hu.equal hjoint] at heq
    exact h.right.unify_of_subst_eq ht.right hu.right (h.respects hjoint hkinds)
      (h.satisfied hjoint).2 heq
  obtain ⟨σ, σ', hjoint⟩ := hsolvable
  obtain ⟨c', hok', -⟩ := hsucceeds hjoint
  have hholds : (P.narrow (s.context.unify t u).2.bindings).Holds W shared
      { s with context := (s.context.unify t u).2 }
      { s' with context := (s'.context.unify t' u').2 } :=
    { left := h.left.unify ht.left hu.left
      right := h.right.unify ht.right hu.right
      locations_eq := h.locations_eq
      entries := fun i hi hplain => by
        rw [htypes, htypes']
        exact rel_mono (h.entries i hi hplain) fun _ _ hentry => hentry.mono (.narrow P _)
      satisfied := fun hjoint => ⟨hjoint.2.2, (hsucceeds hjoint).choose_spec.2⟩
      respects := fun hjoint => h.respects hjoint.1
      aligned := fun hjoint => h.aligned hjoint.1 }
  refine ⟨c', hok', hholds, ?_⟩
  obtain ⟨hc, -⟩ := (h.left.sound.leads_unify ht.left.fine hu.left.fine).2 c hok
  obtain ⟨hc', -⟩ := (h.right.sound.leads_unify ht.right.fine hu.right.fine).2 c' hok'
  have hresolved := hholds.resolve (ht.mono (.narrow P _))
  rwa [show Context.resolve _ t = c from hc, show Context.resolve _ t' = c' from hc'] at hresolved

end Holds

end Pairing

end TypeInference

import TypeInference.Proofs.Check.DeclarationOrder
import TypeInference.Proofs.Context.OnTop
import TypeInference.Proofs.Ty.Instance

/-!
# Checks at another place

An item may be checked right after the signatures, or after other items have
bound variables and synthesized nodes. What the check does is the same at both
places, up to the numbers of its own variables and of its own new nodes.
-/

namespace TypeInference

open Ty Bindings Check

/-- A place later than the signatures: what was bound until then, how many nodes had been located
with the program and how many were synthesized since, and the located nodes that may be mentioned
there. -/
structure Place where
  past : Bindings
  bounded : past.Bounded
  base : Nat
  added : Nat
  inScope : NodeId → Prop
  lt_base : ∀ {id}, inScope id → id < base

theorem Ty.Every.mono_kinds {kinds kinds' : List VarKind} {t : Ty} (h : t.WellKinded kinds)
    (hk : kinds <+: kinds') : t.WellKinded kinds' := by
  obtain ⟨rest, rfl⟩ := hk
  exact wellKinded_append h rest

namespace Place

variable (P : Place)

def ty (t : Ty) : Ty := t.shift P.past.count

/-- The node as it is known at this place; located nodes are known by the same identity. -/
def node (id : NodeId) : NodeId := if id < P.base then id else id + P.added

/-- Whether a node may be mentioned: one in scope or a new one. -/
def Mentions (id : NodeId) : Prop := P.inScope id ∨ P.base ≤ id

def Types (kinds : List VarKind) (t t' : Ty) : Prop := t.WellKinded kinds ∧ t' = P.ty t

structure Displaces (kinds : List VarKind) (s s' : Session) : Prop where
  valid : s.context.bindings.Valid kinds
  wellKinded : ∀ id t, s.context.types.find? id = some t → t.WellKinded kinds
  bindings : s'.context.bindings = P.past.onTop s.context.bindings
  types : ∀ id, P.Mentions id →
    s'.context.types.find? (P.node id) = (s.context.types.find? id).map P.ty
  builtins : s'.context.builtins = s.context.builtins
  size : s'.locations.size = s.locations.size + P.added
  base_le : P.base ≤ s.locations.size
  policy : s'.sink.policy = s.sink.policy
  errors : s'.sink.errors = [] ↔ s.sink.errors = []

/-- Two runs that end alike, in sessions that correspond. -/
def Mirrored {α : Type} (kinds : List VarKind) (R : List VarKind → α → α → Prop)
    (run run' : Except Abort α × Session) : Prop :=
  ∃ kinds', kinds <+: kinds' ∧ P.Displaces kinds' run.2 run'.2 ∧ Both Eq (R kinds') run.1 run'.1

variable {P} {id : NodeId}

theorem node_of_inScope (h : P.inScope id) : P.node id = id := if_pos (P.lt_base h)

theorem node_of_le (h : P.base ≤ id) : P.node id = id + P.added := if_neg (Nat.not_lt.2 h)

/-- Different nodes are known by different identities. -/
theorem node_inj {i j : NodeId} : P.node i = P.node j ↔ i = j := by
  refine ⟨fun h => ?_, congrArg P.node⟩
  rcases Nat.lt_or_ge i P.base with hi | hi <;> rcases Nat.lt_or_ge j P.base with hj | hj
  · rwa [node, node, if_pos hi, if_pos hj] at h
  · rw [node, if_pos hi, node_of_le hj] at h
    exact absurd (h ▸ hi) (Nat.not_lt.2 (Nat.le_add_right_of_le hj))
  · rw [node_of_le hi, node, if_pos hj] at h
    exact absurd (h ▸ hj) (Nat.not_lt.2 (Nat.le_add_right_of_le hi))
  · rw [node_of_le hi, node_of_le hj] at h
    exact Nat.add_right_cancel h

theorem ty_adt (a : Adt Ty) : P.ty (.adt a) = .adt (a.map P.ty) := shift_adt _ a

variable {kinds kinds' : List VarKind} {s s' : Session} {t t' : Ty}

theorem Types.mono (h : P.Types kinds t t') (hk : kinds <+: kinds') : P.Types kinds' t t' :=
  ⟨h.1.mono_kinds hk, h.2⟩

theorem types_ty (h : t.WellKinded kinds) : P.Types kinds t (P.ty t) := ⟨h, rfl⟩

theorem types_unit : P.Types kinds .unit .unit := ⟨every_leaf trivial rfl, rfl⟩

theorem types_fn {ps : List Ty} {r : Ty} {t' : Ty} (h : P.Types kinds (.fn ps r) t') :
    t' = .fn (ps.map P.ty) (P.ty r) ∧ (∀ p ∈ ps, p.WellKinded kinds) ∧ r.WellKinded kinds :=
  ⟨h.2.trans (shift_fn _ ps r), fun _ hp => h.1.part (List.mem_append_left _ hp),
    h.1.part (List.mem_append_right _ (List.mem_singleton.2 rfl))⟩

theorem types_error : P.Types kinds .error .error := ⟨every_leaf trivial rfl, rfl⟩

theorem types_prim (p : Prim) : P.Types kinds (.prim p) (.prim p) := ⟨every_leaf trivial rfl, rfl⟩

def Structs (kinds : List VarKind) (a a' : Adt Ty) : Prop := P.Types kinds (.adt a) (.adt a')

theorem structs_iff {a a' : Adt Ty} :
    P.Structs kinds a a' ↔ (Ty.adt a).WellKinded kinds ∧ a' = a.map P.ty := by
  rw [Structs, Types, ty, shift_adt, Ty.adt.injEq]
  rfl

theorem structs_map {a : Adt Ty} (h : (Ty.adt a).WellKinded kinds) : P.Structs kinds a (a.map P.ty) :=
  structs_iff.2 ⟨h, rfl⟩

namespace Displaces

variable (h : P.Displaces kinds s s')
include h

theorem resolve (t : Ty) : s'.context.resolve (P.ty t) = P.ty (s.context.resolve t) := by
  rw [Context.resolve, h.bindings]
  exact resolve_onTop P.bounded _ t

theorem lookup (hid : P.Mentions id) :
    s'.context.lookup (P.node id) = (s.context.lookup id).map P.ty := by
  rw [Context.lookup, h.types id hid, Context.lookup, Option.map_map, Option.map_map]
  exact congrArg (Option.map · _) (funext h.resolve)

theorem lookup_wellKinded (ht : s.context.lookup id = some t) : t.WellKinded kinds := by
  obtain ⟨u, hu, rfl⟩ := Option.map_eq_some_iff.1 ht
  exact resolve_wellKinded h.valid (h.wellKinded id u hu)

theorem insert (id : NodeId) (ht : t.WellKinded kinds) :
    P.Displaces kinds { s with context := s.context.insert id t }
      { s' with context := s'.context.insert (P.node id) (P.ty t) } := by
  refine ⟨h.valid, fun i u hu => ?_, h.bindings, fun i hi => ?_, h.builtins, h.size, h.base_le,
    h.policy, h.errors⟩
  · by_cases heq : i = id
    · obtain rfl : t = u := by simpa [Context.insert, heq] using hu
      exact ht
    · exact h.wellKinded i u (by simpa [Context.insert, heq] using hu)
  · simp only [Context.insert, NodeTypes.find?_insert, node_inj]
    split
    · rfl
    · exact h.types i hi

theorem report (e e' : TypeError) : P.Displaces kinds { s with sink := s.sink.report e }
    { s' with sink := s'.sink.report e' } :=
  ⟨h.valid, h.wellKinded, h.bindings, h.types, h.builtins, h.size, h.base_le, h.policy, by simp⟩

theorem setBindings {b : Bindings} (hb : b.Valid kinds') (hk : kinds <+: kinds') :
    P.Displaces kinds' { s with context := { s.context with bindings := b } }
      { s' with context := { s'.context with bindings := P.past.onTop b } } :=
  ⟨hb, fun i u hu => (h.wellKinded i u hu).mono_kinds hk, rfl, h.types, h.builtins, h.size,
    h.base_le, h.policy, h.errors⟩

end Displaces

end Place

/-! ## Computations -/

/-- Whether the second computation does at another place what the first one does. -/
def Check.Mirrors {α : Type} (P : Place) (kinds : List VarKind) (x y : Check α)
    (R : List VarKind → α → α → Prop) : Prop :=
  ∀ s s', P.Displaces kinds s s' → P.Mirrored kinds R (x.perform s) (y.perform s')

/-- Whether the second walk does at another place what the first one does. -/
def Walk.Mirrors {ν α : Type} (P : Place) (kinds : List VarKind) (w w' : Walk ν α)
    (R : List VarKind → α → α → Prop) : Prop :=
  ∀ s s', P.Displaces kinds s s' →
    P.Mirrored kinds R ((w s).outcome, (w s).session) ((w' s').outcome, (w' s').session)

variable {P : Place} {kinds kinds' : List VarKind} {α β : Type} {R : List VarKind → α → α → Prop}
  {Q : List VarKind → β → β → Prop} {t t' u u' : Ty} {s s' : Session}

namespace Walk

variable {ν μ : Type}

theorem mirrors_leaf {node node' : ν} {x y : Check α} (h : Check.Mirrors P kinds x y R) :
    Mirrors P kinds (leaf node x) (leaf node' y) R := h

theorem mirrors_first {node node' : ν} {x y : Check α} {next next' : α → Walk ν β}
    (hx : Check.Mirrors P kinds x y R)
    (hnext : ∀ kinds', kinds <+: kinds' → ∀ a a', R kinds' a a' →
      Mirrors P kinds' (next a) (next' a') Q) :
    Mirrors P kinds (first node x next) (first node' y next') Q := by
  intro s s' h
  obtain ⟨kinds₁, hk₁, h₁, hresult⟩ := hx s s' h
  rcases hrun : x.perform s with ⟨r, s₁⟩
  rcases hrun' : y.perform s' with ⟨r', s₁'⟩
  rw [hrun, hrun'] at h₁ hresult
  cases hresult with
  | ok ha =>
      rw [first_of_ok hrun, first_of_ok hrun']
      obtain ⟨kinds₂, hk₂, h₂, hresult⟩ := hnext kinds₁ hk₁ _ _ ha s₁ s₁' h₁
      exact ⟨kinds₂, hk₁.trans hk₂, h₂, hresult⟩
  | error he =>
      rw [first_of_error hrun, first_of_error hrun']
      exact ⟨kinds₁, hk₁, h₁, .error he⟩

theorem mirrors_child {w w' : Walk μ α} {rebuild rebuild' : μ → ν} {next next' : μ → α → Walk ν β}
    (hw : Mirrors P kinds w w' R)
    (hnext : ∀ s s' kinds', kinds <+: kinds' → ∀ a a', R kinds' a a' →
      Mirrors P kinds' (next (w s).node a) (next' (w' s').node a') Q) :
    Mirrors P kinds (child w rebuild next) (child w' rebuild' next') Q := by
  intro s s' h
  obtain ⟨kinds₁, hk₁, h₁, hresult⟩ := hw s s' h
  simp only at h₁ hresult
  rcases child_cases w rebuild next s with ⟨a, hrun, heq⟩ | ⟨e, hrun, heq⟩
  · rcases child_cases w' rebuild' next' s' with ⟨a', hrun', heq'⟩ | ⟨e', hrun', heq'⟩
    · rw [hrun, hrun'] at hresult
      cases hresult with
      | ok ha =>
          rw [heq, heq']
          obtain ⟨kinds₂, hk₂, h₂, hresult⟩ := hnext s s' kinds₁ hk₁ a a' ha _ _ h₁
          exact ⟨kinds₂, hk₁.trans hk₂, h₂, hresult⟩
    · rw [hrun, hrun'] at hresult
      cases hresult
  · rcases child_cases w' rebuild' next' s' with ⟨a', hrun', heq'⟩ | ⟨e', hrun', heq'⟩
    · rw [hrun, hrun'] at hresult
      cases hresult
    · rw [hrun, hrun'] at hresult
      cases hresult with
      | error he =>
          rw [heq, heq']
          exact ⟨kinds₁, hk₁, h₁, .error he⟩

end Walk

namespace Check

theorem mirrors_pure {a a' : α} (h : R kinds a a') :
    Mirrors P kinds (pure a : Check α) (pure a') R :=
  fun _ _ hs => ⟨kinds, List.prefix_rfl, hs, .ok h⟩

theorem Mirrors.bind {x y : Check α} {f g : α → Check β} (hx : Mirrors P kinds x y R)
    (hf : ∀ kinds', kinds <+: kinds' → ∀ a a', R kinds' a a' → Mirrors P kinds' (f a) (g a') Q) :
    Mirrors P kinds (x >>= f) (y >>= g) Q := by
  have hfirst : Walk.Mirrors P kinds (Walk.first () x fun a => Walk.leaf () (f a))
      (Walk.first () y fun a => Walk.leaf () (g a)) Q :=
    Walk.mirrors_first hx fun kinds' hk a a' ha => Walk.mirrors_leaf (hf kinds' hk a a' ha)
  rwa [← Walk.leaf_bind, ← Walk.leaf_bind] at hfirst

theorem mirrors_throw (e : Abort) : Mirrors P kinds (throw e : Check α) (throw e) R :=
  fun _ _ hs => ⟨kinds, List.prefix_rfl, hs, .error rfl⟩

/-! ## Reports -/

theorem mirrors_report (cause cause' : Cause) (span span' : Span) :
    Mirrors P kinds (report cause span) (report cause' span') fun _ _ _ => True :=
  fun _ _ hs => ⟨kinds, List.prefix_rfl, hs.report _ _, .ok trivial⟩

theorem mirrors_reportTyped (cause cause' : Cause) (span span' : Span) :
    Mirrors P kinds (reportTyped cause span) (reportTyped cause' span') P.Types :=
  (mirrors_report cause cause' span span').bind fun _ _ _ _ _ => mirrors_pure Place.types_error

theorem mirrors_giveUp (cause cause' : Cause) (span span' : Span) :
    Mirrors P kinds (giveUp cause span : Check α) (giveUp cause' span') R :=
  (mirrors_report cause cause' span span').bind fun _ _ _ _ _ => mirrors_throw .item

theorem mirrors_giveUpAll (cause cause' : Cause) (span span' : Span) :
    Mirrors P kinds (giveUpAll cause span : Check α) (giveUpAll cause' span') R := by
  intro s s' hs
  rw [perform_giveUpAll, perform_giveUpAll]
  refine ⟨kinds, List.prefix_rfl, ?_, ?_⟩
  · exact ⟨hs.valid, hs.wellKinded, hs.bindings, hs.types, hs.builtins, hs.size, hs.base_le,
      hs.policy, by simp⟩
  · simp only [Sink.fatal, hs.policy]
    exact .error rfl

/-! ## The context -/

theorem mirrors_lookup {id : NodeId} (hid : P.inScope id) :
    Mirrors P kinds (lookup id) (lookup id) fun kinds r r' =>
      (∀ t, r = some t → t.WellKinded kinds) ∧ r' = r.map P.ty := by
  intro s s' hs
  have hlookup := hs.lookup (.inl hid)
  rw [Place.node_of_inScope hid] at hlookup
  exact ⟨kinds, List.prefix_rfl, hs, .ok ⟨fun t ht => hs.lookup_wellKinded ht, hlookup⟩⟩

theorem mirrors_record {id : NodeId} (hid : P.inScope id) (ht : P.Types kinds t t') :
    Mirrors P kinds (record id t) (record id t') fun _ _ _ => True := by
  intro s s' hs
  obtain ⟨ht, rfl⟩ := ht
  have hinsert := hs.insert id ht
  rw [Place.node_of_inScope hid] at hinsert
  exact ⟨kinds, List.prefix_rfl, hinsert, .ok trivial⟩

theorem mirrors_recorded {id : NodeId} (hid : P.inScope id) (ht : P.Types kinds t t') :
    Mirrors P kinds (recorded id t) (recorded id t') P.Types :=
  (mirrors_record hid ht).bind fun _ hk _ _ _ => mirrors_pure (ht.mono hk)

theorem mirrors_resolve (ht : P.Types kinds t t') :
    Mirrors P kinds (resolve t) (resolve t') P.Types := by
  intro s s' hs
  obtain ⟨ht, rfl⟩ := ht
  exact ⟨kinds, List.prefix_rfl, hs, .ok ⟨resolve_wellKinded hs.valid ht, hs.resolve t⟩⟩

theorem mirrors_newVar (k : VarKind) : Mirrors P kinds (newVar k) (newVar k) P.Types := by
  intro s s' hs
  have hset := hs.setBindings (hs.valid.newVar k) (List.prefix_append kinds [k])
  have hbindings : (s'.context.bindings.newVar k).2 =
      P.past.onTop (s.context.bindings.newVar k).2 := by
    rw [hs.bindings]
    simp [onTop, Bindings.newVar, Nat.add_right_comm]
  refine ⟨kinds ++ [k], List.prefix_append kinds [k], ?_, .ok ⟨every_leaf ?_ rfl, ?_⟩⟩
  · rwa [← hbindings] at hset
  · show (kinds ++ [k])[s.context.bindings.count]? = some k
    rw [hs.valid.count_eq]
    exact List.getElem?_concat_length
  · show Ty.infer k s'.context.bindings.count = _
    rw [hs.bindings]
    rfl

/-- Both unifications succeed, or both fail. -/
theorem mirrors_unify (ht : P.Types kinds t t') (hu : P.Types kinds u u') :
    Mirrors P kinds (unify t u) (unify t' u') fun kinds => Both (fun _ _ => True) (P.Types kinds) := by
  intro s s' hs
  obtain ⟨ht, rfl⟩ := ht
  obtain ⟨hu, rfl⟩ := hu
  have hmirrored := Solve.mirrored_unify P.bounded hs.valid ht hu
  obtain ⟨hvalid, hresult⟩ := Solve.valid_unify hs.valid ht hu
  rw [← hs.bindings] at hmirrored
  have hset := hs.setBindings hvalid List.prefix_rfl
  rw [← hmirrored.bindings] at hset
  refine ⟨kinds, List.prefix_rfl, hset, .ok ?_⟩
  show Both (fun _ _ => True) (P.Types kinds) (Solve.perform (Solve.unify t u) _).1
    (Solve.perform (Solve.unify (P.ty t) (P.ty u)) _).1
  have hboth := hmirrored.result
  simp only [Place.ty] at hboth ⊢
  generalize (Solve.perform (Solve.unify t u) s.context.bindings).1 = r at hboth hresult ⊢
  generalize (Solve.perform _ s'.context.bindings).1 = r' at hboth ⊢
  cases hboth with
  | ok h => exact .ok ⟨hresult _ rfl, h⟩
  | error h => exact .error trivial

theorem mirrors_unifyAt (span span' : Span) (ht : P.Types kinds t t') (hu : P.Types kinds u u') :
    Mirrors P kinds (unifyAt span t u) (unifyAt span' t' u') P.Types := by
  refine (mirrors_unify ht hu).bind fun kinds' hk r r' hr => ?_
  cases hr with
  | ok h => exact mirrors_pure h
  | error h => exact mirrors_reportTyped _ _ span span'

theorem mirrors_builtin? (name : String) :
    Mirrors P kinds (builtin? name) (builtin? name) fun _ r r' =>
      ∃ q : Option Prim, r = q.map .prim ∧ r' = q.map .prim :=
  fun _ s' hs => ⟨kinds, List.prefix_rfl, hs, .ok ⟨_, rfl, by
    rw [Context.builtin?, hs.builtins]⟩⟩

theorem mirrors_builtin (name : String) :
    Mirrors P kinds (builtin name) (builtin name) P.Types := by
  intro s s' hs
  have hsame : s'.context.builtin name = s.context.builtin name := by
    rw [Context.builtin, Context.builtin?, hs.builtins]
    rfl
  have hperform (s : Session) : perform (builtin name) s = perform (orDefect (s.context.builtin name)) s :=
    rfl
  rw [hperform, hperform, hsame]
  cases hfound : s.context.builtin name with
  | error d => exact mirrors_throw _ s s' hs
  | ok t =>
      obtain ⟨p, rfl⟩ : ∃ p, t = .prim p := by
        unfold Context.builtin Context.builtin? at hfound
        split at hfound
        · rename_i u hu
          obtain ⟨p, -, rfl⟩ := Option.map_eq_some_iff.1 hu
          exact ⟨p, (Except.ok.inj hfound).symm⟩
        · cases hfound
      exact mirrors_pure (Place.types_prim p) s s' hs

/-- The fresh variables of an instance have the numbers that come next at either place. -/
theorem mirrors_freshInstance {a a' : Adt Ty} (ha : P.Structs kinds a a') :
    Mirrors P kinds (freshInstance a) (freshInstance a') P.Structs := by
  intro s s' hs
  obtain ⟨hwell, rfl⟩ := Place.structs_iff.1 ha
  rw [perform_freshInstance, perform_freshInstance]
  unfold Context.freshInstance
  have hgeneric : (a.map P.ty).isGeneric = a.isGeneric := rfl
  rw [hgeneric]
  split
  · exact ⟨kinds, List.prefix_rfl, hs, .ok ha⟩
  · obtain ⟨hvalid, hvars⟩ := hs.valid.newVars a.params.length
    have hk : kinds <+: kinds ++ List.replicate a.params.length .general := List.prefix_append _ _
    have hset := hs.setBindings hvalid hk
    have hbindings : (s'.context.bindings.newVars a.params.length).2 =
        P.past.onTop (s.context.bindings.newVars a.params.length).2 := by
      rw [hs.bindings]
      simp [onTop, Bindings.newVars, Nat.add_right_comm]
    have hargs : (s'.context.bindings.newVars a.params.length).1 =
        (s.context.bindings.newVars a.params.length).1.map P.ty := by
      rw [hs.bindings]
      simp [Bindings.newVars, onTop, Place.ty, Function.comp_def, Nat.add_right_comm]
    refine ⟨_, hk, ?_, .ok (Place.structs_iff.2 ⟨?_, ?_⟩)⟩
    · rw [← hbindings] at hset
      exact hset
    · exact every_instantiate (isLocal_hasKind _) trivial (hwell.mono_kinds hk) hvars
    · show (a.map P.ty).instantiate (s'.context.bindings.newVars a.params.length).1 = _
      rw [hargs]
      exact (shift_instantiate _ a _).symm

end Check

end TypeInference

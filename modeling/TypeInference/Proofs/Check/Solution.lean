import TypeInference.Proofs.Check.Frame
import TypeInference.Proofs.Check.Typing
import TypeInference.Proofs.Context.MostGeneral
import TypeInference.Proofs.Ty.Instance

/-!
# Solutions of a session

A solution of a session is a typing together with a type for every inference
variable, so that the types recorded so far are those of the typing. A session
that comes later has fewer solutions. What holds of every solution therefore
keeps holding, however the variables are bound afterwards.
-/

namespace TypeInference

open Ty Bindings Check

/-- A type over the variables of these kinds that contains no error, whose structs have their
declared shapes. -/
structure Ty.Fine (shapes : NodeId → Shape) (kinds : List VarKind) (t : Ty) : Prop where
  wellKinded : t.WellKinded kinds
  proper : t.Every (IsProper shapes)

/-- What holds of a session in which nothing has been reported. -/
structure Session.Sound (shapes : NodeId → Shape) (kinds : List VarKind) (s : Session) : Prop where
  bindings : s.context.bindings.Sound kinds (IsProper shapes)
  types : ∀ id t, s.context.types.find? id = some t → t.Fine shapes kinds
  located : ∀ id t, s.context.types.find? id = some t → id < s.locations.size
  builtins : s.context.builtins = Prim.all

structure Solution (kinds : List VarKind) (s : Session) (T : Typing) (σ : VarId → Ty) : Prop where
  concrete : ∀ id t, T id = some t → t.isConcrete
  respects : RespectsKinds kinds σ
  satisfied : s.context.bindings.SatisfiedBy σ
  types : ∀ id t, s.context.types.find? id = some t → T id = some (t.subst σ)

/-- Whether a sound session comes after another, with no new solutions. -/
structure Session.Leads (shapes : NodeId → Shape) (kinds : List VarKind) (s : Session)
    (kinds' : List VarKind) (s' : Session) : Prop where
  sound : s'.Sound shapes kinds'
  prefix_kinds : kinds <+: kinds'
  solution : ∀ T σ, Solution kinds' s' T σ → Solution kinds s T σ

variable {shapes : NodeId → Shape} {kinds kinds' kinds'' : List VarKind} {s s' s'' : Session}

/-! ## Fine types -/

namespace Ty.Fine

variable {t u : Ty}

theorem mono (h : t.Fine shapes kinds) (hk : kinds <+: kinds') : t.Fine shapes kinds' := by
  refine ⟨h.wellKinded.mono fun n hn => ?_, h.proper⟩
  cases n with
  | infer k v =>
      obtain ⟨rest, rfl⟩ := hk
      have hv : kinds[v]? = some k := hn
      have hlt := (List.getElem?_eq_some_iff.1 hv).1
      show (kinds ++ rest)[v]? = some k
      rw [List.getElem?_append_left hlt, hv]
  | _ => trivial

theorem part (h : t.Fine shapes kinds) {p : Ty} (hp : p ∈ t.parts) : p.Fine shapes kinds :=
  ⟨h.wellKinded.part hp, h.proper.part hp⟩

theorem of_parts (hkind : t.HasKind kinds) (hproper : t.IsProper shapes)
    (h : ∀ p ∈ t.parts, p.Fine shapes kinds) : t.Fine shapes kinds :=
  ⟨every_iff.2 ⟨hkind, fun p hp => (h p hp).wellKinded⟩,
    every_iff.2 ⟨hproper, fun p hp => (h p hp).proper⟩⟩

theorem unit : Ty.unit.Fine shapes kinds :=
  of_parts trivial ⟨trivial, by simp⟩ (by simp [parts])

theorem prim (p : Prim) : (Ty.prim p).Fine shapes kinds :=
  of_parts trivial ⟨trivial, by simp⟩ (by simp [parts])

theorem param (p : Param) : (Ty.param p).Fine shapes kinds :=
  of_parts trivial ⟨trivial, by simp⟩ (by simp [parts])

theorem infer {k : VarKind} {v : VarId} (h : kinds[v]? = some k) :
    (Ty.infer k v).Fine shapes kinds :=
  of_parts h ⟨trivial, by simp⟩ (by simp [parts])

theorem fn {ps : List Ty} {r : Ty} (hps : ∀ p ∈ ps, p.Fine shapes kinds)
    (hr : r.Fine shapes kinds) : (Ty.fn ps r).Fine shapes kinds := by
  refine of_parts trivial ⟨trivial, by simp⟩ fun p hp => ?_
  rcases List.mem_append.1 hp with hp | hp
  · exact hps p hp
  · rw [List.mem_singleton.1 hp]
    exact hr

theorem resolve (h : t.Fine shapes kinds) {b : Bindings} (hb : b.Sound kinds (IsProper shapes)) :
    (b.resolve t).Fine shapes kinds :=
  ⟨resolve_wellKinded hb.toValid h.wellKinded,
    hb.resolve_every (isLocal_isProper shapes) h.wellKinded h.proper⟩

theorem field {a : Adt Ty} (h : (Ty.adt a).Fine shapes kinds) {f : Field Ty} (hf : f ∈ a.fields) :
    f.ty.Fine shapes kinds :=
  h.part (List.mem_append_left _ (List.mem_map_of_mem hf))

theorem instantiate {a : Adt Ty} (h : (Ty.adt a).Fine shapes kinds) {args : List Ty}
    (hargs : ∀ t ∈ args, t.Fine shapes kinds) : (Ty.adt (a.instantiate args)).Fine shapes kinds := by
  refine ⟨every_instantiate (isLocal_hasKind kinds) trivial h.wellKinded fun t ht =>
    (hargs t ht).wellKinded, every_instantiate (isLocal_isProper shapes) ⟨?_, by simp⟩ h.proper
      fun t ht => (hargs t ht).proper⟩
  have hshape : a.shape = shapes a.decl := h.proper.root.1
  show (a.instantiate args).shape = shapes a.decl
  rw [← hshape]
  simp [Adt.instantiate, Adt.shape, Function.comp_def]

end Ty.Fine

/-! ## Leading on -/

theorem RespectsKinds.of_prefix {σ : VarId → Ty} (h : RespectsKinds kinds' σ)
    (hk : kinds <+: kinds') : RespectsKinds kinds σ := by
  intro v k hv
  obtain ⟨rest, rfl⟩ := hk
  have hlt := (List.getElem?_eq_some_iff.1 hv).1
  exact h v k (by rw [List.getElem?_append_left hlt, hv])

namespace Session

theorem Leads.refl (hs : s.Sound shapes kinds) : s.Leads shapes kinds kinds s :=
  ⟨hs, List.prefix_rfl, fun _ _ h => h⟩

theorem Leads.trans (h : s.Leads shapes kinds kinds' s') (h' : s'.Leads shapes kinds' kinds'' s'') :
    s.Leads shapes kinds kinds'' s'' :=
  ⟨h'.sound, h.prefix_kinds.trans h'.prefix_kinds, fun T σ hσ =>
    h.solution T σ (h'.solution T σ hσ)⟩

namespace Sound

/-- A step that changes the bindings only. -/
theorem leads_bindings (hs : s.Sound shapes kinds) {b : Bindings}
    (hb : b.Sound kinds' (IsProper shapes)) (hk : kinds <+: kinds')
    (hsat : ∀ σ, b.SatisfiedBy σ → s.context.bindings.SatisfiedBy σ) :
    s.Leads shapes kinds kinds' { s with context := { s.context with bindings := b } } where
  sound := ⟨hb, fun id t ht => (hs.types id t ht).mono hk, hs.located, hs.builtins⟩
  prefix_kinds := hk
  solution _ σ hσ := ⟨hσ.concrete, hσ.respects.of_prefix hk, hsat σ hσ.satisfied, hσ.types⟩

theorem leads_newVar (hs : s.Sound shapes kinds) (k : VarKind) :
    s.Leads shapes kinds (kinds ++ [k]) { s with context := (s.context.newVar k).2 } :=
  hs.leads_bindings (hs.bindings.newVar (fun _ _ => ⟨trivial, by simp⟩) k) (List.prefix_append _ _)
    fun _ hσ => hσ

theorem leads_newVars (hs : s.Sound shapes kinds) (n : Nat) :
    s.Leads shapes kinds (kinds ++ List.replicate n .general)
      { s with context := { s.context with bindings := (s.context.bindings.newVars n).2 } } := by
  refine hs.leads_bindings ?_ (List.prefix_append _ _) fun _ hσ => hσ
  induction n with
  | zero =>
      rw [List.replicate_zero, List.append_nil]
      exact hs.bindings
  | succ n ih =>
      rw [List.replicate_succ', ← List.append_assoc]
      exact ih.newVar (fun _ _ => ⟨trivial, by simp⟩) .general

theorem fine_newVar (hs : s.Sound shapes kinds) (k : VarKind) :
    (s.context.newVar k).1.Fine shapes (kinds ++ [k]) := by
  refine .infer ?_
  rw [hs.bindings.count_eq]
  exact List.getElem?_concat_length

theorem fine_newVars (hs : s.Sound shapes kinds) (n : Nat) :
    ∀ t ∈ (s.context.bindings.newVars n).1, t.Fine shapes (kinds ++ List.replicate n .general) := by
  intro t ht
  obtain ⟨i, hi, rfl⟩ := List.mem_map.1 ht
  exact .infer ((hs.bindings.toValid.newVars n).2 _ ht).root

/-- Unifying two types leads on, and a success makes both resolve to the result. -/
theorem leads_unify (hs : s.Sound shapes kinds) {t u : Ty} (ht : t.Fine shapes kinds)
    (hu : u.Fine shapes kinds) :
    s.Leads shapes kinds kinds { s with context := (s.context.unify t u).2 } ∧
      ∀ c, (s.context.unify t u).1 = .ok c →
        (s.context.unify t u).2.resolve t = c ∧ (s.context.unify t u).2.resolve u = c := by
  have hP : IsLocal (IsProper shapes) := isLocal_isProper shapes
  have hready := hs.bindings.ready hP ht.wellKinded hu.wellKinded ht.proper hu.proper
  have hsteps := Solve.steps_unify hP hready
  obtain ⟨hrun, -, -⟩ := Context.unify_eq_iff.1 (Prod.eta (s.context.unify t u)).symm
  rw [hrun] at hsteps
  constructor
  · exact hs.leads_bindings (hs.bindings.steps hP hsteps) List.prefix_rfl fun σ hσ =>
      hσ.of_steps hs.bindings.toValid hsteps
  · intro c hc
    rw [hc] at hrun
    exact Solve.resolve_of_unify_eq_ok hready hrun

theorem insert (hs : s.Sound shapes kinds) {id : NodeId} {t : Ty} (ht : t.Fine shapes kinds)
    (hlt : id < s.locations.size) :
    Sound shapes kinds { s with context := s.context.insert id t } := by
  have hfind : ∀ i, (s.context.insert id t).types.find? i =
      if i = id then some t else s.context.types.find? i := NodeTypes.find?_insert _ id t
  refine ⟨hs.bindings, fun i u hu => ?_, fun i u hu => ?_, hs.builtins⟩
  · rw [hfind] at hu
    split at hu
    · exact Option.some.inj hu ▸ ht
    · exact hs.types i u hu
  · rw [hfind] at hu
    split at hu
    · rename_i hi
      exact hi ▸ hlt
    · exact hs.located i u hu

/-- Recording a type for a node. A type that was recorded for it before has to be the same one in
every solution. -/
theorem leads_insert (hs : s.Sound shapes kinds) (id : NodeId) {t : Ty} (ht : t.Fine shapes kinds)
    (hlt : id < s.locations.size)
    (hsame : ∀ u, s.context.types.find? id = some u →
      ∀ σ, s.context.bindings.SatisfiedBy σ → u.subst σ = t.subst σ) :
    s.Leads shapes kinds kinds { s with context := s.context.insert id t } := by
  have hfind : ∀ i, (s.context.insert id t).types.find? i =
      if i = id then some t else s.context.types.find? i := NodeTypes.find?_insert _ id t
  refine ⟨hs.insert ht hlt, List.prefix_rfl, fun T σ hσ =>
    ⟨hσ.concrete, hσ.respects, hσ.satisfied, fun i u hu => ?_⟩⟩
  by_cases hi : i = id
  · subst hi
    rw [hσ.types i t (by rw [hfind, if_pos rfl]), hsame u hu σ hσ.satisfied]
  · exact hσ.types i u (by rw [hfind, if_neg hi, hu])

theorem leads_locations (hs : s.Sound shapes kinds) {l : Locations}
    (hle : s.locations.size ≤ l.size) : s.Leads shapes kinds kinds { s with locations := l } where
  sound := ⟨hs.bindings, hs.types, fun id t ht => Nat.lt_of_lt_of_le (hs.located id t ht) hle,
    hs.builtins⟩
  prefix_kinds := List.prefix_rfl
  solution _ _ hσ := ⟨hσ.concrete, hσ.respects, hσ.satisfied, hσ.types⟩

theorem fine_lookup (hs : s.Sound shapes kinds) {id : NodeId} {t : Ty}
    (h : s.context.lookup id = some t) : t.Fine shapes kinds := by
  obtain ⟨u, hu, rfl⟩ := Option.map_eq_some_iff.1 h
  exact (hs.types id u hu).resolve hs.bindings

end Sound

end Session

theorem Solution.subst_resolve {T : Typing} {σ : VarId → Ty} (h : Solution kinds s T σ) (t : Ty) :
    (s.context.resolve t).subst σ = t.subst σ :=
  h.satisfied t

theorem Solution.lookup {T : Typing} {σ : VarId → Ty} (h : Solution kinds s T σ) {id : NodeId}
    {t : Ty} (ht : s.context.lookup id = some t) : T id = some (t.subst σ) := by
  obtain ⟨u, hu, rfl⟩ := Option.map_eq_some_iff.1 ht
  rw [h.types id u hu, h.subst_resolve]

/-! ## Nodes that are still to be checked -/

structure Session.Fresh (ids : List NodeId) (s : Session) : Prop where
  nodup : ids.Nodup
  located : ∀ id ∈ ids, id < s.locations.size
  absent : ∀ id ∈ ids, s.context.types.find? id = none

namespace Session.Fresh

variable {l l' : List NodeId} {id : NodeId}

/-- Checking the first nodes keeps the others as they are. -/
theorem split (h : s.Fresh (l ++ l')) :
    s.Fresh l ∧ ∀ s', s.Grows l s' → s'.Fresh l' := by
  obtain ⟨hleft, hright, hdisjoint⟩ := List.nodup_append.1 h.nodup
  constructor
  · exact ⟨hleft, fun i hi => h.located i (List.mem_append_left _ hi),
      fun i hi => h.absent i (List.mem_append_left _ hi)⟩
  · intro s' hgrows
    have hlt : ∀ i ∈ l', i < s.locations.size := fun i hi =>
      h.located i (List.mem_append_right _ hi)
    refine ⟨hright, fun i hi => Nat.lt_of_lt_of_le (hlt i hi) hgrows.size_le, fun i hi => ?_⟩
    rw [hgrows.kept i (fun hmem => hdisjoint i hmem i hi rfl) (hlt i hi)]
    exact h.absent i (List.mem_append_right _ hi)

theorem perm (h : s.Fresh l) (hperm : l.Perm l') : s.Fresh l' :=
  ⟨hperm.nodup_iff.1 h.nodup, fun i hi => h.located i (hperm.mem_iff.2 hi),
    fun i hi => h.absent i (hperm.mem_iff.2 hi)⟩

/-- A node is checked after its children. -/
theorem rotate (h : s.Fresh (id :: l)) : s.Fresh (l ++ [id]) :=
  h.perm (List.perm_append_singleton id l).symm

theorem sublist (h : s.Fresh l) (hsub : l'.Sublist l) : s.Fresh l' :=
  ⟨hsub.nodup h.nodup, fun i hi => h.located i (hsub.subset hi), fun i hi => h.absent i (hsub.subset hi)⟩

theorem tail (h : s.Fresh (id :: l)) : s.Fresh l := h.sublist (List.sublist_cons_self id l)

theorem after (h : s.Fresh l) (hgrows : s.Grows [] s') : s'.Fresh l :=
  (split (l := []) h).2 s' hgrows

theorem leads_insert (h : s.Fresh [id]) (hs : s.Sound shapes kinds) {t : Ty}
    (ht : t.Fine shapes kinds) :
    s.Leads shapes kinds kinds { s with context := s.context.insert id t } := by
  refine hs.leads_insert id ht (h.located id (by simp)) fun u hu => ?_
  rw [h.absent id (by simp)] at hu
  cases hu

end Session.Fresh

end TypeInference

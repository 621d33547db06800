import TypeInference.Proofs.Check.Solution

/-!
# Derivations

A computation derives a property of its result if a success that reports
nothing gives it: of the result itself, and of what every solution makes of it.
Computations are put together by one rule for each way to combine them. A
report derives anything.
-/

namespace TypeInference

open Ty Bindings

/-- Whether a success that reports nothing leads on, with a result that has the property `P` and, in
every solution, `Q`. -/
def Check.Derives {α : Type} (shapes : NodeId → Shape) (kinds : List VarKind) (s : Session) (x : Check α)
    (P : List VarKind → α → Prop) (Q : α → Typing → (VarId → Ty) → Prop) : Prop :=
  ∀ a, (x.perform s).1 = .ok a → (x.perform s).2.sink.errors = [] →
    ∃ kinds', s.Leads shapes kinds kinds' (x.perform s).2 ∧ P kinds' a ∧
      ∀ T σ, Solution kinds' (x.perform s).2 T σ → Q a T σ

namespace Walk

/-- Whether a walk that succeeds and reports nothing leads on, with a node and a result that have
the property `P` and, in every solution, `Q`. -/
def Derives {ν α : Type} (shapes : NodeId → Shape) (kinds : List VarKind) (s : Session)
    (w : Walk ν α) (P : List VarKind → ν → α → Prop)
    (Q : ν → α → Typing → (VarId → Ty) → Prop) : Prop :=
  ∀ a, (w s).outcome = .ok a → (w s).session.sink.errors = [] →
    ∃ kinds', s.Leads shapes kinds kinds' (w s).session ∧ P kinds' (w s).node a ∧
      ∀ T σ, Solution kinds' (w s).session T σ → Q (w s).node a T σ

variable {ν μ α β : Type} {shapes : NodeId → Shape} {kinds kinds' : List VarKind} {s : Session}
  {l : List NodeId} {P : List VarKind → ν → β → Prop} {Q : ν → β → Typing → (VarId → Ty) → Prop}

theorem derives_leaf {node : ν} {x : Check β}
    (h : Check.Derives shapes kinds s x (fun kinds b => P kinds node b) (Q node)) :
    Derives shapes kinds s (leaf node x) P Q :=
  h

theorem derives_first {node : ν} {x : Check α} {next : α → Walk ν β} {P₁ : List VarKind → α → Prop}
    {Q₁ : α → Typing → (VarId → Ty) → Prop} (hx : Check.Derives shapes kinds s x P₁ Q₁)
    (hsteady : ∀ a, Steady l (next a))
    (hnext : ∀ kinds' a, s.Leads shapes kinds kinds' (x.perform s).2 → P₁ kinds' a →
      Derives shapes kinds' (x.perform s).2 (next a) P fun n b T σ => Q₁ a T σ → Q n b T σ) :
    Derives shapes kinds s (first node x next) P Q := by
  intro b hok herrors
  rcases first_cases node x next s with ⟨a, s', hrun, heq⟩ | ⟨e, s', hrun, heq⟩
  · rw [heq] at hok herrors ⊢
    rw [hrun] at hnext
    have hnil := ((hsteady a).grows s').errors_eq_nil herrors
    obtain ⟨kinds', hlead, hP, hQ⟩ := hx a (by rw [hrun]) (by rw [hrun]; exact hnil)
    rw [hrun] at hlead hQ
    obtain ⟨kinds'', hlead', hP', hQ'⟩ := hnext kinds' a hlead hP b hok herrors
    exact ⟨kinds'', hlead.trans hlead', hP', fun T σ hσ =>
      hQ' T σ hσ (hQ T σ (hlead'.solution T σ hσ))⟩
  · rw [heq] at hok
    cases hok

theorem derives_child {w : Walk μ α} {rebuild : μ → ν} {next : μ → α → Walk ν β}
    {P₁ : List VarKind → μ → α → Prop} {Q₁ : μ → α → Typing → (VarId → Ty) → Prop}
    (hw : Derives shapes kinds s w P₁ Q₁) (hsteady : ∀ a, Steady l (next (w s).node a))
    (hnext : ∀ kinds' a, s.Leads shapes kinds kinds' (w s).session → P₁ kinds' (w s).node a →
      Derives shapes kinds' (w s).session (next (w s).node a) P
        fun n b T σ => Q₁ (w s).node a T σ → Q n b T σ) :
    Derives shapes kinds s (child w rebuild next) P Q := by
  intro b hok herrors
  rcases child_cases w rebuild next s with ⟨a, hrun, heq⟩ | ⟨e, -, heq⟩
  · rw [heq] at hok herrors ⊢
    have hnil := ((hsteady a).grows _).errors_eq_nil herrors
    obtain ⟨kinds', hlead, hP, hQ⟩ := hw a hrun hnil
    obtain ⟨kinds'', hlead', hP', hQ'⟩ := hnext kinds' a hlead hP b hok herrors
    exact ⟨kinds'', hlead.trans hlead', hP', fun T σ hσ =>
      hQ' T σ hσ (hQ T σ (hlead'.solution T σ hσ))⟩
  · rw [heq] at hok
    cases hok

theorem Derives.imp {w : Walk ν β} {P' : List VarKind → ν → β → Prop}
    {Q' : ν → β → Typing → (VarId → Ty) → Prop} (h : Derives shapes kinds s w P Q)
    (hP : ∀ kinds n b, P kinds n b → P' kinds n b) (hQ : ∀ n b T σ, Q n b T σ → Q' n b T σ) :
    Derives shapes kinds s w P' Q' := by
  intro b hok herrors
  obtain ⟨kinds', hlead, hb, hσ⟩ := h b hok herrors
  exact ⟨kinds', hlead, hP kinds' _ b hb, fun T σ hsol => hQ _ b T σ (hσ T σ hsol)⟩

end Walk

namespace Check

variable {shapes : NodeId → Shape} {kinds kinds' : List VarKind} {s : Session} {l : List NodeId}

section

variable {α β : Type} {P : List VarKind → α → Prop} {Q : α → Typing → (VarId → Ty) → Prop}
  {P' : List VarKind → β → Prop} {Q' : β → Typing → (VarId → Ty) → Prop} {a : α} {x : Check α}
  {f : α → Check β}

/-! ## Rules -/

theorem derives_pure (hs : s.Sound shapes kinds) (hP : P kinds a)
    (hQ : ∀ T σ, Solution kinds s T σ → Q a T σ) : Derives shapes kinds s (pure a) P Q := by
  intro b hok _
  obtain rfl : a = b := by simpa using hok
  exact ⟨kinds, .refl hs, hP, hQ⟩

/-- A step that always succeeds. -/
theorem derives_of_perform {s' : Session} (hrun : x.perform s = (.ok a, s'))
    (hlead : s.Leads shapes kinds kinds' s') (hP : P kinds' a)
    (hQ : ∀ T σ, Solution kinds' s' T σ → Q a T σ) : Derives shapes kinds s x P Q := by
  intro b hok _
  rw [hrun] at hok ⊢
  obtain rfl : a = b := by simpa using hok
  exact ⟨kinds', hlead, hP, hQ⟩

theorem Derives.bind (hx : Derives shapes kinds s x P Q) (hsteady : ∀ a, Steady l (f a))
    (hf : ∀ kinds' a, s.Leads shapes kinds kinds' (x.perform s).2 → P kinds' a →
      Derives shapes kinds' (x.perform s).2 (f a) P' fun b T σ => Q a T σ → Q' b T σ) :
    Derives shapes kinds s (x >>= f) P' Q' := by
  have hfirst : Walk.Derives shapes kinds s (Walk.first () x fun a => Walk.leaf () (f a))
      (fun kinds _ b => P' kinds b) (fun _ => Q') :=
    Walk.derives_first hx (fun a => Walk.steady_leaf (hsteady a)) hf
  rwa [← Walk.leaf_bind] at hfirst

theorem Derives.imp {P₁ : List VarKind → α → Prop} {Q₁ : α → Typing → (VarId → Ty) → Prop}
    (h : Derives shapes kinds s x P Q) (hP : ∀ kinds a, P kinds a → P₁ kinds a)
    (hQ : ∀ a T σ, Q a T σ → Q₁ a T σ) : Derives shapes kinds s x P₁ Q₁ := by
  intro a hok herrors
  obtain ⟨kinds', hlead, ha, hσ⟩ := h a hok herrors
  exact ⟨kinds', hlead, hP kinds' a ha, fun T σ hsol => hQ a T σ (hσ T σ hsol)⟩

/-! ## Reports and aborts -/

theorem derives_of_errors (h : (x.perform s).2.sink.errors ≠ []) :
    Derives shapes kinds s x P Q :=
  fun _ _ herrors => (h herrors).elim

theorem derives_throw (e : Abort) : Derives shapes kinds s (throw e : Check α) P Q := by
  intro a hok
  simp at hok

theorem derives_report {P : List VarKind → Unit → Prop} {Q : Unit → Typing → (VarId → Ty) → Prop}
    (cause : Cause) (span : Span) : Derives shapes kinds s (report cause span) P Q :=
  derives_of_errors (by simp)

theorem derives_reportTyped {P : List VarKind → Ty → Prop}
    {Q : Ty → Typing → (VarId → Ty) → Prop} (cause : Cause) (span : Span) :
    Derives shapes kinds s (reportTyped cause span) P Q :=
  derives_of_errors (by simp)

/-- Nothing is left to show after a report. -/
theorem derives_report_bind {f : Unit → Check β} (cause : Cause) (span : Span)
    (hsteady : ∀ u, Steady l (f u)) : Derives shapes kinds s (report cause span >>= f) P' Q' :=
  (derives_report (P := fun _ _ => False) (Q := fun _ _ _ => True) cause span).bind hsteady
    fun _ _ _ h => h.elim

theorem derives_giveUp (cause : Cause) (span : Span) :
    Derives shapes kinds s (giveUp cause span : Check α) P Q := by
  intro a hok
  simp at hok

theorem derives_giveUpAll (cause : Cause) (span : Span) :
    Derives shapes kinds s (giveUpAll cause span : Check α) P Q := by
  intro a hok
  simp at hok

end

/-! ## Reading the context -/

section

variable {t u : Ty}

theorem derives_lookup (hs : s.Sound shapes kinds) (id : NodeId) :
    Derives shapes kinds s (lookup id) (fun kinds r => ∀ t, r = some t → t.Fine shapes kinds)
      fun r T σ => ∀ t, r = some t → T id = some (t.subst σ) :=
  derives_of_perform (perform_lookup id s) (.refl hs) (fun _ ht => hs.fine_lookup ht)
    fun _ _ hσ _ ht => hσ.lookup ht

theorem derives_resolve (hs : s.Sound shapes kinds) (ht : t.Fine shapes kinds) :
    Derives shapes kinds s (resolve t) (Fine shapes) fun r _ σ => r.subst σ = t.subst σ :=
  derives_of_perform (perform_resolve t s) (.refl hs) (ht.resolve hs.bindings)
    fun _ _ hσ => hσ.subst_resolve t

theorem derives_builtin? (hs : s.Sound shapes kinds) (name : String) :
    Derives shapes kinds s (builtin? name)
      (fun _ r => ∀ t, r = some t → ∃ p : Prim, t = .prim p ∧ p.name = name) fun _ _ _ => True := by
  refine derives_of_perform rfl (.refl hs) (fun t ht => ?_) fun _ _ _ => trivial
  obtain ⟨p, hp, rfl⟩ := Option.map_eq_some_iff.1 ht
  exact ⟨p, rfl, by simpa using List.find?_some hp⟩

theorem perform_builtin (hs : s.context.builtins = Prim.all) {name : String} {p : Prim}
    (hname : p.name = name) : (builtin name).perform s = (.ok (.prim p), s) := by
  have hinitial := Context.initial_builtin? p
  rw [hname] at hinitial
  have heq : s.context.builtin? name = Context.initial.builtin? name := by
    unfold Context.builtin?
    rw [hs]
    rfl
  have hbuiltin : s.context.builtin name = .ok (.prim p) := by
    rw [Context.builtin, heq, hinitial]
  show perform (orDefect (s.context.builtin name)) s = _
  rw [hbuiltin]
  rfl

theorem derives_builtin (hs : s.Sound shapes kinds) {name : String} {p : Prim}
    (hname : p.name = name) :
    Derives shapes kinds s (builtin name) (Fine shapes) fun t _ σ => t.subst σ = .prim p :=
  derives_of_perform (perform_builtin hs.builtins hname) (.refl hs) (.prim p) fun _ _ _ => rfl

/-! ## Changing the context -/

theorem derives_newVar (hs : s.Sound shapes kinds) (k : VarKind) :
    Derives shapes kinds s (newVar k) (Fine shapes) fun t _ σ => k.accepts (t.subst σ) := by
  refine derives_of_perform (perform_newVar k s) (hs.leads_newVar k) (hs.fine_newVar k)
    fun T σ hσ => ?_
  have hkind := (hs.fine_newVar k).wellKinded.root
  exact hσ.respects _ k hkind

/-- Two types that unify resolve to the result. -/
theorem derives_unify (hs : s.Sound shapes kinds) (ht : t.Fine shapes kinds)
    (hu : u.Fine shapes kinds) :
    Derives shapes kinds s (unify t u)
      (fun kinds r => ∀ c, r = .ok c → c.Fine shapes kinds ∧
        ((unify t u).perform s).2.context.resolve t = c ∧
        ((unify t u).perform s).2.context.resolve u = c)
      fun _ _ _ => True := by
  obtain ⟨hlead, hagree⟩ := hs.leads_unify ht hu
  refine derives_of_perform (perform_unify t u s) hlead (fun c hc => ?_) fun _ _ _ => trivial
  have hc' := hagree c hc
  refine ⟨?_, hc'⟩
  rw [← hc'.1]
  exact ht.resolve hlead.sound.bindings

theorem derives_unifyAt (hs : s.Sound shapes kinds) (span : Span) (ht : t.Fine shapes kinds)
    (hu : u.Fine shapes kinds) :
    Derives shapes kinds s (unifyAt span t u) (Fine shapes)
      fun c _ σ => t.subst σ = c.subst σ ∧ u.subst σ = c.subst σ := by
  refine (derives_unify hs ht hu).bind (l := []) (fun r => ?_) fun kinds' r hlead hr => ?_
  · cases r with
    | ok c => exact steady_pure c
    | error e => exact steady_reportTyped _ span
  · cases r with
    | error e => exact derives_reportTyped _ span
    | ok c =>
        obtain ⟨hc, htc, huc⟩ := hr c rfl
        refine derives_pure hlead.sound hc fun T σ hσ _ => ?_
        rw [← hσ.subst_resolve t, ← hσ.subst_resolve u, htc, huc]
        exact ⟨rfl, rfl⟩

theorem derives_record {id : NodeId} (hs : s.Sound shapes kinds) (hfresh : s.Fresh [id])
    (ht : t.Fine shapes kinds) :
    Derives shapes kinds s (record id t) (fun _ _ => True) fun _ T σ => T id = some (t.subst σ) := by
  refine derives_of_perform (perform_record id t s) (hfresh.leads_insert hs ht) trivial
    fun T σ hσ => hσ.types id t ?_
  simp [Context.insert]

theorem derives_recorded {id : NodeId} (hs : s.Sound shapes kinds) (hfresh : s.Fresh [id])
    (ht : t.Fine shapes kinds) :
    Derives shapes kinds s (recorded id t) (Fine shapes)
      fun r T σ => r = t ∧ T id = some (r.subst σ) := by
  refine derives_of_perform (perform_recorded id t s) (hfresh.leads_insert hs ht) ht
    fun T σ hσ => ⟨rfl, hσ.types id t ?_⟩
  simp [Context.insert]

/-- Record what another computation derives. -/
theorem Derives.recorded {x : Check Ty} {Q : Ty → Typing → (VarId → Ty) → Prop} {id : NodeId}
    (hx : Derives shapes kinds s x (Fine shapes) Q) (hsteady : Steady l x)
    (hfresh : s.Fresh (l ++ [id])) :
    Derives shapes kinds s (x >>= Check.recorded id) (Fine shapes)
      fun t T σ => T id = some (t.subst σ) ∧ Q t T σ := by
  have hid := hfresh.split.2 _ (hsteady.grows s)
  refine hx.bind (fun t => steady_recorded (List.mem_singleton_self id) t) fun kinds' t hlead ht => ?_
  refine (derives_recorded hlead.sound hid ht).imp (fun _ _ hr => hr) ?_
  rintro r T σ ⟨rfl, hr⟩ hQ
  exact ⟨hr, hQ⟩

end

end Check

end TypeInference

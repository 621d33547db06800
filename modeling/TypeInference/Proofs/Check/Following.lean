import TypeInference.Proofs.Check.Twins

/-!
# One run following another

If a check succeeds and reports nothing, a corresponding check in a session
that is paired with the first one succeeds as well, reports nothing either, and
gives a corresponding result.
-/

namespace TypeInference

open Check

variable {W : Setting} {α β γ δ ν μ κ ι : Type}

/-! ## What has been reported stays reported -/

/-- Whether the computation takes back no error. -/
def Check.KeepsErrors (x : Check α) : Prop :=
  ∀ s, (x.perform s).2.sink.errors = [] → s.sink.errors = []

def Walk.KeepsErrors (w : Walk ν α) : Prop :=
  ∀ s, (w s).session.sink.errors = [] → s.sink.errors = []

namespace Check

theorem Steady.keepsErrors {ids : List NodeId} {x : Check α} (h : Steady ids x) : x.KeepsErrors :=
  fun s => (h.grows s).errors_eq_nil

/-- A computation that gives types to no nodes. -/
theorem keepsErrors_of_steady {x : Check α} (h : Steady [] x) : x.KeepsErrors := h.keepsErrors

theorem keepsErrors_pure (a : α) : (pure a : Check α).KeepsErrors := fun _ h => h

theorem keepsErrors_resolve (t : Ty) : (resolve t).KeepsErrors := fun _ h => h

theorem keepsErrors_builtin (name : String) : (builtin name).KeepsErrors :=
  keepsErrors_of_steady (steady_builtin name)

theorem keepsErrors_report (cause : Cause) (span : Span) : (report cause span).KeepsErrors :=
  keepsErrors_of_steady (steady_report cause span)

theorem keepsErrors_giveUp (cause : Cause) (span : Span) :
    (giveUp cause span : Check α).KeepsErrors :=
  keepsErrors_of_steady (steady_giveUp cause span)

theorem keepsErrors_reportTyped (cause : Cause) (span : Span) :
    (reportTyped cause span).KeepsErrors :=
  keepsErrors_of_steady (steady_reportTyped cause span)

theorem keepsErrors_recorded (id : NodeId) (t : Ty) : (recorded id t).KeepsErrors :=
  (steady_recorded (List.mem_singleton_self id) t).keepsErrors

end Check

namespace Walk

theorem Steady.keepsErrors {ids : List NodeId} {w : Walk ν α} (h : Steady ids w) : w.KeepsErrors :=
  fun s => (h.grows s).errors_eq_nil

/-- A walk that gives types to no nodes. -/
theorem keepsErrors_of_steady {w : Walk ν α} (h : Steady [] w) : w.KeepsErrors := h.keepsErrors

theorem keepsErrors_leaf {node : ν} {x : Check α} (h : x.KeepsErrors) :
    (leaf node x).KeepsErrors := h

theorem keepsErrors_first {node : ν} {x : Check α} {next : α → Walk ν β} (hx : x.KeepsErrors)
    (hnext : ∀ a, (next a).KeepsErrors) : (first node x next).KeepsErrors := by
  intro s hs
  rcases first_cases node x next s with ⟨a, s', hrun, heq⟩ | ⟨e, s', hrun, heq⟩
  · rw [heq] at hs
    exact hx s (hrun ▸ hnext a s' hs)
  · rw [heq] at hs
    exact hx s (hrun ▸ hs)

theorem keepsErrors_child {w : Walk μ α} {rebuild : μ → ν} {next : μ → α → Walk ν β}
    (hw : w.KeepsErrors) (hnext : ∀ n a, (next n a).KeepsErrors) :
    (child w rebuild next).KeepsErrors := by
  intro s hs
  rcases child_cases w rebuild next s with ⟨a, -, heq⟩ | ⟨e, -, heq⟩
  · rw [heq] at hs
    exact hw s (hnext _ a _ hs)
  · rw [heq] at hs
    exact hw s hs

end Walk

theorem Check.KeepsErrors.bind {x : Check α} {f : α → Check β} (hx : x.KeepsErrors)
    (hf : ∀ a, (f a).KeepsErrors) : (x >>= f).KeepsErrors := by
  have hfirst : (Walk.first () x fun a => Walk.leaf () (f a)).KeepsErrors :=
    Walk.keepsErrors_first hx fun a => Walk.keepsErrors_leaf (hf a)
  rwa [← Walk.leaf_bind] at hfirst

/-! ## Following -/

/-- How runs go on together: what holds of their sessions, and which pairings come after which. Nodes
may be given types, and variables of some kinds may be created. -/
structure Mode (W : Setting) where
  shared : NodeId → Prop
  creates : VarKind → Prop
  Holds : Pairing → Session → Session → Prop
  Leads : Pairing → Pairing → Prop
  refl : ∀ P, Leads P P
  trans : ∀ {P Q R}, Leads P Q → Leads Q R → Leads P R
  holds : ∀ {P s s'}, Holds P s s' → P.Holds W shared s s'
  leads : ∀ {P Q}, Leads P Q → P.Leads Q
  insert : ∀ {P s s' id t t'}, Holds P s s' → W.Owns id → P.Types W t t' →
    Holds P { s with context := s.context.insert id t } { s' with context := s'.context.insert id t' }
  more : ∀ {P s s'} (ks : List VarKind), (∀ k ∈ ks, creates k) → Holds P s s' →
    Leads P (P.more ks) ∧ Holds (P.more ks) (s.more ks.length) (s'.more ks.length)

/-- Whether the second computation succeeds where the first one does, with a related result. -/
def Check.Follows (M : Mode W) (P : Pairing) (x : Check α) (y : Check β)
    (R : Pairing → α → β → Prop) : Prop :=
  ∀ s s', M.Holds P s s' → ∀ a, (x.perform s).1 = .ok a → (x.perform s).2.sink.errors = [] →
    ∃ Q b, M.Leads P Q ∧ M.Holds Q (x.perform s).2 (y.perform s').2 ∧ (y.perform s').1 = .ok b ∧
      R Q a b

/-- Whether the second walk succeeds where the first one does, with related nodes and results. -/
def Walk.Follows (M : Mode W) (P : Pairing) (w : Walk ν α) (w' : Walk μ β)
    (R : Pairing → ν → μ → α → β → Prop) : Prop :=
  ∀ s s', M.Holds P s s' → ∀ a, (w s).outcome = .ok a → (w s).session.sink.errors = [] →
    ∃ Q b, M.Leads P Q ∧ M.Holds Q (w s).session (w' s').session ∧ (w' s').outcome = .ok b ∧
      R Q (w s).node (w' s').node a b

variable {M : Mode W} {P : Pairing} {t t' : Ty} {id : NodeId}

namespace Walk

theorem follows_leaf {node : ν} {node' : μ} {x : Check α} {y : Check β}
    {R : Pairing → ν → μ → α → β → Prop}
    (h : Check.Follows M P x y fun Q a b => R Q node node' a b) :
    Follows M P (leaf node x) (leaf node' y) R := h

theorem follows_first {node : ν} {node' : μ} {x : Check α} {y : Check β} {next : α → Walk ν γ}
    {next' : β → Walk μ δ} {R : Pairing → α → β → Prop} {T : Pairing → ν → μ → γ → δ → Prop}
    (hx : Check.Follows M P x y R) (hkeeps : ∀ a, (next a).KeepsErrors)
    (hnext : ∀ Q a b, M.Leads P Q → R Q a b → Follows M Q (next a) (next' b) T) :
    Follows M P (first node x next) (first node' y next') T := by
  intro s s' hs c hok herrors
  rcases first_cases node x next s with ⟨a, s₁, hrun, heq⟩ | ⟨e, s₁, hrun, heq⟩
  · rw [heq] at hok herrors ⊢
    obtain ⟨Q, b, hlead, hs₁, hb, hR⟩ := hx s s' hs a (by rw [hrun])
      (by rw [hrun]; exact hkeeps a s₁ herrors)
    rw [first_of_ok (Prod.ext hb rfl)]
    rw [hrun] at hs₁
    obtain ⟨Q', d, hlead', hs', hd, hT⟩ := hnext Q a b hlead hR s₁ _ hs₁ c hok herrors
    exact ⟨Q', d, M.trans hlead hlead', hs', hd, hT⟩
  · rw [heq] at hok
    cases hok

theorem follows_child {w : Walk κ α} {w' : Walk ι β} {rebuild : κ → ν} {rebuild' : ι → μ}
    {next : κ → α → Walk ν γ} {next' : ι → β → Walk μ δ} {R : Pairing → κ → ι → α → β → Prop}
    {T : Pairing → ν → μ → γ → δ → Prop} (hw : Follows M P w w' R)
    (hkeeps : ∀ n a, (next n a).KeepsErrors)
    (hnext : ∀ Q n n' a b, M.Leads P Q → R Q n n' a b → Follows M Q (next n a) (next' n' b) T) :
    Follows M P (child w rebuild next) (child w' rebuild' next') T := by
  intro s s' hs c hok herrors
  rcases child_cases w rebuild next s with ⟨a, ha, heq⟩ | ⟨e, -, heq⟩
  · rw [heq] at hok herrors ⊢
    obtain ⟨Q, b, hlead, hs₁, hb, hR⟩ := hw s s' hs a ha (hkeeps _ a _ herrors)
    rw [child_of_ok hb]
    obtain ⟨Q', d, hlead', hs', hd, hT⟩ := hnext Q _ _ a b hlead hR _ _ hs₁ c hok herrors
    exact ⟨Q', d, M.trans hlead hlead', hs', hd, hT⟩
  · rw [heq] at hok
    cases hok

/-- What holds of every node that the first walk may end with, holds of the one it ends with. -/
theorem Follows.gives {w : Walk ν α} {w' : Walk μ β} {R : Pairing → ν → μ → α → β → Prop}
    {G : ν → Prop} (h : Follows M P w w' R) (hw : ∀ s, G (w s).node) :
    Follows M P w w' fun Q n n' a b => R Q n n' a b ∧ G n := by
  intro s s' hs a ha herrors
  obtain ⟨Q, b, hlead, hs', hb, hR⟩ := h s s' hs a ha herrors
  exact ⟨Q, b, hlead, hs', hb, hR, hw s⟩

end Walk

namespace Check

variable {R : Pairing → α → β → Prop} {T : Pairing → γ → δ → Prop}

theorem follows_pure {a : α} {b : β} (h : R P a b) :
    Follows M P (pure a : Check α) (pure b : Check β) R := by
  intro s s' hs c hc _
  obtain rfl : a = c := by simpa using hc
  exact ⟨P, b, M.refl P, hs, rfl, h⟩

theorem Follows.bind {x : Check α} {y : Check β} {f : α → Check γ} {g : β → Check δ}
    (hx : Follows M P x y R) (hkeeps : ∀ a, (f a).KeepsErrors)
    (hf : ∀ Q a b, M.Leads P Q → R Q a b → Follows M Q (f a) (g b) T) :
    Follows M P (x >>= f) (y >>= g) T := by
  have hfirst : Walk.Follows M P (Walk.first () x fun a => Walk.leaf () (f a))
      (Walk.first () y fun b => Walk.leaf () (g b)) fun Q _ _ c d => T Q c d :=
    Walk.follows_first hx (fun a => Walk.keepsErrors_leaf (hkeeps a)) fun Q a b hlead hR =>
      Walk.follows_leaf (hf Q a b hlead hR)
  rwa [← Walk.leaf_bind, ← Walk.leaf_bind] at hfirst

theorem Follows.imp {x : Check α} {y : Check β} {R' : Pairing → α → β → Prop} (h : Follows M P x y R)
    (hR : ∀ Q a b, M.Leads P Q → R Q a b → R' Q a b) : Follows M P x y R' := by
  intro s s' hs a ha herrors
  obtain ⟨Q, b, hlead, hs', hb, hab⟩ := h s s' hs a ha herrors
  exact ⟨Q, b, hlead, hs', hb, hR Q a b hlead hab⟩

theorem Follows.of_eq {x x' : Check α} {y y' : Check β} (h : Follows M P x y R) (hx : x' = x)
    (hy : y' = y) : Follows M P x' y' R := by
  rwa [hx, hy]

/-! ## Reports and aborts -/

/-- Whether the computation always aborts or leaves an error in the sink. -/
def Fails (x : Check α) : Prop := ∀ s a, (x.perform s).1 = .ok a → (x.perform s).2.sink.errors ≠ []

/-- Nothing has to follow what fails. -/
theorem Fails.follows {x : Check α} (h : x.Fails) (y : Check β) : Follows M P x y R :=
  fun s _ _ a ha herrors => (h s a ha herrors).elim

theorem fails_throw (e : Abort) : (throw e : Check α).Fails := fun s a ha => by cases ha

theorem fails_giveUp (cause : Cause) (span : Span) : (giveUp cause span : Check α).Fails :=
  fun s a ha => by cases ha

theorem fails_giveUpAll (cause : Cause) (span : Span) : (giveUpAll cause span : Check α).Fails := by
  intro s a ha
  rw [perform_giveUpAll] at ha
  cases ha

theorem fails_report_bind (cause : Cause) (span : Span) {f : Unit → Check α}
    (hf : (f ()).KeepsErrors) : (report cause span >>= f).Fails := by
  intro s a _ herrors
  rw [perform_bind, perform_report] at herrors
  have hreported := hf _ herrors
  simp [Sink.report] at hreported

theorem fails_report (cause : Cause) (span : Span) : (report cause span).Fails := by
  intro s a _
  simp [Sink.report]

theorem fails_reportTyped (cause : Cause) (span : Span) : (reportTyped cause span).Fails :=
  fails_report_bind cause span (keepsErrors_pure _)

theorem fails_resolve_bind (t : Ty) {f : Ty → Check α} (hf : ∀ u, (f u).Fails) :
    (resolve t >>= f).Fails := by
  intro s a ha
  rw [perform_bind, perform_resolve] at ha ⊢
  exact hf _ s a ha

/-! ## The context -/

theorem follows_record (hid : W.Owns id) (ht : P.Types W t t') :
    Follows M P (record id t) (record id t') fun _ _ _ => True :=
  fun _ _ hs _ _ _ => ⟨P, (), M.refl P, M.insert hs hid ht, rfl, trivial⟩

theorem follows_recorded (hid : W.Owns id) (ht : P.Types W t t') :
    Follows M P (recorded id t) (recorded id t') fun Q => Q.Types W := by
  refine (follows_record hid ht).bind (fun _ => keepsErrors_pure t) fun Q _ _ hlead _ => ?_
  exact follows_pure (ht.mono (M.leads hlead))

theorem follows_resolve (ht : P.Types W t t') :
    Follows M P (resolve t) (resolve t') fun Q => Q.Types W := by
  intro s s' hs r hr _
  obtain rfl : s.context.resolve t = r := by simpa using hr
  exact ⟨P, _, M.refl P, hs, rfl, (M.holds hs).resolve ht⟩

/-- What goes on after a struct has been looked up, which gives its declaration on both sides. If it
has none, the first run fails. -/
theorem follows_lookup_struct (hid : W.scope.isStruct id) {f : Option Ty → Check α}
    {g : Option Ty → Check β} (hnone : (f none).Fails)
    (hsome : ∀ d, W.scope.structs id = some d →
      Follows M P (f (some (.adt d))) (g (some (.adt d))) R) :
    Follows M P (lookup id >>= f) (lookup id >>= g) R := by
  intro s s' hs a ha herrors
  rw [perform_bind, perform_lookup, (M.holds hs).left.lookup_struct hid] at ha herrors ⊢
  rw [perform_bind, perform_lookup, (M.holds hs).right.lookup_struct hid]
  cases hd : W.scope.structs id with
  | none =>
      rw [hd] at ha herrors
      exact (hnone s a ha herrors).elim
  | some d =>
      rw [hd] at ha herrors
      exact hsome d hd s s' hs a ha herrors

/-- What goes on after another node has been looked up, which gives a type on both sides. If it has
none, the first run fails. -/
theorem follows_lookup (hid : M.shared id) (hplain : ¬W.scope.isStruct id) {f : Option Ty → Check α}
    {g : Option Ty → Check β} (hnone : (f none).Fails)
    (hsome : ∀ t t', P.Types W t t' → Follows M P (f (some t)) (g (some t')) R) :
    Follows M P (lookup id >>= f) (lookup id >>= g) R := by
  intro s s' hs a ha herrors
  have hrel := (M.holds hs).lookup hid hplain
  rw [perform_bind, perform_lookup] at ha herrors ⊢
  rw [perform_bind, perform_lookup]
  generalize s.context.lookup id = r at ha herrors hrel ⊢
  generalize s'.context.lookup id = r' at hrel ⊢
  cases hrel with
  | none => exact (hnone s a ha herrors).elim
  | some ht => exact hsome _ _ ht s s' hs a ha herrors

theorem follows_builtin? (name : String) :
    Follows M P (builtin? name) (builtin? name)
      fun _ r r' => r' = r ∧ ∀ t, r = some t → ∃ p, t = .prim p := by
  intro s s' hs r hr _
  have hsame : s'.context.builtin? name = s.context.builtin? name := by
    rw [Context.builtin?, Context.builtin?, (M.holds hs).left.sound.builtins,
      (M.holds hs).right.sound.builtins]
  refine ⟨P, _, M.refl P, hs, rfl, hsame.trans (Except.ok.inj hr), fun t ht => ?_⟩
  obtain ⟨p, -, hp⟩ := Option.map_eq_some_iff.1 ((Except.ok.inj hr).trans ht)
  exact ⟨p, hp.symm⟩

theorem follows_builtin {name : String} {p : Prim} (hname : p.name = name) :
    Follows M P (builtin name) (builtin name) fun Q => Q.Types W := by
  intro s s' hs t ht _
  rw [perform_builtin (M.holds hs).left.sound.builtins hname] at ht ⊢
  rw [perform_builtin (M.holds hs).right.sound.builtins hname]
  obtain rfl := Except.ok.inj ht
  exact ⟨P, _, M.refl P, hs, rfl, .prim p⟩

theorem follows_newVar {k : VarKind} (hk : M.creates k) :
    Follows M P (newVar k) (newVar k) fun Q => Q.Types W := by
  intro s s' hs r hr _
  obtain rfl : (s.context.newVar k).1 = r := by simpa using hr
  obtain ⟨hlead, hmore⟩ := M.more [k] (by simpa using hk) hs
  have hinfer : (P.more [k]).Types W (.infer k (s.context.bindings.count + 0))
      (.infer k (s'.context.bindings.count + 0)) := (M.holds hs).types_infer rfl
  exact ⟨P.more [k], _, hlead, hmore, rfl, hinfer⟩

/-- An instance of a declared struct with fresh variables, if it has parameters. -/
theorem follows_freshInstance (hgeneral : M.creates .general) {d : Adt Ty}
    (hd : W.scope.structs id = some d) :
    Follows M P (freshInstance d) (freshInstance d) fun Q a a' => Q.Types W (.adt a) (.adt a') := by
  intro s s' hs a ha _
  rw [perform_freshInstance] at ha ⊢
  rw [perform_freshInstance]
  unfold Context.freshInstance at ha ⊢
  cases hgeneric : d.isGeneric with
  | false =>
      simp only [hgeneric, Bool.not_false, if_true] at ha ⊢
      obtain rfl := Except.ok.inj ha
      refine ⟨P, d, M.refl P, hs, rfl, (M.holds hs).declaration hd ?_⟩
      simpa [Adt.isGeneric] using hgeneric
  | true =>
      simp only [hgeneric, Bool.not_true, Bool.false_eq_true, if_false] at ha ⊢
      obtain rfl := Except.ok.inj ha
      have hparams : d.params ≠ [] := by simpa [Adt.isGeneric] using hgeneric
      obtain ⟨hlead, hmore⟩ := M.more (List.replicate d.params.length .general) (by simp [hgeneral]) hs
      rw [List.length_replicate] at hmore
      refine ⟨_, _, hlead, hmore, rfl, (M.holds hmore).instantiate hd hparams ?_ ?_⟩
      · simp [Bindings.newVars]
      · refine List.forall₂_map_left_iff.2 (List.forall₂_map_right_iff.2
          (List.forall₂_same.2 fun i hi => (M.holds hs).types_infer ?_))
        simp [List.mem_range.1 hi]

end Check

end TypeInference

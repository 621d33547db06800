import TypeInference.Proofs.Check.Passes
import TypeInference.Proofs.Ty.Defaults

/-!
# The fallback

A fallback that reports nothing replaces every entry by its default, which is
concrete. The passes of a lowerable program all report nothing.
-/

namespace TypeInference

open Ty Check

variable {s : Session}

/-! ## Defaults -/

/-- A type without leaves that lack a default becomes concrete. -/
theorem Ty.isConcrete_withDefaults {t : Ty} (h : t.firstUnresolved? = none) :
    (t.withDefaults .prims).isConcrete := by
  rw [isConcrete, List.all_eq_true]
  intro l hl
  rw [withDefaults, leaves_rewrite, List.mem_flatMap] at hl
  obtain ⟨m, hm, hl⟩ := hl
  obtain ⟨hfn, hadt⟩ := parts_of_mem_leaves hm
  have hdefault := List.find?_eq_none.1 h m hm
  cases m with
  | fn ps r => exact (hfn ps r rfl).elim
  | adt a => exact (hadt a rfl).elim
  | infer k v =>
      cases k <;>
        simp_all [lacksDefault, isError, isGeneralVar, defaultFor, Defaults.prims, leaves, isSettled]
  | error => simp [lacksDefault, isError] at hdefault
  | _ => simp_all [leaves, isSettled]

/-! ## Entries -/

theorem NodeTypes.lookup_map (f : Ty → Ty) (rows : List (NodeId × Ty)) (id : NodeId) :
    (rows.map fun row => (row.1, f row.2)).lookup id = (rows.lookup id).map f := by
  induction rows with
  | nil => rfl
  | cons row rest ih =>
      obtain ⟨i, t⟩ := row
      rw [List.map_cons, lookup_cons, lookup_cons, ih]
      split <;> rfl

theorem NodeTypes.mem_of_find? {m : NodeTypes} {id : NodeId} {t : Ty} (h : m.find? id = some t) :
    (id, t) ∈ m.rows := by
  obtain ⟨before, after, hrows, -⟩ := List.lookup_eq_some_iff.1 h
  rw [hrows]
  simp

theorem NodeTypes.find?_of_mem {m : NodeTypes} {id : NodeId} {t : Ty} (h : (id, t) ∈ m.rows) :
    m.find? id = some t := by
  obtain ⟨rows, hascending⟩ := m
  unfold find?
  simp only at h ⊢
  induction rows with
  | nil => cases h
  | cons row rest ih =>
      obtain ⟨hrow, hrest⟩ := List.pairwise_cons.1 hascending
      rw [lookup_cons]
      rcases List.mem_cons.1 h with rfl | h
      · rw [if_pos rfl]
      · rw [if_neg (Nat.ne_of_gt (hrow _ h))]
        exact ih hrest h

/-- A sweep that finds no problem has replaced every entry by its default. -/
theorem sweepRows_defaultEntry (resolve : Ty → Ty) (rows : List (NodeId × Ty))
    (h : (NodeTypes.sweepRows (fun p id ty => defaultEntry .prims p id (resolve ty)) none
      rows).1 = none) :
    (NodeTypes.sweepRows (fun p id ty => defaultEntry .prims p id (resolve ty)) none rows).2 =
        rows.map (fun row => (row.1, (resolve row.2).withDefaults .prims)) ∧
      ∀ row ∈ rows, (resolve row.2).firstUnresolved? = none := by
  induction rows with
  | nil => exact ⟨rfl, by simp⟩
  | cons row rest ih =>
      obtain ⟨id, ty⟩ := row
      cases hleaf : (resolve ty).firstUnresolved? with
      | some leaf => simp [NodeTypes.sweepRows, defaultEntry_of_some hleaf] at h
      | none =>
          simp only [NodeTypes.sweepRows, defaultEntry_of_none hleaf, Bool.false_eq_true,
            if_false] at h ⊢
          obtain ⟨hrows, hall⟩ := ih h
          refine ⟨by rw [hrows, List.map_cons], fun row hrow => ?_⟩
          rcases List.mem_cons.1 hrow with rfl | hrow
          · exact hleaf
          · exact hall row hrow

/-- A sweep over rows that all have defaults finds no problem. -/
theorem sweepRows_of_resolved (resolve : Ty → Ty) {rows : List (NodeId × Ty)}
    (h : ∀ row ∈ rows, (resolve row.2).firstUnresolved? = none) :
    (NodeTypes.sweepRows (fun p id ty => defaultEntry .prims p id (resolve ty)) none
      rows).1 = none := by
  induction rows with
  | nil => rfl
  | cons row rest ih =>
      obtain ⟨id, ty⟩ := row
      rw [List.forall_mem_cons] at h
      simp only [NodeTypes.sweepRows, defaultEntry_of_none h.1, Bool.false_eq_true, if_false]
      exact ih h.2

theorem perform_applyDefaults (hs : s.context.builtins = Prim.all) :
    applyDefaults.perform s =
      match s.context.sweep (defaultEntry .prims) none with
      | (none, context) => (.ok (), { s with context })
      | (some (id, reason), context) =>
          perform (giveUpAll (unresolvedCause id reason) ((s.locations.find? id).getD .origin))
            { s with context } := by
  have hget : (get : Check Session).perform s = (.ok s, s) := rfl
  have hint : (builtin "i32").perform s = (.ok (.prim .i32), s) := perform_builtin hs rfl
  have hfloat : (builtin "f32").perform s = (.ok (.prim .f32), s) := perform_builtin hs rfl
  rw [applyDefaults, perform_bind, hint]
  simp only
  rw [perform_bind, hfloat]
  simp only
  rw [perform_bind, hget]
  simp only
  rw [← Defaults.prims]
  rcases s.context.sweep (defaultEntry .prims) none with ⟨_ | ⟨id, reason⟩, c⟩
  · rfl
  · rfl

/-- What the fallback does if it reports nothing: every entry is resolved and gets its defaults, and
is concrete then. -/
theorem applyDefaults_of_errors (hs : s.context.builtins = Prim.all)
    (herrors : (applyDefaults.perform s).2.sink.errors = []) :
    (applyDefaults.perform s).2.context.bindings = s.context.bindings ∧
      (∀ id, (applyDefaults.perform s).2.context.types.find? id =
        (s.context.types.find? id).map fun t =>
          (s.context.resolve t).withDefaults .prims) ∧
      ∀ id t, (applyDefaults.perform s).2.context.types.find? id = some t → t.isConcrete := by
  rw [perform_applyDefaults hs] at herrors ⊢
  rcases hsweep : s.context.sweep (defaultEntry .prims) none with
    ⟨_ | ⟨id, leaf⟩, c⟩
  · simp only
    have hrows := sweepRows_defaultEntry s.context.resolve
      s.context.types.rows (congrArg Prod.fst hsweep)
    have hc : c.types.rows = _ := (congrArg (fun r => r.2.types.rows) hsweep).symm.trans hrows.1
    have hfind (id : NodeId) : c.types.find? id = (s.context.types.find? id).map fun t =>
        (s.context.resolve t).withDefaults .prims := by
      unfold NodeTypes.find?
      rw [hc]
      exact NodeTypes.lookup_map
        (fun t => (s.context.resolve t).withDefaults .prims) _ id
    refine ⟨(congrArg (fun r => r.2.bindings) hsweep).symm, hfind, fun id t ht => ?_⟩
    rw [hfind] at ht
    obtain ⟨u, hu, rfl⟩ := Option.map_eq_some_iff.1 ht
    exact isConcrete_withDefaults (hrows.2 (id, u) (NodeTypes.mem_of_find? hu))
  · simp [hsweep] at herrors

/-- The fallback reports nothing exactly if every entry has a default. -/
theorem errors_applyDefaults_iff (hs : s.context.builtins = Prim.all) (herrors : s.sink.errors = []) :
    (applyDefaults.perform s).2.sink.errors = [] ↔
      ∀ id t, s.context.lookup id = some t → t.firstUnresolved? = none := by
  have hswept : (s.context.sweep (defaultEntry .prims) none).1 =
      (NodeTypes.sweepRows (fun p id ty => defaultEntry .prims p id
        (s.context.resolve ty)) none s.context.types.rows).1 := rfl
  rw [perform_applyDefaults hs]
  constructor
  · intro h id t ht
    obtain ⟨u, hu, rfl⟩ := Option.map_eq_some_iff.1 ht
    rcases hsweep : s.context.sweep (defaultEntry .prims) none with
      ⟨_ | ⟨i, leaf⟩, c⟩
    · rw [hsweep] at hswept
      exact (sweepRows_defaultEntry _ _ hswept.symm).2 (id, u) (NodeTypes.mem_of_find? hu)
    · simp [hsweep] at h
  · intro h
    rw [sweepRows_of_resolved s.context.resolve fun row hrow => h row.1 _ ?_] at hswept
    · rcases hsweep : s.context.sweep (defaultEntry .prims) none with ⟨r, c⟩
      rw [hsweep] at hswept
      obtain rfl : r = none := hswept
      exact herrors
    · exact Option.map_eq_some_iff.2 ⟨row.2, NodeTypes.find?_of_mem hrow, rfl⟩

theorem policy_applyDefaults (hs : s.context.builtins = Prim.all) :
    (applyDefaults.perform s).2.sink.policy = s.sink.policy := by
  rw [perform_applyDefaults hs]
  rcases s.context.sweep (defaultEntry .prims) none with ⟨_ | ⟨id, leaf⟩, c⟩
  · rfl
  · rfl

theorem Ty.resolve_of_concrete {t : Ty} (h : t.isConcrete) (b : Bindings) : b.resolve t = t := by
  refine Eq.trans (rewrite_congr (fun k v hv => ?_) fun _ _ => rfl) (rewrite_id t)
  have hsettled := List.all_eq_true.1 h _ hv
  simp [isSettled] at hsettled

/-- Concrete entries are what they resolve to. -/
theorem Context.lookup_of_concrete {c : Context}
    (h : ∀ id t, c.types.find? id = some t → t.isConcrete) (id : NodeId) :
    c.lookup id = c.types.find? id := by
  cases ht : c.types.find? id with
  | none => rw [Context.lookup, ht, Option.map_none]
  | some t =>
      rw [Context.lookup, ht, Option.map_some]
      exact congrArg some (resolve_of_concrete (h id t ht) _)

/-- What a node is known to be after a fallback that reports nothing. -/
theorem lookup_applyDefaults (hs : s.context.builtins = Prim.all)
    (herrors : (applyDefaults.perform s).2.sink.errors = []) (id : NodeId) :
    (applyDefaults.perform s).2.context.lookup id =
      (s.context.lookup id).map fun t => t.withDefaults .prims := by
  obtain ⟨-, hfind, hconcrete⟩ := applyDefaults_of_errors hs herrors
  rw [Context.lookup_of_concrete hconcrete, hfind, Context.lookup, Option.map_map]
  rfl

/-! ## Lowerable programs -/

namespace Program

/-- A pass of a lowerable program ends without a defect and reports nothing that blocks. -/
theorem run_of_lowerable {pass : Pass} {rest : List Pass} {p : Program}
    (h : (runAll (pass :: rest) p s).outcome = .ok .lowerable) :
    (p.run pass s).ended = .ok () ∧ (p.run pass s).session.sink.isBlocking = false ∧
      runAll (pass :: rest) p s = runAll rest (p.run pass s).program (p.run pass s).session := by
  rw [runAll] at h ⊢
  rcases hrun : p.run pass s with ⟨p', d | u, s'⟩
  · simp [hrun] at h
  · simp only [hrun] at h ⊢
    split at h
    · cases h
    · rename_i hblocking
      exact ⟨trivial, by simpa using hblocking, if_neg hblocking⟩

theorem session_fallbackPass (p : Program) (s : Session) : (p.fallbackPass s).program = p ∧
    (p.fallbackPass s).session = (applyDefaults.perform s).2 := by
  unfold fallbackPass
  rcases applyDefaults.perform s with ⟨(_ | _ | d) | u, s'⟩ <;> exact ⟨rfl, rfl⟩

/-- The builtins that the fallback depends on are there, so no defect ends it. -/
theorem fallbackPass_eq (p : Program) {s : Session} (hs : s.context.builtins = Prim.all) :
    p.fallbackPass s = ⟨p, .ok (), (applyDefaults.perform s).2⟩ := by
  have hnone (d : Defect) : (applyDefaults.perform s).1 ≠ .error (.defect d) := by
    rw [perform_applyDefaults hs]
    split
    · simp
    · rw [perform_giveUpAll]
      simp only [Sink.fatal]
      split <;> simp
  unfold fallbackPass
  rcases hrun : applyDefaults.perform s with ⟨(_ | _ | d) | u, s'⟩
  · rfl
  · rfl
  · exact (hnone d (by rw [hrun])).elim
  · rfl

/-- What a check does, pass by pass. -/
theorem check_eq (p : Program) (locations : Locations) :
    let signed := p.declareAll p.items (.start (.start locations .fresh))
    let checked := checkAll p.items signed.2.session
    let swept := applyDefaults.perform checked.2.2
    p.check locations .fresh =
      match signed.1 with
      | .error e => ⟨p, .error e, signed.2.session⟩
      | .ok _ =>
          if signed.2.session.sink.errors ≠ [] then
            ⟨p, .ok (.rejected .signatures), signed.2.session⟩
          else
            match checked.2.1 with
            | .error e => ⟨⟨checked.1⟩, .error e, checked.2.2⟩
            | .ok _ =>
                if checked.2.2.sink.errors ≠ [] then
                  ⟨⟨checked.1⟩, .ok (.rejected .bodies), checked.2.2⟩
                else if swept.2.sink.errors ≠ [] then
                  ⟨⟨checked.1⟩, .ok (.rejected .fallback), swept.2⟩
                else ⟨⟨checked.1⟩, .ok .lowerable, swept.2⟩ := by
  intro signed checked swept
  have hblocking {s : Session} (h : s.sink.policy = .strict) :
      s.sink.isBlocking ↔ s.sink.errors ≠ [] := by
    rw [← not_iff_not, Bool.not_eq_true, Sink.isBlocking_of_strict h, not_not]
  have hdeclared := p.grows_declareAll (fun _ h => h) (.start (.start locations .fresh))
  have hchecked := grows_checkAll p.items signed.2.session
  have hpolicy₁ : signed.2.session.sink.policy = .strict := hdeclared.policy_eq
  have hpolicy₂ : checked.2.2.sink.policy = .strict := hchecked.policy_eq.trans hpolicy₁
  have hbuiltins : checked.2.2.context.builtins = Prim.all :=
    hchecked.builtins_eq.trans hdeclared.builtins_eq
  have hpolicy₃ : swept.2.sink.policy = .strict := (policy_applyDefaults hbuiltins).trans hpolicy₂
  have hpass₁ : p.run .signatures (.start locations .fresh) = ⟨p, signed.1, signed.2.session⟩ := rfl
  have hpass₂ : p.run .bodies signed.2.session = ⟨⟨checked.1⟩, checked.2.1, checked.2.2⟩ := rfl
  have hpass₃ : Program.run ⟨checked.1⟩ .fallback checked.2.2 = ⟨⟨checked.1⟩, .ok (), swept.2⟩ :=
    fallbackPass_eq _ hbuiltins
  rw [check, checkFrom, runAll, hpass₁]
  cases signed.1 with
  | error e => rfl
  | ok _ =>
      simp only [hblocking hpolicy₁]
      split
      · rfl
      · rw [runAll, hpass₂]
        cases checked.2.1 with
        | error e => rfl
        | ok _ =>
            simp only [hblocking hpolicy₂]
            split
            · rfl
            · rw [runAll, hpass₃]
              simp only [hblocking hpolicy₃]
              split <;> rfl

/-- What the passes of a lowerable program leave to one another. -/
theorem passes_of_lowerable {p : Program} {locations : Locations}
    (hok : (p.check locations .fresh).outcome = .ok .lowerable) :
    ∃ d items s, p.declareAll p.items (.start (.start locations .fresh)) = (.ok (), d) ∧
      d.session.sink.errors = [] ∧ checkAll p.items d.session = (items, .ok (), s) ∧
      s.sink.errors = [] ∧ s.context.builtins = Prim.all ∧
      (applyDefaults.perform s).2.sink.errors = [] ∧
      (p.check locations .fresh).program = ⟨items⟩ ∧
      (p.check locations .fresh).session = (applyDefaults.perform s).2 := by
  unfold check checkFrom at hok ⊢
  have hdeclared := p.grows_declareAll (fun _ h => h) (.start (.start locations .fresh))
  obtain ⟨hended₁, hblocking₁, heq₁⟩ := run_of_lowerable hok
  rw [heq₁] at hok ⊢
  rcases hrun₁ : p.declareAll p.items (.start (.start locations .fresh)) with ⟨ended₁, d⟩
  rw [hrun₁] at hdeclared
  have hpass₁ : p.run .signatures (.start locations .fresh) = ⟨p, ended₁, d.session⟩ := by
    rw [run, signaturePass, hrun₁]
  rw [hpass₁] at hended₁ hblocking₁ hok ⊢
  have hpolicy₁ : d.session.sink.policy = .strict := hdeclared.policy_eq
  have hchecked := grows_checkAll p.items d.session
  obtain ⟨hended₂, hblocking₂, heq₂⟩ := run_of_lowerable hok
  rw [heq₂] at hok ⊢
  rcases hrun₂ : checkAll p.items d.session with ⟨items, ended₂, s⟩
  rw [hrun₂] at hchecked
  have hpass₂ : p.run .bodies d.session = ⟨⟨items⟩, ended₂, s⟩ := by
    rw [run, bodyPass, hrun₂]
  rw [hpass₂] at hended₂ hblocking₂ hok ⊢
  have hpolicy₂ : s.sink.policy = .strict := hchecked.policy_eq.trans hpolicy₁
  have hbuiltins : s.context.builtins = Prim.all := hchecked.builtins_eq.trans hdeclared.builtins_eq
  obtain ⟨-, hblocking₃, heq₃⟩ := run_of_lowerable hok
  obtain ⟨hprogram, hsession⟩ := session_fallbackPass ⟨items⟩ s
  rw [run, hsession] at hblocking₃
  rw [heq₃, run, hprogram, hsession]
  have hpolicy₃ := (policy_applyDefaults hbuiltins).trans hpolicy₂
  exact ⟨d, items, s, congrArg (·, d) hended₁, (Sink.isBlocking_of_strict hpolicy₁).1 hblocking₁,
    hrun₂.trans (congrArg (items, ·, s) hended₂), (Sink.isBlocking_of_strict hpolicy₂).1 hblocking₂,
    hbuiltins, (Sink.isBlocking_of_strict hpolicy₃).1 hblocking₃, rfl, rfl⟩

/-- A check all of whose passes end without a defect and report nothing. -/
theorem check_of_passes {p : Program} {locations : Locations} {d : Declaring} {items : List Item}
    (hdeclare : p.declareAll p.items (.start (.start locations .fresh)) = (.ok (), d))
    (herrors₁ : d.session.sink.errors = []) (hcheck : checkAll p.items d.session = (items, .ok (), s))
    (herrors₂ : s.sink.errors = []) (herrors₃ : (applyDefaults.perform s).2.sink.errors = []) :
    p.check locations .fresh = ⟨⟨items⟩, .ok .lowerable, (applyDefaults.perform s).2⟩ := by
  rw [p.check_eq locations, hdeclare]
  simp [herrors₁, hcheck, herrors₂, herrors₃]

/-- A program is lowerable exactly if all passes end without a defect and report nothing. -/
theorem lowerable_iff_passes {p : Program} {locations : Locations} :
    (p.check locations .fresh).outcome = .ok .lowerable ↔
      ∃ d s, p.declareAll p.items (.start (.start locations .fresh)) = (.ok (), d) ∧
        d.session.sink.errors = [] ∧ (checkAll p.items d.session).2 = (.ok (), s) ∧
        s.sink.errors = [] ∧ (applyDefaults.perform s).2.sink.errors = [] := by
  constructor
  · intro hok
    obtain ⟨d, items, s, hdeclare, herrors₁, hcheck, herrors₂, -, herrors₃, -, -⟩ :=
      passes_of_lowerable hok
    exact ⟨d, s, hdeclare, herrors₁, by rw [hcheck], herrors₂, herrors₃⟩
  · rintro ⟨d, s, hdeclare, herrors₁, hcheck, herrors₂, herrors₃⟩
    rw [check_of_passes hdeclare herrors₁ (Prod.ext rfl hcheck) herrors₂ herrors₃]

end Program

end TypeInference

import TypeInference.Proofs.Check.Unchanged

/-!
# Lowerable programs are typed

The fallback replaces every entry by its default, which is what one solution of
the session before makes of it: the bindings, and after them the defaults of
the variables that are left. So the table of a lowerable program is a valid
typing of it.
-/

namespace TypeInference

open Ty Bindings Check

variable {shapes : NodeId → Shape} {kinds : List VarKind} {s : Session}

/-! ## Defaults as a substitution -/

def defaultSubst (kinds : List VarKind) (v : VarId) : Ty :=
  match kinds[v]? with
  | some k => defaultFor .prims k v
  | none => .infer .general v

theorem respectsKinds_defaultSubst (kinds : List VarKind) :
    RespectsKinds kinds (defaultSubst kinds) := by
  intro v k hv
  rw [defaultSubst, hv]
  cases k <;> rfl

theorem Ty.withDefaults_eq_subst {t : Ty} (ht : t.WellKinded kinds) :
    t.withDefaults .prims = t.subst (defaultSubst kinds) := by
  refine rewrite_congr (fun k v hv => ?_) fun _ _ => rfl
  have hkind : kinds[v]? = some k := ht _ (infer_mem_nodes.2 hv)
  rw [defaultSubst, hkind]

/-- Where no variable stands for a parameter, substitution adds none. -/
theorem Ty.param_mem_leaves_subst {σ : VarId → Ty} (hσ : ParamFree σ) {p : Param} {t : Ty} :
    .param p ∈ (t.subst σ).leaves ↔ .param p ∈ t.leaves := by
  rw [subst, leaves_rewrite, List.mem_flatMap]
  constructor
  · rintro ⟨m, hm, hp⟩
    obtain ⟨hfn, hadt⟩ := parts_of_mem_leaves hm
    cases m with
    | fn ps r => exact (hfn ps r rfl).elim
    | adt a => exact (hadt a rfl).elim
    | infer k v => exact (hσ v p hp).elim
    | param q =>
        obtain rfl : p = q := by simpa [leaves] using hp
        exact hm
    | _ => simp [leaves] at hp
  · exact fun h => ⟨_, h, by simp [leaves]⟩

theorem paramFree_defaultSubst (kinds : List VarKind) : ParamFree (defaultSubst kinds) := by
  intro v p
  unfold defaultSubst
  split
  · rename_i k _
    cases k <;> simp [defaultFor, Defaults.prims, leaves]
  · simp [leaves]

/-- The bindings add a parameter exactly if some variable stands for a type that mentions one. -/
theorem paramFree_after (b : Bindings) (kinds : List VarKind) :
    ParamFree (b.after (defaultSubst kinds)) ↔
      ∀ v p, .param p ∉ (b.resolve (.infer .general v)).leaves := by
  refine forall_congr' fun v => forall_congr' fun p => not_congr ?_
  exact param_mem_leaves_subst (paramFree_defaultSubst kinds)

/-! ## The fallback -/

/-- The entries that the fallback leaves are what the solution with the defaults makes of them. -/
theorem find?_applyDefaults (hs : s.Sound shapes kinds)
    (herrors : (applyDefaults.perform s).2.sink.errors = []) (id : NodeId) :
    (applyDefaults.perform s).2.context.types.find? id =
      (s.context.types.find? id).map (subst (s.context.bindings.after (defaultSubst kinds))) := by
  rw [(applyDefaults_of_errors hs.builtins herrors).2.1]
  refine Option.map_congr fun t ht => ?_
  rw [subst_after]
  exact withDefaults_eq_subst ((hs.types id t ht).resolve hs.bindings).wellKinded

/-- If the fallback reports nothing, the table that it leaves is a solution of the session before. -/
theorem solution_applyDefaults (hs : s.Sound shapes kinds)
    (herrors : (applyDefaults.perform s).2.sink.errors = []) :
    Solution kinds s (applyDefaults.perform s).2.context.lookup
      (s.context.bindings.after (defaultSubst kinds)) := by
  obtain ⟨-, -, hconcrete⟩ := applyDefaults_of_errors hs.builtins herrors
  have hlookup := Context.lookup_of_concrete hconcrete
  refine ⟨fun id t ht => ?_, ?_, ?_, fun id t ht => ?_⟩
  · exact hconcrete id t (by rw [← hlookup, ht])
  · exact respectsKinds_after hs.bindings.toValid (respectsKinds_defaultSubst kinds)
  · exact satisfiedBy_after hs.bindings.toValid _
  · rw [hlookup, find?_applyDefaults hs herrors, ht, Option.map_some]

/-! ## The check -/

/-- Whether no inference variable ends up standing for a type that mentions a declared parameter. -/
def Checked.IsParamFree (c : Checked) : Prop :=
  ∀ v p, .param p ∉ (c.session.context.resolve (.infer .general v)).leaves

theorem Session.sound_start (shapes : NodeId → Shape) (locations : Locations) (sink : Sink) :
    (Session.start locations sink).Sound shapes [] :=
  ⟨sound_empty, by simp [start, Context.initial, Context.bare, NodeTypes.empty, NodeTypes.find?],
    by simp [start, Context.initial, Context.bare, NodeTypes.empty, NodeTypes.find?], rfl⟩

namespace Program

/-- A signature pass that reports nothing leaves a sound session in which no node of a body has a
type. -/
theorem sound_signatures {p : Program} {locations : Locations} {d : Declaring} (hnodup : p.ids.Nodup)
    (hlocated : ∀ id ∈ p.ids, id < locations.size)
    (hrun : p.declareAll p.items (.start (.start locations .fresh)) = (.ok (), d))
    (herrors : d.session.sink.errors = []) :
    ∃ kinds, d.session.Sound p.shapes kinds ∧ d.session.Fresh p.bodyIds := by
  have hgrows := p.grows_declareAll (fun _ h => h) (.start (.start locations .fresh))
  have hsignatures : ∀ id ∈ p.signatureIds, id < locations.size := fun id hid =>
    hlocated id (p.ids_perm.mem_iff.2 (List.mem_append_left _ hid))
  have hsound := p.sound_declareAll (fun _ h => h) (d := .start (.start locations .fresh))
    (Session.sound_start p.shapes locations .fresh) (fun h => (h rfl).elim) hsignatures
  rw [hrun] at hgrows hsound
  obtain ⟨kinds, hsound⟩ := hsound rfl herrors
  have hfresh : (Session.start locations .fresh).Fresh (p.signatureIds ++ p.bodyIds) :=
    (Session.Fresh.mk hnodup hlocated fun _ _ => rfl).perm p.ids_perm
  exact ⟨kinds, hsound, hfresh.split.2 _ hgrows⟩

/-- A fallback that reports nothing leaves a table that types the bodies that every solution types. -/
theorem typed_applyDefaults {p : Program} (hs : s.Sound shapes kinds)
    (herrors : (applyDefaults.perform s).2.sink.errors = []) {c : Checked} (hprogram : c.program = p)
    (hsession : c.session = (applyDefaults.perform s).2)
    (htyped : ∀ T σ, Solution kinds s T σ →
      ∀ item ∈ p.items, item.Typed T (Path.Names T (ParamFree σ))) :
    c.program.Typed c.typeOf (Path.Names c.typeOf c.IsParamFree) := by
  have hsolution := solution_applyDefaults hs herrors
  have hbindings := (applyDefaults_of_errors hs.builtins herrors).1
  have hfree : ParamFree (s.context.bindings.after (defaultSubst kinds)) = c.IsParamFree := by
    refine propext ((paramFree_after _ kinds).trans ?_)
    rw [← hbindings, ← hsession]
    rfl
  have htypeOf : (applyDefaults.perform s).2.context.lookup = c.typeOf := by
    rw [← hsession]
    rfl
  rw [htypeOf] at hsolution
  subst hprogram
  intro item hitem
  rw [← hfree]
  exact htyped _ _ hsolution item hitem

/-- If neither the signature pass nor the body pass reports anything, they leave a sound session, and
every solution of it types the rewritten bodies. -/
theorem solutions_checkAll {p : Program} {locations : Locations} {d : Declaring} {items : List Item}
    (hnodup : p.ids.Nodup) (hlocated : ∀ id ∈ p.ids, id < locations.size)
    (hdeclare : p.declareAll p.items (.start (.start locations .fresh)) = (.ok (), d))
    (herrors₁ : d.session.sink.errors = []) (hcheck : checkAll p.items d.session = (items, .ok (), s))
    (herrors₂ : s.sink.errors = []) :
    ∃ kinds, s.Sound p.shapes kinds ∧ ∀ T σ, Solution kinds s T σ →
      ∀ item ∈ items, item.Typed T (Path.Names T (ParamFree σ)) := by
  obtain ⟨kinds₁, hsound₁, hfresh⟩ := sound_signatures hnodup hlocated hdeclare herrors₁
  have hlead := leads_checkAll p.shapes_isIndexed hsound₁ hfresh
  rw [hcheck] at hlead
  obtain ⟨kinds₂, hlead, htyped⟩ := hlead rfl herrors₂
  exact ⟨kinds₂, hlead.sound, htyped⟩

/-- If all passes run through, the final table is a valid typing of the rewritten program. -/
theorem typed_of_lowerable {p : Program} {locations : Locations} (hnodup : p.ids.Nodup)
    (hlocated : ∀ id ∈ p.ids, id < locations.size)
    (hok : (p.check locations .fresh).outcome = .ok .lowerable) :
    (p.check locations .fresh).program.Typed (p.check locations .fresh).typeOf
      (Path.Names (p.check locations .fresh).typeOf (p.check locations .fresh).IsParamFree) := by
  obtain ⟨d, items, s, hdeclare, herrors₁, hcheck, herrors₂, -, herrors₃, hprogram, hsession⟩ :=
    passes_of_lowerable hok
  obtain ⟨kinds, hsound, htyped⟩ :=
    solutions_checkAll hnodup hlocated hdeclare herrors₁ hcheck herrors₂
  exact typed_applyDefaults hsound herrors₃ hprogram hsession htyped

/-- A literal of a generic struct: the argument is inferred from the result type of the function. -/
theorem typed_of_lowerable_inferred :
    let generic : TypeRef := .path ⟨1, ⟨1, 2⟩⟩ "T" (some (.param 0)) []
    let result : TypeRef := .path ⟨5, ⟨5, 6⟩⟩ "G" (some (.adt 3))
      [.path ⟨4, ⟨4, 5⟩⟩ "i64" (some .builtin) []]
    let literal : Expr := .struct ⟨8, ⟨8, 9⟩⟩ (.ident "G" (some 3)) ⟨8, 9⟩
      [.named ⟨7, ⟨7, 8⟩⟩ "x" (.lit ⟨6, ⟨6, 7⟩⟩ (.int 1 none))] none
    let p : Program := ⟨[⟨⟨3, ⟨3, 4⟩⟩, "G", .struct ⟨.named, [⟨⟨0, ⟨0, 1⟩⟩, "T"⟩],
        [⟨⟨2, ⟨2, 3⟩⟩, "x", generic⟩]⟩⟩,
      ⟨⟨10, ⟨10, 11⟩⟩, "make", .fn ⟨[], some result, .mk ⟨9, ⟨9, 10⟩⟩ [] (some literal)⟩⟩]⟩
    let c := p.check ⟨Array.replicate 11 ⟨0, 1⟩⟩ .fresh
    p.ids.Nodup ∧ (∀ id ∈ p.ids, id < 11) ∧ c.outcome = .ok .lowerable ∧
      c.typeOf 6 = some (.prim .i64) ∧
      c.program.Typed c.typeOf (Path.Names c.typeOf c.IsParamFree) := by
  intro generic result literal p c
  have hnodup : p.ids.Nodup := by decide +kernel
  have hlocated : ∀ id ∈ p.ids, id < (⟨Array.replicate 11 ⟨0, 1⟩⟩ : Locations).size := by
    decide +kernel
  have hok : c.outcome = .ok .lowerable := by decide +kernel
  have htype : c.typeOf 6 = some (.prim .i64) := by decide +kernel
  -- From here on the program need not be evaluated.
  clear_value p
  exact ⟨hnodup, hlocated, hok, htype, typed_of_lowerable hnodup hlocated hok⟩

/-- An instance of a generic struct with an inferred field. The field comes to stand for a parameter
of the struct, and then the instance is not one of the struct as it is recorded in the end. -/
theorem not_typed_of_lowerable_parameter :
    let wrapper : Item := ⟨⟨5, ⟨5, 6⟩⟩, "G", .struct ⟨.named, [⟨⟨0, ⟨0, 1⟩⟩, "T"⟩],
      [⟨⟨2, ⟨2, 3⟩⟩, "x", .infer ⟨1, ⟨1, 2⟩⟩⟩,
        ⟨⟨4, ⟨4, 5⟩⟩, "y", .path ⟨3, ⟨3, 4⟩⟩ "T" (some (.param 0)) []⟩]⟩⟩
    let written : Path := ⟨[⟨"G", [.path ⟨6, ⟨6, 7⟩⟩ "i32" (some .builtin) []]⟩], some 5⟩
    let assign : Expr := .assign ⟨13, ⟨13, 14⟩⟩
      (.field ⟨11, ⟨11, 12⟩⟩ (.path ⟨10, ⟨10, 11⟩⟩ (.ident "g" (some 8))) "x")
      (.path ⟨12, ⟨12, 13⟩⟩ (.ident "T" (some 0)))
    let body : Block := .mk ⟨15, ⟨15, 16⟩⟩ [.bind ⟨9, ⟨9, 10⟩⟩ 8 "g" none
      (some (.path ⟨7, ⟨7, 8⟩⟩ written)), .semi ⟨14, ⟨14, 15⟩⟩ assign] none
    let main : Item := ⟨⟨16, ⟨16, 17⟩⟩, "f", .fn ⟨[], none, body⟩⟩
    let p : Program := ⟨[wrapper, main]⟩
    let c := p.check ⟨Array.replicate 17 ⟨0, 1⟩⟩ .fresh
    p.ids.Nodup ∧ (∀ id ∈ p.ids, id < 17) ∧ c.outcome = .ok .lowerable ∧
      ¬c.program.Typed c.typeOf (Path.Names c.typeOf True) := by
  intro wrapper written assign body main p c
  let param : Param := ⟨0, "T"⟩
  have hprogram : c.program = p := program_check (by decide +kernel) _ _
  have hstruct : c.typeOf 5 = some (.adt ⟨5, "G", .named,
      [⟨"x", .param param, 0⟩, ⟨"y", .param param, 1⟩], [param], none⟩) := by decide +kernel
  have hinstance : c.typeOf 7 = some (.adt ⟨5, "G", .named,
      [⟨"x", .param param, 0⟩, ⟨"y", .prim .i32, 1⟩], [param], some [.prim .i32]⟩) := by
    decide +kernel
  have hok : c.outcome = .ok .lowerable := by decide +kernel
  -- From here on the program need not be evaluated.
  clear_value c
  refine ⟨by decide +kernel, by decide +kernel, hok, fun htyped => ?_⟩
  rw [hprogram] at htyped
  obtain ⟨hbody, -⟩ := htyped main (List.mem_cons_of_mem _ List.mem_cons_self)
  obtain ⟨⟨hbind, -⟩, -⟩ := hbody
  obtain ⟨-, -, -, ⟨t, ht, res, hres, hnames⟩, -⟩ := hbind
  obtain rfl : 5 = res := Option.some.inj hres
  obtain rfl := Option.some.inj (ht.symm.trans hinstance)
  rcases hnames with hsame | ⟨g, args, a, hg, -, heq, hinst, -⟩
  · cases hstruct.symm.trans hsame
  · obtain rfl := Ty.adt.inj (Option.some.inj (hg.symm.trans hstruct))
    have hexact := (Ty.adt.inj heq).trans (hinst.exact_eq trivial)
    obtain rfl : [.prim .i32] = args := Option.some.inj (congrArg Adt.args hexact)
    exact absurd hexact (by decide)

end Program

end TypeInference

import TypeInference.Proofs.Check.CoherentBodies
import TypeInference.Proofs.Check.CoherentSignatures
import TypeInference.Proofs.Check.Fallback

/-!
# Recorded struct types are instances of recorded declarations

The signature pass declares structs, and neither the body pass nor the fallback
touches what it declared. All passes keep types coherent, so that in the final
table the arguments of a struct type and its field types agree, whatever the
outcome is.
-/

namespace TypeInference

open Ty Check

variable {S : Scope} {s : Session} {p : Program} {D : Declarations} {locations : Locations}

/-! ## The fallback -/

theorem Ty.Coherent.withDefaults {D : Declarations} (hD : D.Closed) {t : Ty} (ht : t.Coherent D) :
    (t.withDefaults .prims).Coherent D := by
  refine ht.rewrite hD (fun k v _ => ?_) fun _ _ => coherent_leaf (by simp) rfl
  cases k with
  | general => exact coherent_leaf (t := .infer .general v) (by simp) rfl
  | integral => exact coherent_leaf (t := .prim .i32) (by simp) rfl
  | float => exact coherent_leaf (t := .prim .f32) (by simp) rfl

/-- A sweep leaves every row as it is, or makes of it what the visitor makes of it. -/
theorem NodeTypes.lookup_sweepRows {σ : Type} {visit : σ → NodeId → Ty → Visit σ} {a : σ}
    {rows : List (NodeId × Ty)} {id : NodeId} {t : Ty}
    (h : (sweepRows visit a rows).2.lookup id = some t) :
    ∃ u, rows.lookup id = some u ∧ (t = u ∨ ∃ b, t = (visit b id u).ty) := by
  induction rows generalizing a with
  | nil => cases h
  | cons row rest ih =>
      obtain ⟨i, u⟩ := row
      rw [sweepRows] at h
      simp only at h
      split at h
      · rw [lookup_cons] at h
        rw [lookup_cons]
        split at h
        · rename_i heq
          rw [if_pos heq]
          exact ⟨u, rfl, .inr ⟨a, heq ▸ (Option.some.inj h).symm⟩⟩
        · rename_i hne
          rw [if_neg hne]
          exact ⟨t, h, .inl rfl⟩
      · rw [lookup_cons] at h
        rw [lookup_cons]
        split at h
        · rename_i heq
          rw [if_pos heq]
          exact ⟨u, rfl, .inr ⟨a, heq ▸ (Option.some.inj h).symm⟩⟩
        · rename_i hne
          rw [if_neg hne]
          exact ih h

/-- The types that the fallback puts into the table, also where it stops. -/
theorem Context.find?_sweep_defaultEntry {c : Context} {id : NodeId} {t : Ty}
    (h : (c.sweep (defaultEntry .prims) none).2.types.find? id = some t) :
    ∃ u, c.types.find? id = some u ∧
      (t = u ∨ t = c.resolve u ∨ t = (c.resolve u).withDefaults .prims) := by
  obtain ⟨u, hu, rfl | ⟨b, rfl⟩⟩ := NodeTypes.lookup_sweepRows h
  · exact ⟨t, hu, .inl rfl⟩
  · refine ⟨u, hu, .inr ?_⟩
    cases hleaf : (c.resolve u).firstUnresolved? with
    | none =>
        rw [defaultEntry_of_none hleaf]
        exact .inr rfl
    | some leaf =>
        rw [defaultEntry_of_some hleaf]
        exact .inl rfl

theorem coherent_sweep (hS : S.structs.Closed) (hs : s.Coherent S) :
    ({ s with context := (s.context.sweep (defaultEntry .prims) none).2 } : Session).Coherent S := by
  constructor
  case bindings => exact hs.bindings
  case structs =>
    intro id t ht hid
    obtain ⟨u, hu, hcases⟩ := Context.find?_sweep_defaultEntry ht
    obtain ⟨d, hd, rfl⟩ := hs.structs id u hu hid
    have hsame (var : VarKind → VarId → Ty) : (Ty.adt d).rewrite var .param = .adt d := by
      rw [rewrite_adt, (hS id d hd).map_vars_eq]
    have hresolve : s.context.resolve (.adt d) = .adt d := hsame _
    have hdefaults : (Ty.adt d).withDefaults .prims = .adt d := hsame _
    rw [hresolve, hdefaults, or_self, or_self] at hcases
    exact ⟨d, hd, hcases⟩
  case params =>
    intro id t q ht hq
    obtain ⟨u, hu, hcases⟩ := Context.find?_sweep_defaultEntry ht
    obtain rfl := hs.params id u q hu hq
    rcases hcases with rfl | rfl | rfl <;> rfl
  case types =>
    intro id t ht hid
    obtain ⟨u, hu, hcases⟩ := Context.find?_sweep_defaultEntry ht
    have hcoherent := hs.types id u hu hid
    have hresolved : (s.context.resolve u).Coherent S.structs := hs.bindings.resolve hS hcoherent
    rcases hcases with rfl | rfl | rfl
    · exact hcoherent
    · exact hresolved
    · exact hresolved.withDefaults hS
  case located => exact hs.located

theorem NodeTypes.contains_iff_mem {m : NodeTypes} {id : NodeId} :
    m.contains id ↔ id ∈ m.rows.map Prod.fst := by
  rw [contains, find?, Option.isSome_iff_ne_none, ne_eq, List.lookup_eq_none_iff]
  simp

theorem Context.contains_sweep {σ : Type} (visit : σ → NodeId → Ty → Visit σ) (a : σ) (c : Context)
    (id : NodeId) : (c.sweep visit a).2.contains id ↔ c.contains id := by
  rw [contains, contains, NodeTypes.contains_iff_mem, NodeTypes.contains_iff_mem]
  show id ∈ (NodeTypes.sweepRows _ a c.types.rows).2.map Prod.fst ↔ _
  rw [NodeTypes.ids_sweepRows]

theorem Check.declares_applyDefaults (hs : s.Declares S) (hbuiltins : s.context.builtins = Prim.all) :
    (applyDefaults.perform s).2.Declares S := by
  have hsweep := coherent_sweep hs.closed hs.coherent
  have hretained := fun id =>
    (Context.contains_sweep (defaultEntry .prims) none s.context id).2
  rw [perform_applyDefaults hbuiltins]
  rcases hrun : s.context.sweep (defaultEntry .prims) none with
    ⟨_ | ⟨id, reason⟩, c⟩ <;> rw [hrun] at hsweep hretained
  · exact hs.after hsweep hretained
  · simp only
    rw [perform_giveUpAll]
    exact hs.after (coherent_sink hsweep _) hretained

/-! ## Passes -/

theorem Session.Declares.withoutParams (hs : s.Declares S) : s.Declares S.withoutParams :=
  ⟨hs.closed, hs.coherent.withoutParams, hs.recorded⟩

namespace Program

theorem declares_start (hlocated : ∀ x ∈ p.structs, x.1.id < locations.size) (sink : Sink) :
    (Session.start locations sink).Declares (p.scope fun _ => none) := by
  have hnone {id : NodeId} {d : Adt Ty} (h : (p.scope fun _ => none).structs id = some d) : False := by
    cases h
  have hempty {id : NodeId} {t : Ty} (h : (Session.start locations sink).context.types.find? id =
      some t) : False := by
    cases h
  refine ⟨fun _ _ h => (hnone h).elim, ?_, fun _ _ h => (hnone h).elim⟩
  refine ⟨Bindings.coherent_empty _, fun _ _ h => (hempty h).elim, fun _ _ _ h => (hempty h).elim,
    fun _ _ h => (hempty h).elim, fun id hid => ?_⟩
  obtain ⟨x, hx⟩ := Option.isSome_iff_exists.1 hid
  have hmem : x ∈ p.structs := List.mem_reverse.1 (List.mem_of_find?_eq_some hx)
  have hid : x.1.id = id := by simpa using List.find?_some hx
  exact hid ▸ hlocated x hmem

/-- Bodies declare nothing, and their types agree with what has been declared. -/
theorem declares_bodyPass (hnodup : p.ids.Nodup) (hp : p.WellResolved)
    (hs : s.Declares (p.scope D).withoutParams) :
    (p.bodyPass s).session.Declares (p.scope D).withoutParams := by
  have hids := List.nodup_append.1 (p.ids_perm.nodup_iff.1 hnodup)
  refine hs.after ?_ (grows_checkAll p.items s).retained
  refine coherent_checkAll hs.closed (fun _ _ h => h) hs.coherent fun item hitem => ⟨?_, ?_, ?_⟩
  · intro id hid
    refine Scope.free_withoutParams fun hstruct => ?_
    obtain ⟨⟨item', decl⟩, hx⟩ := Option.isSome_iff_exists.1 hstruct
    obtain ⟨hitem', -, rfl⟩ := mem_of_struct? hx
    exact hids.2.2 _ (signatureIds_subset hitem').1 _ (List.mem_flatMap.2 ⟨item, hitem, hid⟩) rfl
  · intro r hr
    rcases hp.body hitem hr with rfl | ⟨item', hitem', rfl, decl, hkind⟩
    · trivial
    · show (p.struct? item'.id).isSome
      rw [struct?_of_mem hids.1 hitem' hkind]
      rfl
  · intro decl hkind
    have hnone := struct?_eq_none_of_kind hids.1 hitem (by simp [hkind])
    show ¬(p.struct? item.id).isSome
    simp [hnone]

/-- What the first pass leaves and each later pass keeps holds of the session at the end. -/
theorem session_runAll_cons {C : Session → Prop} {pass : Pass} {rest : List Pass}
    (hrun : C (p.run pass s).session)
    (hrest : C (runAll rest (p.run pass s).program (p.run pass s).session).session) :
    C (runAll (pass :: rest) p s).session := by
  rw [runAll]
  rcases h : p.run pass s with ⟨p', d | u, s'⟩
  · rwa [h] at hrun
  · rw [h] at hrun hrest
    simp only
    split
    · exact hrun
    · exact hrest

/-- The session at the end of a check agrees with what its first pass declared. -/
theorem declares_check (hnodup : p.ids.Nodup) (hp : p.WellResolved)
    (hlocated : ∀ x ∈ p.structs, x.1.id < locations.size) (sink : Sink) :
    ∃ D, (p.check locations sink).session.Declares (p.scope D).withoutParams := by
  have hsignatures := (List.nodup_append.1 (p.ids_perm.nodup_iff.1 hnodup)).1
  obtain ⟨D, hD⟩ := declares_declareAll hsignatures hp (fun _ h => h)
    (d := .start (.start locations sink)) (declares_start hlocated sink)
  have hfirst : (p.run .signatures (.start locations sink)).session.Declares
      (p.scope D).withoutParams := hD.withoutParams
  have hsecond := declares_bodyPass hnodup hp hfirst
  have hbuiltins : (p.bodyPass
      (p.run .signatures (.start locations sink)).session).session.context.builtins = Prim.all :=
    (grows_checkAll p.items _).builtins_eq.trans (p.grows_declareAll (fun _ h => h) _).builtins_eq
  have hthird := declares_applyDefaults hsecond hbuiltins
  rw [← (session_fallbackPass
    (p.bodyPass (p.run .signatures (.start locations sink)).session).program _).2] at hthird
  exact ⟨D, session_runAll_cons hfirst
    (session_runAll_cons hsecond (session_runAll_cons hthird hthird))⟩

end Program

/-! ## Struct types in the final table -/

/-- Whether a struct type is this declaration, or gives it one argument for each parameter: then
every field has the declared type with the arguments for the parameters. -/
structure Adt.AgreesWith (a d : Adt Ty) : Prop where
  shape_eq : a.shape = d.shape
  instance_eq : a.args = none ∧ a = d ∨
    d.isGeneric ∧ ∃ args, a.args = some args ∧ args.length = d.params.length ∧
      a.fields.map Field.ty = d.fields.map fun f => f.ty.substitute args

theorem Adt.AgreesWith.refl {d : Adt Ty} (h : d.args = none) : d.AgreesWith d :=
  ⟨rfl, .inl ⟨h, rfl⟩⟩

theorem Adt.agreesWith_instantiate {d : Adt Ty} {args : List Ty} (hparams : d.params ≠ [])
    (hlen : args.length = d.params.length) : (d.instantiate args).AgreesWith d := by
  refine ⟨?_, .inr ⟨by simpa [Adt.isGeneric] using hparams, args, rfl, hlen, ?_⟩⟩
  · simp [Adt.shape, Adt.instantiate, Function.comp_def]
  · simp [Adt.instantiate, Field.map, Function.comp_def]

namespace Program

/-- What a coherent session says about the struct types in a type that it looks up. -/
theorem agreesWith_of_lookup (hs : s.Declares (p.scope D).withoutParams) {id : NodeId} {t : Ty}
    (ht : s.context.lookup id = some t) {a : Adt Ty} (ha : .adt a ∈ t.nodes) :
    ∃ d, D a.decl = some d ∧ a.AgreesWith d := by
  have hcoherent {u : Ty} (hu : u.Coherent D) (ha : .adt a ∈ u.nodes) :
      ∃ d, D a.decl = some d ∧ a.AgreesWith d := by
    obtain ⟨d, hd, ⟨-, rfl⟩ | ⟨hparams, args, hlen, rfl⟩⟩ := hu (.adt a) ha
    · exact ⟨a, hd, .refl (hs.closed _ a hd).args_eq⟩
    · exact ⟨d, hd, Adt.agreesWith_instantiate hparams hlen⟩
  obtain ⟨hstruct, hother, -⟩ := hs.coherent.lookup hs.closed ht
  by_cases hid : (p.struct? id).isSome
  · obtain ⟨d, hd, rfl⟩ := hstruct hid
    obtain ⟨hdecl, hargs, -, hfields⟩ := hs.closed id d hd
    rcases mem_nodes_iff.1 ha with heq | ⟨u, hu, ha⟩
    · obtain rfl : a = d := Ty.adt.inj heq
      exact ⟨a, hdecl.symm ▸ hd, .refl hargs⟩
    · simp only [parts, Adt.parts, hargs, Option.getD_none, List.append_nil, List.mem_map] at hu
      obtain ⟨f, hf, rfl⟩ := hu
      exact hcoherent (hfields f hf) ha
  · exact hcoherent (hother hid) ha

/-- What has been declared is what the table has for the struct, and for no other item. -/
theorem lookup_of_declared (hs : s.Declares (p.scope D).withoutParams) {id : NodeId} {d : Adt Ty}
    (hd : D id = some d) : (∃ x ∈ p.structs, x.1.id = id) ∧ s.context.lookup id = some (.adt d) := by
  obtain ⟨hstruct, hfind⟩ := hs.recorded id d hd
  obtain ⟨x, hx⟩ := Option.isSome_iff_exists.1 hstruct
  have hid : x.1.id = id := by simpa using List.find?_some hx
  refine ⟨⟨x, List.mem_reverse.1 (List.mem_of_find?_eq_some hx), hid⟩, ?_⟩
  rw [Context.lookup, hfind, Option.map_some]
  refine congrArg some ((rewrite_adt _ _ d).trans (congrArg Ty.adt ?_))
  exact (hs.closed id d hd).map_vars_eq _

/--
Whatever the outcome of a check is, every struct type in the final table agrees
with the recorded declaration of its struct. Structs have to be located, so
that no node that is made later takes the place of one.
-/
theorem agreesWith_of_check (hnodup : p.ids.Nodup) (hp : p.WellResolved)
    (hlocated : ∀ x ∈ p.structs, x.1.id < locations.size) (sink : Sink) (id : NodeId) (t : Ty)
    (ht : (p.check locations sink).typeOf id = some t) (a : Adt Ty) (ha : .adt a ∈ t.nodes) :
    (∃ x ∈ p.structs, x.1.id = a.decl) ∧
      ∃ d, (p.check locations sink).typeOf a.decl = some (.adt d) ∧ a.AgreesWith d := by
  obtain ⟨D, hs⟩ := declares_check hnodup hp hlocated sink
  obtain ⟨d, hd, hagrees⟩ := agreesWith_of_lookup hs ht ha
  obtain ⟨hstruct, hlookup⟩ := lookup_of_declared hs hd
  exact ⟨hstruct, d, hlookup, hagrees⟩

/-- A literal of a generic struct: its type is an instance whose argument was inferred. -/
theorem agreesWith_of_check_inferred :
    let generic : TypeRef := .path ⟨1, ⟨1, 2⟩⟩ "T" (some (.param 0)) []
    let result : TypeRef := .path ⟨5, ⟨5, 6⟩⟩ "G" (some (.adt 3))
      [.path ⟨4, ⟨4, 5⟩⟩ "i64" (some .builtin) []]
    let literal : Expr := .struct ⟨8, ⟨8, 9⟩⟩ (.ident "G" (some 3)) ⟨8, 9⟩
      [.named ⟨7, ⟨7, 8⟩⟩ "x" (.lit ⟨6, ⟨6, 7⟩⟩ (.int 1 none))] none
    let wrapper : Item := ⟨⟨3, ⟨3, 4⟩⟩, "G", .struct ⟨.named, [⟨⟨0, ⟨0, 1⟩⟩, "T"⟩],
      [⟨⟨2, ⟨2, 3⟩⟩, "x", generic⟩]⟩⟩
    let make : Item := ⟨⟨10, ⟨10, 11⟩⟩, "make",
      .fn ⟨[], some result, .mk ⟨9, ⟨9, 10⟩⟩ [] (some literal)⟩⟩
    let p : Program := ⟨[wrapper, make]⟩
    let c := p.check ⟨Array.replicate 11 ⟨0, 1⟩⟩ .fresh
    let d : Adt Ty := ⟨3, "G", .named, [⟨"x", .param ⟨0, "T"⟩, 0⟩], [⟨0, "T"⟩], none⟩
    p.ids.Nodup ∧ p.WellResolved ∧ (∀ x ∈ p.structs, x.1.id < 11) ∧
      c.typeOf 8 = some (.adt (d.instantiate [.prim .i64])) ∧
      (∃ x ∈ p.structs, x.1.id = 3) ∧
      ∃ e, c.typeOf 3 = some (.adt e) ∧ (d.instantiate [.prim .i64]).AgreesWith e := by
  intro generic result literal wrapper make p c d
  have hnodup : p.ids.Nodup := by decide +kernel
  have hp : p.WellResolved := by decide +kernel
  have hlocated : ∀ x ∈ p.structs, x.1.id < (⟨Array.replicate 11 ⟨0, 1⟩⟩ : Locations).size := by
    decide +kernel
  have htype : c.typeOf 8 = some (.adt (d.instantiate [.prim .i64])) := by decide +kernel
  -- From here on the program need not be evaluated.
  clear_value p
  have hagrees := agreesWith_of_check hnodup hp hlocated .fresh 8 _ htype _ (self_mem_nodes _)
  exact ⟨hnodup, hp, hlocated, htype, hagrees⟩

/-- Without locations, a node that is made for a literal takes the id of its struct, and the table then
has the type of a field where the declaration was. -/
theorem not_agreesWith_of_check_unlocated :
    let int (id : NodeId) : TypeRef := .path ⟨id, ⟨id, id + 1⟩⟩ "i32" (some .builtin) []
    let literal : Expr := .struct ⟨10, ⟨10, 11⟩⟩ (.ident "S" (some 0)) ⟨10, 11⟩
      [.named ⟨8, ⟨8, 9⟩⟩ "x" (.lit ⟨7, ⟨7, 8⟩⟩ (.int 1 none))]
      (some (.path ⟨9, ⟨9, 10⟩⟩ (.ident "b" (some 6))))
    let struct : Item := ⟨⟨0, ⟨0, 1⟩⟩, "S", .struct ⟨.named, [],
      [⟨⟨2, ⟨2, 3⟩⟩, "x", int 1⟩, ⟨⟨4, ⟨4, 5⟩⟩, "y", int 3⟩]⟩⟩
    let update : Item := ⟨⟨13, ⟨13, 14⟩⟩, "f", .fn ⟨[⟨⟨6, ⟨6, 7⟩⟩, "b",
      .path ⟨5, ⟨5, 6⟩⟩ "S" (some (.adt 0)) []⟩], none,
      .mk ⟨12, ⟨12, 13⟩⟩ [.semi ⟨11, ⟨11, 12⟩⟩ literal] none⟩⟩
    let p : Program := ⟨[struct, update]⟩
    let c := p.check ⟨#[]⟩ .fresh
    let d : Adt Ty := ⟨0, "S", .named, [⟨"x", .prim .i32, 0⟩, ⟨"y", .prim .i32, 1⟩], [], none⟩
    p.ids.Nodup ∧ p.WellResolved ∧ c.outcome = .ok .lowerable ∧
      c.typeOf 10 = some (.adt d) ∧ .adt d ∈ (Ty.adt d).nodes ∧
      ¬ ∃ e, c.typeOf d.decl = some (.adt e) ∧ d.AgreesWith e := by
  intro int literal struct update p c d
  have hentry : c.typeOf d.decl = some (.prim .i32) := by decide +kernel
  refine ⟨by decide +kernel, by decide +kernel, by decide +kernel, by decide +kernel,
    self_mem_nodes _, ?_⟩
  rintro ⟨e, he, -⟩
  cases hentry.symm.trans he

end Program

end TypeInference

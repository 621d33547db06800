import TypeInference.Proofs.Check.Instances
import TypeInference.Proofs.Check.Soundness

/-!
# Typings of well-resolved programs are exact

A path to a generic struct has the type of an instance of what was known of the
struct when the path was checked. Where signatures are complete nothing is
learned of a struct later, so the path has the type of an instance of the struct
as the final table has it.
-/

namespace TypeInference

open Ty Check

variable {T : Typing} {names names' : Path → Ty → Prop} {exact : Prop} {g a d : Adt Ty}
  {args : List Ty} {p : Program} {locations : Locations}

/-! ## What a typing asks of paths -/

theorem Expr.AllTyped.imp {es : List Expr} (h : ∀ e ∈ es, e.Typed T names → e.Typed T names')
    (hes : Expr.AllTyped T names es) : Expr.AllTyped T names' es := by
  induction es with
  | nil => trivial
  | cons e es ih =>
      rw [List.forall_mem_cons] at h
      exact ⟨h.1 hes.1, ih h.2 hes.2⟩

theorem Expr.OptionTyped.imp {e : Option Expr} {t : Option Ty}
    (h : ∀ b, e = some b → b.Typed T names → b.Typed T names')
    (he : Expr.OptionTyped T names t e) : Expr.OptionTyped T names' t e := by
  cases e with
  | none => trivial
  | some b => exact ⟨h b rfl he.1, he.2⟩

theorem Stmt.AllTyped.imp {stmts : List Stmt} {hasTail : Bool}
    (h : ∀ s ∈ stmts, s.Typed T names → s.Typed T names')
    (hstmts : Stmt.AllTyped T names hasTail stmts) : Stmt.AllTyped T names' hasTail stmts := by
  induction stmts with
  | nil => trivial
  | cons s rest ih =>
      rw [List.forall_mem_cons] at h
      exact ⟨h.1 hstmts.1, hstmts.2.1, ih h.2 hstmts.2.2⟩

theorem FieldInit.AllTyped.imp {fields : List FieldInit} {fs : List (Field Ty)}
    (h : ∀ n ∈ fields, ∀ f, n.TypedAs T names f → n.TypedAs T names' f)
    (hfields : FieldInit.AllTyped T names fs fields) : FieldInit.AllTyped T names' fs fields := by
  induction fields generalizing fs with
  | nil => cases fs <;> exact hfields
  | cons n rest ih =>
      rw [List.forall_mem_cons] at h
      cases fs with
      | nil => exact hfields
      | cons f fs => exact ⟨h.1 f hfields.1, ih h.2 hfields.2⟩

/-- What holds of every type that a path has in the table may be asked of paths, by induction on
programs. -/
theorem typed_imp (h : ∀ p t id, T id = some t → names p t → names' p t) :
    (∀ e : Expr, e.Typed T names → e.Typed T names') ∧
      (∀ b : Block, b.Typed T names → b.Typed T names') ∧
      (∀ s : Stmt, s.Typed T names → s.Typed T names') ∧
      ∀ (n : FieldInit) f, n.TypedAs T names f → n.TypedAs T names' f := by
  apply Expr.induct
  case lit => exact fun m l hl => hl
  case path =>
    rintro m p ⟨t, ht, hnames⟩
    exact ⟨t, ht, h p t m.id ht hnames⟩
  case block => exact fun m b ih hb => ⟨ih hb.1, hb.2⟩
  case struct =>
    rintro m p span fields base ihfields ihbase ⟨a, ha, hnames, hfields, hbase⟩
    exact ⟨a, ha, h p _ m.id ha hnames, hfields.imp ihfields, hbase.imp ihbase⟩
  case field => exact fun m base name ih he => ⟨ih he.1, he.2⟩
  case tupleIndex => exact fun m base index ih he => ⟨ih he.1, he.2⟩
  case call => exact fun m callee args ihcallee ihargs he =>
    ⟨ihcallee he.1, he.2.1.imp ihargs, he.2.2⟩
  case unary => exact fun m op e ih he => ⟨ih he.1, he.2⟩
  case binary => exact fun m op l r ihl ihr he => ⟨ihl he.1, ihr he.2.1, he.2.2⟩
  case assign => exact fun m l r ihl ihr he => ⟨ihl he.1, ihr he.2.1, he.2.2⟩
  case paren => exact fun m e ih he => ⟨ih he.1, he.2⟩
  case mk => exact fun m stmts tail ihstmts ihtail hb =>
    ⟨hb.1.imp ihstmts, hb.2.1.imp ihtail, hb.2.2⟩
  case bind => exact fun m binding name ty init ih hs =>
    ⟨hs.1, hs.2.1, hs.2.2.1, hs.2.2.2.imp ih⟩
  case expr => exact fun m e ih hs => ⟨ih hs.1, hs.2⟩
  case semi => exact fun m e ih hs => ⟨ih hs.1, hs.2⟩
  case named => exact fun m name value ih f hn => ⟨ih hn.1, hn.2⟩
  case index => exact fun m i value ih f hn => ⟨ih hn.1, hn.2⟩
  case short =>
    rintro m name res f ⟨hname, hnames, ht⟩
    exact ⟨hname, h _ _ m.id ht hnames, ht⟩

theorem Program.Typed.imp (h : ∀ p t id, T id = some t → names p t → names' p t)
    (hp : p.Typed T names) : p.Typed T names' := by
  intro item hitem
  have htyped := hp item hitem
  unfold Item.Typed at htyped ⊢
  cases hkind : item.kind with
  | struct decl => trivial
  | fn decl =>
      rw [hkind] at htyped
      exact ⟨(typed_imp h).2.1 decl.body htyped.1, htyped.2⟩
  | const decl =>
      rw [hkind] at htyped
      exact ⟨(typed_imp h).1 decl.value htyped.1, htyped.2⟩

/-! ## Exact instances -/

namespace Adt

theorem IsInstance.decl_eq (h : g.IsInstance exact args a) : a.decl = g.decl := by
  obtain ⟨d, σ, written, hg, -, ha⟩ := h.common
  rw [← Ty.adt.inj ((rewrite_adt _ _ _).symm.trans hg),
    ← Ty.adt.inj ((rewrite_adt _ _ _).symm.trans ha)]
  rfl

theorem IsInstance.args_eq (h : g.IsInstance exact args a) : a.args = some args := by
  obtain ⟨d, σ, written, -, rfl, ha⟩ := h.common
  rw [← Ty.adt.inj ((rewrite_adt _ _ _).symm.trans ha)]
  rfl

/-- A struct type without arguments that agrees with a declaration is the declaration. -/
theorem AgreesWith.eq_of_args (h : a.AgreesWith d) (hargs : a.args = none) : a = d := by
  rcases h.instance_eq with ⟨-, heq⟩ | ⟨-, args, hsome, -⟩
  · exact heq
  · rw [hargs] at hsome
    cases hsome

/-- A struct type with arguments that agrees with a declaration is the instance of it. -/
theorem AgreesWith.eq_instantiate (h : a.AgreesWith d) (hdecl : a.decl = d.decl)
    (hargs : a.args = some args) : a = d.instantiate args := by
  rcases h.instance_eq with ⟨hnone, -⟩ | ⟨-, given, hgiven, -, hfields⟩
  · rw [hargs] at hnone
    cases hnone
  · obtain rfl := Option.some.inj (hargs.symm.trans hgiven)
    have hinst : (d.instantiate args).fields.map Field.ty =
        d.fields.map fun f => f.ty.substitute args := by
      simp [instantiate, Field.map, Function.comp_def]
    have hshape : a.shape = (d.instantiate args).shape := by
      rw [h.shape_eq]
      simp [shape, instantiate, Function.comp_def]
    obtain ⟨decl, name, kind, fields, params, _⟩ := a
    simp only [shape, Shape.mk.injEq] at hshape
    obtain ⟨rfl, rfl, rfl, hlabels⟩ := hshape
    obtain rfl : fields = (d.instantiate args).fields :=
      Field.eq_of_labels hlabels (hfields.trans hinst.symm)
    subst hargs
    subst hdecl
    rfl

/-- An instance that agrees with the struct is exact. -/
theorem IsInstance.exactly (h : g.IsInstance exact args a) (hagrees : a.AgreesWith g) :
    g.IsInstance True args a :=
  ⟨h.length_eq, h.common, fun _ => hagrees.eq_instantiate h.decl_eq h.args_eq⟩

end Adt

/-- Whether every struct type in the table agrees with the type of its struct there. -/
def Typing.IsCoherent (T : Typing) : Prop :=
  ∀ id t, T id = some t → ∀ a, .adt a ∈ t.nodes → ∃ d, T a.decl = some (.adt d) ∧ a.AgreesWith d

/-- In a coherent table a path to a generic struct has the type of an exact instance. -/
theorem Path.Names.exactly {path : Path} {t : Ty} {id : NodeId} (hT : T.IsCoherent)
    (ht : T id = some t) (h : path.Names T exact t) : path.Names T True t := by
  obtain ⟨res, hres, hsame | ⟨g, args, a, hg, hgeneric, rfl, hinstance, hwritten⟩⟩ := h
  · exact ⟨res, hres, .inl hsame⟩
  · obtain ⟨d, hd, hdeclared⟩ := hT res _ hg g (self_mem_nodes _)
    obtain ⟨d', hd', hagrees⟩ := hT id _ ht a (self_mem_nodes _)
    have hargs : g.args = none := by
      rw [Adt.isUninstantiated, Bool.and_eq_true] at hgeneric
      exact Option.isNone_iff_eq_none.1 hgeneric.2
    obtain rfl := hdeclared.eq_of_args hargs
    rw [hinstance.decl_eq, hd] at hd'
    obtain rfl := Ty.adt.inj (Option.some.inj hd')
    exact ⟨res, hres, .inr ⟨g, args, a, hg, hgeneric, rfl, hinstance.exactly hagrees, hwritten⟩⟩

/-! ## The check -/

/-- Whatever the outcome of a check is, its table is coherent. -/
theorem Program.isCoherent_typeOf (hnodup : p.ids.Nodup) (hp : p.WellResolved)
    (hlocated : ∀ id ∈ p.ids, id < locations.size) :
    Typing.IsCoherent (p.check locations .fresh).typeOf := by
  obtain ⟨D, hs⟩ := declares_check hnodup hp (located_structs hlocated) .fresh
  intro id t ht a ha
  obtain ⟨d, hd, hagrees⟩ := agreesWith_of_lookup hs ht ha
  exact ⟨d, (lookup_of_declared hs hd).2, hagrees⟩

/-- The final table of a lowerable program types it, and paths to generic structs have the types of
exact instances, if written types are resolved as they should be. -/
theorem Program.typed_exactly_of_lowerable (hnodup : p.ids.Nodup) (hp : p.WellResolved)
    (hlocated : ∀ id ∈ p.ids, id < locations.size)
    (hok : (p.check locations .fresh).outcome = .ok .lowerable) :
    (p.check locations .fresh).program.Typed (p.check locations .fresh).typeOf
      (Path.Names (p.check locations .fresh).typeOf True) := by
  obtain ⟨d, items, s, hdeclare, herrors₁, hcheck, herrors₂, -, herrors₃, hprogram, hsession⟩ :=
    passes_of_lowerable hok
  obtain ⟨kinds, hsound, htyped⟩ :=
    solutions_checkAll hnodup hlocated hdeclare herrors₁ hcheck herrors₂
  have hcoherent := p.isCoherent_typeOf hnodup hp hlocated
  exact (typed_applyDefaults hsound herrors₃ hprogram hsession htyped).imp fun path t id ht hnames =>
    hnames.exactly hcoherent ht

end TypeInference

import TypeInference.Proofs.Check.SignatureEnds
import TypeInference.Proofs.Check.WellDeclared

/-!
# What the signature pass accepts

Each step of the signature pass decides a condition on what is written: it
reports nothing where the condition holds, and stops the item with a report
where it fails. What is decided does not depend on the order of declarations,
because a struct that is known has been found to be declarable, and one that is
underway rests on whatever is being declared for it.
-/

namespace TypeInference

variable {α β : Type} {P P' : Prop}

/-! ## Decisions -/

/-- Whether the computation succeeds without a report if the condition holds, and otherwise stops
the item with a report. -/
def Check.Judges (s : Session) (P : Prop) (x : Check α) (Q : α → Session → Prop) : Prop :=
  (P ∧ ∃ a s', x.perform s = (.ok a, s') ∧ s'.sink.errors = s.sink.errors ∧ Q a s') ∨
    (¬ P ∧ ∃ s', x.perform s = (.error .item, s') ∧
      s.sink.errors.length < s'.sink.errors.length)

/-- Whether the declaration succeeds without a report if the condition holds, and otherwise stops
the item with a report. -/
def Declare.Judges (d : Declaring) (P : Prop) (x : Declare α) (Q : α → Declaring → Prop) : Prop :=
  (P ∧ ∃ a d', x.perform d = (.ok a, d') ∧
      d'.session.sink.errors = d.session.sink.errors ∧ Q a d') ∨
    (¬ P ∧ ∃ d', x.perform d = (.error .item, d') ∧
      d.session.sink.errors.length < d'.session.sink.errors.length)

namespace Check

variable {s s' : Session} {Q : α → Session → Prop} {R : β → Session → Prop}

theorem judges_of_ok {x : Check α} {a : α} (h : x.perform s = (.ok a, s'))
    (herrors : s'.sink.errors = s.sink.errors) (hQ : Q a s') : Judges s True x Q :=
  .inl ⟨trivial, a, s', h, herrors, hQ⟩

theorem judges_giveUp (hP : ¬ P) (cause : Cause) (span : Span) :
    Judges s P (giveUp cause span : Check α) Q :=
  .inr ⟨hP, _, perform_giveUp cause span s, by simp⟩

theorem Judges.congr {x : Check α} (h : Judges s P x Q) (hiff : P ↔ P') : Judges s P' x Q := by
  rwa [← hiff]

theorem Judges.imp {x : Check α} {Q' : α → Session → Prop} (h : Judges s P x Q)
    (hQ : ∀ a s', Q a s' → Q' a s') : Judges s P x Q' :=
  h.imp_left fun ⟨hP, a, s', hrun, herrors, ha⟩ => ⟨hP, a, s', hrun, herrors, hQ a s' ha⟩

/-- The second step may assume that what the first one decides is the case. -/
theorem Judges.bind {x : Check α} {f : α → Check β} (hx : Judges s P x Q)
    (hf : ∀ a s', P → Q a s' → Judges s' P' (f a) R) : Judges s (P ∧ P') (x >>= f) R := by
  unfold Judges
  rw [perform_bind]
  rcases hx with ⟨hP, a, s₁, hrun, herrors, hQ⟩ | ⟨hP, s₁, hrun, hlt⟩
  · rw [hrun]
    rcases hf a s₁ hP hQ with ⟨hP', b, s₂, hrun', herrors', hR⟩ | ⟨hP', s₂, hrun', hlt⟩
    · exact .inl ⟨⟨hP, hP'⟩, b, s₂, hrun', herrors'.trans herrors, hR⟩
    · exact .inr ⟨fun h => hP' h.2, s₂, hrun', by rwa [← herrors]⟩
  · rw [hrun]
    exact .inr ⟨fun h => hP h.1, s₁, rfl, hlt⟩

/-- A step that always succeeds decides nothing. -/
theorem judges_bind_of_ok {x : Check α} {f : α → Check β} {a : α}
    (h : x.perform s = (.ok a, s')) (herrors : s'.sink.errors = s.sink.errors)
    (hf : Judges s' P (f a) R) : Judges s P (x >>= f) R := by
  have hfirst : Judges s True x fun b s₁ => b = a ∧ s₁ = s' := judges_of_ok h herrors ⟨rfl, rfl⟩
  refine (hfirst.bind ?_).congr (and_iff_right trivial)
  rintro _ _ - ⟨rfl, rfl⟩
  exact hf

theorem judges_withArgs (a : Adt Ty) (tys : List Ty) (span : Span) :
    Judges s (a.params ≠ [] → tys.length = a.params.length) (a.withArgs tys span)
      fun _ s' => s' = s := by
  have hgeneric : a.isGeneric = false ↔ a.params = [] := by simp [Adt.isGeneric]
  unfold Adt.withArgs Adt.apply
  by_cases hnone : a.params = []
  · have hrun : a.isGeneric = false := hgeneric.2 hnone
    simp only [hrun, Bool.not_false, if_true]
    exact .inl ⟨fun h => (h hnone).elim, a, s, rfl, rfl, rfl⟩
  · have hrun : a.isGeneric = true := Bool.eq_true_of_not_eq_false (mt hgeneric.1 hnone)
    by_cases hlength : tys.length = a.params.length
    · simp only [hrun, Bool.not_true, Bool.false_eq_true, if_false, hlength, ne_eq,
        not_true_eq_false]
      exact .inl ⟨fun _ => trivial, a.instantiate tys, s, rfl, rfl, rfl⟩
    · simp only [hrun, Bool.not_true, Bool.false_eq_true, if_false, hlength, ne_eq,
        not_false_eq_true, if_true]
      exact judges_giveUp (fun h => h hnone) _ _

end Check

/-! ## Sessions of the signature pass -/

variable {p : Program} {known known' : List NodeId}

structure Session.Orderly (p : Program) (known : List NodeId) (s : Session) : Prop where
  builtins : s.context.builtins = Prim.all
  contains : ∀ id ∈ known, s.context.contains id
  declared : ∀ id item decl, p.struct? id = some (item, decl) → s.context.contains id →
    Declarable p.struct? id ∧ ∃ a, s.context.lookup id = some (.adt a) ∧
      a.params = Declare.params decl.generics

structure Declaring.Orderly (p : Program) (known : List NodeId) (d : Declaring) : Prop where
  failed : d.failed = []
  session : d.session.Orderly p known

namespace Session.Orderly

variable {s : Session} {id : NodeId}

theorem mono (h : s.Orderly p known) (hsub : known' ⊆ known) : s.Orderly p known' :=
  ⟨h.builtins, fun id hid => h.contains id (hsub hid), h.declared⟩

theorem newVar (h : s.Orderly p known) (k : VarKind) :
    Orderly p known { s with context := (s.context.newVar k).2 } :=
  ⟨h.builtins, h.contains, h.declared⟩

theorem lookup_isSome (h : s.Orderly p known) (hid : id ∈ known) :
    ∃ t, s.context.lookup id = some t := by
  rw [← Option.isSome_iff_exists, ← Context.contains_eq_isSome_lookup]
  exact h.contains id hid

theorem contains_insert (h : s.Orderly p known) (t : Ty) :
    ∀ i ∈ id :: known, (s.context.insert id t).contains i := by
  intro i hi
  rw [Context.contains_insert, Bool.or_eq_true, beq_iff_eq]
  exact (List.mem_cons.1 hi).imp_right (h.contains i)

/-- A node that is no struct may have any type. -/
theorem insert (h : s.Orderly p known) (hid : p.struct? id = none) (t : Ty) :
    Orderly p (id :: known) { s with context := s.context.insert id t } := by
  refine ⟨h.builtins, h.contains_insert t, fun i item decl hstruct hi => ?_⟩
  have hne : i ≠ id := by
    rintro rfl
    rw [hid] at hstruct
    cases hstruct
  rw [Context.contains_insert, Bool.or_eq_true, beq_iff_eq] at hi
  rw [Context.lookup_insert, if_neg hne]
  exact h.declared i item decl hstruct (hi.resolve_left hne)

/-- A struct is known once it has been found to be declarable. -/
theorem insert_struct (h : s.Orderly p known) {item : Item} {decl : StructDecl}
    (hstruct : p.struct? id = some (item, decl)) (hid : Declarable p.struct? id) {a : Adt Ty}
    (ha : a.params = Declare.params decl.generics) :
    Orderly p (id :: known) { s with context := s.context.insert id (.adt a) } := by
  refine ⟨h.builtins, h.contains_insert _, fun i item' decl' hstruct' hi => ?_⟩
  rw [Context.contains_insert, Bool.or_eq_true, beq_iff_eq] at hi
  rw [Context.lookup_insert]
  split
  · rename_i heq
    subst heq
    obtain ⟨rfl, rfl⟩ : item' = item ∧ decl' = decl := by simpa using hstruct'.symm.trans hstruct
    exact ⟨hid, _, congrArg some (Ty.rewrite_adt _ _ a), ha⟩
  · rename_i hne
    exact h.declared i item' decl' hstruct' (hi.resolve_left hne)

end Session.Orderly

theorem Declaring.Orderly.mono {d : Declaring} (h : d.Orderly p known) (hsub : known' ⊆ known) :
    d.Orderly p known' :=
  ⟨h.failed, h.session.mono hsub⟩

/-! ## Reading written types -/

/-- A written type whose names have been resolved to structs of the program and to these nodes, and
which has no node in common with a struct. -/
structure TypeRef.InScope (p : Program) (known : List NodeId) (t : TypeRef) : Prop where
  apart : ∀ i ∈ t.ids, p.struct? i = none
  structs : ∀ z ∈ t.structs, (p.struct? z).isSome
  params : ∀ id, .param id ∈ t.resolutions → id ∈ known

theorem TypeRef.InScope.mono {t : TypeRef} (h : t.InScope p known) (hsub : known ⊆ known') :
    t.InScope p known' :=
  ⟨h.apart, h.structs, fun id hid => hsub (h.params id hid)⟩

theorem TypeRef.mem_structs_of_arg {m : Mark} {name : String} {res : Option TypeRes}
    {args : List TypeRef} {t : TypeRef} (ht : t ∈ args) {z : NodeId} (hz : z ∈ t.structs) :
    z ∈ (TypeRef.path m name res args).structs := by
  rw [mem_structs_iff] at hz ⊢
  exact List.mem_append_right _ (resolutions_subset_resolutionsAll ht hz)

theorem TypeRef.InScope.arg {m : Mark} {name : String} {res : Option TypeRes} {args : List TypeRef}
    (h : (TypeRef.path m name res args).InScope p known) {t : TypeRef} (ht : t ∈ args) :
    t.InScope p known := by
  refine ⟨fun i hi => h.apart i ?_, fun z hz => h.structs z (mem_structs_of_arg ht hz),
    fun id hid => h.params id ?_⟩
  · exact List.mem_cons_of_mem _ (ids_subset_idsAll ht hi)
  · exact List.mem_append_right _ (resolutions_subset_resolutionsAll ht hid)

namespace Check

theorem judges_recorded {s : Session} (hs : s.Orderly p known) {id : NodeId}
    (hid : p.struct? id = none) (t : Ty) :
    Judges s True (recorded id t) fun _ s' => s'.Orderly p known :=
  judges_of_ok (perform_recorded id t s) rfl ((hs.insert hid t).mono (List.subset_cons_self id known))

theorem judges_readAll {ts : List TypeRef} (h : ∀ t ∈ ts, ∀ s : Session, s.Orderly p known →
      Judges s (t.IsReadable p.struct?) (t.read .signature) fun _ s' => s'.Orderly p known)
    {s : Session} (hs : s.Orderly p known) :
    Judges s (∀ t ∈ ts, t.IsReadable p.struct?) (TypeRef.readAll .signature ts)
      fun tys s' => tys.length = ts.length ∧ s'.Orderly p known := by
  induction ts generalizing s with
  | nil =>
      rw [TypeRef.readAll]
      exact (judges_of_ok (perform_pure [] s) rfl ⟨rfl, hs⟩).congr (by simp)
  | cons t ts ih =>
      rw [List.forall_mem_cons] at h
      rw [TypeRef.readAll, List.forall_mem_cons]
      refine (h.1 s hs).bind fun ty s₁ _ hs₁ => ?_
      refine ((ih h.2 hs₁).bind fun tys s₂ _ hs₂ => ?_).congr (and_iff_left trivial)
      exact judges_of_ok (perform_pure _ s₂) rfl ⟨congrArg Nat.succ hs₂.1, hs₂.2⟩

theorem judges_readBuiltin {s : Session} (hs : s.Orderly p known) {m : Mark}
    (hm : p.struct? m.id = none) (name : String) (args : List TypeRef) :
    Judges s (∃ q : Prim, q.name = name)
      ((TypeRef.path m name (some .builtin) args).read .signature)
      fun _ s' => s'.Orderly p known := by
  refine judges_bind_of_ok (a := s.context.builtin? name) rfl rfl ?_
  by_cases hexists : ∃ q : Prim, q.name = name
  · obtain ⟨q, rfl⟩ := hexists
    have hfound : s.context.builtin? q.name = some (.prim q) := by
      rw [Context.builtin?, hs.builtins]
      exact Context.initial_builtin? q
    rw [hfound]
    exact (judges_recorded hs hm _).congr (by simp)
  · have hnone : s.context.builtin? name = none := by
      rw [Context.builtin?, Option.map_eq_none_iff, List.find?_eq_none]
      exact fun q _ hq => hexists ⟨q, by simpa using hq⟩
    rw [hnone]
    exact judges_giveUp hexists _ _

theorem judges_readStruct {m : Mark} {name : String} {id : NodeId} {args : List TypeRef}
    (ih : ∀ t ∈ args, ∀ s : Session, s.Orderly p known →
      Judges s (t.IsReadable p.struct?) (t.read .signature) fun _ s' => s'.Orderly p known)
    (ht : (TypeRef.path m name (some (.adt id)) args).InScope p known) (hid : id ∈ known)
    {s : Session} (hs : s.Orderly p known) :
    Judges s ((TypeRef.path m name (some (.adt id)) args).IsReadable p.struct?)
      ((TypeRef.path m name (some (.adt id)) args).read .signature)
      fun _ s' => s'.Orderly p known := by
  obtain ⟨⟨item, decl⟩, hstruct⟩ := Option.isSome_iff_exists.1 (ht.structs id List.mem_cons_self)
  obtain ⟨-, a, ha, hparams⟩ := hs.declared id item decl hstruct (hs.contains id hid)
  rw [TypeRef.isReadable_adt_iff]
  refine judges_bind_of_ok (perform_lookup id s) rfl ?_
  rw [ha]
  have hwritten : ¬ (args.isEmpty && Position.signature == .body) := by simp
  simp only [if_neg hwritten]
  refine (judges_readAll ih hs).bind fun tys s₁ _ hs₁ => ?_
  have hcount : (a.params ≠ [] → tys.length = a.params.length) ↔
      TypeRef.HasItsArgs p.struct? (.path m name (some (.adt id)) args) := by
    simp [TypeRef.HasItsArgs, hstruct, hparams, hs₁.1, Declare.params]
  refine ((judges_withArgs a tys m.span).bind ?_).congr ((and_iff_left trivial).trans hcount)
  rintro b s₂ - rfl
  exact judges_recorded hs₁.2 (ht.apart m.id (by simp [TypeRef.ids])) _

/-- Reading a type in a signature decides whether everything that is read is in order. -/
theorem judges_read {t : TypeRef} (ht : t.InScope p known) (hknown : t.structs ⊆ known)
    {s : Session} (hs : s.Orderly p known) :
    Judges s (t.IsReadable p.struct?) (t.read .signature) fun _ s' => s'.Orderly p known := by
  induction t generalizing s with
  | unit m =>
      refine (judges_recorded hs (ht.apart m.id (by simp [TypeRef.ids])) .unit).congr ?_
      simp
  | infer m =>
      refine judges_bind_of_ok (perform_newVar .general s) rfl ?_
      refine (judges_recorded (hs.newVar .general) (ht.apart m.id (by simp [TypeRef.ids])) _).congr ?_
      simp
  | unresolved m name args =>
      exact judges_giveUp (TypeRef.not_isReadable_unresolved m name args) _ _
  | builtin m name args =>
      rw [TypeRef.isReadable_builtin_iff]
      exact judges_readBuiltin hs (ht.apart m.id (by simp [TypeRef.ids])) name args
  | adt m name id args ih =>
      refine judges_readStruct (fun t h s hs => ih t h (ht.arg h) ?_ hs) ht
        (hknown List.mem_cons_self) hs
      exact fun z hz => hknown (TypeRef.mem_structs_of_arg h hz)
  | param m name id args =>
      obtain ⟨t, hfound⟩ := hs.lookup_isSome (ht.params id (by simp [TypeRef.resolutions]))
      refine judges_bind_of_ok (perform_lookup id s) rfl ?_
      rw [hfound]
      exact (judges_recorded hs (ht.apart m.id (by simp [TypeRef.ids])) _).congr (by simp)

end Check

/-! ## Declarations -/

namespace Declare

section

variable {d d' : Declaring} {Q : α → Declaring → Prop} {R : β → Declaring → Prop}

theorem judges_of_ok {x : Declare α} {a : α} (h : x.perform d = (.ok a, d'))
    (herrors : d'.session.sink.errors = d.session.sink.errors) (hQ : Q a d') : Judges d True x Q :=
  .inl ⟨trivial, a, d', h, herrors, hQ⟩

theorem Judges.congr {x : Declare α} (h : Judges d P x Q) (hiff : P ↔ P') : Judges d P' x Q := by
  rwa [← hiff]

theorem Judges.imp {x : Declare α} {Q' : α → Declaring → Prop} (h : Judges d P x Q)
    (hQ : ∀ a d', Q a d' → Q' a d') : Judges d P x Q' :=
  h.imp_left fun ⟨hP, a, d', hrun, herrors, ha⟩ => ⟨hP, a, d', hrun, herrors, hQ a d' ha⟩

/-- The second step may assume that what the first one decides is the case. -/
theorem Judges.bind {x : Declare α} {f : α → Declare β} (hx : Judges d P x Q)
    (hf : ∀ a d', P → Q a d' → Judges d' P' (f a) R) : Judges d (P ∧ P') (x >>= f) R := by
  unfold Judges
  rw [perform_bind]
  rcases hx with ⟨hP, a, d₁, hrun, herrors, hQ⟩ | ⟨hP, d₁, hrun, hlt⟩
  · rw [hrun]
    rcases hf a d₁ hP hQ with ⟨hP', b, d₂, hrun', herrors', hR⟩ | ⟨hP', d₂, hrun', hlt⟩
    · exact .inl ⟨⟨hP, hP'⟩, b, d₂, hrun', herrors'.trans herrors, hR⟩
    · exact .inr ⟨fun h => hP' h.2, d₂, hrun', by rwa [← herrors]⟩
  · rw [hrun]
    exact .inr ⟨fun h => hP h.1, d₁, rfl, hlt⟩

/-- A struct whose declaration fails is noted after the report. -/
theorem judges_noting {x : Declare Unit} {Q : Unit → Declaring → Prop} (id : NodeId)
    (hx : Judges d P x Q) : Judges d P (noting id x) Q := by
  unfold Judges
  rw [perform_noting]
  rcases hx with ⟨hP, a, d₁, hrun, herrors, hQ⟩ | ⟨hP, d₁, hrun, hlt⟩
  · rw [hrun]
    exact .inl ⟨hP, (), d₁, rfl, herrors, hQ⟩
  · rw [hrun]
    exact .inr ⟨hP, _, rfl, hlt⟩

/-- What is not a declaration has the same verdict, and leaves the failed structs alone. -/
theorem judges_ofCheck {x : Check α} (hd : d.Orderly p known)
    (hx : Check.Judges d.session P x fun _ s => s.Orderly p known') :
    Judges d P (ofCheck x) fun _ d' => d'.Orderly p known' := by
  unfold Judges
  rw [perform_ofCheck]
  rcases hx with ⟨hP, a, s, hrun, herrors, hs⟩ | ⟨hP, s, hrun, hlt⟩
  · rw [hrun]
    exact .inl ⟨hP, a, _, rfl, herrors, hd.failed, hs⟩
  · rw [hrun]
    exact .inr ⟨hP, _, rfl, hlt⟩

end

variable {d : Declaring}

theorem judges_record (hd : d.Orderly p known) {id : NodeId} (hid : p.struct? id = none) (t : Ty) :
    Judges d True (ofCheck (Check.record id t)) fun _ d' => d'.Orderly p (id :: known) :=
  judges_ofCheck hd (Check.judges_of_ok (Check.perform_record id t d.session) rfl
    (hd.session.insert hid t))

theorem judges_recordParams {gs : List (GenericParam × Param)}
    (hgs : ∀ g ∈ gs, p.struct? g.1.mark.id = none) (hd : d.Orderly p known) :
    Judges d True (recordParams gs) fun _ d' =>
      d'.Orderly p (gs.map (·.1.mark.id) ++ known) := by
  induction gs generalizing d known with
  | nil => exact judges_of_ok (perform_pure () d) rfl hd
  | cons g gs ih =>
      rw [List.forall_mem_cons] at hgs
      refine ((judges_record hd hgs.1 _).bind fun _ d₁ _ hd₁ => ?_).congr (and_iff_left trivial)
      exact (ih hgs.2 hd₁).imp fun _ _ h => h.mono (by grind)

end Declare

namespace Program

open Declare

/-- Whether demands for structs that those on the path rest on decide whether they can be declared. -/
def Decides (p : Program) (path : List NodeId) (demand : NodeId → Declare Unit) : Prop :=
  ∀ known id (d : Declaring), (p.struct? id).isSome →
    (∀ y ∈ path, Relation.TransGen (NamedBy p.struct?) id y) → d.Orderly p known →
      Judges d (Declarable p.struct? id) (demand id) fun _ d' => d'.Orderly p (id :: known)

section

variable {path : List NodeId} {demand : NodeId → Declare Unit} {d : Declaring}
  (hdemand : p.Decides path demand)
include hdemand

theorem judges_forM {ids : List NodeId} (hids : ∀ id ∈ ids, (p.struct? id).isSome)
    (hpath : ∀ id ∈ ids, ∀ y ∈ path, Relation.TransGen (NamedBy p.struct?) id y)
    (hd : d.Orderly p known) :
    Judges d (∀ id ∈ ids, Declarable p.struct? id) (ids.forM demand) fun _ d' =>
      d'.Orderly p (ids ++ known) := by
  induction ids generalizing d known with
  | nil => exact (judges_of_ok (perform_pure () d) rfl hd).congr (by simp)
  | cons id ids ih =>
      rw [List.forall_mem_cons] at hids hpath ⊢
      refine (hdemand known id d hids.1 hpath.1 hd).bind fun _ d₁ _ hd₁ => ?_
      exact (ih hids.2 hpath.2 hd₁).imp fun _ _ h => h.mono (by grind)

/-- A written type is read after the structs that it names. -/
theorem judges_read {t : TypeRef} (ht : t.InScope p known)
    (hpath : ∀ z ∈ t.structs, ∀ y ∈ path, Relation.TransGen (NamedBy p.struct?) z y)
    (hd : d.Orderly p known) :
    Judges d (t.IsDeclarable p.struct?) (read demand t) fun _ d' => d'.Orderly p known := by
  refine Judges.congr (P := (∀ z ∈ t.structs, Declarable p.struct? z) ∧ t.IsReadable p.struct?) ?_
    ⟨fun h => ⟨h.1, h.2⟩, fun h => ⟨h.1, h.2⟩⟩
  refine (judges_forM hdemand ht.structs hpath hd).bind fun _ d₁ _ hd₁ => judges_ofCheck hd₁ ?_
  exact (Check.judges_read (ht.mono (List.subset_append_right _ _)) (List.subset_append_left _ _)
    hd₁.session).imp fun _ _ h => h.mono (List.subset_append_right _ _)

theorem judges_readNames {xs : List TypedName} (hscope : ∀ x ∈ xs, x.ty.InScope p known)
    (hmarks : ∀ x ∈ xs, p.struct? x.mark.id = none)
    (hpath : ∀ x ∈ xs, ∀ z ∈ x.ty.structs, ∀ y ∈ path, Relation.TransGen (NamedBy p.struct?) z y)
    (hd : d.Orderly p known) :
    Judges d (∀ x ∈ xs, x.ty.IsDeclarable p.struct?) (readNames demand xs) fun _ d' =>
      d'.Orderly p known := by
  induction xs generalizing d with
  | nil => exact (judges_of_ok (perform_pure [] d) rfl hd).congr (by simp)
  | cons x xs ih =>
      rw [List.forall_mem_cons] at hscope hmarks hpath ⊢
      refine (judges_read hdemand hscope.1 hpath.1 hd).bind fun ty d₁ _ hd₁ => ?_
      refine ((judges_record hd₁ hmarks.1 ty).bind fun _ d₂ _ hd₂ => ?_).congr (and_iff_right trivial)
      refine ((ih hscope.2 hmarks.2 hpath.2 (hd₂.mono (List.subset_cons_self _ _))).bind
        fun tys d₃ _ hd₃ => ?_).congr (and_iff_left trivial)
      exact judges_of_ok (perform_pure _ d₃) rfl hd₃

end

/-! ## Structs -/

/-- A struct that is known has been found to be declarable, and one on the path contains itself. -/
theorem judges_unlessKnown {path : List NodeId} {id : NodeId} {item : Item} {decl : StructDecl}
    (hstruct : p.struct? id = some (item, decl))
    (hpath : ∀ y ∈ path, Relation.TransGen (NamedBy p.struct?) id y) {d : Declaring}
    (hd : d.Orderly p known) {declare : Item → StructDecl → Declare Unit}
    (hdeclare : id ∉ path → Judges d (Declarable p.struct? id) (declare item decl) fun _ d' =>
      d'.Orderly p (id :: known)) :
    Judges d (Declarable p.struct? id) (unlessKnown p.struct? path id declare) fun _ d' =>
      d'.Orderly p (id :: known) := by
  unfold Judges
  rw [perform_unlessKnown, hd.failed, List.contains_nil]
  simp only [Bool.false_eq_true, if_false, hstruct]
  by_cases hunderway : id ∈ path
  · rw [if_pos (List.contains_iff_mem.2 hunderway)]
    exact .inr ⟨fun h => h.not_cyclic (hpath id hunderway), _, rfl, by simp⟩
  · rw [if_neg (mt List.contains_iff_mem.1 hunderway)]
    by_cases hknown : d.session.context.contains id
    · rw [if_pos hknown]
      refine .inl ⟨(hd.session.declared id item decl hstruct hknown).1, (), d, rfl, rfl, hd.failed, ?_⟩
      exact ⟨hd.session.builtins, List.forall_mem_cons.2 ⟨hknown, hd.session.contains⟩,
        hd.session.declared⟩
    · rw [if_neg hknown]
      exact judges_noting id (hdeclare hunderway)

section

variable (hnodup : p.signatureIds.Nodup) (hp : p.SignaturesResolve)
include hnodup hp

theorem inScope_of_mem {item : Item} (hitem : item ∈ p.items) {t : TypeRef}
    (ht : t ∈ item.kind.signatureTypes) :
    t.InScope p (item.kind.generics.map (·.mark.id)) := by
  refine ⟨fun i hi => struct?_eq_none_of_mem hnodup hitem (ItemKind.ids_subset_of_mem ht hi),
    fun z hz => hp.isSome_struct? hnodup hitem ht hz, fun id hid => hp.param item hitem id ?_⟩
  rw [TypeRef.resolutionsAll_eq]
  exact List.mem_flatMap.2 ⟨t, ht, hid⟩

/-- A struct is declared after its generics and the types of its fields. -/
theorem judges_struct {path : List NodeId} {demand : NodeId → Declare Unit} {id : NodeId}
    {item : Item} {decl : StructDecl} (hstruct : p.struct? id = some (item, decl))
    (hdemand : p.Decides (id :: path) demand)
    (hpath : ∀ y ∈ path, Relation.TransGen (NamedBy p.struct?) id y) {d : Declaring}
    (hd : d.Orderly p known) :
    Judges d (Declarable p.struct? id) (struct demand item decl) fun _ d' =>
      d'.Orderly p (id :: known) := by
  obtain ⟨hitem, hkind, hid⟩ := mem_of_struct? hstruct
  have htype {x : TypedName} (hx : x ∈ decl.fields) : x.ty ∈ item.kind.signatureTypes := by
    rw [hkind]
    exact List.mem_map_of_mem hx
  have hnone {i : NodeId} (hi : i ∈ item.kind.signatureIds) : p.struct? i = none :=
    struct?_eq_none_of_mem hnodup hitem hi
  have hmark {x : TypedName} (hx : x ∈ decl.fields) : x.mark.id ∈ item.kind.signatureIds := by
    rw [hkind]
    exact List.mem_append_right _ (List.mem_flatMap.2 ⟨x, hx, List.mem_cons_self⟩)
  have hgeneric {g : GenericParam × Param} (hg : g ∈ decl.generics.zip (params decl.generics)) :
      g.1.mark.id ∈ item.kind.signatureIds := by
    rw [hkind]
    exact List.mem_append_left _ (List.mem_map_of_mem (List.of_mem_zip hg).1)
  have hgenerics : decl.generics.map (·.mark.id) = item.kind.generics.map (·.mark.id) := by
    rw [hkind]
    rfl
  have hbefore {x : TypedName} (hx : x ∈ decl.fields) {z : NodeId} (hz : z ∈ x.ty.structs) :
      ∀ y ∈ id :: path, Relation.TransGen (NamedBy p.struct?) z y := by
    have hz' : NamedBy p.struct? z id := ⟨item, decl, hstruct, x, hx, hz⟩
    exact List.forall_mem_cons.2 ⟨.single hz', fun y hy => .head hz' (hpath y hy)⟩
  have hparams := judges_recordParams (fun g hg => hnone (hgeneric hg)) hd
  rw [ids_zip_params, hgenerics] at hparams
  refine (hparams.bind fun _ d₁ _ hd₁ => ?_).congr (and_iff_right trivial)
  have hscope {x : TypedName} (hx : x ∈ decl.fields) :
      x.ty.InScope p (item.kind.generics.map (·.mark.id) ++ known) :=
    (inScope_of_mem hnodup hp hitem (htype hx)).mono (List.subset_append_left _ _)
  refine ((judges_readNames hdemand (fun x hx => hscope hx) (fun x hx => hnone (hmark hx))
    (fun x hx z hz => hbefore hx hz) hd₁).bind fun tys d₂ hfields hd₂ => ?_).congr
      ((and_iff_left trivial).trans (declarable_iff hstruct).symm)
  refine judges_ofCheck hd₂ (Check.judges_of_ok (Check.perform_record item.id _ d₂.session) rfl ?_)
  have hdeclarable := (declarable_iff hstruct).2 hfields
  rw [hid]
  exact (hd₂.session.insert_struct hstruct hdeclarable rfl).mono (by grind)

theorem decides_demand {depth : Nat} {path : List NodeId} (hunderway : p.Underway depth path) :
    p.Decides path (Declare.demand p.struct? depth path) := by
  induction depth generalizing path with
  | zero =>
      intro known id d hid hpath hd
      obtain ⟨⟨item, decl⟩, hstruct⟩ := Option.isSome_iff_exists.1 hid
      refine judges_unlessKnown hstruct hpath hd fun hfresh => ?_
      obtain ⟨_, hdepth, -⟩ := hunderway.cons hfresh hid
      cases hdepth
  | succ depth ih =>
      intro known id d hid hpath hd
      obtain ⟨⟨item, decl⟩, hstruct⟩ := Option.isSome_iff_exists.1 hid
      refine judges_unlessKnown hstruct hpath hd fun hfresh => ?_
      obtain ⟨_, hdepth, hunderway'⟩ := hunderway.cons hfresh hid
      obtain rfl : _ = depth := (Nat.succ.inj hdepth).symm
      exact judges_struct hnodup hp hstruct (ih hunderway') hpath hd

/-! ## Items -/

theorem judges_declare {item : Item} (hitem : item ∈ p.items) {d : Declaring}
    (hd : d.Orderly p []) :
    Judges d (item.IsDeclarable p.struct?) (p.declare item) fun _ d' => d'.Orderly p [] := by
  have hdemand : p.Decides [] p.demand := decides_demand hnodup hp p.underway_nil
  have hscope {t : TypeRef} (ht : t ∈ item.kind.signatureTypes) :=
    inScope_of_mem hnodup hp hitem ht
  have hnone {i : NodeId} (hi : i ∈ item.kind.signatureIds) : p.struct? i = none :=
    struct?_eq_none_of_mem hnodup hitem hi
  have hrecord (hkind : ∀ decl, item.kind ≠ .struct decl) {d' : Declaring} (hd' : d'.Orderly p [])
      (t : Ty) : Judges d' True (ofCheck (Check.record item.id t)) fun _ d' => d'.Orderly p [] :=
    (judges_record hd' (struct?_eq_none_of_kind hnodup hitem hkind) t).imp fun _ _ h =>
      h.mono (List.nil_subset _)
  unfold declare
  cases hkind : item.kind with
  | struct decl =>
      rw [← declarable_iff_item hnodup hitem hkind]
      have hsome : (p.struct? item.id).isSome := by
        rw [struct?_of_mem hnodup hitem hkind]
        rfl
      exact (hdemand [] item.id d hsome (by simp) hd).imp fun _ _ h => h.mono (List.nil_subset _)
  | fn decl =>
      simp only [hkind, ItemKind.signatureTypes, List.mem_append, List.mem_map, Option.mem_toList]
        at hscope
      have hmark {x : TypedName} (hx : x ∈ decl.params) : x.mark.id ∈ item.kind.signatureIds := by
        rw [hkind]
        exact List.mem_append_left _ (List.mem_flatMap.2 ⟨x, hx, List.mem_cons_self⟩)
      have hparams := judges_readNames hdemand (fun x hx => hscope (.inl ⟨x, hx, rfl⟩))
        (fun x hx => hnone (hmark hx)) (by simp) hd
      rw [Item.IsDeclarable, hkind, ItemKind.signatureTypes, List.forall_mem_append,
        List.forall_mem_map]
      refine hparams.bind fun tys d₁ _ hd₁ => ?_
      cases hret : decl.ret with
      | none => exact (hrecord (by simp [hkind]) hd₁ _).congr (by simp)
      | some t =>
          have hread := judges_read hdemand (hscope (.inr hret)) (by simp) hd₁
          refine (hread.bind fun ret d₂ _ hd₂ => hrecord (by simp [hkind]) hd₂ _).congr ?_
          simp
  | const decl =>
      simp only [hkind, ItemKind.signatureTypes, List.mem_singleton] at hscope
      have hread := judges_read hdemand (hscope rfl) (by simp) hd
      refine (hread.bind fun ty d₁ _ hd₁ => hrecord (by simp [hkind]) hd₁ ty).congr ?_
      simp [Item.IsDeclarable, hkind, ItemKind.signatureTypes]

/-- The pass reports nothing exactly if all its items can be declared. -/
theorem declareAll_silent_iff {items : List Item} (hitems : ∀ item ∈ items, item ∈ p.items)
    {d : Declaring} (hd : d.Orderly p []) :
    (p.declareAll items d).2.session.sink.errors = d.session.sink.errors ↔
      ∀ item ∈ items, item.IsDeclarable p.struct? := by
  induction items generalizing d with
  | nil => simp [declareAll]
  | cons item rest ih =>
      rw [List.forall_mem_cons] at hitems ⊢
      rw [declareAll]
      rcases judges_declare hnodup hp hitems.1 hd with
        ⟨hgood, u, d₁, hrun, herrors, hd₁⟩ | ⟨hbad, d₁, hrun, hlt⟩
      · rw [hrun, and_iff_right hgood, ← herrors]
        exact ih hitems.2 hd₁
      · rw [hrun]
        refine iff_of_false (fun heq => ?_) fun h => hbad h.1
        have hle := (p.grows_declareAll hitems.2 d₁).reported.length_le
        rw [← heq] at hlt
        exact Nat.not_lt.2 hle hlt

end

/-! ## The signature pass -/

theorem orderly_start (p : Program) (locations : Locations) (sink : Sink) :
    (Declaring.start (.start locations sink)).Orderly p [] :=
  ⟨rfl, rfl, by simp, fun _ _ _ _ h => by cases h⟩

/-- The signature pass comes to an end whatever the depth to which it would follow structs, and it
reports nothing exactly if every written type that is read is resolved and every one that names a
generic struct has its arguments, and no struct rests on itself. -/
theorem signaturePass_silent_iff (hnodup : p.ids.Nodup) (hp : p.SignaturesResolve)
    (locations : Locations) (sink : Sink) :
    (∀ beyond depth, p.structs.length < depth →
        Declare.demandOr beyond p.struct? depth [] = p.demand) ∧
      (p.signaturePass (.start locations sink)).ended = .ok () ∧
      ((p.signaturePass (.start locations sink)).session.sink.errors = sink.errors ↔
        (∀ item ∈ p.items, ∀ t ∈ item.kind.signatureTypes, ∀ u ∈ t.visited, u.IsResolved) ∧
        (∀ item ∈ p.items, ∀ t ∈ item.kind.signatureTypes, ∀ u ∈ t.visited,
          u.HasItsArgs p.struct?) ∧
        ∀ id, ¬ Relation.TransGen (NamedBy p.struct?) id id) := by
  have hnodup' : p.signatureIds.Nodup :=
    (List.nodup_append.1 (p.ids_perm.nodup_iff.1 hnodup)).1
  refine ⟨fun beyond depth h => funext (demandOr_eq_demand beyond h), p.ended_signaturePass _, ?_⟩
  have hsilent := declareAll_silent_iff hnodup' hp (fun _ h => h) (p.orderly_start locations sink)
  rw [isDeclarable_iff hnodup' hp] at hsilent
  refine hsilent.trans ⟨fun h => ⟨fun item hitem t ht u hu => (h.1 item hitem t ht u hu).1,
    fun item hitem t ht u hu => (h.1 item hitem t ht u hu).2, h.2⟩, fun h => ⟨?_, h.2.2⟩⟩
  exact fun item hitem t ht u hu => ⟨h.1 item hitem t ht u hu, h.2.1 item hitem t ht u hu⟩

/-- A struct that is declared on demand and has a hole is accepted, and one that is written only as
an argument of a builtin type within an argument is found to contain itself. -/
theorem signaturePass_silent_iff_nested :
    let wrapper : Item := ⟨⟨5, ⟨5, 6⟩⟩, "W", .struct ⟨.named, [⟨⟨0, ⟨0, 1⟩⟩, "T"⟩],
      [⟨⟨1, ⟨1, 2⟩⟩, "x", .path ⟨2, ⟨2, 3⟩⟩ "T" (some (.param 0)) []⟩,
        ⟨⟨3, ⟨3, 4⟩⟩, "h", .infer ⟨4, ⟨4, 5⟩⟩⟩]⟩⟩
    let holder (args : List TypeRef) : Item := ⟨⟨10, ⟨10, 11⟩⟩, "S", .struct ⟨.named, [],
      [⟨⟨6, ⟨6, 7⟩⟩, "w", .path ⟨7, ⟨7, 8⟩⟩ "W" (some (.adt 5))
        [.path ⟨8, ⟨8, 9⟩⟩ "i32" (some .builtin) args]⟩]⟩⟩
    let p : Program := ⟨[holder [], wrapper]⟩
    let q : Program := ⟨[holder [.path ⟨9, ⟨9, 10⟩⟩ "S" (some (.adt 10)) []], wrapper]⟩
    let locations : Locations := ⟨Array.replicate 11 ⟨0, 1⟩⟩
    (p.ids.Nodup ∧ p.SignaturesResolve ∧
        (p.signaturePass (.start locations .fresh)).session.sink.errors = [] ∧
        ∀ id, ¬ Relation.TransGen (NamedBy p.struct?) id id) ∧
      q.ids.Nodup ∧ q.SignaturesResolve ∧ Relation.TransGen (NamedBy q.struct?) 10 10 ∧
        (q.signaturePass (.start locations .fresh)).session.sink.errors ≠ [] := by
  intro wrapper holder p q locations
  have hp : p.SignaturesResolve := by decide +kernel
  have hq : q.SignaturesResolve := by decide +kernel
  have hcycle : Relation.TransGen (NamedBy q.struct?) 10 10 :=
    .single ⟨_, _, rfl, _, List.mem_cons_self, by decide +kernel⟩
  have hnodup : p.ids.Nodup := by decide +kernel
  have hnodup' : q.ids.Nodup := by decide +kernel
  have hsilent : (p.signaturePass (.start locations .fresh)).session.sink.errors = [] := by
    decide +kernel
  refine ⟨⟨hnodup, hp, hsilent, ?_⟩, hnodup', hq, hcycle, fun h => ?_⟩
  · exact ((signaturePass_silent_iff hnodup hp locations .fresh).2.2.1 hsilent).2.2
  · exact ((signaturePass_silent_iff hnodup' hq locations .fresh).2.2.1 h).2.2 10 hcycle

end Program

end TypeInference

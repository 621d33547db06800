import TypeInference.Proofs.Check.Derivation

/-!
# Written types in a solution

Reading a written type creates variables and binds none. In a solution a
written type is typed by what was read for it, and the arguments of an instance
are those that are written.
-/

namespace TypeInference

open Ty Bindings Check

structure Session.Extends (shapes : NodeId → Shape) (kinds : List VarKind) (s : Session)
    (kinds' : List VarKind) (s' : Session) : Prop where
  sound : s'.Sound shapes kinds'
  prefix_kinds : kinds <+: kinds'
  resolve_eq : ∀ t, s'.context.resolve t = s.context.resolve t

variable {shapes : NodeId → Shape} {kinds kinds' kinds'' : List VarKind} {s s' s'' : Session}
  {ids : List NodeId}

namespace Session.Extends

theorem refl (hs : s.Sound shapes kinds) : s.Extends shapes kinds kinds s :=
  ⟨hs, List.prefix_rfl, fun _ => rfl⟩

theorem trans (h : s.Extends shapes kinds kinds' s') (h' : s'.Extends shapes kinds' kinds'' s'') :
    s.Extends shapes kinds kinds'' s'' :=
  ⟨h'.sound, h.prefix_kinds.trans h'.prefix_kinds, fun t =>
    (h'.resolve_eq t).trans (h.resolve_eq t)⟩

theorem insert (h : s.Extends shapes kinds kinds' s') {id : NodeId} {t : Ty}
    (ht : t.Fine shapes kinds') (hlt : id < s'.locations.size) :
    s.Extends shapes kinds kinds' { s' with context := s'.context.insert id t } :=
  ⟨h.sound.insert ht hlt, h.prefix_kinds, h.resolve_eq⟩

/-- If only new nodes were recorded, no solution is new. -/
theorem leads (h : s.Extends shapes kinds kinds' s') (hs : s.Sound shapes kinds)
    (hgrows : s.Grows ids s') (hfresh : s.Fresh ids) : s.Leads shapes kinds kinds' s' where
  sound := h.sound
  prefix_kinds := h.prefix_kinds
  solution T σ hσ := by
    refine ⟨hσ.concrete, hσ.respects.of_prefix h.prefix_kinds, fun t => ?_, fun id t ht => ?_⟩
    · rw [← hσ.satisfied t]
      exact congrArg (Ty.subst σ) (h.resolve_eq t).symm
    · have hnot : id ∉ ids := by
        intro hmem
        rw [hfresh.absent id hmem] at ht
        cases ht
      exact hσ.types id t (by rw [hgrows.kept id hnot (hs.located id t ht), ht])

end Session.Extends

namespace Check

variable {α β : Type}

theorem perform_bind_of_ok {x : Check α} {f : α → Check β} {b : β}
    (h : ((x >>= f).perform s).1 = .ok b) :
    ∃ a, (x.perform s).1 = .ok a ∧ (x >>= f).perform s = (f a).perform (x.perform s).2 := by
  rw [perform_bind] at h ⊢
  rcases hrun : x.perform s with ⟨e | a, s'⟩
  · simp [hrun] at h
  · exact ⟨a, rfl, rfl⟩

theorem withArgs_of_ok {a b : Adt Ty} {args : List Ty} {span : Span}
    (h : ((a.withArgs args span).perform s).1 = .ok b) :
    ((a.withArgs args span).perform s).2 = s ∧ (b = a ∧ a.isGeneric = false ∨
      args.length = a.params.length ∧ b = a.instantiate args) := by
  unfold Adt.withArgs at h ⊢
  cases happly : a.apply args with
  | error e => simp [happly] at h
  | ok c =>
      simp only [happly, perform_pure, Except.ok.injEq] at h ⊢
      refine ⟨trivial, ?_⟩
      subst h
      exact (Adt.apply_eq_ok_iff.1 happly).imp (fun h => ⟨h.2, by simp [Adt.isGeneric, h.1]⟩) (·.2)

theorem fine_withArgs {a b : Adt Ty} {args : List Ty} {span : Span}
    (ha : (Ty.adt a).Fine shapes kinds) (hargs : ∀ t ∈ args, t.Fine shapes kinds)
    (h : ((a.withArgs args span).perform s).1 = .ok b) : (Ty.adt b).Fine shapes kinds := by
  obtain ⟨-, ⟨rfl, -⟩ | ⟨-, rfl⟩⟩ := withArgs_of_ok h
  · exact ha
  · exact ha.instantiate hargs

end Check

/-- A generic struct is instantiated with fresh variables, any other is left as it is. -/
theorem Session.Sound.extends_freshInstance (hs : s.Sound shapes kinds) {a : Adt Ty}
    (ha : (Ty.adt a).Fine shapes kinds) :
    ∃ kinds', s.Extends shapes kinds kinds' ((freshInstance a).perform s).2 ∧
      (Ty.adt (s.context.freshInstance a).1).Fine shapes kinds' ∧ (a.isGeneric → ∃ args,
        args.length = a.params.length ∧ (s.context.freshInstance a).1 = a.instantiate args) := by
  rw [perform_freshInstance]
  by_cases hgeneric : a.isGeneric
  · have hrun : s.context.freshInstance a =
        (a.instantiate (s.context.bindings.newVars a.params.length).1,
          { s.context with bindings := (s.context.bindings.newVars a.params.length).2 }) := by
      simp [Context.freshInstance, hgeneric]
    have hlead := hs.leads_newVars a.params.length
    rw [hrun]
    refine ⟨_, ⟨hlead.sound, hlead.prefix_kinds, fun _ => rfl⟩,
      (ha.mono hlead.prefix_kinds).instantiate (hs.fine_newVars _), fun _ => ⟨_, ?_, rfl⟩⟩
    simp [Bindings.newVars]
  · have hrun : s.context.freshInstance a = (a, s.context) := by
      simp [Context.freshInstance, hgeneric]
    rw [hrun]
    exact ⟨kinds, .refl hs, ha, fun h => (hgeneric h).elim⟩

namespace TypeRef

variable {position : Position}

def Extends (position : Position) (t : TypeRef) : Prop :=
  ∀ {shapes kinds s ty}, s.Sound shapes kinds → (∀ id ∈ t.ids, id < s.locations.size) →
    ((t.read position).perform s).1 = .ok ty →
      ∃ kinds', s.Extends shapes kinds kinds' ((t.read position).perform s).2 ∧
        ty.Fine shapes kinds' ∧
        ((t.read position).perform s).2.context.types.find? t.mark.id = some ty

theorem steady_readType (position : Position) (t : TypeRef) : Steady t.ids (t.read position) :=
  steady_read (List.Subset.refl t.ids)

theorem steady_readTypes (position : Position) (ts : List TypeRef) :
    Steady (idsAll ts) (readAll position ts) :=
  steady_readAll fun _ ht => steady_read (ids_subset_idsAll ht)

theorem extends_readAll {ts : List TypeRef} (ih : ∀ t ∈ ts, Extends position t) {tys : List Ty}
    (hs : s.Sound shapes kinds) (hlt : ∀ t ∈ ts, ∀ id ∈ t.ids, id < s.locations.size)
    (hok : ((readAll position ts).perform s).1 = .ok tys) :
    ∃ kinds', s.Extends shapes kinds kinds' ((readAll position ts).perform s).2 ∧
      ∀ ty ∈ tys, ty.Fine shapes kinds' := by
  induction ts generalizing kinds s tys with
  | nil =>
      rw [readAll] at hok ⊢
      obtain rfl : [] = tys := by simpa using hok
      exact ⟨kinds, .refl hs, by simp⟩
  | cons t ts iht =>
      rw [readAll] at hok ⊢
      obtain ⟨ty, hty, heq⟩ := perform_bind_of_ok hok
      rw [heq] at hok ⊢
      obtain ⟨kinds₁, hext, hfine, -⟩ :=
        ih t List.mem_cons_self hs (hlt t List.mem_cons_self) hty
      have hsize := ((steady_readType position t).grows s).size_le
      obtain ⟨rest, hrest, heq⟩ := perform_bind_of_ok hok
      rw [heq] at hok ⊢
      obtain ⟨kinds₂, hext', hfine'⟩ := iht (fun u hu => ih u (List.mem_cons_of_mem _ hu)) hext.sound
        (fun u hu id hid => Nat.lt_of_lt_of_le (hlt u (List.mem_cons_of_mem _ hu) id hid) hsize)
        hrest
      obtain rfl : ty :: rest = tys := by simpa using hok
      refine ⟨kinds₂, hext.trans hext', fun u hu => ?_⟩
      rcases List.mem_cons.1 hu with rfl | hu
      · exact hfine.mono hext'.prefix_kinds
      · exact hfine' u hu

/-- The last step of every case. -/
theorem extends_recorded {id : NodeId} {t ty : Ty} (h : s.Extends shapes kinds kinds' s')
    (ht : t.Fine shapes kinds') (hlt : id < s'.locations.size)
    (hok : ((recorded id t).perform s').1 = .ok ty) :
    ∃ kinds', s.Extends shapes kinds kinds' ((recorded id t).perform s').2 ∧ ty.Fine shapes kinds' ∧
      ((recorded id t).perform s').2.context.types.find? id = some ty := by
  rw [perform_recorded] at hok ⊢
  obtain rfl : t = ty := by simpa using hok
  exact ⟨kinds', h.insert ht hlt, ht, by simp [Context.insert]⟩

/-- A struct whose arguments are written. -/
theorem extends_written {m : Mark} {args : List TypeRef} (ih : ∀ t ∈ args, Extends position t)
    (hs : s.Sound shapes kinds) (hm : m.id < s.locations.size)
    (hargs : ∀ t ∈ args, ∀ id ∈ t.ids, id < s.locations.size) {a : Adt Ty}
    (ha : (Ty.adt a).Fine shapes kinds) {ty : Ty} (hok : ((do
      let tys ← readAll position args
      recorded m.id (.adt (← a.withArgs tys m.span))).perform s).1 = .ok ty) :
    let run := (do
      let tys ← readAll position args
      recorded m.id (.adt (← a.withArgs tys m.span))).perform s
    ∃ kinds', s.Extends shapes kinds kinds' run.2 ∧ ty.Fine shapes kinds' ∧
      run.2.context.types.find? m.id = some ty := by
  obtain ⟨tys, htys, heq⟩ := perform_bind_of_ok hok
  rw [heq] at hok ⊢
  obtain ⟨kinds', hext, hfine⟩ := extends_readAll ih hs hargs htys
  have hsize := ((steady_readTypes position args).grows s).size_le
  obtain ⟨b, hb, heq⟩ := perform_bind_of_ok hok
  rw [heq, (withArgs_of_ok hb).1] at hok ⊢
  exact extends_recorded hext (fine_withArgs (ha.mono hext.prefix_kinds) hfine hb)
    (Nat.lt_of_lt_of_le hm hsize) hok

theorem extends_readStruct {m : Mark} {name : String} {id : NodeId} {args : List TypeRef}
    (ih : ∀ t ∈ args, Extends position t) :
    Extends position (.path m name (some (.adt id)) args) := by
  intro shapes kinds s ty hs hlt hok
  obtain ⟨hm, hargs⟩ := List.forall_mem_cons.1 hlt
  rw [read] at hok ⊢
  obtain ⟨r, hr, heq⟩ := perform_bind_of_ok hok
  rw [heq] at hok ⊢
  have hlookup : s.context.lookup id = r := Except.ok.inj hr
  split at hok
  · rename_i a
    have ha := hs.fine_lookup hlookup
    split at hok
    · rename_i hfree
      simp only [if_pos hfree] at hok ⊢
      obtain ⟨b, hb, heq⟩ := perform_bind_of_ok hok
      rw [heq] at hok ⊢
      obtain ⟨kinds', hext, hfine, -⟩ := hs.extends_freshInstance ha
      obtain rfl : (s.context.freshInstance a).1 = b := Except.ok.inj hb
      exact extends_recorded hext hfine hm hok
    · rename_i hfree
      simp only [if_neg hfree] at hok ⊢
      exact extends_written ih hs hm (fun t ht id hid => hargs id (ids_subset_idsAll ht hid)) ha hok
  · simp at hok
  · simp at hok

theorem extends_read (position : Position) (t : TypeRef) : Extends position t := by
  induction t with
  | unit m =>
      intro shapes kinds s ty hs hlt hok
      rw [read] at hok ⊢
      exact extends_recorded (.refl hs) .unit (hlt m.id (by simp [ids])) hok
  | infer m =>
      intro shapes kinds s ty hs hlt hok
      rw [read] at hok ⊢
      obtain ⟨v, hv, heq⟩ := perform_bind_of_ok hok
      rw [heq] at hok ⊢
      obtain rfl : (s.context.newVar .general).1 = v := by simpa using hv
      have hlead := hs.leads_newVar .general
      exact extends_recorded ⟨hlead.sound, hlead.prefix_kinds, fun _ => rfl⟩
        (hs.fine_newVar .general) (hlt m.id (by simp [ids])) hok
  | unresolved m name args =>
      intro shapes kinds s ty hs hlt hok
      rw [read] at hok
      simp at hok
  | builtin m name args =>
      intro shapes kinds s ty hs hlt hok
      rw [read] at hok ⊢
      obtain ⟨r, hr, heq⟩ := perform_bind_of_ok hok
      rw [heq] at hok ⊢
      cases r with
      | none => simp at hok
      | some t =>
          obtain ⟨p, -, rfl⟩ := Option.map_eq_some_iff.1 (Except.ok.inj hr)
          exact extends_recorded (.refl hs) (.prim p) (hlt m.id (by simp [ids])) hok
  | adt m name id args ih => exact extends_readStruct ih
  | param m name id args =>
      intro shapes kinds s ty hs hlt hok
      rw [read] at hok ⊢
      obtain ⟨r, hr, heq⟩ := perform_bind_of_ok hok
      rw [heq] at hok ⊢
      cases r with
      | none => simp at hok
      | some t =>
          exact extends_recorded (.refl hs) (hs.fine_lookup (Except.ok.inj hr))
            (hlt m.id (by simp [ids])) hok

/-! ## What is read for a written type -/

theorem derives_read (hs : s.Sound shapes kinds) (position : Position) {t : TypeRef}
    (hfresh : s.Fresh t.ids) :
    Check.Derives shapes kinds s (t.read position) (Fine shapes)
      fun ty T σ => T t.mark.id = some (ty.subst σ) := by
  intro ty hok _
  obtain ⟨kinds', hext, hfine, hfind⟩ := extends_read position t hs hfresh.located hok
  exact ⟨kinds', hext.leads hs ((steady_readType position t).grows s) hfresh, hfine,
    fun T σ hσ => hσ.types _ ty hfind⟩

theorem derives_readAll (hs : s.Sound shapes kinds) (position : Position) {ts : List TypeRef}
    (hfresh : s.Fresh (idsAll ts)) :
    Check.Derives shapes kinds s (readAll position ts)
      (fun kinds tys => ∀ ty ∈ tys, ty.Fine shapes kinds)
      fun tys T σ => ts.map (fun t => T t.mark.id) = tys.map fun ty => some (ty.subst σ) := by
  induction ts generalizing kinds s with
  | nil =>
      rw [readAll]
      exact derives_pure hs (by simp) fun _ _ _ => rfl
  | cons t ts ih =>
      rw [readAll]
      rw [idsAll] at hfresh
      obtain ⟨hfirst, hrest⟩ := hfresh.split
      have hsteady (a : Ty) : Steady (idsAll ts)
          (readAll position ts >>= fun tys => (pure (a :: tys) : Check (List Ty))) :=
        (steady_readTypes position ts).bind fun _ => steady_pure _
      refine (derives_read hs position hfirst).bind hsteady fun kinds₁ ty hlead hty => ?_
      refine (ih hlead.sound (hrest _ ((steady_readType position t).grows s))).bind
        (l := []) (fun _ => steady_pure _) fun kinds₂ tys hlead' htys => ?_
      refine derives_pure hlead'.sound (fun u hu => ?_) fun T σ _ hall hty => ?_
      · rcases List.mem_cons.1 hu with rfl | hu
        · exact hty.mono hlead'.prefix_kinds
        · exact htys u hu
      · rw [List.map_cons, List.map_cons, hty, hall]

theorem derives_readOptional (hs : s.Sound shapes kinds) (position : Position) {t : Option TypeRef}
    (hfresh : s.Fresh (idsOption t)) :
    Check.Derives shapes kinds s (readOptional position t)
      (fun kinds r => ∀ ty, r = some ty → ty.Fine shapes kinds)
      fun r T σ => t.map (fun t => T t.mark.id) = r.map fun ty => some (ty.subst σ) := by
  cases t with
  | none => exact derives_pure hs (by simp) fun _ _ _ => rfl
  | some t =>
      refine (derives_read hs position hfresh).bind (l := []) (fun _ => steady_pure _)
        fun kinds' ty hlead hty => ?_
      refine derives_pure hlead.sound (fun u hu => Option.some.inj hu ▸ hty) fun T σ _ h => ?_
      rw [Option.map_some, Option.map_some, h]

end TypeRef

/-! ## Instances -/

/-- Whether no variable stands for a type that mentions a declared parameter. -/
def ParamFree (σ : VarId → Ty) : Prop := ∀ v p, .param p ∉ (σ v).leaves

/-- What a path names in a solution, if it is an instance of what was recorded. -/
theorem Path.names_instance {T : Typing} {σ : VarId → Ty} {p : Path} {res : NodeId} {a : Adt Ty}
    {args : List Ty} (hres : p.res = some res) (hT : T res = some ((Ty.adt a).subst σ))
    (ha : a.isUninstantiated) (hlen : args.length = a.params.length)
    (hargs : p.args ≠ [] →
      p.args.map (fun r => T r.mark.id) = args.map fun t => some (t.subst σ)) :
    p.Names T (ParamFree σ) ((Ty.adt (a.instantiate args)).subst σ) := by
  refine ⟨res, hres, .inr ⟨a.map (Ty.subst σ), args.map (Ty.subst σ),
    (a.instantiate args).map (Ty.subst σ), ?_, ?_, rewrite_adt _ _ _, ⟨?_, ?_, ?_⟩, ?_⟩⟩
  · rw [hT]
    exact congrArg some (rewrite_adt _ _ _)
  · simpa [Adt.isUninstantiated, Adt.isGeneric, Adt.map] using ha
  · rw [List.length_map]
    exact hlen
  · exact ⟨a, σ, args, rewrite_adt _ _ _, rfl, rewrite_adt _ _ _⟩
  · exact fun hσ => instantiate_rewrite_vars (fun _ v => hσ v) a args
  · intro hwritten
    rw [hargs hwritten, List.map_map]
    rfl

namespace Check

theorem derives_instanceIn (hs : s.Sound shapes kinds) {a : Adt Ty}
    (ha : (Ty.adt a).Fine shapes kinds) (hgeneric : a.isGeneric) {args : List TypeRef} (span : Span)
    (hfresh : s.Fresh (TypeRef.idsAll args)) :
    Derives shapes kinds s (a.instanceIn args span) (fun kinds b => (Ty.adt b).Fine shapes kinds)
      fun b T σ => ∃ written, b = a.instantiate written ∧ written.length = a.params.length ∧
        (args ≠ [] → args.map (fun r => T r.mark.id) = written.map fun t => some (t.subst σ)) := by
  intro b hok herrors
  unfold Adt.instanceIn at hok herrors ⊢
  split
  · rename_i hempty
    rw [if_pos hempty] at hok
    obtain ⟨kinds', hext, hfine, hargs⟩ := hs.extends_freshInstance ha
    obtain rfl : (s.context.freshInstance a).1 = b := Except.ok.inj hok
    obtain ⟨written, hlen, heq⟩ := hargs hgeneric
    have hnil : args = [] := by simpa using hempty
    subst hnil
    exact ⟨kinds', hext.leads hs ((steady_freshInstance a).grows s) hfresh, hfine, fun T σ _ =>
      ⟨written, heq, hlen, fun h => (h rfl).elim⟩⟩
  · rename_i hempty
    rw [if_neg hempty] at hok herrors
    obtain ⟨tys, htys, heq⟩ := perform_bind_of_ok hok
    rw [heq] at hok herrors ⊢
    obtain ⟨hsame, hb⟩ := withArgs_of_ok hok
    rw [hsame] at herrors ⊢
    obtain ⟨kinds', hlead, hfine, hT⟩ := TypeRef.derives_readAll hs .body hfresh tys htys herrors
    refine ⟨kinds', hlead, fine_withArgs (ha.mono hlead.prefix_kinds) hfine hok, fun T σ hσ => ?_⟩
    rcases hb with ⟨-, hnot⟩ | ⟨hlen, hb⟩
    · simp [hgeneric] at hnot
    · exact ⟨tys, hb, hlen, fun _ => hT T σ hσ⟩

/-! ## Paths -/

theorem fresh_args {p : Path} (h : s.Fresh p.ids) : s.Fresh (TypeRef.idsAll p.args) := by
  refine h.sublist ?_
  unfold Path.args
  cases hlast : p.segments.getLast? with
  | none => exact List.nil_sublist _
  | some segment =>
      rw [Path.ids, List.flatMap_def]
      exact List.sublist_flatten_of_mem (List.mem_map_of_mem (List.mem_of_getLast? hlast))

theorem derives_pathType (hs : s.Sound shapes kinds) (span : Span) {p : Path}
    (hfresh : s.Fresh p.ids) :
    Derives shapes kinds s (pathType span p) (Fine shapes)
      fun t T σ => p.Names T (ParamFree σ) (t.subst σ) := by
  unfold pathType
  cases hres : p.res with
  | none => exact derives_giveUp _ span
  | some res =>
      refine (derives_lookup hs res).bind (l := p.ids) (fun r => ?_) fun kinds₁ r hlead hr => ?_
      · split
        · split
          · exact (steady_instanceIn _ span (idsAll_args_subset p)).bind fun _ => steady_pure _
          · exact steady_pure _
        · exact steady_pure _
        · exact steady_giveUp _ _
      · split
        · rename_i a
          split
          · rename_i hfree
            have hgeneric : a.isGeneric := (Bool.and_eq_true_iff.1 hfree).1
            refine (derives_instanceIn hlead.sound (hr _ rfl) hgeneric span
              (fresh_args hfresh)).bind (l := []) (fun _ => steady_pure _)
              fun kinds₂ b hlead' hb => ?_
            refine derives_pure hlead'.sound hb ?_
            rintro T σ - ⟨written, rfl, hlen, hargs⟩ hT
            exact Path.names_instance hres (hT _ rfl) hfree hlen hargs
          · exact derives_pure hlead.sound (hr _ rfl) fun T σ _ hT => ⟨res, hres, .inl (hT _ rfl)⟩
        · exact derives_pure hlead.sound (hr _ rfl) fun T σ _ hT => ⟨res, hres, .inl (hT _ rfl)⟩
        · exact derives_giveUp _ span

theorem derives_structOf (hs : s.Sound shapes kinds) (span : Span) {p : Path}
    (hfresh : s.Fresh p.ids) :
    Derives shapes kinds s (structOf p span) (fun kinds a => (Ty.adt a).Fine shapes kinds)
      fun a T σ => p.Names T (ParamFree σ) ((Ty.adt a).subst σ) := by
  unfold structOf
  cases hres : p.res with
  | none => exact derives_giveUp _ span
  | some res =>
      refine (derives_lookup hs res).bind (l := p.ids) (fun r => ?_) fun kinds₁ r hlead hr => ?_
      · split
        · split
          · exact steady_instanceIn _ span (idsAll_args_subset p)
          · exact steady_pure _
        · exact steady_giveUp _ _
        · exact steady_giveUp _ _
      · split
        · rename_i a
          split
          · rename_i hfree
            have hgeneric : a.isGeneric := (Bool.and_eq_true_iff.1 hfree).1
            refine (derives_instanceIn hlead.sound (hr _ rfl) hgeneric span
              (fresh_args hfresh)).imp (fun _ _ hb => hb) ?_
            rintro b T σ ⟨written, rfl, hlen, hargs⟩ hT
            exact Path.names_instance hres (hT _ rfl) hfree hlen hargs
          · exact derives_pure hlead.sound (hr _ rfl) fun T σ _ hT => ⟨res, hres, .inl (hT _ rfl)⟩
        · exact derives_giveUp _ span
        · exact derives_giveUp _ span

end Check

end TypeInference

import TypeInference.Proofs.Ty.Refines
import TypeInference.Ty.Instance

/-!
# Instances of declarations

The arguments of a struct type and its field types say the same thing twice.
Where every struct type is an instance of its declaration, rewriting,
substitution and unification keep the two in agreement: they commute with
instantiation, because a declaration mentions its own parameters only.
-/

namespace TypeInference

abbrev Declarations := NodeId → Option (Adt Ty)

namespace Ty

variable {var : VarKind → VarId → Ty} {param : Param → Ty} {args xs ys zs : List Ty} {n : Nat}
  {t c : Ty}

/-! ## Types over the parameters of one declaration -/

/-- Whether the type mentions no inference variable, and only the first `n` parameters. -/
def Bounded (n : Nat) (t : Ty) : Prop :=
  ∀ l ∈ t.leaves, (∀ k v, l ≠ .infer k v) ∧ ∀ p, l = .param p → p.index < n

theorem leaves_subset_of_part {p : Ty} (hp : p ∈ t.parts) : p.leaves ⊆ t.leaves := by
  intro l hl
  cases t with
  | fn ps r =>
      rw [leaves_fn, List.mem_append, List.mem_flatMap]
      rcases List.mem_append.1 hp with hp | hp
      · exact .inl ⟨p, hp, hl⟩
      · obtain rfl := List.mem_singleton.1 hp
        exact .inr hl
  | adt a =>
      rw [leaves_adt, List.mem_flatMap]
      exact ⟨p, hp, hl⟩
  | _ => simp [parts] at hp

theorem Bounded.part (h : t.Bounded n) {p : Ty} (hp : p ∈ t.parts) : p.Bounded n :=
  fun l hl => h l (leaves_subset_of_part hp hl)

theorem Bounded.mono {m : Nat} (h : t.Bounded n) (hnm : n ≤ m) : t.Bounded m :=
  fun l hl => ⟨(h l hl).1, fun p hp => Nat.lt_of_lt_of_le ((h l hl).2 p hp) hnm⟩

theorem argFor_eq {p : Param} (hp : p.index < args.length) : argFor args p = args[p.index] := by
  simp [argFor, List.getElem?_eq_getElem hp]

/-- What is substituted may be rewritten before, if nothing else is there to be rewritten. -/
theorem rewrite_substitute (hvar : ∀ k v, .infer k v ∈ t.leaves → var k v = .infer k v)
    (hparam : ∀ p, .param p ∈ t.leaves → p.index < args.length) :
    (t.substitute args).rewrite var param = t.substitute (args.map (rewrite var param)) := by
  rw [substitute, rewrite_rewrite, substitute]
  refine rewrite_congr (fun k v hkv => hvar k v hkv) fun p hp => ?_
  have hlt := hparam p hp
  rw [argFor_eq hlt, argFor_eq (by rwa [List.length_map]), List.getElem_map]

/-- Variables may be replaced before or after, if no parameters come with what replaces them. -/
theorem substitute_rewrite_vars (hvar : ∀ k v p, .param p ∉ (var k v).leaves) (args : List Ty) (t : Ty) :
    (t.substitute args).rewrite var .param =
      (t.rewrite var .param).substitute (args.map (rewrite var .param)) := by
  rw [substitute, rewrite_rewrite, substitute, rewrite_rewrite]
  refine rewrite_congr (fun k v _ => ?_) fun p _ => ?_
  · have hkeep : (var k v).rewrite .infer (argFor (args.map (rewrite var .param))) = var k v := by
      refine Eq.trans (rewrite_congr (fun _ _ _ => rfl) fun p hp => ?_) (rewrite_id (var k v))
      exact (hvar k v p hp).elim
    exact hkeep.symm
  · show (argFor args p).rewrite var .param = argFor (args.map (rewrite var .param)) p
    rw [argFor, argFor, List.getElem?_map]
    cases args[p.index]? <;> rfl

theorem instantiate_rewrite_vars (hvar : ∀ k v p, .param p ∉ (var k v).leaves) (a : Adt Ty)
    (args : List Ty) : (a.instantiate args).map (rewrite var .param) =
      (a.map (rewrite var .param)).instantiate (args.map (rewrite var .param)) := by
  simp only [Adt.map, Adt.instantiate, Option.map_some, List.map_map]
  congr 1
  refine List.map_congr_left fun f _ => ?_
  simp [Field.map, substitute_rewrite_vars hvar]

theorem Bounded.rewrite_substitute (h : t.Bounded args.length) :
    (t.substitute args).rewrite var param = t.substitute (args.map (rewrite var param)) :=
  Ty.rewrite_substitute (fun k v hkv => ((h _ hkv).1 k v rfl).elim) fun p hp => (h _ hp).2 p rfl

/-- A type without variables and parameters is left alone. -/
theorem Bounded.rewrite_eq (h : t.Bounded 0) : t.rewrite var param = t :=
  (rewrite_congr (fun k v hkv => ((h _ hkv).1 k v rfl).elim) fun p hp =>
    (Nat.not_lt_zero _ ((h _ hp).2 p rfl)).elim).trans (rewrite_id t)

theorem Bounded.rewrite_vars_eq (h : t.Bounded n) : t.rewrite var .param = t :=
  (rewrite_congr (fun k v hkv => ((h _ hkv).1 k v rfl).elim) fun _ _ => rfl).trans (rewrite_id t)

theorem Bounded.substitute (h : t.Bounded args.length) (hargs : ∀ u ∈ args, u.Bounded n) :
    (t.substitute args).Bounded n := by
  intro l hl
  rw [Ty.substitute, leaves_rewrite, List.mem_flatMap] at hl
  obtain ⟨m, hm, hl⟩ := hl
  obtain ⟨hfn, hadt⟩ := parts_of_mem_leaves hm
  cases m with
  | infer k v => exact ((h _ hm).1 k v rfl).elim
  | param p =>
      have hlt := (h _ hm).2 p rfl
      rw [rewrite_param, argFor_eq hlt] at hl
      exact hargs _ (List.getElem_mem hlt) l hl
  | fn ps r => exact (hfn ps r rfl).elim
  | adt a => exact (hadt a rfl).elim
  | _ =>
      obtain rfl := List.mem_singleton.1 hl
      simp

/-! ## Unification of what is substituted -/

theorem unifyList_map {ts vs : List Ty} {f g h : Ty → Ty}
    (ih : ∀ t ∈ ts, ∀ c, unify (f t) (g t) = .ok c → c = h t)
    (hvs : unifyList (ts.map f) (ts.map g) = .ok vs) : vs = ts.map h := by
  induction ts generalizing vs with
  | nil =>
      obtain rfl : [] = vs := by simpa [unifyList] using hvs
      rfl
  | cons t ts iht =>
      obtain ⟨w, ws, hw, hws, rfl⟩ := unifyList_cons_eq_ok_iff.1 hvs
      rw [List.map_cons, ih t List.mem_cons_self w hw,
        iht (fun u hu => ih u (List.mem_cons_of_mem _ hu)) hws]

/-- Two instances of one type unify to the instance with the unified arguments. -/
theorem unify_substitute (hlen : xs.length = ys.length) (hzs : unifyList xs ys = .ok zs)
    (ht : t.Bounded xs.length) (hc : unify (t.substitute xs) (t.substitute ys) = .ok c) :
    c = t.substitute zs := by
  induction t using parts_induct generalizing c with
  | step t ih =>
      have hroot : t.IsFixed → t.isSettled → c = t.substitute zs := by
        intro hfixed hsettled
        have hx : (t.substitute xs).isSettled :=
          (isSettled_of_head (head_rewrite hfixed)).trans hsettled
        have hy : (t.substitute ys).isSettled :=
          (isSettled_of_head (head_rewrite hfixed)).trans hsettled
        obtain ⟨-, hchead, hcshape, hparts⟩ := parts_of_unify hx hy hc
        refine ext_parts ?_ ?_ ?_
        · exact hchead.trans ((head_rewrite hfixed).trans (head_rewrite hfixed).symm)
        · exact hcshape.trans ((shape_rewrite hfixed).trans (shape_rewrite hfixed).symm)
        · rw [substitute, substitute, parts_rewrite hfixed, parts_rewrite hfixed] at hparts
          rw [substitute, parts_rewrite hfixed]
          exact unifyList_map (fun p hp d hd => ih p hp (ht.part hp) hd) hparts
      cases t with
      | error =>
          have herror : Ty.unify .error .error = .ok .error := unify_of_error (.inl rfl)
          exact Except.ok.inj (hc.symm.trans herror)
      | infer k v => exact ((ht _ (by simp [leaves])).1 k v rfl).elim
      | param p =>
          have hx : p.index < xs.length := (ht _ (by simp [leaves])).2 p rfl
          have hy : p.index < ys.length := hlen ▸ hx
          have hz : p.index < zs.length := (length_of_unifyList hlen hzs).symm ▸ hx
          simp only [substitute, rewrite_param, argFor_eq hx, argFor_eq hy, argFor_eq hz] at hc ⊢
          have hunify := unify_of_unifyList hzs (List.getElem?_eq_getElem hx)
            (List.getElem?_eq_getElem hy) (List.getElem?_eq_getElem hz)
          exact Except.ok.inj (hc.symm.trans hunify)
      | _ => exact hroot trivial rfl

/-! ## Types that agree with their declarations -/

/-- Whether a struct type is its declaration, which has no parameters then, or an instance of it. -/
def IsDeclared (D : Declarations) : Ty → Prop
  | .adt a => ∃ d, D a.decl = some d ∧
      (d.params = [] ∧ a = d ∨
        d.params ≠ [] ∧ ∃ args, args.length = d.params.length ∧ a = d.instantiate args)
  | _ => True

/-- Whether every struct type in the type agrees with its declaration. -/
abbrev Coherent (D : Declarations) (t : Ty) : Prop := t.Every (IsDeclared D)

end Ty

/-- A declaration of which instances can be made. Its own field types agree with theirs. -/
structure Adt.IsDeclaration (D : Declarations) (id : NodeId) (d : Adt Ty) : Prop where
  decl_eq : d.decl = id
  args_eq : d.args = none
  bounded : ∀ f ∈ d.fields, f.ty.Bounded d.params.length
  coherent : ∀ f ∈ d.fields, f.ty.Coherent D

def Declarations.Closed (D : Declarations) : Prop := ∀ id d, D id = some d → d.IsDeclaration D id

namespace Adt

variable {D : Declarations} {d : Adt Ty} {id : NodeId} {args : List Ty}

/-- An instance is rewritten by rewriting its arguments, if its fields are. -/
theorem map_instantiate {g : Ty → Ty}
    (h : ∀ f ∈ d.fields, g (f.ty.substitute args) = f.ty.substitute (args.map g)) :
    (d.instantiate args).map g = d.instantiate (args.map g) := by
  simp only [Adt.map, Adt.instantiate, Option.map_some, List.map_map]
  congr 1
  refine List.map_congr_left fun f hf => ?_
  simp [Field.map, h f hf]

/-- Instantiation commutes with rewriting. -/
theorem IsDeclaration.map_instantiate (h : d.IsDeclaration D id) (hlen : args.length = d.params.length)
    (var : VarKind → VarId → Ty) (param : Param → Ty) :
    (d.instantiate args).map (Ty.rewrite var param) = d.instantiate (args.map (Ty.rewrite var param)) := by
  refine Adt.map_instantiate fun f hf => ?_
  have hbounded : f.ty.Bounded args.length := hlen ▸ h.bounded f hf
  exact hbounded.rewrite_substitute

/-- A declaration without parameters is left alone. -/
theorem IsDeclaration.map_eq (h : d.IsDeclaration D id) (hparams : d.params = [])
    (var : VarKind → VarId → Ty) (param : Param → Ty) : d.map (Ty.rewrite var param) = d := by
  have hfields : d.fields.map (Field.map (Ty.rewrite var param)) = d.fields := by
    refine (List.map_congr_left fun f hf => ?_).trans (List.map_id d.fields)
    have hbounded : f.ty.Bounded 0 := by simpa [hparams] using h.bounded f hf
    rw [Field.map, hbounded.rewrite_eq]
    rfl
  simp only [Adt.map, hfields, h.args_eq, Option.map_none]
  rw [← h.args_eq]

/-- Replacing variables leaves every declaration alone. -/
theorem IsDeclaration.map_vars_eq (h : d.IsDeclaration D id) (var : VarKind → VarId → Ty) :
    d.map (Ty.rewrite var .param) = d := by
  have hfields : d.fields.map (Field.map (Ty.rewrite var .param)) = d.fields := by
    refine (List.map_congr_left fun f hf => ?_).trans (List.map_id d.fields)
    rw [Field.map, (h.bounded f hf).rewrite_vars_eq]
    rfl
  simp only [Adt.map, hfields, h.args_eq, Option.map_none]
  rw [← h.args_eq]

end Adt

theorem Adt.parts_instantiate (d : Adt Ty) (args : List Ty) :
    (d.instantiate args).parts = (d.fields.map Field.ty).map (Ty.substitute args) ++ args := by
  simp [Adt.parts, Adt.instantiate, Field.map, Function.comp_def]

namespace Ty

variable {D : Declarations} {t u c : Ty} {var : VarKind → VarId → Ty} {param : Param → Ty}

section

variable {P : Ty → Prop} (hP : IsLocal P) {args : List Ty}
include hP

theorem every_substitute (ht : t.Every P) (hargs : ∀ u ∈ args, u.Every P) :
    (t.substitute args).Every P := by
  refine every_rewrite hP (fun n hn _ => ht n hn) (fun k v hn => every_leaf (ht _ hn) rfl)
    fun p hn => ?_
  rcases hi : args[p.index]? with _ | u
  · rw [argFor, hi]
    exact every_leaf (ht _ hn) rfl
  · rw [argFor, hi]
    exact hargs u (List.mem_of_getElem? hi)

/-- The fields of an instance keep what the struct and the arguments have. -/
theorem every_instantiate {a : Adt Ty} (hroot : P (.adt (a.instantiate args)))
    (ha : (Ty.adt a).Every P) (hargs : ∀ u ∈ args, u.Every P) :
    (Ty.adt (a.instantiate args)).Every P := by
  refine every_iff.2 ⟨hroot, fun p hp => ?_⟩
  rw [parts, Adt.parts_instantiate, List.mem_append, List.mem_map] at hp
  rcases hp with ⟨t, ht, rfl⟩ | hp
  · exact every_substitute hP (ha.part (List.mem_append_left _ ht)) hargs
  · exact hargs p hp

end

theorem coherent_leaf (h : ∀ a, t ≠ .adt a) (hparts : t.parts = []) : t.Coherent D := by
  refine every_leaf ?_ hparts
  cases t with
  | adt a => exact (h a rfl).elim
  | _ => trivial

theorem Coherent.rewrite (hD : D.Closed) (ht : t.Coherent D)
    (hvar : ∀ k v, .infer k v ∈ t.nodes → (var k v).Coherent D)
    (hparam : ∀ p, .param p ∈ t.nodes → (param p).Coherent D) : (t.rewrite var param).Coherent D := by
  induction t using parts_induct with
  | step t ih =>
      have hroot : t.IsFixed → (t.rewrite var param).IsDeclared D →
          (t.rewrite var param).Coherent D := by
        intro hfixed hdeclared
        rw [Coherent, every_iff, parts_rewrite hfixed]
        refine ⟨hdeclared, fun q hq => ?_⟩
        obtain ⟨p, hp, rfl⟩ := List.mem_map.1 hq
        exact ih p hp (ht.part hp) (fun k v h => hvar k v (mem_nodes_of_part hp h))
          fun r h => hparam r (mem_nodes_of_part hp h)
      cases t with
      | infer k v => exact hvar k v (self_mem_nodes _)
      | param p => exact hparam p (self_mem_nodes _)
      | adt a =>
          refine hroot trivial ?_
          rw [rewrite_adt]
          obtain ⟨d, hd, ⟨hparams, rfl⟩ | ⟨hparams, args, hlen, rfl⟩⟩ := ht.root
          · rw [(hD _ a hd).map_eq hparams]
            exact ⟨a, hd, .inl ⟨hparams, rfl⟩⟩
          · rw [(hD _ d hd).map_instantiate hlen]
            exact ⟨d, hd, .inr ⟨hparams, _, by rw [List.length_map, hlen], rfl⟩⟩
      | fn ps r => exact hroot trivial (by rw [rewrite_fn]; trivial)
      | _ => exact hroot trivial trivial

/-- An instance of a declaration agrees with it. -/
theorem coherent_instantiate (hD : D.Closed) {id : NodeId} {d : Adt Ty} {args : List Ty}
    (hd : D id = some d) (hparams : d.params ≠ []) (hlen : args.length = d.params.length)
    (hargs : ∀ u ∈ args, u.Coherent D) : (Ty.adt (d.instantiate args)).Coherent D := by
  obtain ⟨hdecl, -, hbounded, hcoherent⟩ := hD id d hd
  refine every_iff.2 ⟨⟨d, hdecl.symm ▸ hd, .inr ⟨hparams, args, hlen, rfl⟩⟩, fun p hp => ?_⟩
  simp only [parts, Adt.parts, Adt.instantiate, List.map_map, List.mem_append, List.mem_map,
    Option.getD_some] at hp
  rcases hp with ⟨f, hf, rfl⟩ | hp
  · refine (hcoherent f hf).rewrite hD (fun k v _ => coherent_leaf (by simp) rfl) fun q hq => ?_
    rcases hi : args[q.index]? with _ | u
    · rw [argFor, hi]
      exact coherent_leaf (by simp) rfl
    · rw [argFor, hi]
      exact hargs u (List.mem_of_getElem? hi)
  · exact hargs p hp

theorem coherent_declaration (hD : D.Closed) {id : NodeId} {d : Adt Ty} (hd : D id = some d)
    (hparams : d.params = []) : (Ty.adt d).Coherent D := by
  obtain ⟨hdecl, hargs, -, hcoherent⟩ := hD id d hd
  refine every_iff.2 ⟨⟨d, hdecl.symm ▸ hd, .inl ⟨hparams, rfl⟩⟩, fun p hp => ?_⟩
  simp only [parts, Adt.parts, hargs, Option.getD_none, List.append_nil, List.mem_map] at hp
  obtain ⟨f, hf, rfl⟩ := hp
  exact hcoherent f hf

/-- Unification of two instances of one declaration gives an instance of it. -/
theorem isDeclared_of_unify (hD : D.Closed) {a b : Adt Ty} {c : Ty} (ha : (Ty.adt a).IsDeclared D)
    (hb : (Ty.adt b).IsDeclared D) (hhead : (Ty.adt a).head = (Ty.adt b).head)
    (hchead : c.head = (Ty.adt a).head) (hcshape : c.shape? = (Ty.adt a).shape?)
    (hparts : unifyList a.parts b.parts = .ok c.parts) : c.IsDeclared D := by
  have hdecl : a.decl = b.decl := by
    simp only [head, Head.adt.injEq] at hhead
    exact hhead.1
  obtain ⟨d, hd, ha⟩ := ha
  obtain ⟨e, he, hb⟩ := hb
  obtain rfl : d = e := Option.some.inj (hd.symm.trans ((congrArg D hdecl).trans he))
  have hclosed := hD _ d hd
  rcases ha with ⟨hparams, rfl⟩ | ⟨hparams, xs, hxs, rfl⟩
  · obtain ⟨-, rfl⟩ | ⟨hne, -⟩ := hb
    · rw [ext_parts (u := .adt b) hchead hcshape ?_]
      · exact ⟨b, hd, .inl ⟨hparams, rfl⟩⟩
      · have hmap : unifyList (b.parts.map id) (b.parts.map id) = .ok c.parts := by
          rwa [List.map_id]
        refine (unifyList_map (fun p hp w hw => ?_) hmap).trans (List.map_id _)
        rw [Adt.parts, hclosed.args_eq, Option.getD_none, List.append_nil, List.mem_map] at hp
        obtain ⟨f, hf, rfl⟩ := hp
        have hbounded : f.ty.Bounded 0 := by simpa [hparams] using hclosed.bounded f hf
        have hnil : f.ty.substitute [] = f.ty := hbounded.rewrite_eq
        have hargs : unifyList [] [] = .ok [] := by simp [unifyList]
        exact (unify_substitute rfl hargs hbounded (by rwa [hnil])).trans hnil
    · exact (hne hparams).elim
  · obtain ⟨hnil, -⟩ | ⟨-, ys, hys, rfl⟩ := hb
    · exact (hparams hnil).elim
    · have hlen : xs.length = ys.length := hxs.trans hys.symm
      rw [Adt.parts_instantiate, Adt.parts_instantiate,
        unifyList_append_eq_ok_iff (by simp)] at hparts
      obtain ⟨vs, zs, hvs, hzs, hparts⟩ := hparts
      have hlenz := length_of_unifyList hlen hzs
      have hshape : (d.instantiate xs).shape = (d.instantiate zs).shape := by
        simp [Adt.shape, Adt.instantiate, Function.comp_def]
      rw [ext_parts (t := c) (u := .adt (d.instantiate zs)) ?_ (hcshape.trans (congrArg some hshape)) ?_]
      · exact ⟨d, hd, .inr ⟨hparams, zs, hlenz.trans hxs, rfl⟩⟩
      · rw [hchead]
        simp [head, Adt.instantiate, hlenz]
      · rw [hparts, parts, Adt.parts_instantiate]
        refine congrArg (· ++ zs) (unifyList_map (fun u hu w hw => ?_) hvs)
        obtain ⟨f, hf, rfl⟩ := List.mem_map.1 hu
        exact unify_substitute hlen hzs (hxs.symm ▸ hclosed.bounded f hf) hw

theorem Coherent.unify (hD : D.Closed) {a b c : Ty} (ha : a.Coherent D) (hb : b.Coherent D)
    (h : Ty.unify a b = .ok c) : c.Coherent D := by
  refine unify_induct (motive := fun a b c => a.Coherent D → b.Coherent D → c.Coherent D)
    ?error ?var ?node h ha hb
  case error =>
    rintro a b (rfl | rfl) ha hb
    · exact ha
    · exact hb
  case var =>
    rintro a b c _ _ (rfl | rfl) _ _ ha hb
    · exact ha
    · exact hb
  case node =>
    intro a b c _ _ hhead hchead hcshape hunify hparts ha hb
    refine every_iff.2 ⟨?_, fun r hr => ?_⟩
    · cases a with
      | adt a =>
          cases b with
          | adt b => exact isDeclared_of_unify hD ha.root hb.root hhead hchead hcshape hunify
          | _ => simp [head] at hhead
      | _ =>
          cases c with
          | adt c => simp [head] at hchead
          | _ => trivial
    · obtain ⟨i, hi⟩ := List.mem_iff_getElem?.1 hr
      obtain ⟨p, hp⟩ := getElem?_of_head hchead hi
      obtain ⟨q, hq⟩ := getElem?_of_head hhead hp
      exact hparts i p q r hp hq hi (ha.part (List.mem_of_getElem? hp))
        (hb.part (List.mem_of_getElem? hq))

/-- Further declarations take nothing away. -/
theorem Coherent.mono {D' : Declarations} (h : t.Coherent D)
    (hD : ∀ id d, D id = some d → D' id = some d) : t.Coherent D' := by
  refine Every.mono h fun n hn => ?_
  cases n with
  | adt a =>
      obtain ⟨d, hd, hcases⟩ := hn
      exact ⟨d, hD _ d hd, hcases⟩
  | _ => trivial

/-! ## Substitutions compose -/

/-- A parameter is one of the first `n`. -/
def IsSupplied (n : Nat) : Ty → Prop
  | .param p => p.index < n
  | _ => True

instance (n : Nat) : DecidablePred (IsSupplied n)
  | .param p => inferInstanceAs (Decidable (p.index < n))
  | .error | .infer _ _ | .unit | .prim _ | .fn _ _ | .adt _ => inferInstanceAs (Decidable True)

/-- Whether `n` arguments supply every parameter that the type mentions at any depth. Unlike with
`Bounded`, it may mention variables too. -/
abbrev Supplied (n : Nat) (t : Ty) : Prop := t.Every (IsSupplied n)

/-- A second substitution may be made in the arguments of the first, if these supply all parameters. -/
theorem Supplied.substitute_comp {xs : List Ty} (h : t.Supplied xs.length) (ys : List Ty) :
    (t.substitute xs).substitute ys = t.substitute (xs.map (Ty.substitute ys)) :=
  rewrite_substitute (fun _ _ _ => rfl) fun p hp => h (.param p) (mem_nodes_of_mem_leaves hp)

/-- Substitution into an instance gives the instance with the arguments that are substituted into. -/
theorem substitute_instantiate {a : Adt Ty} {xs : List Ty}
    (h : ∀ f ∈ a.fields, f.ty.Supplied xs.length) (ys : List Ty) :
    (Ty.adt (a.instantiate xs)).substitute ys = .adt (a.instantiate (xs.map (Ty.substitute ys))) := by
  rw [substitute_adt, Adt.map_instantiate fun f hf => (h f hf).substitute_comp ys]

/-- Substitutions compose: the second one may be made in the arguments of the first. So where the
fields of a struct mention an instance of another one, an instance of the struct mentions that
instance with the arguments that are substituted into. -/
theorem substitute_substitute (xs ys : List Ty) :
    (∀ t : Ty, t.Supplied xs.length →
      (t.substitute xs).substitute ys = t.substitute (xs.map (Ty.substitute ys))) ∧
    ∀ a : Adt Ty, (∀ f ∈ a.fields, f.ty.Supplied xs.length) →
      (Ty.adt (a.instantiate xs)).substitute ys = .adt (a.instantiate (xs.map (Ty.substitute ys))) ∧
      ∀ (s : Adt Ty) (i : Nat) (f : Field Ty), s.fields[i]? = some f →
        .adt (a.instantiate xs) ∈ f.ty.nodes →
        ∃ u, (s.instantiate ys).fields[i]? = some ⟨f.name, u, f.index⟩ ∧
          .adt (a.instantiate (xs.map (Ty.substitute ys))) ∈ u.nodes := by
  refine ⟨fun t ht => ht.substitute_comp ys, fun a ha => ?_⟩
  have hinstance := substitute_instantiate ha ys
  refine ⟨hinstance, fun s i f hf hmem => ⟨f.ty.substitute ys, ?_, ?_⟩⟩
  · simp [Adt.instantiate, hf, Field.map]
  · rw [← hinstance]
    exact rewrite_mem_nodes hmem

/-- A struct over `T` and `U` whose field takes a pair of `U` and of a function of `T`. The parameters
of the pair bear the same positions, and a variable comes with the arguments. -/
theorem substitute_substitute_nested :
    let pair : Adt Ty := ⟨1, "Pair", .named, [⟨"a", .param ⟨0, "A"⟩, 0⟩,
      ⟨"b", .fn [.param ⟨1, "B"⟩] (.param ⟨0, "A"⟩), 1⟩], [⟨0, "A"⟩, ⟨1, "B"⟩], none⟩
    let xs : List Ty := [.param ⟨1, "U"⟩, .fn [.param ⟨0, "T"⟩] (.infer .integral 4)]
    let holder : Adt Ty := ⟨2, "Holder", .tuple, [⟨"0", .fn [.adt (pair.instantiate xs)] .unit, 0⟩],
      [⟨0, "T"⟩, ⟨1, "U"⟩], none⟩
    let ys : List Ty := [.prim .bool, .infer .general 3]
    let zs : List Ty := [.infer .general 3, .fn [.prim .bool] (.infer .integral 4)]
    ((Ty.adt pair).substitute xs).substitute ys = (Ty.adt pair).substitute zs ∧
      (Ty.adt (pair.instantiate xs)).substitute ys = .adt (pair.instantiate zs) ∧
      ∃ u, (holder.instantiate ys).fields[0]? = some ⟨"0", u, 0⟩ ∧ .adt (pair.instantiate zs) ∈ u.nodes := by
  intro pair xs holder ys zs
  obtain ⟨hcompose, hinstance⟩ := substitute_substitute xs ys
  have hfields : ∀ f ∈ pair.fields, f.ty.Supplied xs.length := by decide
  have hmem : .adt (pair.instantiate xs) ∈ (Ty.fn [.adt (pair.instantiate xs)] .unit).nodes :=
    mem_nodes_of_part List.mem_cons_self (self_mem_nodes _)
  exact ⟨hcompose (.adt pair) (by decide), (hinstance pair hfields).1,
    (hinstance pair hfields).2 holder 0 _ rfl hmem⟩

end Ty

end TypeInference

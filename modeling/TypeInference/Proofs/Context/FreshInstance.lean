import TypeInference.Proofs.Context.Created
import TypeInference.Proofs.Ty.CommonType

/-!
# Fresh instances are most general

A fresh instance has new variables where any other instance of the declaration
has its arguments. So the two unify to the other instance, and each step of the
solver binds a new variable to its argument, which is resolved already, or finds
it bound to it: nothing is learned about older variables.
-/

namespace TypeInference

open Ty

/-! ## Types and their instances -/

namespace Ty

variable {n : Nat} {args : List Ty} {t u : Ty} {var : VarKind → VarId → Ty}

theorem Old.substitute (ht : t.Old n) (hargs : ∀ u ∈ args, u.Old n) : (t.substitute args).Old n := by
  refine every_rewrite (isLocal_isOld n) (fun u hu _ => ht u hu) (fun k v hv => every_leaf (ht _ hv) rfl)
    fun p _ => ?_
  by_cases hp : p.index < args.length
  · rw [argFor_eq hp]
    exact hargs _ (List.getElem_mem hp)
  · rw [argFor, List.getElem?_eq_none (Nat.le_of_not_lt hp)]
    exact every_leaf trivial rfl

theorem Old.instantiate {a : Adt Ty} (ha : (Ty.adt a).Old n) (hargs : ∀ u ∈ args, u.Old n) :
    (Ty.adt (a.instantiate args)).Old n := by
  refine every_iff.2 ⟨trivial, fun p hp => ?_⟩
  rcases List.mem_append.1 hp with hp | hp
  · obtain ⟨_, hg, rfl⟩ := List.mem_map.1 hp
    obtain ⟨f, hf, rfl⟩ := List.mem_map.1 hg
    have hfield : f.ty.Old n := ha.part (List.mem_append_left _ (List.mem_map_of_mem hf))
    exact hfield.substitute hargs
  · exact hargs p hp

/-- The second type is the first one with arguments for the variables from the `n`-th on. -/
inductive Generalizes (n : Nat) (args : List Ty) : Ty → Ty → Prop where
  | same (t : Ty) : Generalizes n args t t
  | fresh {i : Nat} {u : Ty} (h : args[i]? = some u) : Generalizes n args (.infer .general (n + i)) u
  | node {t u : Ty} (hsettled : t.isSettled) (hhead : t.head = u.head) (hshape : t.shape? = u.shape?)
      (hparts : ∀ (i : Nat) p q, t.parts[i]? = some p → u.parts[i]? = some q → Generalizes n args p q) :
      Generalizes n args t u

/-- A variable unifies with every type over older variables, on either side, to that type. -/
theorem unify_infer_of_old (hu : u.Old n) {v : VarId} (hv : n ≤ v) :
    unify (.infer .general v) u = .ok u ∧ unify u (.infer .general v) = .ok u := by
  have habsorb (e : UnifyError) : absorb .general v u e = .ok u :=
    absorb_eq_ok_iff.2 ⟨rfl, hu.hasVar_eq_false hv, rfl⟩
  have hleft : unify (.infer .general v) u = .ok u := by
    rcases isSettled_or u with rfl | ⟨l, w, rfl⟩ | hsettled
    · exact unify_of_error (.inr rfl)
    · cases l with
      | general =>
          have hw : w ≤ v := Nat.le_trans (Nat.le_of_lt hu.root) hv
          simp [unify, unifyVars, Nat.min_eq_right hw]
      | integral | float =>
          rw [unify, unifyVars, if_neg (by decide), if_pos rfl]
          exact habsorb _
    · rw [unify_infer_left hsettled, habsorb]
  refine ⟨hleft, ?_⟩
  rw [unify_swap_of_leaf (.inl rfl), hleft]
  rfl

/-- A more general type unifies with its instance to the instance, on either side. -/
theorem Generalizes.unify (hargs : ∀ u ∈ args, u.Old n) (h : Generalizes n args t u) :
    Ty.unify t u = .ok u ∧ Ty.unify u t = .ok u := by
  induction h with
  | same t => exact ⟨unify_self t, unify_self t⟩
  | fresh h => exact unify_infer_of_old (hargs _ (List.mem_of_getElem? h)) (Nat.le_add_right _ _)
  | @node t u hsettled hhead hshape _ ih =>
      constructor
      · refine unify_eq_of_parts hsettled hhead hhead.symm hshape.symm fun i p q r hp hq hr => ?_
        obtain rfl : q = r := Option.some.inj (hq.symm.trans hr)
        exact (ih i p q hp hq).1
      · refine unify_eq_of_parts ((isSettled_of_head hhead).symm.trans hsettled) hhead.symm rfl rfl
          fun i q p r hq hp hr => ?_
        obtain rfl : q = r := Option.some.inj (hq.symm.trans hr)
        exact (ih i p q hp hq).2

/-- Types that are made from one type are as general as what is put in the places of parameters. -/
theorem generalizes_rewrite {f g : Param → Ty} (h : ∀ p, Generalizes n args (f p) (g p)) (t : Ty) :
    Generalizes n args (t.rewrite var f) (t.rewrite var g) := by
  induction t using parts_induct with
  | step t ih =>
      have hroot : t.IsFixed → t.isSettled → Generalizes n args (t.rewrite var f) (t.rewrite var g) := by
        intro hfixed hsettled
        refine .node ((isSettled_of_head (head_rewrite hfixed)).trans hsettled)
          ((head_rewrite hfixed).trans (head_rewrite hfixed).symm)
          ((shape_rewrite hfixed).trans (shape_rewrite hfixed).symm) fun i p q hp hq => ?_
        rw [parts_rewrite hfixed, List.getElem?_map, Option.map_eq_some_iff] at hp hq
        obtain ⟨r, hr, rfl⟩ := hp
        obtain ⟨r', hr', rfl⟩ := hq
        obtain rfl : r = r' := Option.some.inj (hr.symm.trans hr')
        exact ih r (List.mem_of_getElem? hr)
      cases t with
      | error => exact .same _
      | infer k v => exact .same _
      | param p => exact h p
      | _ => exact hroot trivial rfl

end Ty

/-- The instance of a declaration with `n` parameters for which the arguments are still open. -/
def Adt.template (a : Adt Ty) (n : Nat) : Ty :=
  .adt { a with args := some ((List.range n).map fun i => .param ⟨i, ""⟩) }

theorem Adt.instantiate_eq_substitute (a : Adt Ty) (args : List Ty) :
    Ty.adt (a.instantiate args) = (a.template args.length).substitute args := by
  have hargs : (List.range args.length).map (substitute args ∘ fun i => .param ⟨i, ""⟩) = args := by
    refine List.ext_getElem (by simp) fun i hi hi' => ?_
    simp [List.getElem?_eq_getElem hi']
  simp [Adt.template, Adt.instantiate, Adt.map, hargs]

/-! ## Bindings of new variables -/

namespace Bindings

variable {start b : Bindings} {n : Nat} {args : List Ty}

/-- The variables for the parameters of a declaration generalize all arguments. -/
theorem generalizes_instantiate (hb : b.Old n) (a : Adt Ty) (args : List Ty) :
    Generalizes n (args.map b.resolve)
      (b.resolve (.adt (a.instantiate ((List.range args.length).map fun i => .infer .general (n + i)))))
      (b.resolve (.adt (a.instantiate args))) := by
  have hresolve (xs : List Ty) (t : Ty) : b.resolve (t.substitute xs) =
      t.rewrite (chase b.solved) fun p => b.resolve (argFor xs p) := rewrite_rewrite ..
  rw [Adt.instantiate_eq_substitute, Adt.instantiate_eq_substitute, List.length_map, List.length_range,
    hresolve, hresolve]
  refine generalizes_rewrite (fun p => ?_) _
  by_cases hp : p.index < args.length
  · rw [argFor_eq (by simpa using hp), argFor_eq hp, List.getElem_map, List.getElem_range,
      resolve_infer_of_unbound (hb.unbound (Nat.le_add_right n p.index))]
    exact .fresh (by rw [List.getElem?_map, List.getElem?_eq_getElem hp, Option.map_some])
  · have hnone : args.length ≤ p.index := Nat.le_of_not_lt hp
    rw [argFor, argFor, List.getElem?_eq_none (by simpa using hnone), List.getElem?_eq_none hnone]
    exact .same _

/-- Bindings in which older variables stand for the same as at the start, and newer ones for
themselves or for these arguments. -/
structure Fills (start : Bindings) (n : Nat) (args : List Ty) (b : Bindings) : Prop where
  kept : ∀ t : Ty, t.Old n → b.resolve t = start.resolve t
  filled : ∀ i u, args[i]? = some u →
    b.resolve (.infer .general (n + i)) = .infer .general (n + i) ∨
      b.resolve (.infer .general (n + i)) = u

theorem Fills.refl (hstart : start.Old n) (args : List Ty) : start.Fills n args start where
  kept _ _ := rfl
  filled i _ _ := .inl (resolve_infer_of_unbound (hstart.unbound (Nat.le_add_right n i)) _)

/-- An argument takes the place of its variable. -/
theorem Fills.assign (hstart : start.Old n) (hargs : ∀ u ∈ args, u.Old n) (h : start.Fills n args b)
    {i : Nat} (hu : args[i]? = some u)
    (hunbound : b.resolve (.infer .general (n + i)) = .infer .general (n + i)) :
    start.Fills n args (b.assign (n + i) u) where
  kept t ht := by
    rw [resolve_assign, h.kept t ht]
    exact Solve.rewrite_point ((hstart.resolve ht).hasVar_eq_false (Nat.le_add_right n i))
  filled j w hw := by
    rw [resolve_assign]
    rcases h.filled j w hw with hself | hfilled
    · rw [hself, rewrite_infer, point]
      split
      · rename_i hji
        obtain rfl : j = i := Nat.add_left_cancel hji
        exact .inr (Option.some.inj (hu.symm.trans hw))
      · exact .inl rfl
    · have hold : w.Old n := hargs w (List.mem_of_getElem? hw)
      rw [hfilled, Solve.rewrite_point (hold.hasVar_eq_false (Nat.le_add_right n i))]
      exact .inr rfl

end Bindings

/-! ## Walks that bind new variables only -/

namespace Solve

open Bindings

variable {I : Bindings → Prop} {merge : Ty → Ty → Solve Unit} {start : Bindings} {n : Nat}
  {args : List Ty} {t u c : Ty}

/-- Whether the computation succeeds wherever the property holds, and keeps it. -/
def Achieves (I : Bindings → Prop) (x : Solve Unit) : Prop :=
  ∀ b : Bindings, I b → ∃ b', perform x b = (.ok (), b') ∧ I b'

theorem achieves_pure : Achieves I (pure ()) := fun b hb => ⟨b, rfl, hb⟩

theorem Achieves.next {x y : Solve Unit} (hx : Achieves I x) (hy : Achieves I y) :
    Achieves I (do x; y) := by
  intro b hb
  obtain ⟨b₁, hfirst, hb₁⟩ := hx b hb
  obtain ⟨b₂, hrest, hb₂⟩ := hy b₁ hb₁
  exact ⟨b₂, (perform_bind_of_ok hfirst _).trans hrest, hb₂⟩

/-- A type walked beside itself has nothing to bind. -/
theorem achieves_walk_self (t : Ty) : Achieves I (walk merge t t) := by
  induction t using parts_induct with
  | step t ih =>
      rcases isSettled_or t with rfl | ⟨k, v, rfl⟩ | hsettled
      · rw [walk_error]
        exact achieves_pure
      · rw [walk_infer (by simp)]
        intro b hb
        exact ⟨b, by simp only [bindVar, perform_bind, perform_get, if_true, perform_pure], hb⟩
      · rw [walk_eq_parts hsettled rfl]
        refine walkList_of_forall achieves_pure (fun _ _ => Achieves.next) fun i p q hp hq => ?_
        obtain rfl : p = q := Option.some.inj (hp.symm.trans hq)
        exact ih p (List.mem_of_getElem? hp)

/-- A type walked beside its instance has its variables bound to their arguments. -/
theorem achieves_walk (hstart : start.Old n) (hargs : ∀ u ∈ args, u.Old n)
    (hresolved : ∀ u ∈ args, start.resolve u = u) (h : Generalizes n args t u) :
    Achieves (start.Fills n args) (walk merge t u) := by
  induction h with
  | same t => exact achieves_walk_self t
  | @fresh i u hu =>
      have hmem := List.mem_of_getElem? hu
      by_cases herror : u = .error
      · rw [herror, walk_error]
        exact achieves_pure
      · rw [walk_infer herror]
        intro b hb
        have htarget : b.resolve u = u := (hb.kept u (hargs u hmem)).trans (hresolved u hmem)
        simp only [bindVar, perform_bind, perform_get, htarget]
        by_cases hsame : b.resolve (.infer .general (n + i)) = u
        · exact ⟨b, by rw [if_pos hsame]; rfl, hb⟩
        · have hunbound := (hb.filled i u hu).resolve_right hsame
          have hoccurs := (hargs u hmem).hasVar_eq_false (Nat.le_add_right n i)
          refine ⟨b.assign (n + i) u, ?_, hb.assign hstart hargs hu hunbound⟩
          rw [if_neg hsame, if_pos hunbound, if_neg (by simp [hoccurs])]
          rfl
  | node hsettled hhead _ _ ih =>
      rw [walk_eq_parts hsettled hhead]
      exact walkList_of_forall achieves_pure (fun _ _ => Achieves.next) ih

/-- Two types unify to their common type if the walks beside it succeed. -/
theorem unify_of_walks {b : Bindings} (hc : Ty.unify (b.resolve t) (b.resolve u) = .ok c)
    (ht : ∀ merge, Achieves I (walk merge (b.resolve t) c))
    (hu : ∀ merge, Achieves I (walk merge (b.resolve u) c)) (hb : I b) :
    ∃ b', perform (unify t u) b = (.ok (b'.resolve c), b') ∧ I b' := by
  obtain ⟨b₁, hleft, hb₁⟩ := ht (fun x y => discard (meet b.free x y)) b hb
  obtain ⟨b₂, hright, hb₂⟩ := hu (fun x y => discard (meet b.free x y)) b₁ hb₁
  have hmeet : perform (meet (b.free + 1) (b.resolve t) (b.resolve u)) b = (.ok c, b₂) := by
    rw [meet, perform_bind, perform_ofExcept, hc]
    simp only
    rw [perform_bind_of_ok hleft, perform_bind_of_ok hright]
    rfl
  refine ⟨b₂, ?_, hb₂⟩
  rw [unify, perform_bind, perform_get]
  simp only
  rw [perform_bind_of_ok hmeet]
  rfl

end Solve

/-! ## Instances of a declaration -/

/-- Whether the function puts the arguments in the places of the parameters, at any depth. A parameter
without an argument stays. -/
structure Ty.Replaces (args : List Ty) (f : Ty → Ty) : Prop where
  given : ∀ p t, args[p.index]? = some t → f (.param p) = t
  missing : ∀ p, args[p.index]? = none → f (.param p) = .param p
  error : f .error = .error
  infer : ∀ k v, f (.infer k v) = .infer k v
  unit : f .unit = .unit
  prim : ∀ q, f (.prim q) = .prim q
  fn : ∀ ps r, f (.fn ps r) = .fn (ps.map f) (f r)
  adt : ∀ a, f (.adt a) = .adt (a.map f)

/-- Whether the second struct is the first one with the arguments recorded, and put in the places of
the parameters in every field. -/
def Adt.InstanceOf (d : Adt Ty) (args : List Ty) (a : Adt Ty) : Prop :=
  ∃ f, Ty.Replaces args f ∧ a = { d with fields := d.fields.map (Field.map f), args := some args }

theorem Ty.replaces_substitute (args : List Ty) : Replaces args (substitute args) where
  given p t h := by rw [substitute_param, h, Option.getD_some]
  missing p h := by rw [substitute_param, h, Option.getD_none]
  error := rfl
  infer _ _ := rfl
  unit := rfl
  prim _ := rfl
  fn := substitute_fn args
  adt := substitute_adt args

theorem Adt.instanceOf_instantiate (d : Adt Ty) (args : List Ty) :
    d.InstanceOf args (d.instantiate args) :=
  ⟨substitute args, replaces_substitute args, rfl⟩

/-! ## Fresh instances -/

namespace Context

variable {c : Context} {n : Nat} {args : List Ty} {a b t u : Ty}

/-- Whether two types unify to a third one and nothing is learned about the first `n` variables. -/
structure UnifyTo (c : Context) (n : Nat) (a b t : Ty) : Prop where
  result : (c.unify a b).1 = .ok t
  kept : ∀ k v, v < n → (c.unify a b).2.resolve (.infer k v) = c.resolve (.infer k v)

theorem unifyTo_of_fills (htidy : c.bindings.Tidy) (ht : (c.resolve t).Old n) {b' : Bindings}
    (hrun : Solve.perform (Solve.unify a b) c.bindings = (.ok (b'.resolve (c.resolve t)), b'))
    (hfills : c.bindings.Fills n args b') : c.UnifyTo n a b (c.resolve t) where
  result := by
    refine (congrArg Prod.fst hrun).trans (congrArg Except.ok ?_)
    exact (hfills.kept _ ht).trans (htidy.resolve_resolve t)
  kept k v hv := by
    refine Eq.trans ?_ (hfills.kept (.infer k v) (every_leaf hv rfl))
    exact congrArg (fun r => Bindings.resolve r.2 (.infer k v)) hrun

/-- A more general type and its instance unify to the resolved instance, on either side. -/
theorem unifyTo_of_generalizes (hc : c.bindings.Old n) (htidy : c.bindings.Tidy)
    (hargs : ∀ v ∈ args, v.Old n) (hresolved : ∀ v ∈ args, c.resolve v = v) (hu : u.Old n)
    (h : Generalizes n args (c.resolve t) (c.resolve u)) :
    c.UnifyTo n t u (c.resolve u) ∧ c.UnifyTo n u t (c.resolve u) := by
  have hwalk (merge) : Solve.Achieves (c.bindings.Fills n args)
      (Solve.walk merge (c.resolve t) (c.resolve u)) := Solve.achieves_walk hc hargs hresolved h
  have hself (merge) : Solve.Achieves (c.bindings.Fills n args)
      (Solve.walk merge (c.resolve u) (c.resolve u)) := Solve.achieves_walk_self _
  obtain ⟨b₁, hrun₁, hfills₁⟩ := Solve.unify_of_walks (h.unify hargs).1 hwalk hself (.refl hc args)
  obtain ⟨b₂, hrun₂, hfills₂⟩ := Solve.unify_of_walks (h.unify hargs).2 hself hwalk (.refl hc args)
  exact ⟨unifyTo_of_fills htidy (hc.resolve hu) hrun₁ hfills₁,
    unifyTo_of_fills htidy (hc.resolve hu) hrun₂ hfills₂⟩

/-- A fresh instance is the most general one: with any other instance it unifies to that instance,
in either order, and no older variable is touched. -/
theorem Arises.unify_freshInstance (h : c.Arises) {d : Adt Ty} (hgeneric : d.isGeneric = true)
    (hd : (Ty.adt d).Old c.bindings.count) (hargs : ∀ t ∈ args, t.Old c.bindings.count)
    (hlen : args.length = d.params.length) :
    ∃ explicit, d.apply args = .ok explicit ∧ d.InstanceOf args explicit ∧
      let (fresh, c') := c.freshInstance d
      d.InstanceOf ((List.range args.length).map fun i => .infer .general (c.bindings.count + i))
          fresh ∧
        c'.UnifyTo c.bindings.count (.adt fresh) (.adt explicit) (c.resolve (.adt explicit)) ∧
        c'.UnifyTo c.bindings.count (.adt explicit) (.adt fresh) (c.resolve (.adt explicit)) := by
  refine ⟨d.instantiate args, by simp [Adt.apply, hgeneric, hlen], d.instanceOf_instantiate args, ?_⟩
  have hold : ∀ t ∈ args.map c.resolve, t.Old c.bindings.count :=
    List.forall_mem_map.2 fun t ht => h.old.resolve (hargs t ht)
  have hresolved : ∀ t ∈ args.map c.resolve, c.resolve t = t :=
    List.forall_mem_map.2 fun t _ => h.tidy.resolve_resolve t
  rw [freshInstance_of_isGeneric hgeneric, ← hlen]
  refine ⟨d.instanceOf_instantiate _, ?_⟩
  exact unifyTo_of_generalizes h.old h.tidy hold hresolved (hd.instantiate hargs)
    (Bindings.generalizes_instantiate h.old d args)

/-- Both parameters occur twice, and the arguments mention a bound variable and two unbound ones. -/
theorem Arises.unify_freshInstance_repeated :
    let c := (((bare.newVar .general).2.newVar .integral).2.newVar .general).2.unify
      (.infer .general 0) (.fn [.infer .integral 1] .unit) |>.2
    let d : Adt Ty := ⟨7, "Pair", .named,
      [⟨"f", .fn [.param ⟨0, "A"⟩] (.param ⟨1, "B"⟩), 0⟩,
        ⟨"g", .fn [.param ⟨1, "B"⟩] (.param ⟨0, "A"⟩), 1⟩],
      [⟨0, "A"⟩, ⟨1, "B"⟩], none⟩
    let args := [.fn [.infer .general 2] (.infer .general 0), .infer .integral 1]
    c.resolve (.infer .general 0) = .fn [.infer .integral 1] .unit ∧
      ∃ explicit, d.apply args = .ok explicit ∧ d.InstanceOf args explicit ∧
        let (fresh, c') := c.freshInstance d
        d.InstanceOf [.infer .general 3, .infer .general 4] fresh ∧
          c'.UnifyTo 3 (.adt fresh) (.adt explicit) (c.resolve (.adt explicit)) ∧
          c'.UnifyTo 3 (.adt explicit) (.adt fresh) (c.resolve (.adt explicit)) := by
  intro c d args
  have hc : c.Arises :=
    .unify (.newVar (.newVar (.newVar (.new []) .general) .integral) .general) (by decide) (by decide)
  exact ⟨rfl, Arises.unify_freshInstance hc rfl (by decide) (by decide) rfl⟩

end Context

end TypeInference

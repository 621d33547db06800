import TypeInference.Context.Basic
import TypeInference.Proofs.Context.Closed
import TypeInference.Proofs.Context.Descent
import TypeInference.Proofs.Context.MostGeneral
import TypeInference.Proofs.Ty.Shift

/-!
# Solving on top of other bindings

Bindings of other variables, made before, do not change what solving does: the
variables have higher numbers and the new bindings come after the old ones, and
everything else is the same.
-/

namespace TypeInference

open Ty

inductive Both {ε α : Type} (E : ε → ε → Prop) (R : α → α → Prop) :
    Except ε α → Except ε α → Prop where
  | ok {a a' : α} (h : R a a') : Both E R (.ok a) (.ok a')
  | error {e e' : ε} (h : E e e') : Both E R (.error e) (.error e')

theorem Both.map {ε α β : Type} {E : ε → ε → Prop} {R : α → α → Prop} {Q : β → β → Prop}
    {x x' : Except ε α} {f g : α → β} (h : Both E R x x') (hfg : ∀ a a', R a a' → Q (f a) (g a')) :
    Both E Q (x.map f) (x'.map g) := by
  cases h with
  | ok h => exact .ok (hfg _ _ h)
  | error h => exact .error h

theorem Both.eq_ok_iff {ε : Type} {E : ε → ε → Prop} {R : Unit → Unit → Prop} {x x' : Except ε Unit}
    (h : Both E R x x') : x' = .ok () ↔ x = .ok () := by
  cases h with
  | ok => exact Iff.rfl
  | error => simp

namespace Bindings

def onTop (past b : Bindings) : Bindings where
  count := b.count + past.count
  solved := past.solved ++ b.solved.map fun p => (p.1 + past.count, p.2.shift past.count)

structure Bounded (b : Bindings) : Prop where
  lt_count : ∀ p ∈ b.solved, p.1 < b.count
  length_le : b.solved.length ≤ b.count

@[simp] theorem onTop_empty (past : Bindings) : past.onTop empty = past := by
  simp [onTop, empty]

variable {kinds : List VarKind} {past b : Bindings}

theorem Valid.bounded (hb : b.Valid kinds) : b.Bounded := by
  have hlt : ∀ v ∈ b.solved.map Prod.fst, v < b.count := fun v hv => hb.lt_of_bound v (isBound_iff.2 hv)
  refine ⟨fun p hp => hlt p.1 (List.mem_map_of_mem hp), ?_⟩
  have hle := (List.subperm_of_subset hb.nodup fun v hv => List.mem_range.2 (hlt v hv)).length_le
  simpa using hle

theorem chase_shift (n : Nat) (solved : List (VarId × Ty)) (k : VarKind) (v : VarId) :
    chase (solved.map fun p => (p.1 + n, p.2.shift n)) k (v + n) = (chase solved k v).shift n := by
  induction solved generalizing k v with
  | nil => rfl
  | cons p later ih =>
      obtain ⟨w, t⟩ := p
      by_cases h : v = w
      · simp only [List.map_cons, chase, if_pos h, if_pos (congrArg (· + n) h)]
        rw [shift, shift, rewrite_rewrite, rewrite_rewrite]
        exact rewrite_congr (fun l x _ => ih l x) fun _ _ => rfl
      · have hne : v + n ≠ w + n := fun heq => h (Nat.add_right_cancel heq)
        simp only [List.map_cons, chase, if_neg h, if_neg hne]
        exact ih k v

/-- What a variable stands for under some bindings is read on under the later ones. -/
theorem chase_append_later (solved later : List (VarId × Ty)) (k : VarKind) (v : VarId) :
    chase (solved ++ later) k v = (chase solved k v).rewrite (chase later) .param := by
  induction solved generalizing k v with
  | nil => rfl
  | cons p solved ih =>
      obtain ⟨w, t⟩ := p
      by_cases h : v = w
      · rw [List.cons_append, chase, chase, if_pos h, if_pos h, rewrite_rewrite]
        exact rewrite_congr (fun l x _ => ih l x) fun _ _ => rfl
      · rw [List.cons_append, chase, chase, if_neg h, if_neg h]
        exact ih k v

variable (hpast : past.Bounded)
include hpast

/-- Past bindings have no part in resolving types over later variables. -/
theorem resolve_onTop (b : Bindings) (t : Ty) :
    (past.onTop b).resolve (t.shift past.count) = (b.resolve t).shift past.count := by
  rw [resolve, resolve, shift, shift, rewrite_rewrite, rewrite_rewrite]
  refine rewrite_congr (fun k v _ => ?_) fun _ _ => rfl
  have hold : chase past.solved k (v + past.count) = .infer k (v + past.count) :=
    chase_of_not_bound (fun p hp => Nat.ne_of_lt
      (Nat.lt_of_lt_of_le (hpast.lt_count p hp) (Nat.le_add_left _ _))) k
  refine (chase_append_later past.solved _ k _).trans ?_
  rw [hold]
  exact chase_shift past.count b.solved k v

omit hpast in
/-- Later variables have no part in resolving types over past ones. -/
theorem resolve_onTop_of_lt (b : Bindings) {t : Ty}
    (ht : ∀ v, (past.resolve t).hasVar v → v < past.count) :
    (past.onTop b).resolve t = past.resolve t := by
  have hlater : (past.onTop b).resolve t = (past.resolve t).rewrite
      (chase (b.solved.map fun p => (p.1 + past.count, p.2.shift past.count))) .param := by
    rw [resolve, resolve, rewrite_rewrite]
    exact rewrite_congr (fun k v _ => chase_append_later past.solved _ k v) fun _ _ => rfl
  rw [hlater]
  refine Eq.trans (rewrite_congr (fun k v hkv => ?_) fun _ _ => rfl) (rewrite_id _)
  have hlt := ht v (hasVar_iff.2 ⟨k, infer_mem_nodes.2 hkv⟩)
  refine chase_of_not_bound (fun p hp => ?_) k
  obtain ⟨q, -, rfl⟩ := List.mem_map.1 hp
  exact Nat.ne_of_gt (Nat.lt_of_lt_of_le hlt (Nat.le_add_left _ _))

omit hpast in
theorem onTop_assign (b : Bindings) (v : VarId) (t : Ty) :
    (past.onTop b).assign (v + past.count) (t.shift past.count) = past.onTop (b.assign v t) := by
  simp [Bindings.onTop, assign]

theorem free_le_onTop (b : Bindings) : b.free ≤ (past.onTop b).free := by
  have := hpast.length_le
  simp only [free, Bindings.onTop, List.length_append, List.length_map]
  omega

end Bindings

namespace Solve

open Bindings

variable {α β : Type} {kinds : List VarKind} {past b : Bindings} {R : α → α → Prop}
  {Q : β → β → Prop} {merge merge' : Ty → Ty → Solve Unit} {t u : Ty}

/-- What two runs have in common, the second of which takes place on top of past bindings. -/
structure Mirrored (past : Bindings) (R : α → α → Prop)
    (run run' : Except UnifyError α × Bindings) : Prop where
  bindings : run'.2 = past.onTop run.2
  result : Both (fun _ _ => True) R run.1 run'.1

/-- Whether the second computation does on top of the past bindings what the first one does. -/
def Mirrors (past : Bindings) (x y : Solve α) (R : α → α → Prop) : Prop :=
  ∀ b, Mirrored past R (perform x b) (perform y (past.onTop b))

theorem mirrors_pure {a a' : α} (h : R a a') : Mirrors past (pure a) (pure a') R :=
  fun _ => ⟨rfl, .ok h⟩

theorem Mirrored.bind {x y : Solve α} {f g : α → Solve β} {b : Bindings}
    (h : Mirrored past R (perform x b) (perform y (past.onTop b)))
    (hf : ∀ a a', R a a' → Mirrors past (f a) (g a') Q) :
    Mirrored past Q (perform (x >>= f) b) (perform (y >>= g) (past.onTop b)) := by
  obtain ⟨hbindings, hresult⟩ := h
  rw [perform_bind, perform_bind]
  rcases hx : perform x b with ⟨r, b₁⟩
  rcases hy : perform y (past.onTop b) with ⟨r', b₁'⟩
  rw [hx, hy] at hbindings hresult
  obtain rfl : b₁' = past.onTop b₁ := hbindings
  cases hresult with
  | ok h => exact hf _ _ h b₁
  | error h => exact ⟨rfl, .error h⟩

theorem Mirrors.bind {x y : Solve α} {f g : α → Solve β} (h : Mirrors past x y R)
    (hf : ∀ a a', R a a' → Mirrors past (f a) (g a') Q) :
    Mirrors past (x >>= f) (y >>= g) Q := fun b => (h b).bind hf

theorem mirrors_bindVar (hpast : past.Bounded)
    (hmerge : ∀ t u : Ty, Mirrors past (merge t u)
      (merge' (t.shift past.count) (u.shift past.count)) fun _ _ => True)
    (k : VarKind) (v : VarId) (u : Ty) :
    Mirrors past (bindVar merge k v u)
      (bindVar merge' k (v + past.count) (u.shift past.count)) fun _ _ => True := by
  intro b
  have hv : (past.onTop b).resolve (.infer k (v + past.count)) =
      (b.resolve (.infer k v)).shift past.count := resolve_onTop hpast b (.infer k v)
  have hself : (b.resolve (.infer k v)).shift past.count = .infer k (v + past.count) ↔
      b.resolve (.infer k v) = .infer k v := shift_inj past.count (u := .infer k v)
  simp only [bindVar, perform_bind, perform_get, hv, resolve_onTop hpast b u, shift_inj, hself,
    hasVar_shift]
  split
  · exact mirrors_pure trivial b
  · split
    · split
      · exact ⟨rfl, .error trivial⟩
      · exact ⟨onTop_assign b v _, .ok trivial⟩
    · exact hmerge _ _ b

theorem mirrors_walkList {ts us : List Ty}
    (h : ∀ (i : Nat) t u, ts[i]? = some t → us[i]? = some u → Mirrors past (walk merge t u)
      (walk merge' (t.shift past.count) (u.shift past.count)) fun _ _ => True) :
    Mirrors past (walkList merge ts us)
      (walkList merge' (ts.map (shift past.count)) (us.map (shift past.count))) fun _ _ => True := by
  induction ts generalizing us with
  | nil =>
      simp only [walkList, List.map_nil]
      exact mirrors_pure trivial
  | cons t ts ih =>
      cases us with
      | nil =>
          simp only [walkList, List.map_nil, List.map_cons]
          exact mirrors_pure trivial
      | cons u us =>
          simp only [walkList, List.map_cons]
          exact (h 0 t u rfl rfl).bind fun _ _ _ => ih fun i t' u' ht hu => h (i + 1) t' u' ht hu

theorem mirrors_walk (hpast : past.Bounded)
    (hmerge : ∀ t u : Ty, Mirrors past (merge t u)
      (merge' (t.shift past.count) (u.shift past.count)) fun _ _ => True) (h : Refines t u) :
    Mirrors past (walk merge t u)
      (walk merge' (t.shift past.count) (u.shift past.count)) fun _ _ => True := by
  induction h with
  | error =>
      rw [shift_error, walk_error, walk_error]
      exact mirrors_pure trivial
  | @var k v u hne _ _ =>
      rw [shift_infer, walk_infer hne, walk_infer ((shift_inj past.count (u := .error)).not.2 hne)]
      exact mirrors_bindVar hpast hmerge k v u
  | @node t u hsettled hhead _ ih =>
      obtain ⟨hheadt, -, hpartst⟩ := root_shift past.count hsettled
      obtain ⟨hheadu, -, hpartsu⟩ :=
        root_shift past.count ((isSettled_of_head hhead).symm.trans hsettled)
      rw [walk_eq_parts hsettled hhead, walk_eq_parts (by simpa using hsettled)
        (by rw [hheadt, hheadu, hhead]), hpartst, hpartsu]
      exact mirrors_walkList ih

theorem mirrors_meet (hpast : past.Bounded) (depth : Nat) (t u : Ty) :
    Mirrors past (meet depth t u) (meet depth (t.shift past.count) (u.shift past.count))
      fun c c' => c' = c.shift past.count := by
  induction depth generalizing t u with
  | zero => exact fun b => ⟨rfl, .error trivial⟩
  | succ depth ih =>
      rw [meet, meet]
      have hunify : Mirrors past (ofExcept (Ty.unify t u))
          (ofExcept (Ty.unify (t.shift past.count) (u.shift past.count)))
          fun c c' => c' = c.shift past.count ∧ Refines t c ∧ Refines u c := by
        intro b
        refine ⟨rfl, ?_⟩
        rw [perform_ofExcept, perform_ofExcept]
        rcases hc : Ty.unify t u with e | c
        · rcases hd : Ty.unify (t.shift past.count) (u.shift past.count) with e' | d
          · exact .error trivial
          · obtain ⟨c, hc', -⟩ := unify_shift_eq_ok_iff.1 hd
            cases hc.symm.trans hc'
        · rw [unify_shift_eq_ok_iff.2 ⟨c, hc, rfl⟩]
          exact .ok ⟨rfl, refines_of_unify hc⟩
      have hmerge (x y : Ty) : Mirrors past (discard (meet depth x y))
          (discard (meet depth (x.shift past.count) (y.shift past.count))) fun _ _ => True :=
        (ih x y).bind fun _ _ _ => mirrors_pure trivial
      refine hunify.bind fun c c' hmerged => ?_
      obtain ⟨rfl, htc, huc⟩ := hmerged
      refine (mirrors_walk hpast hmerge htc).bind fun _ _ _ => ?_
      exact (mirrors_walk hpast hmerge huc).bind fun _ _ _ => mirrors_pure rfl

/-- A unification of later variables does the same on top of past bindings. -/
theorem mirrored_unify (hpast : past.Bounded) (hb : b.Valid kinds) (ht : t.WellKinded kinds)
    (hu : u.WellKinded kinds) :
    Mirrored past (fun c c' => c' = c.shift past.count) (perform (unify t u) b)
      (perform (unify (t.shift past.count) (u.shift past.count)) (past.onTop b)) := by
  have hregular := hb.regular
  have hdepth := meet_eq_of_free_lt hregular (resolved_resolve hregular (hb.old ht))
    (resolved_resolve hregular (hb.old hu)) (Nat.lt_succ_of_le (free_le_onTop hpast b))
    (Nat.lt_succ_self b.free)
  have hmeet := mirrors_meet hpast ((past.onTop b).free + 1) (b.resolve t) (b.resolve u) b
  rw [hdepth] at hmeet
  rw [unify, unify, perform_bind, perform_bind, perform_get, perform_get]
  simp only [resolve_onTop hpast]
  refine hmeet.bind fun c c' hc b' => ?_
  subst hc
  exact ⟨rfl, .ok (resolve_onTop hpast b' c)⟩

theorem valid_unify (hb : b.Valid kinds) (ht : t.WellKinded kinds) (hu : u.WellKinded kinds) :
    (perform (unify t u) b).2.Valid kinds ∧
      ∀ c, (perform (unify t u) b).1 = .ok c → c.WellKinded kinds := by
  have hvalid := hb.steps (steps_unify isLocal_true (settled_resolve hb ht hu))
  refine ⟨hvalid, fun c hc => ?_⟩
  obtain ⟨r, hmeet, rfl⟩ := unify_eq_ok_iff.1 (Prod.ext hc rfl)
  exact resolve_wellKinded hvalid ((resolve_wellKinded hb ht).unify (isLocal_hasKind kinds)
    (resolve_wellKinded hb hu) (unify_of_meet hmeet))

end Solve

end TypeInference

import TypeInference.Context.Solve
import TypeInference.Proofs.Context.Growth

/-!
# Solving only binds

Every run of the solver, successful or not, is a sequence of steps that bind
one variable each. A walk beside a common type meets a variable only where the
common type is accepted by its kind.
-/

namespace TypeInference.Solve

open Ty Bindings

variable {α β : Type}

def perform (x : Solve α) (b : Bindings) : Except UnifyError α × Bindings := x.run.run b

@[simp] theorem perform_pure (a : α) (b : Bindings) : perform (pure a) b = (.ok a, b) := rfl

@[simp] theorem perform_throw (e : UnifyError) (b : Bindings) :
    perform (throw e : Solve α) b = (.error e, b) := rfl

@[simp] theorem perform_ofExcept (x : Except UnifyError α) (b : Bindings) :
    perform (ofExcept x) b = (x, b) := rfl

@[simp] theorem perform_get (b : Bindings) : perform get b = (.ok b, b) := rfl

@[simp] theorem perform_set (b b' : Bindings) : perform (set b') b = (.ok (), b') := rfl

theorem perform_bind (x : Solve α) (f : α → Solve β) (b : Bindings) :
    perform (x >>= f) b =
      match perform x b with
      | (.ok a, b) => perform (f a) b
      | (.error e, b) => (.error e, b) := by
  simp only [perform, ExceptT.run_bind, StateT.run_bind]
  rcases x.run.run b with ⟨a | e, b⟩ <;> rfl

theorem perform_bind_of_ok {x : Solve α} {b b' : Bindings} {a : α} (h : perform x b = (.ok a, b'))
    (f : α → Solve β) : perform (x >>= f) b = perform (f a) b' := by
  rw [perform_bind, h]

theorem perform_discard (x : Solve α) (b : Bindings) :
    perform (discard x) b = ((perform x b).1.map fun _ => (), (perform x b).2) := by
  rw [show perform (discard x) b = perform (x >>= fun _ => pure ()) b from rfl, perform_bind]
  rcases perform x b with ⟨e | a, b'⟩ <;> rfl

/-! ## Walks by components -/

section

variable {merge : Ty → Ty → Solve Unit}

theorem walk_error (t : Ty) : walk merge t .error = pure () := by
  cases t with
  | adt a =>
      obtain ⟨d, n, k, fs, ps, args⟩ := a
      cases args <;> simp [walk]
  | _ => simp [walk]

theorem walk_infer {u : Ty} (hu : u ≠ .error) (k : VarKind) (v : VarId) :
    walk merge (.infer k v) u = bindVar merge k v u := by
  cases u with
  | error => exact (hu rfl).elim
  | _ => simp [walk]

theorem walkFields_eq (fs gs : List (Field Ty)) :
    walkFields merge fs gs = walkList merge (fs.map Field.ty) (gs.map Field.ty) := by
  induction fs generalizing gs with
  | nil => simp [walkFields, walkList]
  | cons f fs ih => cases gs <;> simp [walkFields, walkList, ih]

theorem walkList_append {ts us ts' us' : List Ty} (hlen : ts.length = us.length) :
    walkList merge (ts ++ ts') (us ++ us') =
      (do walkList merge ts us; walkList merge ts' us') := by
  induction ts generalizing us with
  | nil =>
      cases us with
      | nil => simp [walkList]
      | cons u us => simp at hlen
  | cons t ts ih =>
      cases us with
      | nil => simp at hlen
      | cons u us => simp [walkList, @ih us (by simpa using hlen)]

/-- What one computation after the other has if both have it, a walk of lists has if the walks of their
members do. -/
theorem walkList_of_forall {C : Solve Unit → Prop} (hpure : C (pure ()))
    (hbind : ∀ x y : Solve Unit, C x → C y → C (do x; y)) {ts us : List Ty}
    (h : ∀ (i : Nat) t u, ts[i]? = some t → us[i]? = some u → C (walk merge t u)) :
    C (walkList merge ts us) := by
  induction ts generalizing us with
  | nil =>
      simp only [walkList]
      exact hpure
  | cons t ts ih =>
      cases us with
      | nil =>
          simp only [walkList]
          exact hpure
      | cons u us =>
          exact hbind _ _ (h 0 t u rfl rfl) (ih fun i t' u' ht hu => h (i + 1) t' u' ht hu)

/-- Two types with the same root are walked component by component. -/
theorem walk_eq_parts {t u : Ty} (ht : t.isSettled) (hhead : t.head = u.head) :
    walk merge t u = walkList merge t.parts u.parts := by
  cases t with
  | error => simp [isSettled] at ht
  | infer k v => simp [isSettled] at ht
  | fn ps r =>
      cases u with
      | fn qs s =>
          have hlen : ps.length = qs.length := by simpa [head] using hhead
          simp [walk, parts, walkList_append hlen, walkList]
      | _ => simp [head] at hhead
  | adt a =>
      cases u with
      | adt b =>
          obtain ⟨d, n, k, fs, ps, args⟩ := a
          obtain ⟨e, m, l, gs, qs, brgs⟩ := b
          have hlen : (fs.map Field.ty).length = (gs.map Field.ty).length := by
            simp only [head, Head.adt.injEq] at hhead
            simpa using hhead.2.1
          cases args with
          | none =>
              cases brgs with
              | none => simp [walk, parts, Adt.parts, walkFields_eq]
              | some ys => simp [head] at hhead
          | some xs =>
              cases brgs with
              | none => simp [head] at hhead
              | some ys => simp [walk, parts, Adt.parts, walkFields_eq, walkList_append hlen]
      | _ => simp [head] at hhead
  | _ => cases u <;> simp_all [head, walk, parts, walkList]

end

/-! ## Runs are steps -/

section

variable {kinds : List VarKind} {P : Ty → Prop} {merge : Ty → Ty → Solve Unit}

/-- Resolved types whose variables have their kinds, and whose nodes have the property `P`. -/
structure Ready (kinds : List VarKind) (P : Ty → Prop) (b : Bindings) (t u : Ty) : Prop where
  valid : b.Valid kinds
  resolved_left : b.resolve t = t
  resolved_right : b.resolve u = u
  wellKinded_left : t.WellKinded kinds
  wellKinded_right : u.WellKinded kinds
  every_left : t.Every P
  every_right : u.Every P

abbrev Settled (kinds : List VarKind) (b : Bindings) (t u : Ty) : Prop :=
  Ready kinds (fun _ => True) b t u

theorem isLocal_true : IsLocal fun _ => True := fun _ _ h => h

/-- Types over created variables are settled once they are resolved. -/
theorem settled_resolve {b : Bindings} {t u : Ty} (hb : b.Valid kinds) (ht : t.WellKinded kinds)
    (hu : u.WellKinded kinds) : Settled kinds b (b.resolve t) (b.resolve u) :=
  ⟨hb, hb.tidy.resolve_resolve t, hb.tidy.resolve_resolve u, resolve_wellKinded hb ht,
    resolve_wellKinded hb hu, fun _ _ => trivial, fun _ _ => trivial⟩

/-- Whether bringing two types together does nothing but bind variables. -/
def Binds (kinds : List VarKind) (P : Ty → Prop) (merge : Ty → Ty → Solve Unit) : Prop :=
  ∀ b t u, Ready kinds P b t u → Steps kinds P b (perform (merge t u) b).2

theorem binds_bindVar (hmerge : Binds kinds P merge) {b : Bindings} (hb : b.Valid kinds)
    {k : VarKind} {v : VarId} {u : Ty} (hv : kinds[v]? = some k) (hu : u.WellKinded kinds)
    (hne : u ≠ .error) (haccepts : k.accepts u) (hage : ∀ w, u = .infer k w → w ≤ v)
    (hPv : (b.resolve (.infer k v)).Every P) (hPu : (b.resolve u).Every P) :
    Steps kinds P b (perform (bindVar merge k v u) b).2 := by
  have hvar : (infer k v).WellKinded kinds := every_leaf hv rfl
  simp only [bindVar, perform_bind, perform_get]
  by_cases hsame : b.resolve (.infer k v) = b.resolve u
  · rw [if_pos hsame]
    exact .refl
  · rw [if_neg hsame]
    by_cases hunbound : b.resolve (.infer k v) = .infer k v
    · rw [if_pos hunbound]
      by_cases hoccurs : (b.resolve u).hasVar v
      · rw [if_pos hoccurs]
        exact .refl
      · rw [if_neg hoccurs]
        exact .single (.assign hv (hb.tidy.unbound_of_resolve_eq hunbound) (hb.tidy.resolve_resolve u)
          (by simpa using hoccurs) (accepts_resolve hb hu haccepts) (resolve_ne_error hb hu hne)
          (resolve_wellKinded hb hu) hPu fun w hw => age_resolve hb hu haccepts hage hw)
    · rw [if_neg hunbound]
      exact hmerge b _ _ ⟨hb, hb.tidy.resolve_resolve _, hb.tidy.resolve_resolve u,
        resolve_wellKinded hb hvar, resolve_wellKinded hb hu, hPv, hPu⟩

theorem steps_bind {x : Solve α} {f : α → Solve β} {b : Bindings}
    (hx : Steps kinds P b (perform x b).2)
    (hf : ∀ a, Steps kinds P (perform x b).2 (perform (f a) (perform x b).2).2) :
    Steps kinds P b (perform (x >>= f) b).2 := by
  rw [perform_bind]
  rcases hrun : perform x b with ⟨e | a, b'⟩
  · rw [hrun] at hx
    exact hx
  · rw [hrun] at hx hf
    exact hx.trans (hf a)

theorem binds_walkList (hP : IsLocal P) {ts us : List Ty}
    (h : ∀ (i : Nat) t u, ts[i]? = some t → us[i]? = some u → ∀ b : Bindings, b.Valid kinds →
      (b.resolve t).Every P → (b.resolve u).Every P →
      Steps kinds P b (perform (walk merge t u) b).2)
    {b : Bindings} (hb : b.Valid kinds) (hts : ∀ t ∈ ts, (b.resolve t).Every P)
    (hus : ∀ u ∈ us, (b.resolve u).Every P) :
    Steps kinds P b (perform (walkList merge ts us) b).2 := by
  induction ts generalizing us b with
  | nil =>
      simp only [walkList]
      exact .refl
  | cons t ts ih =>
      cases us with
      | nil =>
          simp only [walkList]
          exact .refl
      | cons u us =>
          have hfirst := h 0 t u rfl rfl b hb (hts t List.mem_cons_self) (hus u List.mem_cons_self)
          refine steps_bind hfirst fun _ => ih (fun i t' u' ht hu => h (i + 1) t' u' ht hu)
            (hb.steps hfirst) (fun t' ht => ?_) fun u' hu => ?_
          · exact every_of_steps hP hfirst (hts t' (List.mem_cons_of_mem _ ht))
          · exact every_of_steps hP hfirst (hus u' (List.mem_cons_of_mem _ hu))

theorem binds_walk (hP : IsLocal P) (hmerge : Binds kinds P merge) {t u : Ty} (h : Refines t u)
    (ht : t.WellKinded kinds) (hu : u.WellKinded kinds) {b : Bindings} (hb : b.Valid kinds)
    (hPt : (b.resolve t).Every P) (hPu : (b.resolve u).Every P) :
    Steps kinds P b (perform (walk merge t u) b).2 := by
  induction h generalizing b with
  | error =>
      rw [walk_error]
      exact .refl
  | var hne haccepts hage =>
      rw [walk_infer hne]
      exact binds_bindVar hmerge hb ht.root hu hne haccepts hage hPt hPu
  | node hsettled hhead _ ih =>
      rw [walk_eq_parts hsettled hhead]
      have hnt := ne_infer_of_isSettled hsettled
      have hnu := ne_infer_of_isSettled ((isSettled_of_head hhead).symm.trans hsettled)
      refine binds_walkList hP (fun i p q hp hq b' hb' hPp hPq => ?_) hb
        (fun p hp => hPt.part (resolve_part hnt hp)) fun q hq => hPu.part (resolve_part hnu hq)
      exact ih i p q hp hq (ht.part (List.mem_of_getElem? hp)) (hu.part (List.mem_of_getElem? hq))
        hb' hPp hPq

/-- A common type of resolved types is resolved. -/
theorem resolve_of_unify {b : Bindings} (hb : b.Tidy) {t u c : Ty} (ht : b.resolve t = t)
    (hu : b.resolve u = u) (hc : Ty.unify t u = .ok c) : b.resolve c = c := by
  have hlocal : IsLocal fun n => ∀ k v, n = .infer k v → b.isBound v = false := by
    rintro n m hhead _ hn k v rfl
    exact hn k v (by cases n <;> simp_all [head])
  have hunbound : ∀ {t : Ty}, b.resolve t = t →
      t.Every fun n => ∀ k v, n = .infer k v → b.isBound v = false := by
    rintro t ht n hn k v rfl
    exact hb.unbound_of_resolved ht (hasVar_iff.2 ⟨k, hn⟩)
  refine resolve_of_forall_unbound fun v hv => ?_
  obtain ⟨k, hk⟩ := hasVar_iff.1 hv
  exact (hunbound ht).unify hlocal (hunbound hu) hc _ hk k v rfl

theorem binds_meet (hP : IsLocal P) (depth : Nat) {b : Bindings} {t u : Ty}
    (h : Ready kinds P b t u) : Steps kinds P b (perform (meet depth t u) b).2 := by
  induction depth generalizing b t u with
  | zero => exact .refl
  | succ depth ih =>
      rw [meet, perform_bind, perform_ofExcept]
      cases hc : Ty.unify t u with
      | error e => exact .refl
      | ok c =>
          obtain ⟨hrt, hru⟩ := refines_of_unify hc
          have hwell := h.wellKinded_left.unify (isLocal_hasKind kinds) h.wellKinded_right hc
          have hPc : (b.resolve c).Every P := by
            rw [resolve_of_unify h.valid.tidy h.resolved_left h.resolved_right hc]
            exact h.every_left.unify hP h.every_right hc
          have hmerge : Binds kinds P fun x y => discard (meet depth x y) := by
            intro b' x y hready
            exact steps_bind (ih hready) fun _ => .refl
          have hfirst : Steps kinds P b
              (perform (walk (fun x y => discard (meet depth x y)) t c) b).2 :=
            binds_walk hP hmerge hrt h.wellKinded_left hwell h.valid
              (h.resolved_left.symm ▸ h.every_left) hPc
          refine steps_bind hfirst fun _ => ?_
          refine steps_bind ?_ fun _ => .refl
          exact binds_walk hP hmerge hru h.wellKinded_right hwell (h.valid.steps hfirst)
            (every_of_steps hP hfirst (h.resolved_right.symm ▸ h.every_right))
            (every_of_steps hP hfirst hPc)

end

end TypeInference.Solve

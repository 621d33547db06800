import TypeInference.Proofs.Context.Created
import TypeInference.Proofs.Context.MostGeneral

/-!
# What a failed unification leaves behind

Unification compares the two types before it binds any variable. A failure of
that comparison changes nothing. Once it has succeeded, the first variable that
is not its own counterpart can be bound, so every later failure comes after a
binding, and what was bound stays bound.
-/

namespace TypeInference

open Ty Bindings

/-! ## A variable and its counterpart -/

namespace Ty

/-- Whether no variable of the first type is met by a type that contains it. -/
inductive Apart : Ty → Ty → Prop where
  | error {t : Ty} : Apart t .error
  | var {k : VarKind} {v : VarId} {u : Ty} (hne : u ≠ .error)
      (hv : u = .infer k v ∨ u.hasVar v = false) : Apart (.infer k v) u
  | node {t u : Ty} (hsettled : t.isSettled) (hhead : t.head = u.head)
      (hparts : ∀ (i : Nat) p q, t.parts[i]? = some p → u.parts[i]? = some q → Apart p q) : Apart t u

theorem Apart.refl (t : Ty) : Apart t t := by
  induction t using parts_induct with
  | step t ih =>
      rcases isSettled_or t with rfl | ⟨k, v, rfl⟩ | h
      · exact .error
      · exact .var (by simp) (.inl rfl)
      · refine .node h rfl fun i p q hp hq => ?_
        obtain rfl : p = q := by simpa [hp] using hq
        exact ih p (List.mem_of_getElem? hp)

theorem hasVar_infer_iff {l : VarKind} {v w : VarId} : (infer l w).hasVar v = true ↔ v = w := by
  simp [hasVar, leaves, isVar]

/-- Two variables with one number have one kind, if they have a common type. -/
theorem kind_eq_of_unifyVars {k l : VarKind} {v : VarId} {c : Ty} (h : unifyVars k v l v = .ok c) :
    k = l := by
  by_contra hkl
  rw [unifyVars, if_neg hkl] at h
  split at h <;> simp [absorb_eq_ok_iff, infer_hasVar] at h

theorem apart_unifyVars {k l : VarKind} {v w : VarId} {c : Ty} (h : unifyVars k v l w = .ok c) :
    Apart (.infer k v) c ∧ Apart (.infer l w) c := by
  have hother {k l : VarKind} {v w : VarId} (hkind : v = w → k = l) :
      Apart (.infer k v) (.infer l w) := by
    refine .var (by simp) ?_
    by_cases hvw : v = w
    · exact .inl (by rw [hvw, hkind hvw])
    · exact .inr (Bool.eq_false_iff.2 fun hv => hvw (hasVar_infer_iff.1 hv))
  have hkind : v = w → k = l := by
    rintro rfl
    exact kind_eq_of_unifyVars h
  rcases (unifyVars_eq_ok h).1 with rfl | rfl
  · exact ⟨.refl _, hother fun hvw => (hkind hvw.symm).symm⟩
  · exact ⟨hother hkind, .refl _⟩

/-- The comparison of two types lets no variable meet a type that contains it. -/
theorem apart_of_unify {a b c : Ty} (h : unify a b = .ok c) : Apart a c ∧ Apart b c := by
  induction a using parts_induct generalizing b c with
  | step a ih =>
      rcases isSettled_or a with rfl | ⟨k, v, rfl⟩ | hsa
      · cases (unify_of_error (.inl rfl)).symm.trans h
        exact ⟨.error, .error⟩
      · rcases isSettled_or b with rfl | ⟨l, w, rfl⟩ | hsb
        · cases (unify_of_error (.inr rfl)).symm.trans h
          exact ⟨.error, .error⟩
        · exact apart_unifyVars (by simpa [unify] using h)
        · rw [unify_infer_left hsb, absorb_eq_ok_iff] at h
          obtain ⟨-, hv, rfl⟩ := h
          exact ⟨.var (by rintro rfl; simp [isSettled] at hsb) (.inr hv), .refl c⟩
      · rcases isSettled_or b with rfl | ⟨l, w, rfl⟩ | hsb
        · cases (unify_of_error (.inr rfl)).symm.trans h
          exact ⟨.error, .error⟩
        · rw [unify_infer_right hsa, absorb_eq_ok_iff] at h
          obtain ⟨-, hw, rfl⟩ := h
          exact ⟨.refl c, .var (by rintro rfl; simp [isSettled] at hsa) (.inr hw)⟩
        · obtain ⟨hhead, hchead, -, hparts⟩ := parts_of_unify hsa hsb h
          have hpart (i : Nat) (p q r : Ty) (hp : a.parts[i]? = some p) (hq : b.parts[i]? = some q)
              (hr : c.parts[i]? = some r) : Apart p r ∧ Apart q r :=
            ih p (List.mem_of_getElem? hp) (unify_of_unifyList hparts hp hq hr)
          refine ⟨.node hsa hchead.symm fun i p r hp hr => ?_,
            .node hsb (hhead.symm.trans hchead.symm) fun i q r hq hr => ?_⟩
          · obtain ⟨q, hq⟩ := getElem?_of_head hhead hp
            exact (hpart i p q r hp hq hr).1
          · obtain ⟨p, hp⟩ := getElem?_of_head hhead.symm hq
            exact (hpart i p q r hp hq hr).2

end Ty

/-! ## A run that fails has bound a variable -/

namespace Bindings

variable {b b' : Bindings}

/-- Whether a variable is bound now that was unbound before. -/
def BindsMore (b b' : Bindings) : Prop := ∃ v, b.isBound v = false ∧ b'.isBound v = true

theorem bindsMore_assign {v : VarId} (h : b.isBound v = false) (t : Ty) :
    BindsMore b (b.assign v t) := ⟨v, h, by simp [isBound_assign]⟩

theorem isInvariant_bindsMore (b : Bindings) : IsInvariant (fun _ => True) b.BindsMore :=
  .of_assign fun ⟨v, hv, hv'⟩ _ _ => ⟨v, hv, by rw [isBound_assign, hv', Bool.true_or]⟩

/-- A variable that was unbound stood for itself, and once it is bound it does not. -/
theorem BindsMore.resolve_ne (h : BindsMore b b') (hb' : b'.Tidy) :
    ∃ t, b'.resolve t ≠ b.resolve t := by
  obtain ⟨v, hv, hv'⟩ := h
  refine ⟨.infer .general v, fun heq => ?_⟩
  rw [resolve_infer_of_unbound hv] at heq
  simp [hb'.unbound_of_resolve_eq heq] at hv'

end Bindings

namespace Solve

variable {α β : Type} {merge : Ty → Ty → Solve Unit} {b : Bindings} {t u : Ty}

/-- Whether a run has either done nothing, successfully, or bound a variable. -/
def Idle (b : Bindings) (run : Except UnifyError α × Bindings) : Prop :=
  (∃ a, run = (.ok a, b)) ∨ BindsMore b run.2

theorem Idle.bind {x : Solve α} {f : α → Solve β} (hx : Idle b (perform x b))
    (hf : ∀ a, Idle b (perform (f a) b)) (hkeeps : ∀ a, Keeps b.BindsMore (f a)) :
    Idle b (perform (x >>= f) b) := by
  rw [perform_bind]
  rcases hrun : perform x b with ⟨e | a, b'⟩ <;> rw [hrun] at hx
  · exact .inr (hx.resolve_left (by simp))
  · rcases hx with ⟨a', heq⟩ | hmore
    · obtain ⟨rfl, rfl⟩ : a = a' ∧ b' = b := by simpa using heq
      exact hf a
    · exact .inr (hkeeps a b' hmore)

/-- No variable of a resolved type is bound, so it is bound now or is its own counterpart. -/
theorem idle_bindVar (hb : b.Tidy) {k : VarKind} {v : VarId}
    (hv : b.resolve (.infer k v) = .infer k v) (hu : b.resolve u = u)
    (hapart : u = .infer k v ∨ u.hasVar v = false) : Idle b (perform (bindVar merge k v u) b) := by
  simp only [bindVar, perform_bind, perform_get, hv, hu, if_true]
  by_cases hself : .infer k v = u
  · rw [if_pos hself]
    exact .inl ⟨(), rfl⟩
  · have hoccurs : u.hasVar v = false := hapart.resolve_left (Ne.symm hself)
    rw [if_neg hself, if_neg (by simp [hoccurs])]
    exact .inr (bindsMore_assign (hb.unbound_of_resolve_eq hv) u)

theorem idle_walkList {ts us : List Ty}
    (hidle : ∀ (i : Nat) t u, ts[i]? = some t → us[i]? = some u → Idle b (perform (walk merge t u) b))
    (hkeeps : ∀ (i : Nat) t u, ts[i]? = some t → us[i]? = some u →
      Keeps b.BindsMore (walk merge t u)) : Idle b (perform (walkList merge ts us) b) := by
  induction ts generalizing us with
  | nil => exact .inl ⟨(), by simp [walkList]⟩
  | cons t ts ih =>
      cases us with
      | nil => exact .inl ⟨(), by simp [walkList]⟩
      | cons u us =>
          have hrest : Keeps b.BindsMore (walkList merge ts us) :=
            walkList_of_forall (keeps_pure ()) (fun _ _ hx hy => hx.bind fun _ => hy)
              fun i => hkeeps (i + 1)
          exact (hidle 0 t u rfl rfl).bind
            (fun _ => ih (fun i => hidle (i + 1)) fun i => hkeeps (i + 1)) fun _ => hrest

/-- The components of a resolved type are resolved. -/
theorem resolve_eq_of_part (hsettled : t.isSettled) (ht : b.resolve t = t) {i : Nat} {p : Ty}
    (hp : t.parts[i]? = some p) : b.resolve p = p := by
  have hparts := (root_resolve (b := b) (ne_infer_of_isSettled hsettled)).2.2
  rw [ht] at hparts
  have hi := congrArg (fun ps => ps[i]?) hparts
  simpa [hp] using hi.symm

theorem idle_walk (hb : b.Tidy) (hmerge : ∀ x y, Keeps b.BindsMore (merge x y))
    (h : Refines t u) (hapart : Apart t u) (ht : b.resolve t = t) (hu : b.resolve u = u) :
    Idle b (perform (walk merge t u) b) := by
  induction h with
  | error =>
      rw [walk_error]
      exact .inl ⟨(), rfl⟩
  | @var k v u hne _ _ =>
      rw [walk_infer hne]
      refine idle_bindVar hb ht hu ?_
      cases hapart with
      | error => exact (hne rfl).elim
      | var _ hv => exact hv
      | node hsettled => simp [isSettled] at hsettled
  | @node t u hsettled hhead hrefines ih =>
      have hparts : ∀ (i : Nat) p q, t.parts[i]? = some p → u.parts[i]? = some q → Apart p q := by
        cases hapart with
        | error => cases t <;> simp [isSettled, head] at hsettled hhead
        | var => simp [isSettled] at hsettled
        | node _ _ hparts => exact hparts
      have hsettled' : u.isSettled := (isSettled_of_head hhead).symm.trans hsettled
      rw [walk_eq_parts hsettled hhead]
      refine idle_walkList (fun i p q hp hq => ?_) fun i p q hp hq => ?_
      · exact ih i p q hp hq (hparts i p q hp hq) (resolve_eq_of_part hsettled ht hp)
          (resolve_eq_of_part hsettled' hu hq)
      · exact keeps_walk b.isInvariant_bindsMore (fun x y _ _ => hmerge x y)
          (hrefines i p q hp hq) trivial trivial

/-- After the comparison a meeting either does nothing or binds a variable. -/
theorem idle_meet (depth : Nat) {c : Ty} (hb : b.Tidy) (ht : b.resolve t = t)
    (hu : b.resolve u = u) (hc : Ty.unify t u = .ok c) :
    Idle b (perform (meet (depth + 1) t u) b) := by
  obtain ⟨hrt, hru⟩ := refines_of_unify hc
  obtain ⟨hat, hau⟩ := apart_of_unify hc
  have hresolved : b.resolve c = c := resolve_of_unify hb ht hu hc
  have hmerge (x y : Ty) : Keeps b.BindsMore (discard (meet depth x y)) :=
    (keeps_meet b.isInvariant_bindsMore depth trivial trivial).bind fun _ => keeps_pure _
  have hsecond : Keeps b.BindsMore (walk (fun x y => discard (meet depth x y)) u c) :=
    keeps_walk b.isInvariant_bindsMore (fun x y _ _ => hmerge x y) hru trivial trivial
  rw [meet, perform_bind, perform_ofExcept, hc]
  refine (idle_walk hb hmerge hrt hat ht hresolved).bind (fun _ => ?_) fun _ => ?_
  · exact (idle_walk hb hmerge hru hau hu hresolved).bind (fun _ => .inl ⟨c, rfl⟩)
      fun _ => keeps_pure c
  · exact hsecond.bind fun _ => keeps_pure c

theorem idle_unify {c : Ty} (hb : b.Tidy) (hc : Ty.unify (b.resolve t) (b.resolve u) = .ok c) :
    Idle b (perform (unify t u) b) := by
  rw [unify, perform_bind, perform_get]
  refine (idle_meet b.free hb (hb.resolve_resolve t) (hb.resolve_resolve u) hc).bind
    (fun r => .inl ⟨b.resolve r, rfl⟩) fun _ b' hb' => ?_
  rw [perform_bind, perform_get]
  exact hb'

theorem unify_of_compare_error {e : UnifyError}
    (h : Ty.unify (b.resolve t) (b.resolve u) = .error e) : perform (unify t u) b = (.error e, b) := by
  rw [unify, perform_bind, perform_get]
  simp only [meet, perform_bind, perform_ofExcept, h]

end Solve

/-! ## Failures in a context -/

namespace Context

open Solve

variable {c c' : Context} {a b : Ty} {e : UnifyError}

/-- Whether every type is resolved as before and every node has the type that it had. -/
def Unchanged (c c' : Context) : Prop :=
  (∀ t, c'.resolve t = c.resolve t) ∧ ∀ id, c'.lookup id = c.lookup id

/-- Whether the second context only resolves further what the first one resolves. -/
def Furthers (c c' : Context) : Prop :=
  (∀ t, c'.resolve t = c'.resolve (c.resolve t)) ∧
    ∀ id, c'.lookup id = (c.lookup id).map c'.resolve

/-- A unification refines the bindings and records nothing. -/
theorem furthers_unify (hc : c.bindings.Tidy) (hrun : c.unify a b = (.error e, c')) :
    c.Furthers c' := by
  obtain ⟨hrun, htypes, -⟩ := unify_eq_iff.1 hrun
  have hrefines := isRefining_unify a b c.bindings hc
  rw [hrun] at hrefines
  have hfurther (t : Ty) : c'.resolve t = c'.resolve (c.resolve t) :=
    (hrefines.resolve_resolve t).symm
  refine ⟨hfurther, fun id => ?_⟩
  rw [lookup, lookup, htypes, Option.map_map]
  congr 1
  exact funext hfurther

/-- A failed comparison leaves the bindings as they are. -/
theorem unchanged_of_compare_error (hrun : c.unify a b = (.error e, c'))
    (hcompare : Ty.unify (c.resolve a) (c.resolve b) = .error e) : c.Unchanged c' := by
  obtain ⟨hrun, htypes, -⟩ := unify_eq_iff.1 hrun
  have hbindings : c'.bindings = c.bindings :=
    congrArg Prod.snd (hrun.symm.trans (unify_of_compare_error hcompare))
  have hresolve : c'.resolve = c.resolve := funext fun t => by rw [resolve, resolve, hbindings]
  exact ⟨fun t => by rw [hresolve], fun id => by rw [lookup, lookup, htypes, hresolve]⟩

/-- Where nothing has changed, the comparison failed: had it succeeded, a variable would be bound now
and be resolved. -/
theorem compare_error_of_unchanged (hc : c.bindings.Tidy) (hrun : c.unify a b = (.error e, c'))
    (h : c.Unchanged c') : Ty.unify (c.resolve a) (c.resolve b) = .error e := by
  obtain ⟨hrun, -⟩ := unify_eq_iff.1 hrun
  cases hcompare : Ty.unify (c.resolve a) (c.resolve b) with
  | error e' =>
      have heq := hrun.symm.trans (unify_of_compare_error hcompare)
      exact congrArg Except.error (Except.error.inj (congrArg Prod.fst heq)).symm
  | ok r =>
      have hidle := idle_unify hc hcompare
      have hrefines := isRefining_unify a b c.bindings hc
      rw [hrun] at hidle hrefines
      have hmore : BindsMore c.bindings c'.bindings := hidle.resolve_left (by simp)
      obtain ⟨t, ht⟩ := hmore.resolve_ne hrefines.tidy
      exact (ht (h.1 t)).elim

/-- A failed unification leaves no trace exactly if the resolved types cannot be compared. Otherwise
it keeps what it has bound, and types are resolved further than before. The types need not even be
over created variables. -/
theorem Arises.trace_of_unify_fails (h : c.Arises) (hrun : c.unify a b = (.error e, c')) :
    (c.Unchanged c' ↔ Ty.unify (c.resolve a) (c.resolve b) = .error e) ∧ c.Furthers c' :=
  ⟨⟨compare_error_of_unchanged h.tidy hrun, unchanged_of_compare_error hrun⟩,
    furthers_unify h.tidy hrun⟩

/-- The second occurrence of a variable, at another kind than it was created with, fails to have the
counterpart of the first. -/
theorem Arises.trace_of_unify_fails_repeated :
    let c := (bare.newVar .general).2
    let a := Ty.fn [.infer .general 0, .infer .float 0] .unit
    let b := Ty.fn [.prim .i32, .prim .f32] .unit
    c.unify a b = (.error (.mismatch (.prim .i32) (.prim .f32)), (c.unify a b).2) ∧
      (c.Unchanged (c.unify a b).2 ↔
        Ty.unify (c.resolve a) (c.resolve b) = .error (.mismatch (.prim .i32) (.prim .f32))) ∧
      c.Furthers (c.unify a b).2 := by
  intro c a b
  have harises : c.Arises := .newVar (.new []) .general
  exact ⟨rfl, Arises.trace_of_unify_fails harises rfl⟩

/-- What a failed unification has bound is not taken back. -/
theorem not_unchanged_of_unify_fails :
    ¬ ∀ (c c' : Context) (a b : Ty) (e : UnifyError), c.Arises → a.Old c.bindings.count →
      b.Old c.bindings.count → c.unify a b = (.error e, c') → c.Unchanged c' := by
  intro hclaim
  let c := (bare.newVar .general).2
  let a := Ty.fn [.infer .general 0, .infer .general 0] .unit
  let b := Ty.fn [.prim .i32, .prim .bool] .unit
  have harises : c.Arises := .newVar (.new []) .general
  have hunchanged : c.Unchanged (c.unify a b).2 :=
    hclaim c _ a b _ harises (by decide) (by decide) rfl
  have hbound : (c.unify a b).2.resolve (.infer .general 0) = .prim .i32 := rfl
  have hunbound : c.resolve (.infer .general 0) = .infer .general 0 := rfl
  cases hbound.symm.trans ((hunchanged.1 _).trans hunbound)

end Context

end TypeInference

import TypeInference.Proofs.Ty.Unify

/-!
# The common type refines both types

A success of unification is a derivation: an error absorbs, a variable gives
way, and everything else unifies component by component. What holds of the
common type is proved along that derivation.
-/

namespace TypeInference.Ty

/-- Whether the second type says at least what the first says: a variable may stand for a type that
it accepts, but not for a younger variable of its kind, and anything may have become an error. -/
inductive Refines : Ty → Ty → Prop where
  | error {t : Ty} : Refines t .error
  | var {k : VarKind} {v : VarId} {u : Ty} (hne : u ≠ .error) (haccepts : k.accepts u)
      (hage : ∀ w, u = .infer k w → w ≤ v) : Refines (.infer k v) u
  | node {t u : Ty} (hsettled : t.isSettled) (hhead : t.head = u.head)
      (hparts : ∀ (i : Nat) p q, t.parts[i]? = some p → u.parts[i]? = some q → Refines p q) : Refines t u

theorem accepts_infer (k : VarKind) (v : VarId) : k.accepts (.infer k v) := by
  cases k <;> rfl

theorem accepts_trans {k l : VarKind} {v : VarId} {t : Ty} (h : k.accepts (.infer l v))
    (h' : l.accepts t) : k.accepts t := by
  cases k <;> cases l <;> simp_all [VarKind.accepts, isIntegral, isFloat]

theorem accepts_antisymm {k l : VarKind} {v w : VarId} (h : k.accepts (.infer l v))
    (h' : l.accepts (.infer k w)) : k = l := by
  cases k <;> cases l <;> simp_all [VarKind.accepts, isIntegral, isFloat]

theorem isSettled_or (t : Ty) : t = .error ∨ (∃ k v, t = .infer k v) ∨ t.isSettled := by
  cases t <;> simp [isSettled]

theorem Refines.refl (t : Ty) : Refines t t := by
  induction t using parts_induct with
  | step t ih =>
      rcases isSettled_or t with rfl | ⟨k, v, rfl⟩ | h
      · exact .error
      · refine .var (by simp) (accepts_infer k v) fun w hw => ?_
        cases hw
        exact Nat.le_refl v
      · refine .node h rfl fun i p q hp hq => ?_
        obtain rfl : p = q := by simpa [hp] using hq
        exact ih p (List.mem_of_getElem? hp)

/-! ## A variable on one side -/

theorem absorb_eq_ok_iff {k : VarKind} {v : VarId} {t c : Ty} {e : UnifyError} :
    absorb k v t e = .ok c ↔ k.accepts t ∧ t.hasVar v = false ∧ c = t := by
  unfold absorb
  by_cases hk : k.accepts t <;> by_cases hv : t.hasVar v <;> simp [hk, hv, eq_comm]

theorem unify_infer_left {k : VarKind} {v : VarId} {b : Ty} (hb : b.isSettled) :
    unify (.infer k v) b = absorb k v b (.mismatch (.infer k v) b) := by
  cases b <;> simp_all [isSettled, unify]

theorem unify_infer_right {l : VarKind} {w : VarId} {a : Ty} (ha : a.isSettled) :
    unify a (.infer l w) = absorb l w a (.mismatch a (.infer l w)) := by
  cases a with
  | adt a =>
      obtain ⟨d, n, k, fs, ps, args⟩ := a
      cases args <;> simp [unify]
  | _ => simp_all [isSettled, unify]

/-- Of two variables the common type is one, and both kinds accept it. -/
theorem unifyVars_eq_ok {k l : VarKind} {v w : VarId} {c : Ty} (h : unifyVars k v l w = .ok c) :
    (c = .infer k v ∨ c = .infer l w) ∧ k.accepts c ∧ l.accepts c := by
  unfold unifyVars at h
  by_cases hkl : k = l
  · subst hkl
    obtain rfl : .infer k (min v w) = c := by simpa using h
    refine ⟨?_, accepts_infer k _, accepts_infer k _⟩
    rcases Nat.le_total v w with hvw | hvw
    · simp [Nat.min_eq_left hvw]
    · simp [Nat.min_eq_right hvw]
  · rw [if_neg hkl] at h
    by_cases hk : k = .general
    · rw [if_pos hk, absorb_eq_ok_iff] at h
      obtain ⟨haccepts, -, rfl⟩ := h
      exact ⟨.inr rfl, haccepts, accepts_infer l w⟩
    · rw [if_neg hk, absorb_eq_ok_iff] at h
      obtain ⟨haccepts, -, rfl⟩ := h
      exact ⟨.inl rfl, accepts_infer k v, haccepts⟩

/-- Of two variables of one kind the older one is left. -/
theorem age_of_unifyVars {k l : VarKind} {v w : VarId} {c : Ty} (h : unifyVars k v l w = .ok c) :
    (∀ x, c = .infer k x → x ≤ v) ∧ ∀ x, c = .infer l x → x ≤ w := by
  by_cases hkl : k = l
  · subst hkl
    obtain rfl : .infer k (min v w) = c := by simpa [unifyVars] using h
    constructor
    · intro x hx
      cases hx
      exact Nat.min_le_left v w
    · intro x hx
      cases hx
      exact Nat.min_le_right v w
  · rcases (unifyVars_eq_ok h).1 with rfl | rfl
    · simp [hkl]
    · simp [Ne.symm hkl]

theorem unify_var {a b c : Ty} (ha : a ≠ .error) (hb : b ≠ .error)
    (hvar : a.isSettled = false ∨ b.isSettled = false) (h : unify a b = .ok c) :
    (c = a ∨ c = b) ∧ Refines a c ∧ Refines b c := by
  rcases isSettled_or a with rfl | ⟨k, v, rfl⟩ | hsa
  · exact (ha rfl).elim
  · rcases isSettled_or b with rfl | ⟨l, w, rfl⟩ | hsb
    · exact (hb rfl).elim
    · have hvars : unifyVars k v l w = .ok c := by simpa [unify] using h
      obtain ⟨hc, hk, hl⟩ := unifyVars_eq_ok hvars
      obtain ⟨hagek, hagel⟩ := age_of_unifyVars hvars
      have hne : c ≠ .error := by
        rcases hc with rfl | rfl <;> simp
      exact ⟨hc, .var hne hk hagek, .var hne hl hagel⟩
    · rw [unify_infer_left hsb, absorb_eq_ok_iff] at h
      obtain ⟨haccepts, -, rfl⟩ := h
      have hage : ∀ w, c = .infer k w → w ≤ v := fun w hw => by simp [hw, isSettled] at hsb
      exact ⟨.inr rfl, .var hb haccepts hage, .refl c⟩
  · rcases isSettled_or b with rfl | ⟨l, w, rfl⟩ | hsb
    · exact (hb rfl).elim
    · rw [unify_infer_right hsa, absorb_eq_ok_iff] at h
      obtain ⟨haccepts, -, rfl⟩ := h
      have hage : ∀ v, c = .infer l v → v ≤ w := fun v hv => by simp [hv, isSettled] at hsa
      exact ⟨.inl rfl, .refl c, .var ha haccepts hage⟩
    · simp_all

/-- An error absorbs whatever it meets. -/
theorem unify_of_error {a b : Ty} (h : a = .error ∨ b = .error) : unify a b = .ok .error := by
  rcases h with rfl | rfl
  · simp only [unify]
  · cases a with
    | adt a =>
        obtain ⟨d, n, k, fs, ps, args⟩ := a
        cases args <;> simp only [unify]
    | _ => simp only [unify]

/-! ## Derivations -/

/-- What is passed on from components and holds where an error or a variable is met, holds of every
success. -/
theorem unify_induct {motive : Ty → Ty → Ty → Prop}
    (error : ∀ a b, a = .error ∨ b = .error → motive a b .error)
    (var : ∀ a b c, a ≠ .error → b ≠ .error → c = a ∨ c = b → Refines a c → Refines b c →
      motive a b c)
    (node : ∀ a b c, a.isSettled → b.isSettled → a.head = b.head → c.head = a.head →
      c.shape? = a.shape? → unifyList a.parts b.parts = .ok c.parts →
      (∀ (i : Nat) p q r, a.parts[i]? = some p → b.parts[i]? = some q → c.parts[i]? = some r →
        motive p q r) → motive a b c)
    {a b c : Ty} (h : unify a b = .ok c) : motive a b c := by
  induction a using parts_induct generalizing b c with
  | step a ih =>
      by_cases herror : a = .error ∨ b = .error
      · obtain rfl : c = .error := by
          rw [unify_of_error herror] at h
          exact (Except.ok.inj h).symm
        exact error a b herror
      · obtain ⟨ha, hb⟩ := not_or.1 herror
        by_cases hvar : a.isSettled = false ∨ b.isSettled = false
        · obtain ⟨hc, hac, hbc⟩ := unify_var ha hb hvar h
          exact var a b c ha hb hc hac hbc
        · rw [not_or, Bool.not_eq_false, Bool.not_eq_false] at hvar
          obtain ⟨hsa, hsb⟩ := hvar
          obtain ⟨hhead, hchead, hcshape, hparts⟩ := parts_of_unify hsa hsb h
          refine node a b c hsa hsb hhead hchead hcshape hparts fun i p q r hp hq hr => ?_
          exact ih p (List.mem_of_getElem? hp) (unify_of_unifyList hparts hp hq hr)

theorem refines_of_unify {a b c : Ty} (h : unify a b = .ok c) : Refines a c ∧ Refines b c := by
  refine unify_induct (motive := fun a b c => Refines a c ∧ Refines b c) ?error ?var ?node h
  case error => exact fun a b _ => ⟨.error, .error⟩
  case var => exact fun a b c _ _ _ hac hbc => ⟨hac, hbc⟩
  case node =>
    intro a b c hsa hsb hhead hchead _ _ hparts
    refine ⟨.node hsa hchead.symm fun i p r hp hr => ?_,
      .node hsb (hhead.symm.trans hchead.symm) fun i q r hq hr => ?_⟩
    · obtain ⟨q, hq⟩ := getElem?_of_head hhead hp
      exact (hparts i p q r hp hq hr).1
    · obtain ⟨p, hp⟩ := getElem?_of_head hhead.symm hq
      exact (hparts i p q r hp hq hr).2

/-- Every node of the common type comes from one of the two types. -/
theorem Every.unify {P : Ty → Prop} (hP : IsLocal P) {a b c : Ty} (ha : a.Every P) (hb : b.Every P)
    (h : unify a b = .ok c) : c.Every P := by
  refine unify_induct (motive := fun a b c => a.Every P → b.Every P → c.Every P)
    ?error ?var ?node h ha hb
  case error =>
    rintro a b (rfl | rfl) ha hb
    · exact ha
    · exact hb
  case var =>
    rintro a b c _ _ (rfl | rfl) _ _ ha hb
    · exact ha
    · exact hb
  case node =>
    intro a b c _ _ hhead hchead hcshape _ hparts ha hb
    refine every_iff.2 ⟨hP hchead.symm hcshape.symm ha.root, fun r hr => ?_⟩
    obtain ⟨i, hi⟩ := List.mem_iff_getElem?.1 hr
    obtain ⟨p, hp⟩ := getElem?_of_head hchead hi
    obtain ⟨q, hq⟩ := getElem?_of_head hhead hp
    exact hparts i p q r hp hq hi (ha.part (List.mem_of_getElem? hp))
      (hb.part (List.mem_of_getElem? hq))

end TypeInference.Ty

import TypeInference.Proofs.Ty.Nodes
import TypeInference.Ty.Unify

/-!
# Unification of two types, position by position

What a success says about the two types and their common type: every node of
the common type comes from one of the two, each of the two refines to it, and
a substitution that makes the two equal does not tell them from it.
-/

namespace TypeInference.Ty

/-! ## Lists of types -/

theorem unifyList_cons (t u : Ty) (ts us : List Ty) :
    unifyList (t :: ts) (u :: us) = do
      let head ← unify t u
      let tail ← unifyList ts us
      return head :: tail := by
  simp [unifyList]

theorem unifyList_cons_eq_ok_iff {t u : Ty} {ts us vs : List Ty} :
    unifyList (t :: ts) (u :: us) = .ok vs ↔
      ∃ w ws, unify t u = .ok w ∧ unifyList ts us = .ok ws ∧ vs = w :: ws := by
  rw [unifyList_cons]
  cases unify t u with
  | error e => simp [bind, Except.bind]
  | ok w => cases unifyList ts us <;> simp [bind, Except.bind, pure, Except.pure, eq_comm]

theorem unifyList_append_eq_ok_iff {ts us ts' us' vs : List Ty} (hlen : ts.length = us.length) :
    unifyList (ts ++ ts') (us ++ us') = .ok vs ↔
      ∃ ws ws', unifyList ts us = .ok ws ∧ unifyList ts' us' = .ok ws' ∧ vs = ws ++ ws' := by
  induction ts generalizing us vs with
  | nil =>
      cases us with
      | nil => simp [unifyList]
      | cons u us => simp at hlen
  | cons t ts ih =>
      cases us with
      | nil => simp at hlen
      | cons u us =>
          have ih' := fun vs => @ih us vs (by simpa using hlen)
          simp only [List.cons_append, unifyList_cons_eq_ok_iff, ih']
          constructor
          · rintro ⟨w, _, hw, ⟨ws, ws', hws, hws', rfl⟩, rfl⟩
            exact ⟨w :: ws, ws', ⟨w, ws, hw, hws, rfl⟩, hws', rfl⟩
          · rintro ⟨_, ws', ⟨w, ws, hw, hws, rfl⟩, hws', rfl⟩
            exact ⟨w, ws ++ ws', hw, ⟨ws, ws', hws, hws', rfl⟩, rfl⟩

theorem length_of_unifyList {ts us vs : List Ty} (hlen : ts.length = us.length)
    (h : unifyList ts us = .ok vs) : vs.length = ts.length := by
  induction ts generalizing us vs with
  | nil =>
      obtain rfl : [] = vs := by simpa [unifyList] using h
      rfl
  | cons t ts ih =>
      cases us with
      | nil => simp at hlen
      | cons u us =>
          obtain ⟨w, ws, -, hws, rfl⟩ := unifyList_cons_eq_ok_iff.1 h
          simp [ih (by simpa using hlen) hws]

/-- What unifies are the types at equal positions. -/
theorem unify_of_unifyList {ts us vs : List Ty} (h : unifyList ts us = .ok vs) {i : Nat}
    {t u v : Ty} (ht : ts[i]? = some t) (hu : us[i]? = some u) (hv : vs[i]? = some v) :
    unify t u = .ok v := by
  induction ts generalizing us vs i with
  | nil =>
      simp at ht
  | cons t' ts ih =>
      cases us with
      | nil => simp at hu
      | cons u' us =>
          obtain ⟨w, ws, hw, hws, rfl⟩ := unifyList_cons_eq_ok_iff.1 h
          cases i with
          | zero => simp_all
          | succ i => exact ih hws (by simpa using ht) (by simpa using hu) (by simpa using hv)

theorem unifyList_of_forall {ts us : List Ty}
    (h : ∀ (i : Nat) t u, ts[i]? = some t → us[i]? = some u → ∃ v, unify t u = .ok v) :
    ∃ vs, unifyList ts us = .ok vs := by
  induction ts generalizing us with
  | nil =>
      exact ⟨[], by simp [unifyList]⟩
  | cons t ts ih =>
      cases us with
      | nil => exact ⟨[], by simp [unifyList]⟩
      | cons u us =>
          obtain ⟨w, hw⟩ := h 0 t u rfl rfl
          obtain ⟨ws, hws⟩ := ih fun i t u ht hu => h (i + 1) t u (by simpa using ht) (by simpa using hu)
          exact ⟨w :: ws, unifyList_cons_eq_ok_iff.2 ⟨w, ws, hw, hws, rfl⟩⟩

def retype (fs : List (Field Ty)) (tys : List Ty) : List (Field Ty) :=
  List.zipWith (fun f t => ⟨f.name, t, f.index⟩) fs tys

theorem label_retype {fs : List (Field Ty)} {tys : List Ty} (hlen : fs.length = tys.length) :
    (retype fs tys).map Field.label = fs.map Field.label := by
  induction fs generalizing tys with
  | nil =>
      simp [retype]
  | cons f fs ih =>
      cases tys with
      | nil => simp at hlen
      | cons t tys =>
          have h := @ih tys (by simpa using hlen)
          simpa [retype, Field.label] using h

theorem ty_retype {fs : List (Field Ty)} {tys : List Ty} (hlen : fs.length = tys.length) :
    (retype fs tys).map Field.ty = tys := by
  induction fs generalizing tys with
  | nil =>
      cases tys with
      | nil => rfl
      | cons t tys => simp at hlen
  | cons f fs ih =>
      cases tys with
      | nil => simp at hlen
      | cons t tys =>
          have h := @ih tys (by simpa using hlen)
          simpa [retype] using h

theorem unifyFields_eq (fs gs : List (Field Ty)) :
    unifyFields fs gs = (unifyList (fs.map Field.ty) (gs.map Field.ty)).map (retype fs) := by
  induction fs generalizing gs with
  | nil => simp [unifyFields, unifyList, retype, Except.map]
  | cons f fs ih =>
      cases gs with
      | nil => simp [unifyFields, unifyList, retype, Except.map]
      | cons g gs =>
          simp only [unifyFields, unifyList, List.map_cons, ih]
          cases unify f.ty g.ty with
          | error e => rfl
          | ok v => cases unifyList (fs.map Field.ty) (gs.map Field.ty) <;> rfl

/-! ## Two roots -/

theorem unify_adt (a b : Adt Ty) :
    unify (.adt a) (.adt b) =
      if (Ty.adt a).head ≠ (Ty.adt b).head then .error (.mismatch (.adt a) (.adt b))
      else do
        let args ← unifyList (a.args.getD []) (b.args.getD [])
        let fields ← unifyFields a.fields b.fields
        return .adt ⟨a.decl, a.name, a.kind, fields, a.params, a.args.map fun _ => args⟩ := by
  obtain ⟨d, n, k, fs, ps, xs⟩ := a
  obtain ⟨e, m, l, gs, qs, ys⟩ := b
  by_cases h : (Ty.adt ⟨d, n, k, fs, ps, xs⟩).head = (Ty.adt ⟨e, m, l, gs, qs, ys⟩).head
  · rw [if_neg (not_not_intro h)]
    cases xs <;> cases ys <;> simp_all [unify, unifyList, head, bind, Except.bind]
  · rw [if_pos h]
    cases xs <;> cases ys <;> simp_all [unify, head]

theorem unify_fn (ps qs : List Ty) (r s : Ty) :
    unify (.fn ps r) (.fn qs s) =
      if ps.length ≠ qs.length then .error (.arityMismatch ps.length qs.length)
      else do
        let params ← unifyList ps qs
        let ret ← unify r s
        return .fn params ret := by
  simp [unify]

/-- The components of two types with the same root unify, whatever order they are taken in. -/
theorem unify_of_parts {a b : Ty} (ha : a.isSettled) (hhead : a.head = b.head) {vs : List Ty}
    (h : unifyList a.parts b.parts = .ok vs) :
    ∃ c, unify a b = .ok c ∧ c.head = a.head ∧ c.shape? = a.shape? ∧ c.parts = vs := by
  cases a with
  | error => simp [isSettled] at ha
  | infer k v => simp [isSettled] at ha
  | fn ps r =>
      cases b with
      | fn qs s =>
          have hlen : ps.length = qs.length := by simpa [head] using hhead
          obtain ⟨us, rs, hus, hrs, rfl⟩ := (unifyList_append_eq_ok_iff hlen).1 h
          cases hr : unify r s with
          | error e => simp [unifyList, hr, bind, Except.bind] at hrs
          | ok t =>
              obtain rfl : [t] = rs := by
                simpa [unifyList, hr, bind, Except.bind, pure, Except.pure] using hrs
              refine ⟨.fn us t, ?_, ?_, rfl, rfl⟩
              · simp [unify_fn, hlen, hus, hr, bind, Except.bind, pure, Except.pure]
              · simp [head, length_of_unifyList hlen hus]
      | _ => simp [head] at hhead
  | adt a =>
      cases b with
      | adt b =>
          have hfields : (a.fields.map Field.ty).length = (b.fields.map Field.ty).length := by
            simp only [head, Head.adt.injEq] at hhead
            simpa using hhead.2.1
          have hargs : (a.args.getD []).length = (b.args.getD []).length := by
            simp only [head, Head.adt.injEq] at hhead
            cases hx : a.args <;> cases hy : b.args <;> simp_all
          obtain ⟨us, xs, hus, hxs, rfl⟩ := (unifyList_append_eq_ok_iff hfields).1 h
          have hus' := length_of_unifyList hfields hus
          have hxs' := length_of_unifyList hargs hxs
          have hlen : a.fields.length = us.length := by simpa using hus'.symm
          refine ⟨.adt ⟨a.decl, a.name, a.kind, retype a.fields us, a.params,
            a.args.map fun _ => xs⟩, ?_, ?_, ?_, ?_⟩
          · rw [unify_adt, if_neg (not_not_intro hhead), hxs, unifyFields_eq, hus]
            rfl
          · cases hx : a.args with
            | none => simp [head, retype, hx, hlen]
            | some ys => simpa [head, retype, hx, hlen] using hxs'
          · simp [shape?, Adt.shape, label_retype hlen]
          · cases hx : a.args with
            | none =>
                obtain rfl : xs = [] := by simpa [hx] using hxs'
                simp [parts, Adt.parts, ty_retype hlen]
            | some ys => simp [parts, Adt.parts, ty_retype hlen]
      | _ => simp [head] at hhead
  | _ =>
      cases b <;> simp_all [head, parts, unify, unifyList, shape?]

theorem unifyList_parts_of_unify {a b c : Ty} (ha : a.isSettled) (hhead : a.head = b.head)
    (h : unify a b = .ok c) : ∃ vs, unifyList a.parts b.parts = .ok vs := by
  cases a with
  | error => simp [isSettled] at ha
  | infer k v => simp [isSettled] at ha
  | fn ps r =>
      cases b with
      | fn qs s =>
          have hlen : ps.length = qs.length := by simpa [head] using hhead
          rw [unify_fn, if_neg (not_not_intro hlen)] at h
          cases hus : unifyList ps qs with
          | error e => simp [hus, bind, Except.bind] at h
          | ok us =>
              cases hr : unify r s with
              | error e => simp [hus, hr, bind, Except.bind] at h
              | ok t =>
                  refine ⟨us ++ [t], (unifyList_append_eq_ok_iff hlen).2 ⟨us, [t], hus, ?_, rfl⟩⟩
                  simp [unifyList, hr, bind, Except.bind, pure, Except.pure]
      | _ => simp [head] at hhead
  | adt a =>
      cases b with
      | adt b =>
          have hlen : (a.fields.map Field.ty).length = (b.fields.map Field.ty).length := by
            simp only [head, Head.adt.injEq] at hhead
            simpa using hhead.2.1
          rw [unify_adt, if_neg (not_not_intro hhead), unifyFields_eq] at h
          cases hxs : unifyList (a.args.getD []) (b.args.getD []) with
          | error e => simp [hxs, bind, Except.bind] at h
          | ok xs =>
              cases hus : unifyList (a.fields.map Field.ty) (b.fields.map Field.ty) with
              | error e => simp [hxs, hus, bind, Except.bind, Except.map] at h
              | ok us => exact ⟨us ++ xs, (unifyList_append_eq_ok_iff hlen).2 ⟨us, xs, hus, hxs, rfl⟩⟩
      | _ => simp [head] at hhead
  | _ => cases b <;> simp_all [head, parts, unifyList]

/-- Two types that are neither errors nor variables unify only with the same root. -/
theorem parts_of_unify {a b c : Ty} (ha : a.isSettled) (hb : b.isSettled)
    (h : unify a b = .ok c) :
    a.head = b.head ∧ c.head = a.head ∧ c.shape? = a.shape? ∧
      unifyList a.parts b.parts = .ok c.parts := by
  have hhead : a.head = b.head := by
    refine Decidable.byContradiction fun hne => ?_
    cases a <;> cases b <;> simp_all [isSettled, unify, unify_adt, head]
  obtain ⟨vs, hvs⟩ := unifyList_parts_of_unify ha hhead h
  obtain ⟨c', hc', hhead', hshape', hparts'⟩ := unify_of_parts ha hhead hvs
  obtain rfl : c' = c := by
    rw [h] at hc'
    exact (Except.ok.inj hc').symm
  exact ⟨hhead, hhead', hshape', hparts' ▸ hvs⟩

end TypeInference.Ty

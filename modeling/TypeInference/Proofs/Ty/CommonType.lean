import TypeInference.Proofs.Ty.Subst

/-!
# The common type of two types

Unification is symmetric: the two sides may be exchanged, in a success as in a
failure, whose message then has its sides exchanged. A common type is the least
refinement of the two types: it unifies with either to itself, and with every
type that does so too.
-/

namespace TypeInference

/-- The same failure with the two sides exchanged. -/
def UnifyError.flip : UnifyError → UnifyError
  | .mismatch expected found => .mismatch found expected
  | .arityMismatch expected found => .arityMismatch found expected
  | .infiniteType v t => .infiniteType v t

namespace Ty

variable {a b c d : Ty}

/-! ## Component by component -/

/-- Two types with the root of a third one unify to it if their components do. -/
theorem unify_eq_of_parts (ha : a.isSettled) (hhead : a.head = b.head) (hchead : c.head = a.head)
    (hcshape : c.shape? = a.shape?)
    (hparts : ∀ (i : Nat) p q r, a.parts[i]? = some p → b.parts[i]? = some q →
      c.parts[i]? = some r → unify p q = .ok r) : unify a b = .ok c := by
  obtain ⟨vs, hvs⟩ : ∃ vs, unifyList a.parts b.parts = .ok vs := by
    refine unifyList_of_forall fun i p q hp hq => ?_
    obtain ⟨r, hr⟩ := getElem?_of_head hchead.symm hp
    exact ⟨r, hparts i p q r hp hq hr⟩
  obtain ⟨c', hc', hhead', hshape', rfl⟩ := unify_of_parts ha hhead hvs
  have heq : c'.parts = c.parts := by
    refine List.ext_getElem? fun i => ?_
    cases hr : c.parts[i]? with
    | none =>
        have hlen := length_parts_of_head (hhead'.trans hchead.symm)
        rw [List.getElem?_eq_none_iff] at hr ⊢
        omega
    | some r =>
        obtain ⟨r', hr'⟩ := getElem?_of_head (hchead.trans hhead'.symm) hr
        obtain ⟨p, hp⟩ := getElem?_of_head hchead hr
        obtain ⟨q, hq⟩ := getElem?_of_head hhead hp
        have hsame := (unify_of_unifyList hvs hp hq hr').symm.trans (hparts i p q r hp hq hr)
        rw [hr', Except.ok.inj hsame]
  rw [hc', ext_parts (hhead'.trans hchead.symm) (hshape'.trans hcshape.symm) heq]

/-- Every type is its own common type with itself. -/
theorem unify_self (t : Ty) : unify t t = .ok t := by
  induction t using parts_induct with
  | step t ih =>
      rcases isSettled_or t with rfl | ⟨k, v, rfl⟩ | hsettled
      · exact unify_of_error (.inl rfl)
      · simp [unify, unifyVars]
      · refine unify_eq_of_parts hsettled rfl rfl rfl fun i p q r hp hq hr => ?_
        obtain rfl : p = q := Option.some.inj (hp.symm.trans hq)
        obtain rfl : p = r := Option.some.inj (hp.symm.trans hr)
        exact ih p (List.mem_of_getElem? hp)

/-! ## Exchanging the sides -/

theorem absorb_mapError (k : VarKind) (v : VarId) (t : Ty) (e : UnifyError) :
    (absorb k v t e).mapError UnifyError.flip = absorb k v t e.flip := by
  unfold absorb
  split
  · rfl
  · split <;> rfl

theorem unifyVars_swap (k : VarKind) (v : VarId) (l : VarKind) (w : VarId) :
    unifyVars l w k v = (unifyVars k v l w).mapError UnifyError.flip := by
  unfold unifyVars
  by_cases hkl : k = l
  · subst hkl
    rw [if_pos rfl, if_pos rfl, Nat.min_comm]
    rfl
  · rw [if_neg hkl, if_neg (Ne.symm hkl)]
    by_cases hk : k = .general
    · rw [if_pos hk, if_neg fun hl => hkl (hk.trans hl.symm), absorb_mapError]
      rfl
    · rw [if_neg hk, absorb_mapError]
      split
      · rfl
      · -- An integral and a float variable: neither accepts the other.
        cases k <;> cases l <;> first | contradiction | rfl

/-- An error or a variable on one side makes no difference to what is on which side. -/
theorem unify_swap_of_leaf (h : a.isSettled = false ∨ b.isSettled = false) :
    unify b a = (unify a b).mapError UnifyError.flip := by
  rcases isSettled_or a with rfl | ⟨k, v, rfl⟩ | ha
  · rw [unify_of_error (.inl rfl), unify_of_error (.inr rfl)]
    rfl
  · rcases isSettled_or b with rfl | ⟨l, w, rfl⟩ | hb
    · rw [unify_of_error (.inl rfl), unify_of_error (.inr rfl)]
      rfl
    · simpa only [unify] using unifyVars_swap k v l w
    · rw [unify_infer_left hb, unify_infer_right hb, absorb_mapError]
      rfl
  · rcases isSettled_or b with rfl | ⟨l, w, rfl⟩ | hb
    · rw [unify_of_error (.inl rfl), unify_of_error (.inr rfl)]
      rfl
    · rw [unify_infer_left ha, unify_infer_right ha, absorb_mapError]
      rfl
    · simp [ha, hb] at h

/-- Why two types with different roots do not unify. -/
def clash : Ty → Ty → UnifyError
  | .fn ps _, .fn qs _ => .arityMismatch ps.length qs.length
  | a, b => .mismatch a b

theorem flip_clash (a b : Ty) : (clash a b).flip = clash b a := by
  cases a <;> cases b <;> rfl

theorem unify_of_head_ne (ha : a.isSettled) (hb : b.isSettled) (hne : a.head ≠ b.head) :
    unify a b = .error (clash a b) := by
  cases a <;> cases b <;> simp_all [isSettled, unify, unify_adt, head, clash]

theorem unifyList_swap {ts us : List Ty}
    (h : ∀ t ∈ ts, ∀ u ∈ us, unify u t = (unify t u).mapError UnifyError.flip) :
    unifyList us ts = (unifyList ts us).mapError UnifyError.flip := by
  induction ts generalizing us with
  | nil => cases us <;> simp only [unifyList] <;> rfl
  | cons t ts ih =>
      cases us with
      | nil =>
          simp only [unifyList]
          rfl
      | cons u us =>
          have hrest := @ih us fun t' ht u' hu =>
            h t' (List.mem_cons_of_mem _ ht) u' (List.mem_cons_of_mem _ hu)
          rw [unifyList_cons, unifyList_cons, h t List.mem_cons_self u List.mem_cons_self, hrest]
          cases unify t u with
          | error e => rfl
          | ok v => cases unifyList ts us <;> rfl

theorem retype_congr {fs gs : List (Field Ty)} (h : fs.map Field.label = gs.map Field.label)
    (tys : List Ty) : retype fs tys = retype gs tys := by
  induction fs generalizing gs tys with
  | nil =>
      obtain rfl : gs = [] := by simpa using h.symm
      rfl
  | cons f fs ih =>
      cases gs with
      | nil => simp at h
      | cons g gs =>
          simp only [List.map_cons, List.cons.injEq, Field.label, Prod.mk.injEq] at h
          obtain ⟨⟨hname, hindex⟩, hrest⟩ := h
          cases tys with
          | nil => rfl
          | cons t tys =>
              have htail := ih hrest tys
              simp only [retype] at htail
              simp [retype, hname, hindex, htail]

/-- Components are compared in the same order from both sides, so the same one fails first. -/
theorem unify_swap_of_parts (ha : a.isSettled) (hhead : a.head = b.head) (hshape : a.shape? = b.shape?)
    (hparts : ∀ p ∈ a.parts, ∀ q ∈ b.parts, unify q p = (unify p q).mapError UnifyError.flip) :
    unify b a = (unify a b).mapError UnifyError.flip := by
  cases a with
  | error => simp [isSettled] at ha
  | infer k v => simp [isSettled] at ha
  | fn ps r =>
      cases b with
      | fn qs s =>
          have hlen : ps.length = qs.length := by simpa [head] using hhead
          have hparams := unifyList_swap fun p hp q hq =>
            hparts p (List.mem_append_left _ hp) q (List.mem_append_left _ hq)
          have hret := hparts r (List.mem_append_right _ (List.mem_singleton_self r)) s
            (List.mem_append_right _ (List.mem_singleton_self s))
          rw [unify_fn, unify_fn, if_neg (not_not_intro hlen), if_neg (not_not_intro hlen.symm),
            hparams, hret]
          cases unifyList ps qs with
          | error e => rfl
          | ok params => cases unify r s <;> rfl
      | _ => simp [head] at hhead
  | adt x =>
      cases b with
      | adt y =>
          have hargs := unifyList_swap fun p hp q hq =>
            hparts p (List.mem_append_right _ hp) q (List.mem_append_right _ hq)
          have hfields := unifyList_swap fun p hp q hq =>
            hparts p (List.mem_append_left _ hp) q (List.mem_append_left _ hq)
          simp only [shape?, Adt.shape, Option.some.injEq, Shape.mk.injEq] at hshape
          obtain ⟨hname, hkind, hparams, hlabels⟩ := hshape
          rw [unify_adt, unify_adt, if_neg (not_not_intro hhead), if_neg (not_not_intro hhead.symm),
            unifyFields_eq, unifyFields_eq, hargs, hfields, ← hname, ← hkind, ← hparams,
            funext (retype_congr hlabels)]
          simp only [head, Head.adt.injEq] at hhead
          cases unifyList (x.args.getD []) (y.args.getD []) with
          | error e => rfl
          | ok args =>
              have hmap : (y.args.map fun _ => args) = x.args.map fun _ => args := by
                cases hx : x.args <;> cases hy : y.args <;> simp_all
              cases unifyList (x.fields.map Field.ty) (y.fields.map Field.ty) with
              | error e => rfl
              | ok tys =>
                  show Except.ok (adt ⟨y.decl, _, _, _, _, y.args.map fun _ => args⟩) = _
                  rw [hmap, ← hhead.1]
                  rfl
      | _ => simp [head] at hhead
  | _ =>
      cases b <;> simp_all [head, unify]
      rfl

variable {shapes : NodeId → Shape}

/-- Exchanging the sides of a unification exchanges the sides of its failure and nothing else, if
struct types of one declaration share its shape. -/
theorem unify_swap (ha : a.WellShaped shapes) (hb : b.WellShaped shapes) :
    unify b a = (unify a b).mapError UnifyError.flip := by
  induction a using parts_induct generalizing b with
  | step a ih =>
      by_cases hleaf : a.isSettled = false ∨ b.isSettled = false
      · exact unify_swap_of_leaf hleaf
      · rw [not_or, Bool.not_eq_false, Bool.not_eq_false] at hleaf
        obtain ⟨hsa, hsb⟩ := hleaf
        by_cases hhead : a.head = b.head
        · exact unify_swap_of_parts hsa hhead (shape_eq_of_head ha.root hb.root hhead)
            fun p hp q hq => ih p hp (ha.part hp) (hb.part hq)
        · rw [unify_of_head_ne hsa hsb hhead, unify_of_head_ne hsb hsa (Ne.symm hhead), ← flip_clash]
          rfl

/-- Unification succeeds from both sides with the same type, or it fails from both sides, with the
expected and the found exchanged in the failure. -/
theorem unify_symmetric (ha : a.WellShaped shapes) (hb : b.WellShaped shapes) :
    (∀ c, unify b a = .ok c ↔ unify a b = .ok c) ∧
      ∀ e, unify b a = .error e.flip ↔ unify a b = .error e := by
  have hflip : ∀ e e' : UnifyError, e.flip = e'.flip ↔ e = e' := by
    intro e e'
    cases e <;> cases e' <;> simp [UnifyError.flip, and_comm]
  have hswap := unify_swap ha hb
  cases hunify : unify a b with
  | error e =>
      have hfailed : unify b a = .error e.flip := by
        rw [hswap, hunify]
        rfl
      simp [hfailed, hflip]
  | ok c =>
      have hunified : unify b a = .ok c := by
        rw [hswap, hunify]
        rfl
      simp [hunified]

/-- The arities that clash inside the argument of a struct are exchanged. -/
theorem unify_symmetric_nested :
    let wrapper (t : Ty) : Ty := .adt ⟨3, "W", .tuple, [⟨"0", t, 0⟩], [⟨0, "T"⟩], some [t]⟩
    let a := wrapper (.fn [] .unit)
    let b := wrapper (.fn [.infer .general 0] .unit)
    unify a b = .error (.arityMismatch 0 1) ∧ unify b a = .error (.arityMismatch 1 0) := by
  intro wrapper a b
  have ha : a.WellShaped fun _ => ⟨"W", .tuple, [⟨0, "T"⟩], [("0", 0)]⟩ := by decide
  have hfailed : unify a b = .error (.arityMismatch 0 1) := rfl
  exact ⟨hfailed, ((unify_symmetric ha (by decide)).2 _).2 hfailed⟩

/-! ## The least refinement -/

/-- The common type adds nothing to what it has of the first type. -/
theorem unify_common_left (h : unify a b = .ok c) : unify a c = .ok c := by
  refine unify_induct (motive := fun a b c => unify a b = .ok c → unify a c = .ok c)
    ?error ?var ?node h h
  case error => exact fun a b _ _ => unify_of_error (.inr rfl)
  case var =>
    rintro a b c - - (rfl | rfl) - - h
    · exact unify_self c
    · exact h
  case node =>
    intro a b c hsa _ hhead hchead hcshape hunify hparts _
    refine unify_eq_of_parts hsa hchead.symm hchead hcshape fun i p r r' hp hr hr' => ?_
    obtain rfl : r = r' := Option.some.inj (hr.symm.trans hr')
    obtain ⟨q, hq⟩ := getElem?_of_head hhead hp
    exact hparts i p q r hp hq hr (unify_of_unifyList hunify hp hq hr)

/-- Whatever both types add nothing to, their common type adds nothing to. -/
theorem unify_common_least (h : unify a b = .ok c) (had : unify a d = .ok d)
    (hbd : unify b d = .ok d) : unify c d = .ok d := by
  refine unify_induct
    (motive := fun a b c => ∀ d, unify a d = .ok d → unify b d = .ok d → unify c d = .ok d)
    ?error ?var ?node h d had hbd
  case error =>
    rintro a b (rfl | rfl) d had hbd
    · exact had
    · exact hbd
  case var =>
    rintro a b c - - (rfl | rfl) - - d had hbd
    · exact had
    · exact hbd
  case node =>
    intro a b c hsa hsb hhead hchead hcshape _ hparts d had hbd
    have hsc : c.isSettled := (isSettled_of_head hchead).trans hsa
    rcases isSettled_or d with rfl | ⟨l, w, rfl⟩ | hsd
    · exact unify_of_error (.inr rfl)
    · rw [unify_infer_right hsa, absorb_eq_ok_iff] at had
      obtain ⟨-, -, rfl⟩ := had
      simp [isSettled] at hsa
    · obtain ⟨hahead, -, hdshape, hda⟩ := parts_of_unify hsa hsd had
      obtain ⟨-, -, -, hdb⟩ := parts_of_unify hsb hsd hbd
      refine unify_eq_of_parts hsc (hchead.trans hahead) (hahead.symm.trans hchead.symm)
        (hdshape.trans hcshape.symm) fun i r s s' hr hs hs' => ?_
      obtain rfl : s = s' := Option.some.inj (hs.symm.trans hs')
      obtain ⟨p, hp⟩ := getElem?_of_head hchead hr
      obtain ⟨q, hq⟩ := getElem?_of_head hhead hp
      exact hparts i p q r hp hq hr s (unify_of_unifyList hda hp hs hs)
        (unify_of_unifyList hdb hq hs hs)

/-- Unifying finds the least type that both types refine to, where a type refines to those with which
it unifies to them. -/
theorem unify_leastRefinement :
    (∀ a : Ty, unify a a = .ok a) ∧
      ∀ (shapes : NodeId → Shape) (a b c : Ty), a.WellShaped shapes → b.WellShaped shapes →
        unify a b = .ok c →
          unify a c = .ok c ∧ unify b c = .ok c ∧
            ∀ d, unify a d = .ok d → unify b d = .ok d → unify c d = .ok d := by
  refine ⟨unify_self, fun shapes a b c ha hb h => ?_⟩
  have hswapped : unify b a = .ok c := by
    rw [unify_swap ha hb, h]
    rfl
  exact ⟨unify_common_left h, unify_common_left hswapped, fun d => unify_common_least h⟩

/-- Each side is more specific than the other in one place, and an error absorbs in a third. -/
theorem unify_leastRefinement_mixed :
    let wrapper (t : Ty) : Ty := .adt ⟨3, "W", .tuple, [⟨"0", t, 0⟩], [⟨0, "T"⟩], some [t]⟩
    let a := Ty.fn [wrapper (.infer .general 0), .infer .integral 4, .error] .unit
    let b := Ty.fn [wrapper (.prim .bool), .infer .integral 2, .prim .str] (.infer .general 1)
    let c := Ty.fn [wrapper (.prim .bool), .infer .integral 2, .error] .unit
    unify a b = .ok c ∧ unify a c = .ok c ∧ unify b c = .ok c ∧
      ∀ d, unify a d = .ok d → unify b d = .ok d → unify c d = .ok d := by
  intro wrapper a b c
  have h : unify a b = .ok c := rfl
  exact ⟨h, unify_leastRefinement.2 (fun _ => ⟨"W", .tuple, [⟨0, "T"⟩], [("0", 0)]⟩) a b c
    (by decide) (by decide) h⟩

end Ty

end TypeInference

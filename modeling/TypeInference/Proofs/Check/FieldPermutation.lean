import TypeInference.Proofs.Check.FieldSwap

/-!
# Fields in another order

The fields of a literal, all of them leaves, are deposited one by one. In
another order they are deposited as well, and end in a session with the same
solutions: neighbours are exchanged one pair at a time, and twins of twins are
twins.
-/

namespace TypeInference

open Ty Walk Check

variable {W : Setting} {P Q : Pairing} {s s' s'' : Session} {t t' t'' : Ty}

/-! ## Twins of twins -/

/-- Solutions that go together with a common one in the middle. -/
def Pairing.comp (P Q : Pairing) : Pairing :=
  ⟨P.kinds, Q.kinds', fun σ σ'' => ∃ σ', P.joint σ σ' ∧ Q.joint σ' σ''⟩

theorem Pairing.Types.comp (h : P.Types W t t') (h' : Q.Types W t' t'') :
    (P.comp Q).Types W t t'' :=
  ⟨h.left, h'.right, by
    rintro σ σ'' ⟨σ', hjoint, hjoint'⟩
    exact (h.equal hjoint).trans (h'.equal hjoint')⟩

theorem Pairing.Twins.comp (h : P.Twins W s s') (h' : Q.Twins W s' s'') (hkinds : Q.kinds = P.kinds') :
    (P.comp Q).Twins W s s'' where
  holds :=
    { left := h.holds.left
      right := h'.holds.right
      locations_eq := h'.holds.locations_eq.trans h.holds.locations_eq
      entries := fun id hid hplain =>
        rel_comp (h.holds.entries id hid hplain) (h'.holds.entries id hid hplain)
          fun _ _ _ ht ht' => ht.comp ht'
      satisfied := by
        rintro σ σ'' ⟨σ', hjoint, hjoint'⟩
        exact ⟨(h.holds.satisfied hjoint).1, (h'.holds.satisfied hjoint').2⟩
      respects := by
        rintro σ σ'' ⟨σ', hjoint, hjoint'⟩ hσ
        exact h'.holds.respects hjoint' (hkinds ▸ h.holds.respects hjoint hσ)
      aligned := by
        rintro σ σ'' ⟨σ', hjoint, hjoint'⟩ i
        have hlast := h'.holds.aligned hjoint' i
        rw [hkinds] at hlast
        exact (h.holds.aligned hjoint i).trans hlast }
  covers := by
    refine ⟨fun {σ} hσ hsat => ?_, fun {σ''} hσ'' hsat => ?_⟩
    · obtain ⟨σ', hjoint⟩ := h.covers.forth hσ hsat
      obtain ⟨σ'', hjoint'⟩ := h'.covers.forth (hkinds ▸ h.holds.respects hjoint hσ)
        (h.holds.satisfied hjoint).2
      exact ⟨σ'', σ', hjoint, hjoint'⟩
    · obtain ⟨σ', hjoint', hσ'⟩ := h'.covers.back hσ'' hsat
      obtain ⟨σ, hjoint, hσ⟩ := h.covers.back (hkinds ▸ hσ') (h'.holds.satisfied hjoint').1
      exact ⟨σ, ⟨σ', hjoint, hjoint'⟩, hσ⟩

/-- What comes after a session on the right side comes after the pairing. -/
theorem Pairing.Leads.comp {R : Pairing} (h : P.Leads Q) (h' : (Pairing.same P.kinds' s).Leads R) :
    P.Leads (Q.comp R) := by
  refine ⟨h.left, h'.right, ?_⟩
  rintro σ σ'' ⟨σ', hjoint, hjoint'⟩
  obtain ⟨τ, τ', hP, hτ, hτ'⟩ := h.joint hjoint
  obtain ⟨υ, _, ⟨rfl, -, -⟩, hυ, hυ'⟩ := h'.joint hjoint'
  exact ⟨τ, τ', hP, hτ, fun v hv => (hτ' v hv).trans ((hυ v hv).symm.trans (hυ' v hv))⟩

/-! ## Deposits one by one -/

/-- Fields are deposited one after the other, each in a slot that was free. The new variables are of
these kinds. -/
inductive DepositsAll (a : Adt Ty) :
    List FieldInit → Slots → Session → List VarKind → Slots → Session → Prop
  | nil (slots : Slots) (s : Session) : DepositsAll a [] slots s [] slots s
  | cons {F : FieldInit} {rest : List FieldInit} {f : Field Ty} {slots slots' : Slots}
      {s s₁ s' : Session} {ks : List VarKind} (hnew : F.fieldName ∉ slots.taken)
      (hf : a.field? F.fieldName = some f) (hlt : f.index < slots.nodes.length)
      (hdeposits : F.Deposits f.ty s s₁)
      (hrest : DepositsAll a rest (slots.accept f F) s₁ ks slots' s') :
      DepositsAll a (F :: rest) slots s
        (.replicate (s₁.context.bindings.count - s.context.bindings.count) F.leafKind ++ ks) slots' s'

structure Pairing.Ends (P Q : Pairing) (W : Setting) (ks ks' : List VarKind) (slots slots' : Slots)
    (s s' : Session) : Prop where
  leads : P.Leads Q
  twins : Q.Twins W s s'
  slots : slots.Matches slots'
  kinds_eq : Q.kinds = P.kinds ++ ks
  kinds_eq' : Q.kinds' = P.kinds' ++ ks'

variable {ks ks' ks'' ls ls' : List VarKind} {slots slots' slots'' slots₁ slots₂ : Slots}
  {s₁ s₂ : Session} {a a' : Adt Ty} {fields fields' : List FieldInit}

theorem Pairing.Ends.comp {R : Pairing} (h : P.Ends Q W ks ks' slots slots' s s')
    (h' : (Pairing.same P.kinds' s₁).Ends R W ks' ks'' slots' slots'' s' s'') :
    P.Ends (Q.comp R) W ks ks'' slots slots'' s s'' :=
  ⟨h.leads.comp h'.leads, h.twins.comp h'.twins (h'.kinds_eq.trans h.kinds_eq'.symm),
    h.slots.trans h'.slots, h.kinds_eq, h'.kinds_eq'⟩

/-- Deposits that began later. -/
theorem Pairing.Ends.after {R : Pairing} (h : R.Ends Q W ks ks' slots slots' s s') (hlead : P.Leads R)
    (hkinds : R.kinds = P.kinds ++ ls) (hkinds' : R.kinds' = P.kinds' ++ ls') :
    P.Ends Q W (ls ++ ks) (ls' ++ ks') slots slots' s s' :=
  ⟨hlead.trans h.leads, h.twins, h.slots, by rw [h.kinds_eq, hkinds, List.append_assoc],
    by rw [h.kinds_eq', hkinds', List.append_assoc]⟩

/-- In twins the same fields are deposited in one order. -/
theorem DepositsAll.twins (hplain : ∀ F ∈ fields, F.IsPlain W) (hs : P.Twins W s s')
    (ha : P.Types W (.adt a) (.adt a')) (hslots : slots.Matches slots')
    (h : DepositsAll a fields slots s ks slots₁ s₁) :
    ∃ slots₁' s₁' Q, DepositsAll a' fields slots' s' ks slots₁' s₁' ∧
      P.Ends Q W ks ks slots₁ slots₁' s₁ s₁' := by
  induction h generalizing P s' slots' with
  | nil slots s =>
      exact ⟨slots', s', P, .nil _ _, .refl P, hs, hslots, by simp, by simp⟩
  | @cons F rest f slots slots₁ s s₂ s₁ ks hnew hf hlt hdeposits _ ih =>
      obtain ⟨f', hf', hlabel, hty⟩ := hs.field? ha hf
      have hF := hplain F List.mem_cons_self
      obtain ⟨n, s₂', Q, hdeposits', hQ, hlead, hkinds, hkinds'⟩ := hdeposits.twins hF hs hty
      obtain ⟨slots₁', s₁', R, hrest, hends⟩ := ih (fun G hG => hplain G (List.mem_cons_of_mem _ hG)) hQ
        (ha.mono hlead) (hslots.accept hlabel F)
      have hcount : s₂.context.bindings.count - s.context.bindings.count = n := by
        rw [hQ.holds.left.sound.bindings.count_eq, hs.holds.left.sound.bindings.count_eq, hkinds]
        simp
      have hcount' : s₂'.context.bindings.count - s'.context.bindings.count = n := by
        rw [hQ.holds.right.sound.bindings.count_eq, hs.holds.right.sound.bindings.count_eq, hkinds']
        simp
      have hindex : f'.index = f.index := congrArg Prod.snd hlabel
      have hall : DepositsAll a' (F :: rest) slots' s' _ slots₁' s₁' := .cons
        (fun hmem => hnew (hslots.taken.mem_iff.1 hmem)) hf' (by rwa [hindex, hslots.nodes_eq])
        hdeposits' hrest
      rw [hcount'] at hall
      rw [hcount]
      exact ⟨slots₁', s₁', R, hall, hends.after hlead hkinds hkinds'⟩

/-! ## Permutations -/

/-- Whether two fields share no node, and no path of either resolved to a node of the other. -/
structure FieldInit.Separate (F G : FieldInit) : Prop where
  apart : F.Apart G
  disjoint : ∀ id ∈ F.ids, id ∉ G.ids

theorem FieldInit.Separate.symm {F G : FieldInit} (h : F.Separate G) : G.Separate F :=
  ⟨h.apart.symm, fun id hid hid' => h.disjoint id hid' hid⟩

variable {kinds : List VarKind} {F G : FieldInit} {m n : Nat} {u v : Ty}

theorem Setting.IsType.field {f : Field Ty} (ha : W.IsType kinds (.adt a)) (hf : f ∈ a.fields) :
    W.IsType kinds f.ty := ha.part (List.mem_append_left _ (List.mem_map_of_mem hf))

namespace FieldInit

/-- A session is followed by the one after a deposit. -/
theorem Deposits.Effect.leads (h : Deposits.Effect W F kinds n s s₁) : (Pairing.same kinds s).Leads
    (.same (kinds ++ .replicate n F.leafKind) s₁) := by
  refine ⟨List.prefix_append _ _, List.prefix_append _ _, ?_⟩
  rintro σ _ ⟨rfl, hkinds, hσ⟩
  exact ⟨_, _, ⟨rfl, hkinds.of_prefix (List.prefix_append _ _), h.satisfied hkinds hσ⟩,
    fun _ _ => rfl, fun _ _ => rfl⟩

theorem Deposits.Effect.count_sub (hs : s.IsClean W kinds) (h : Deposits.Effect W F kinds n s s₁) :
    s₁.context.bindings.count - s.context.bindings.count = n := by
  rw [h.clean.sound.bindings.count_eq, hs.sound.bindings.count_eq]
  simp

/-- A session is followed by those after two deposits in either order. -/
theorem Consecutive.leads (h : Consecutive W kinds F G m n s s₂ s₁ u v) :
    (Pairing.same kinds s).Leads (.exchange kinds F G m n s₁) := by
  refine ⟨(List.prefix_append _ _).trans (List.prefix_append _ _),
    (List.prefix_append _ _).trans (List.prefix_append _ _), ?_⟩
  rintro σ σ' ⟨hexchanged, hkinds, hσ⟩
  exact ⟨σ, σ, ⟨rfl, hkinds.of_prefix ((List.prefix_append _ _).trans (List.prefix_append _ _)),
    (h.satisfied hkinds hσ).2⟩, fun _ _ => rfl, fun v hv => (hexchanged.old v hv).symm⟩

end FieldInit

/-- Two fields of different names fill their slots in either order. -/
theorem Slots.matches_accept (ha : a.IsIndexed) {f g : Field Ty} (hf : a.field? F.fieldName = some f)
    (hg : a.field? G.fieldName = some g) (hne : F.fieldName ≠ G.fieldName)
    (hsound : slots.isFaulty = false) :
    ((slots.accept f F).accept g G).Matches ((slots.accept g G).accept f F) := by
  obtain ⟨hfmem, hfname⟩ := Adt.field?_eq_some hf
  obtain ⟨hgmem, hgname⟩ := Adt.field?_eq_some hg
  have hindex : f.index ≠ g.index := by
    intro heq
    rw [ha.eq_of_index hfmem hgmem heq] at hfname
    exact hne (hfname.symm.trans hgname)
  exact ⟨List.Perm.swap _ _ _, (List.set_comm _ _ hindex).symm, hsound, hsound⟩

/-- The first two of the fields that are deposited may be exchanged. -/
theorem DepositsAll.swap {rest : List FieldInit} (hplain : ∀ E ∈ F :: G :: rest, E.IsPlain W)
    (hFG : F.Separate G) (hs : s.IsClean W kinds) (ha : W.IsType kinds (.adt a))
    (hsound : slots.isFaulty = false) (h : DepositsAll a (F :: G :: rest) slots s ks slots₁ s₁) :
    ∃ ks' slots₁' s₁' Q, DepositsAll a (G :: F :: rest) slots s ks' slots₁' s₁' ∧
      (Pairing.same kinds s).Ends Q W ks ks' slots₁ slots₁' s₁ s₁' := by
  cases h with
  | @cons _ _ f _ _ _ s₂ _ _ hnew hf hlt hdeposits hrest =>
      cases hrest with
      | @cons _ _ g _ _ _ s₄ _ ks hnew' hg hlt' hdeposits' hrest =>
          have hF := hplain F List.mem_cons_self
          have hG := hplain G (List.mem_cons_of_mem _ List.mem_cons_self)
          have hf' := ha.field (Adt.field?_eq_some hf).1
          have hg' := ha.field (Adt.field?_eq_some hg).1
          obtain ⟨hne, hnewG⟩ := not_or.1 (mt List.mem_cons.2 hnew')
          obtain ⟨m, heffect⟩ := hdeposits.exists_effect hF hs hf'
          obtain ⟨n, heffect'⟩ := hdeposits'.exists_effect hG heffect.clean
            (hg'.mono (List.prefix_append _ _))
          have hboth : FieldInit.Consecutive W kinds F G m n s s₂ s₄ f.ty g.ty :=
            ⟨hF, hG, hFG.apart, hFG.disjoint, hf', hg', hs, hdeposits, hdeposits', heffect, heffect'⟩
          obtain ⟨s₃, s₅, hother, htwins⟩ := hboth.twins
          have hslots := Slots.matches_accept (.of_fine W.indexed ha.fine) hf hg (Ne.symm hne) hsound
          obtain ⟨slots₁', s₁', Q, hrest', hends⟩ := hrest.twins
            (fun E hE => hplain E (List.mem_cons_of_mem _ (List.mem_cons_of_mem _ hE))) htwins
            (ha.same.mono hboth.leads) hslots
          refine ⟨_, slots₁', s₁', Q, .cons hnewG hg (by simpa [Slots.accept, Slots.fill] using hlt')
            hother.deposits (.cons ?_ hf ?_ hother.deposits' hrest'), ?_⟩
          · intro hmem
            rcases List.mem_cons.1 hmem with heq | hmem
            · exact hne heq.symm
            · exact hnew hmem
          · simpa [Slots.accept, Slots.fill] using hlt
          · rw [heffect.count_sub hs, heffect'.count_sub heffect.clean, hother.effect.count_sub hs,
              hother.effect'.count_sub hother.effect.clean, ← List.append_assoc, ← List.append_assoc]
            exact hends.after hboth.leads (by simp [Pairing.exchange, Pairing.same])
              (by simp [Pairing.exchange, Pairing.same])

/-- Fields that are deposited in one order are deposited in any other order. -/
theorem DepositsAll.perm (hperm : fields.Perm fields') (hplain : ∀ F ∈ fields, F.IsPlain W)
    (hseparate : fields.Pairwise FieldInit.Separate) (hs : s.IsClean W kinds)
    (ha : W.IsType kinds (.adt a)) (hsound : slots.isFaulty = false)
    (h : DepositsAll a fields slots s ks slots₁ s₁) :
    ∃ ks' slots₁' s₁' Q, DepositsAll a fields' slots s ks' slots₁' s₁' ∧
      (Pairing.same kinds s).Ends Q W ks ks' slots₁ slots₁' s₁ s₁' := by
  -- By swaps of neighbours; the pairings that they end in are composed.
  induction hperm generalizing kinds slots s ks slots₁ s₁ with
  | nil =>
      obtain ⟨slots₁', s₁', Q, h', hends⟩ := h.twins hplain hs.same ha.same ⟨.refl _, rfl, hsound, hsound⟩
      exact ⟨ks, slots₁', s₁', Q, h', hends⟩
  | @cons F rest rest' _ ih =>
      cases h with
      | @cons _ _ f _ _ _ s₂ _ ks hnew hf hlt hdeposits hrest =>
          have hf' := ha.field (Adt.field?_eq_some hf).1
          have hsound' : (slots.accept f F).isFaulty = false := hsound
          obtain ⟨n, heffect⟩ := hdeposits.exists_effect (hplain F List.mem_cons_self) hs hf'
          obtain ⟨ks', slots₁', s₁', Q, hrest', hends⟩ := ih
            (fun G hG => hplain G (List.mem_cons_of_mem _ hG)) (List.pairwise_cons.1 hseparate).2
            heffect.clean (ha.mono (List.prefix_append _ _)) hsound' hrest
          refine ⟨_, slots₁', s₁', Q, .cons hnew hf hlt hdeposits hrest', ?_⟩
          rw [heffect.count_sub hs]
          exact hends.after heffect.leads rfl rfl
  | swap G F rest =>
      exact h.swap hplain ((List.pairwise_cons.1 hseparate).1 G List.mem_cons_self) hs ha hsound
  | trans hfirst _ ih ih' =>
      obtain ⟨ks', slots₂, s₂, Q, h', hends⟩ := ih hplain hseparate hs ha hsound h
      obtain ⟨ks'', slots₃, s₃, R, h'', hends'⟩ := ih'
        (fun F hF => hplain F (hfirst.mem_iff.2 hF))
        ((hfirst.pairwise_iff FieldInit.Separate.symm).1 hseparate) hs ha hsound h'
      exact ⟨ks'', slots₃, s₃, Q.comp R, h'', hends.comp hends'⟩

/-! ## Checks of fields -/

/-- A field is placed in a slot that is free, or its check fails. -/
theorem Check.declaredField_cases (a : Adt Ty) (slots : Slots) (node : FieldInit) :
    (∃ f, node.fieldName ∉ slots.taken ∧ a.field? node.fieldName = some f ∧
        f.index < slots.nodes.length ∧ declaredField a slots node = pure (some f)) ∨
      (declaredField a slots node).Fails := by
  have hreport (cause : Cause) :
      (report cause node.mark.span >>= fun _ => pure (none : Option (Field Ty))).Fails :=
    fails_report_bind _ _ (keepsErrors_pure none)
  unfold declaredField
  split
  · exact .inr (hreport _)
  · rename_i hnew
    split
    · exact .inr (hreport _)
    · rename_i f hf
      split
      · rename_i hlt
        exact .inl ⟨f, by simpa using hnew, hf, hlt, rfl⟩
      · exact .inr (fails_throw _)

namespace FieldInit

/-- The check of a leaf that is placed. -/
theorem check_of_placed (hF : F.isLeaf) {f : Field Ty}
    (hplaced : declaredField a slots F = pure (some f)) :
    F.check a slots = leaf F (F.value >>= acceptField f slots F) := by
  rw [check_eq, hplaced, first_pure, checkPlaced, checkValue_of_isLeaf hF, child_leaf, leaf_bind]
  rfl

theorem check_of_deposits (hF : F.isLeaf) (hnew : F.fieldName ∉ slots.taken) {f : Field Ty}
    (hf : a.field? F.fieldName = some f) (hlt : f.index < slots.nodes.length)
    (h : F.Deposits f.ty s s₁) : F.check a slots s = ⟨F, .ok (slots.accept f F), s₁⟩ := by
  obtain ⟨hvalue, herrors, hunify⟩ := h
  have hplaced : declaredField a slots F = pure (some f) := by
    rw [declaredField, if_neg (by simpa using hnew), hf]
    exact if_pos hlt
  rw [check_of_placed hF hplaced, leaf, perform_bind, hvalue]
  simp only
  rw [acceptField, perform_bind, perform_unify, hunify]
  rfl

theorem deposits_of_check (hF : F.isLeaf) (hok : (F.check a slots s).outcome = .ok slots')
    (herrors : (F.check a slots s).session.sink.errors = []) :
    ∃ f, F.fieldName ∉ slots.taken ∧ a.field? F.fieldName = some f ∧ f.index < slots.nodes.length ∧
      slots' = slots.accept f F ∧ F.Deposits f.ty s (F.check a slots s).session := by
  rcases declaredField_cases a slots F with ⟨f, hnew, hf, hlt, hplaced⟩ | hfails
  · rw [check_of_placed hF hplaced] at hok herrors ⊢
    refine ⟨f, hnew, hf, hlt, ?_⟩
    rw [leaf_outcome, perform_bind] at hok
    rw [leaf_session, perform_bind] at herrors ⊢
    rcases hvalue : F.value.perform s with ⟨e | t, mid⟩
    · rw [hvalue] at hok
      cases hok
    · rw [hvalue] at hok herrors
      simp only [acceptField, perform_bind, perform_unify] at hok herrors ⊢
      cases hunify : (mid.context.unify f.ty t).1 with
      | error e =>
          rw [hunify] at hok herrors
          exact (fails_report_bind (.ofUnify e) F.mark.span (f := fun _ => pure slots.fault)
            (keepsErrors_pure _) _ _ hok herrors).elim
      | ok c =>
          simp only [hunify] at hok herrors ⊢
          exact ⟨(Except.ok.inj hok).symm, .intro hvalue herrors hunify⟩
  · rw [check_eq] at hok herrors
    rcases first_cases F (declaredField a slots F) (F.checkPlaced slots) s with
      ⟨r, s', hrun, heq⟩ | ⟨e, s', hrun, heq⟩
    · rw [heq] at herrors
      have hkeeps : (F.checkPlaced slots r).KeepsErrors := by
        cases r with
        | none => exact keepsErrors_leaf (keepsErrors_pure _)
        | some f => exact keepsErrors_child F.steady.keepsErrors fun _ _ =>
            keepsErrors_leaf (keepsErrors_acceptField _ _ _ _)
      have hreported := hfails s r (by rw [hrun])
      rw [hrun] at hreported
      exact (hreported (hkeeps s' herrors)).elim
    · rw [heq] at hok
      cases hok

end FieldInit

/-- A walk that gives back the result of its child ends as the child does. -/
theorem Walk.child_return {μ ν α : Type} (w : Walk μ α) (rebuild node : μ → ν) (s : Session) :
    (child w rebuild (fun n a => leaf (node n) (return a)) s).outcome = (w s).outcome ∧
      (child w rebuild (fun n a => leaf (node n) (return a)) s).session = (w s).session := by
  cases h : (w s).outcome with
  | ok a =>
      rw [child_of_ok h]
      exact ⟨rfl, rfl⟩
  | error e =>
      rw [child_of_error h]
      exact ⟨rfl, rfl⟩

/-- Fields that are deposited one by one are checked. -/
theorem DepositsAll.checkAll (hplain : ∀ F ∈ fields, F.IsPlain W)
    (h : DepositsAll a fields slots s ks slots₁ s₁) :
    (FieldInit.checkAll a slots fields s).outcome = .ok slots₁ ∧
      (FieldInit.checkAll a slots fields s).session = s₁ := by
  induction h with
  | nil slots s =>
      rw [FieldInit.checkAll]
      exact ⟨rfl, rfl⟩
  | @cons F rest f slots slots₁ s s₂ s₁ ks hnew hf hlt hdeposits _ ih =>
      obtain ⟨hok, hsession⟩ := ih fun G hG => hplain G (List.mem_cons_of_mem _ hG)
      have hcheck := FieldInit.check_of_deposits (hplain F List.mem_cons_self).isLeaf hnew hf hlt hdeposits
      rw [FieldInit.checkAll, child_of_ok (a := slots.accept f F) (by rw [hcheck])]
      simp only [hcheck]
      obtain ⟨hok', hsession'⟩ := child_return (FieldInit.checkAll a (slots.accept f F) rest) (F :: ·)
        (F :: ·) s₂
      exact ⟨hok'.trans hok, hsession'.trans hsession⟩

/-- Fields that are checked without a report are deposited one by one. -/
theorem depositsAll_of_checkAll (hplain : ∀ F ∈ fields, F.IsPlain W)
    (hok : (FieldInit.checkAll a slots fields s).outcome = .ok slots₁)
    (herrors : (FieldInit.checkAll a slots fields s).session.sink.errors = []) :
    ∃ ks, DepositsAll a fields slots s ks slots₁ (FieldInit.checkAll a slots fields s).session := by
  induction fields generalizing slots s with
  | nil =>
      rw [FieldInit.checkAll] at hok ⊢
      obtain rfl : slots = slots₁ := Except.ok.inj hok
      exact ⟨[], .nil slots s⟩
  | cons F rest ih =>
      rw [FieldInit.checkAll] at hok herrors ⊢
      rcases child_cases (F.check a slots) (· :: rest) _ s with ⟨slots', hcheck, heq⟩ | ⟨e, -, heq⟩
      · rw [heq] at hok herrors ⊢
        obtain ⟨hok', hsession'⟩ := child_return
          (FieldInit.checkAll a slots' rest) ((F.check a slots s).node :: ·)
          ((F.check a slots s).node :: ·) (F.check a slots s).session
        rw [hok'] at hok
        rw [hsession'] at herrors ⊢
        have herrors' := (FieldInit.steady_checkAll a slots' rest).keepsErrors _ herrors
        obtain ⟨f, hnew, hf, hlt, rfl, hdeposits⟩ :=
          FieldInit.deposits_of_check (hplain F List.mem_cons_self).isLeaf hcheck herrors'
        obtain ⟨ks, hrest⟩ := ih (fun G hG => hplain G (List.mem_cons_of_mem _ hG)) hok herrors
        exact ⟨_, .cons hnew hf hlt hdeposits hrest⟩
      · rw [heq] at hok
        cases hok

/-- Written fields in another order, all of them leaves. -/
theorem Walk.follows_checkFields_perm (hplain : ∀ F ∈ fields, F.IsPlain W)
    (hseparate : fields.Pairwise FieldInit.Separate) (hperm : fields.Perm fields')
    (ha : P.Types W (.adt a) (.adt a')) (hslots : slots.Matches slots') :
    Follows (.twins W) P (FieldInit.checkAll a slots fields) (FieldInit.checkAll a' slots' fields')
      fun _ _ _ => Slots.Matches := by
  intro s s' hs slots₁ hok herrors
  obtain ⟨ks, h⟩ := depositsAll_of_checkAll hplain hok herrors
  -- First the other session, then the other order.
  obtain ⟨slots₂, s₂, Q, h', hends⟩ := h.twins hplain hs ha hslots
  obtain ⟨ks', slots₃, s₃, R, h'', hends'⟩ :=
    h'.perm hperm hplain hseparate hs.holds.right ha.right hslots.sound'
  have hall := hends.comp hends'
  obtain ⟨hok', hsession⟩ := h''.checkAll fun F hF => hplain F (hperm.mem_iff.2 hF)
  exact ⟨_, slots₃, hall.leads, hsession ▸ hall.twins, hok', hall.slots⟩

end TypeInference

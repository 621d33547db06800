import TypeInference.Proofs.Check.LeafFields

/-!
# Neighbouring fields exchanged

Two fields are deposited one after the other, in either order. The variables of
the one come before those of the other or after them, and the same equations
are solved, so that the solutions differ in the numbers of these variables only.
-/

namespace TypeInference

open Ty

variable {W : Setting} {kinds : List VarKind} {k l : VarKind} {c m n : Nat} {σ σ' : VarId → Ty}
  {s s₂ s₄ : Session} {F G : FieldInit} {u v t : Ty}

/-! ## Blocks of variables -/

/-- The first `c` variables stand for the same as in one substitution, the others as in another. -/
def joined (c : Nat) (σ τ : VarId → Ty) : VarId → Ty := fun x => if x < c then σ x else τ (x - c)

theorem joined_of_lt {τ : VarId → Ty} {x : VarId} (h : x < c) : joined c σ τ x = σ x := if_pos h

@[simp] theorem joined_add {τ : VarId → Ty} (x : Nat) : joined c σ τ (c + x) = τ x := by
  rw [joined, if_neg (Nat.not_lt.2 (Nat.le_add_right c x)), Nat.add_sub_cancel_left]

theorem forall_lt_add {p : Nat → Prop} (h : ∀ x < c, p x) (h' : ∀ x < n, p (c + x)) :
    ∀ x < c + n, p x := by
  intro x hx
  by_cases hlt : x < c
  · exact h x hlt
  · obtain ⟨y, rfl⟩ := Nat.exists_eq_add_of_le (Nat.le_of_not_lt hlt)
    exact h' y (Nat.add_lt_add_iff_left.1 hx)

/-- Two blocks of variables, of `m` and of `n` after `c` others, are exchanged. -/
structure Exchanged (c m n : Nat) (σ σ' : VarId → Ty) : Prop where
  old : ∀ x < c, σ' x = σ x
  first : ∀ x < m, σ' (c + n + x) = σ (c + x)
  second : ∀ x < n, σ' (c + x) = σ (c + m + x)
  rest : ∀ x, σ' (c + n + m + x) = σ (c + m + n + x)

theorem Exchanged.symm (h : Exchanged c m n σ σ') : Exchanged c n m σ' σ :=
  ⟨fun x hx => (h.old x hx).symm, fun x hx => (h.second x hx).symm, fun x hx => (h.first x hx).symm,
    fun x => (h.rest x).symm⟩

theorem exists_exchanged (c m n : Nat) (σ : VarId → Ty) : ∃ σ', Exchanged c m n σ σ' := by
  refine ⟨joined c σ (joined n (fun x => σ (c + m + x)) (joined m (fun x => σ (c + x))
    fun x => σ (c + m + n + x))), fun x hx => joined_of_lt hx, fun x hx => ?_, fun x hx => ?_,
    fun x => ?_⟩
  · rw [Nat.add_assoc c n x, joined_add, joined_add, joined_of_lt hx]
  · rw [joined_add, joined_of_lt hx]
  · rw [Nat.add_assoc (c + n) m x, Nat.add_assoc c n (m + x), joined_add, joined_add, joined_add]

theorem respectsKinds_append_replicate : RespectsKinds (kinds ++ .replicate n k) σ ↔
    RespectsKinds kinds σ ∧ ∀ x < n, k.accepts (σ (kinds.length + x)) := by
  refine ⟨fun h => ⟨h.of_prefix (List.prefix_append _ _), fun x hx => h _ k ?_⟩, fun h v l hl => ?_⟩
  · rw [List.getElem?_append_right (Nat.le_add_right _ _), Nat.add_sub_cancel_left]
    simp [hx]
  · by_cases hlt : v < kinds.length
    · exact h.1 v l (by rwa [List.getElem?_append_left hlt] at hl)
    · obtain ⟨x, rfl⟩ := Nat.exists_eq_add_of_le (Nat.le_of_not_lt hlt)
      rw [List.getElem?_append_right (Nat.le_add_right _ _), Nat.add_sub_cancel_left,
        List.getElem?_replicate] at hl
      split at hl
      · rename_i hx
        obtain rfl := Option.some.inj hl
        exact h.2 x hx
      · cases hl

theorem Exchanged.respects (h : Exchanged kinds.length m n σ σ')
    (hσ : RespectsKinds (kinds ++ .replicate m k ++ .replicate n l) σ) :
    RespectsKinds (kinds ++ .replicate n l ++ .replicate m k) σ' := by
  simp only [respectsKinds_append_replicate, List.length_append, List.length_replicate] at hσ ⊢
  obtain ⟨⟨hold, hfirst⟩, hsecond⟩ := hσ
  refine ⟨⟨hold.congr fun x hx => (h.old x hx).symm, fun x hx => ?_⟩, fun x hx => ?_⟩
  · rw [h.second x hx]
    exact hsecond x hx
  · rw [h.first x hx]
    exact hfirst x hx

/-! ## The exchanged order -/

section

variable (W : Setting) (kinds : List VarKind) (F G : FieldInit) (m n : Nat) (s s₂ s₄ : Session)

structure FieldInit.Consecutive (u v : Ty) : Prop where
  plain : F.IsPlain W
  plain' : G.IsPlain W
  apart : F.Apart G
  disjoint : ∀ id ∈ F.ids, id ∉ G.ids
  isType : W.IsType kinds u
  isType' : W.IsType kinds v
  clean : s.IsClean W kinds
  deposits : F.Deposits u s s₂
  deposits' : G.Deposits v s₂ s₄
  effect : FieldInit.Deposits.Effect W F kinds m s s₂
  effect' : FieldInit.Deposits.Effect W G (kinds ++ .replicate m F.leafKind) n s₂ s₄

/-- The session between two deposits and the one before them, with the solutions that are left in the
end. -/
def Pairing.before : Pairing where
  kinds := kinds ++ .replicate m F.leafKind
  kinds' := kinds
  joint σ σ' := (∀ x < kinds.length, σ x = σ' x) ∧
    (∀ x, σ (kinds.length + m + x) = σ' (kinds.length + x)) ∧
    RespectsKinds (kinds ++ .replicate m F.leafKind ++ .replicate n G.leafKind) σ ∧
    s₄.context.bindings.SatisfiedBy σ

/-- The session before two deposits and the one after the second of them alone, with the solutions that
are left in the end. -/
def Pairing.after : Pairing where
  kinds := kinds
  kinds' := kinds ++ .replicate n G.leafKind
  joint σ σ' := (∀ x < kinds.length, σ x = σ' x) ∧
    (∀ x < n, σ (kinds.length + m + x) = σ' (kinds.length + x)) ∧
    (∀ x, σ (kinds.length + x) = σ' (kinds.length + n + x)) ∧
    RespectsKinds (kinds ++ .replicate m F.leafKind ++ .replicate n G.leafKind) σ ∧
    s₄.context.bindings.SatisfiedBy σ

/-- Two deposits in either order, with the solutions that are left: the variables are exchanged. -/
def Pairing.exchange : Pairing where
  kinds := kinds ++ .replicate m F.leafKind ++ .replicate n G.leafKind
  kinds' := kinds ++ .replicate n G.leafKind ++ .replicate m F.leafKind
  joint σ σ' := Exchanged kinds.length m n σ σ' ∧
    RespectsKinds (kinds ++ .replicate m F.leafKind ++ .replicate n G.leafKind) σ ∧
    s₄.context.bindings.SatisfiedBy σ

end

theorem FieldInit.Deposits.unique {s₁ : Session} (h : F.Deposits u s s₁) (h' : F.Deposits u s s₂) :
    s₁ = s₂ := by
  obtain ⟨hvalue, -, hunify⟩ := h
  obtain ⟨hvalue', -, hunify'⟩ := h'
  obtain ⟨ht, rfl⟩ := Prod.mk.inj (hvalue.symm.trans hvalue')
  obtain rfl := Except.ok.inj ht
  obtain rfl := Except.ok.inj (hunify.symm.trans hunify')
  rfl

namespace Pairing

theorem before_joined
    (hkinds : RespectsKinds (kinds ++ .replicate m F.leafKind ++ .replicate n G.leafKind) σ)
    (hσ : s₄.context.bindings.SatisfiedBy σ) : (Pairing.before kinds F G m n s₄).joint σ
      (joined kinds.length σ fun x => σ (kinds.length + m + x)) :=
  ⟨fun _ hx => (joined_of_lt hx).symm, fun x => by rw [joined_add], hkinds, hσ⟩

theorem after_joined
    (hkinds : RespectsKinds (kinds ++ .replicate m F.leafKind ++ .replicate n G.leafKind) σ)
    (hσ : s₄.context.bindings.SatisfiedBy σ) : (Pairing.after kinds F G m n s₄).joint σ
      (joined kinds.length σ (joined n (fun x => σ (kinds.length + m + x))
        fun x => σ (kinds.length + x))) :=
  ⟨fun _ hx => (joined_of_lt hx).symm, fun x hx => by rw [joined_add, joined_of_lt hx],
    fun x => by rw [Nat.add_assoc, joined_add, joined_add], hkinds, hσ⟩

/-- What is the same before the exchange is the same after it. -/
theorem before_leads (b : Bindings) (hb : b = s₄.context.bindings) :
    (((Pairing.before kinds F G m n s₄).more (.replicate n G.leafKind)).narrow b).Leads
      (Pairing.exchange kinds F G m n s₄) := by
  refine ⟨List.prefix_rfl, List.prefix_append _ _, fun {σ σ'} hjoint => ?_⟩
  obtain ⟨hexchanged, hkinds, hσ⟩ := hjoint
  refine ⟨σ, _, ⟨before_joined hkinds hσ, hkinds, hb ▸ hσ⟩, fun _ _ => rfl, ?_⟩
  simp only [Pairing.more, Pairing.narrow, Pairing.before, List.length_append, List.length_replicate]
  refine forall_lt_add (fun x hx => ?_) fun x hx => ?_
  · rw [joined_of_lt hx, hexchanged.old x hx]
  · rw [joined_add, hexchanged.second x hx]

theorem after_leads {b : Bindings} (hb : ∀ {σ}, RespectsKinds (kinds ++ .replicate m F.leafKind ++
      .replicate n G.leafKind) σ → s₄.context.bindings.SatisfiedBy σ → b.SatisfiedBy σ) :
    (((Pairing.after kinds F G m n s₄).more (.replicate m F.leafKind)).narrow b).Leads
      (Pairing.exchange kinds F G m n s₄) := by
  refine ⟨List.prefix_append _ _, List.prefix_rfl, fun {σ σ'} hjoint => ?_⟩
  obtain ⟨hexchanged, hkinds, hσ⟩ := hjoint
  refine ⟨σ, _, ⟨after_joined hkinds hσ, hkinds.of_prefix (List.prefix_append _ _), hb hkinds hσ⟩,
    fun _ _ => rfl, ?_⟩
  simp only [Pairing.more, Pairing.narrow, Pairing.after, List.length_append, List.length_replicate]
  refine forall_lt_add (forall_lt_add (fun x hx => ?_) fun x hx => ?_) fun x hx => ?_
  · rw [joined_of_lt hx, hexchanged.old x hx]
  · rw [joined_add, joined_of_lt hx, hexchanged.second x hx]
  · rw [Nat.add_assoc, joined_add, joined_add, ← hexchanged.first x hx, Nat.add_assoc]

end Pairing

namespace FieldInit.Consecutive

open Bindings

variable (h : Consecutive W kinds F G m n s s₂ s₄ u v)
include h

/-- A solution that is left in the end. -/
theorem general : RespectsKinds (kinds ++ .replicate m F.leafKind ++ .replicate n G.leafKind)
      (s₄.context.bindings.general
        (kinds ++ .replicate m F.leafKind ++ .replicate n G.leafKind)) ∧
    s₄.context.bindings.SatisfiedBy (s₄.context.bindings.general
      (kinds ++ .replicate m F.leafKind ++ .replicate n G.leafKind)) :=
  ⟨respectsKinds_general h.effect'.clean.sound.bindings.toValid,
    satisfiedBy_general h.effect'.clean.sound.bindings.toValid⟩

/-- A solution that is left in the end has been one before. -/
theorem satisfied
    (hkinds : RespectsKinds (kinds ++ .replicate m F.leafKind ++ .replicate n G.leafKind) σ)
    (hσ : s₄.context.bindings.SatisfiedBy σ) :
    s₂.context.bindings.SatisfiedBy σ ∧ s.context.bindings.SatisfiedBy σ := by
  have hσ₂ := h.effect'.satisfied hkinds hσ
  exact ⟨hσ₂, h.effect.satisfied (hkinds.of_prefix (List.prefix_append _ _)) hσ₂⟩

theorem holds_before : (Pairing.before kinds F G m n s₄).Holds W (· ∉ F.ids) s₂ s where
  left := h.effect.clean
  right := h.clean
  locations_eq := h.effect.locations_eq.symm
  entries id hid hplain := by
    rw [h.effect.kept id hid]
    cases ht : s.context.types.find? id with
    | none => exact .none
    | some t =>
        have htype := h.clean.isType_find? hplain ht
        exact .some ⟨htype.mono (List.prefix_append _ _), htype, fun hjoint =>
          subst_congr htype.fine.wellKinded hjoint.1⟩
  satisfied := by
    rintro σ σ' ⟨hold, -, hkinds, hσ⟩
    obtain ⟨hσ₂, hσ₁⟩ := h.satisfied hkinds hσ
    exact ⟨hσ₂, hσ₁.congr h.clean.sound.bindings.toValid hold⟩
  respects := by
    rintro σ σ' ⟨hold, -, -, -⟩ hkinds
    exact (hkinds.of_prefix (List.prefix_append _ _)).congr hold
  aligned := by
    rintro σ σ' ⟨-, hnew, -, -⟩ x
    simpa [Pairing.before, Nat.add_assoc] using hnew x

/-- The second of two fields is deposited first. -/
theorem early : ∃ s₃, G.Deposits v s s₃ ∧
    (((Pairing.before kinds F G m n s₄).more (.replicate n G.leafKind)).narrow
      s₄.context.bindings).Holds W (· ∉ F.ids) s₄ s₃ := by
  refine h.deposits'.replay h.plain' h.holds_before (fun id hid => .inr (h.apart.2 id hid))
    ⟨h.isType'.mono (List.prefix_append _ _), h.isType', fun hjoint =>
      subst_congr h.isType'.fine.wellKinded hjoint.1⟩ h.effect'.clean ?_
  obtain ⟨hkinds, hσ⟩ := h.general
  exact ⟨_, _, Pairing.before_joined hkinds hσ, hkinds, hσ⟩


section

variable {s₃ : Session} (hG : G.Deposits v s s₃)
  (hholds : (((Pairing.before kinds F G m n s₄).more (.replicate n G.leafKind)).narrow
    s₄.context.bindings).Holds W (· ∉ F.ids) s₄ s₃)
include hG hholds

theorem holds_after : (Pairing.after kinds F G m n s₄).Holds W (· ∉ G.ids) s s₃ where
  left := h.clean
  right := hholds.right
  locations_eq := (hG.effect h.plain' h.clean h.isType' hholds.right).locations_eq
  entries id hid hplain := by
    rw [(hG.effect h.plain' h.clean h.isType' hholds.right).kept id hid]
    cases ht : s.context.types.find? id with
    | none => exact .none
    | some t =>
        have htype := h.clean.isType_find? hplain ht
        exact .some ⟨htype, htype.mono (List.prefix_append _ _), fun hjoint =>
          subst_congr htype.fine.wellKinded hjoint.1⟩
  satisfied := by
    rintro σ σ' ⟨hold, hsecond, -, hkinds, hσ⟩
    have hσ₃ := (hholds.satisfied ⟨Pairing.before_joined hkinds hσ, hkinds, hσ⟩).2
    refine ⟨(h.satisfied hkinds hσ).2, hσ₃.congr hholds.right.sound.bindings.toValid ?_⟩
    simp only [Pairing.more, Pairing.narrow, Pairing.before, List.length_append,
      List.length_replicate]
    refine forall_lt_add (fun x hx => ?_) fun x hx => ?_
    · rw [joined_of_lt hx, hold x hx]
    · rw [joined_add, hsecond x hx]
  respects := by
    rintro σ σ' ⟨hold, hsecond, -, hkinds, -⟩ hkinds'
    refine respectsKinds_append_replicate.2 ⟨hkinds'.congr hold, fun x hx => ?_⟩
    rw [← hsecond x hx]
    simpa using (respectsKinds_append_replicate.1 hkinds).2 x hx
  aligned := by
    rintro σ σ' ⟨-, -, hfirst, -, -⟩ x
    simpa [Pairing.after] using hfirst x

/-- The first of two fields is deposited second. -/
theorem late : ∃ s₅, F.Deposits u s₃ s₅ ∧
    (((Pairing.after kinds F G m n s₄).more (.replicate m F.leafKind)).narrow
      s₂.context.bindings).Holds W (· ∉ G.ids) s₂ s₅ := by
  refine h.deposits.replay h.plain (h.holds_after hG hholds) (fun id hid => .inr (h.apart.1 id hid))
    ⟨h.isType, h.isType.mono (List.prefix_append _ _), fun hjoint =>
      subst_congr h.isType.fine.wellKinded hjoint.1⟩ h.effect.clean ?_
  obtain ⟨hkinds, hσ⟩ := h.general
  exact ⟨_, _, Pairing.after_joined hkinds hσ, hkinds.of_prefix (List.prefix_append _ _),
    (h.satisfied hkinds hσ).1⟩

end

/-- Both fields are deposited in the other order. -/
theorem exchange : ∃ s₃ s₅, Consecutive W kinds G F n m s s₃ s₅ v u ∧
    (Pairing.exchange kinds F G m n s₄).Holds W (fun _ => True) s₄ s₅ := by
  obtain ⟨s₃, hG, hholds⟩ := h.early
  obtain ⟨s₅, hF, hholds'⟩ := h.late hG hholds
  have hvtype := h.isType.mono (List.prefix_append kinds (.replicate n G.leafKind))
  have eG := hG.effect h.plain' h.clean h.isType' hholds.right
  have eF := hF.effect h.plain hholds.right hvtype hholds'.right
  refine ⟨s₃, s₅, ⟨h.plain', h.plain, h.apart.symm, fun id hid hid' => h.disjoint id hid' hid,
    h.isType', h.isType, h.clean, hG, hF, eG, eF⟩, ?_⟩
  exact
    { left := h.effect'.clean
      right := hholds'.right
      locations_eq := by
        rw [eF.locations_eq, eG.locations_eq, h.effect'.locations_eq, h.effect.locations_eq]
      entries := fun id _ hplain => by
        -- The nodes of the first field are left alone by the second one, and the other way round.
        by_cases hid : id ∈ F.ids
        · have hid' := h.disjoint id hid
          rw [h.effect'.kept id hid']
          exact rel_mono (hholds'.entries id hid' hplain) fun _ _ ht =>
            ht.mono (Pairing.after_leads fun hkinds hσ => (h.satisfied hkinds hσ).1)
        · rw [eF.kept id hid]
          exact rel_mono (hholds.entries id hid hplain) fun _ _ ht => ht.mono (Pairing.before_leads _ rfl)
      satisfied := by
        rintro σ σ' hjoint
        obtain ⟨τ, τ', hjoint', -, hτ'⟩ :=
          (Pairing.after_leads fun hkinds hσ => (h.satisfied hkinds hσ).1).joint hjoint
        exact ⟨hjoint.2.2, (hholds'.satisfied hjoint').2.congr hholds'.right.sound.bindings.toValid hτ'⟩
      respects := fun hjoint _ => hjoint.1.respects hjoint.2.1
      aligned := fun hjoint x => by
        simpa [Pairing.exchange, Nat.add_assoc] using (hjoint.1.rest x).symm }

/-- The sessions after two deposits and after those in the other order are twins. -/
theorem twins : ∃ s₃ s₅, Consecutive W kinds G F n m s s₃ s₅ v u ∧
    (Pairing.exchange kinds F G m n s₄).Twins W s₄ s₅ := by
  obtain ⟨s₃, s₅, h', hholds⟩ := h.exchange
  refine ⟨s₃, s₅, h', hholds, fun {σ} hkinds hσ => ?_, fun {σ'} hkinds hσ' => ?_⟩
  · obtain ⟨σ', hexchanged⟩ := exists_exchanged kinds.length m n σ
    exact ⟨σ', hexchanged, hkinds, hσ⟩
  · -- Exchanged again, the fields are in their first order, and deposits are unique.
    obtain ⟨s₂', s₄', h'', hholds'⟩ := h'.exchange
    obtain rfl := h''.deposits.unique h.deposits
    obtain rfl := h''.deposits'.unique h.deposits'
    obtain ⟨σ, hexchanged⟩ := exists_exchanged kinds.length n m σ'
    have hkinds' := hexchanged.respects hkinds
    have hσ := (hholds'.satisfied ⟨hexchanged, hkinds, hσ'⟩).2
    exact ⟨σ, ⟨hexchanged.symm, hkinds', hσ⟩, hkinds'⟩

end FieldInit.Consecutive

end TypeInference

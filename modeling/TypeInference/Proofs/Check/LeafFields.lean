import TypeInference.Proofs.Check.TwinLiterals
import TypeInference.Proofs.Program.FieldOrder

/-!
# Fields whose values are leaves

The value of such a field is read: its nodes are typed and variables are
created, all of one kind, but nothing is bound. Then the declared type and the
type of the value are unified, and the field is deposited in its slot.
-/

namespace TypeInference

open Ty Walk Check

variable {W : Setting} {P : Pairing} {k : VarKind} {s s' s₁ : Session} {ν α : Type}

/-! ## Reading -/

/-- A session that differs from an earlier one in the types of nodes and in new variables only. -/
structure Session.IsReadFrom (s s₁ : Session) : Prop where
  locations_eq : s.locations = s₁.locations
  satisfied : ∀ σ, s.context.bindings.SatisfiedBy σ ↔ s₁.context.bindings.SatisfiedBy σ

theorem Session.IsReadFrom.refl (s : Session) : s.IsReadFrom s := ⟨rfl, fun _ => .rfl⟩

@[simp] theorem Pairing.more_nil (P : Pairing) : P.more [] = P := by simp [Pairing.more]

theorem Pairing.more_append (P : Pairing) (ks ls : List VarKind) :
    (P.more ks).more ls = P.more (ks ++ ls) := by simp [Pairing.more]

/-- Runs that only read from these sessions on, and create variables of one kind. -/
def Mode.reading (W : Setting) (shared : NodeId → Prop) (k : VarKind) (s₁ s₁' : Session) : Mode W where
  shared := shared
  creates l := l = k
  Holds P s s' := P.Holds W shared s s' ∧ s.IsReadFrom s₁ ∧ s'.IsReadFrom s₁'
  Leads P Q := ∃ n, Q = P.more (List.replicate n k)
  refl P := ⟨0, by simp⟩
  trans := by
    rintro P Q R ⟨n, rfl⟩ ⟨m, rfl⟩
    exact ⟨n + m, by rw [Pairing.more_append, List.replicate_append_replicate]⟩
  holds h := h.1
  leads := by
    rintro P Q ⟨n, rfl⟩
    exact .more P _
  insert h hid ht := by
    obtain ⟨h, hread, hread'⟩ := h
    exact ⟨h.insert hid.plain (h.left.lt_size hid) ht, ⟨hread.locations_eq, hread.satisfied⟩,
      ⟨hread'.locations_eq, hread'.satisfied⟩⟩
  more ks hks h := by
    obtain ⟨h, hread, hread'⟩ := h
    exact ⟨⟨ks.length, by rw [← List.eq_replicate_of_mem hks]⟩, h.more ks,
      ⟨hread.locations_eq, hread.satisfied⟩, ⟨hread'.locations_eq, hread'.satisfied⟩⟩

/-! ## Values -/

def Walk.result (w : Walk ν α) : Check α := ExceptT.mk fun s => ((w s).outcome, (w s).session)

/-- The kind of the variables that the check of a leaf creates. -/
def Expr.leafKind : Expr → VarKind
  | .lit _ l => l.kind?.getD .general
  | _ => .general

namespace FieldInit

/-- The kind of the variables that the check of the value creates, if it is a leaf. -/
def leafKind : FieldInit → VarKind
  | .named _ _ value => value.leafKind
  | .index _ _ value => value.leafKind
  | .short _ _ _ => .general

def value (F : FieldInit) : Check Ty := F.checkValue.result

end FieldInit

/-- A leaf is not rewritten. -/
theorem Expr.check_of_isLeaf {e : Expr} (h : e.isLeaf) : e.check = leaf e e.check.result := by
  cases e with
  | lit m l =>
      rw [Expr.check]
      rfl
  | path m p =>
      rw [Expr.check]
      rfl
  | _ => cases h

theorem Expr.child_of_isLeaf {e : Expr} (h : e.isLeaf) (f : Expr → FieldInit) :
    (child e.check f fun e ty => leaf (f e) (return ty)) = leaf (f e) e.check.result := by
  rw [Expr.check_of_isLeaf h, child_leaf, ← leaf_bind, bind_pure]
  rfl

theorem FieldInit.checkValue_of_isLeaf {F : FieldInit} (h : F.isLeaf) :
    F.checkValue = leaf F F.value := by
  cases F with
  | named m name e =>
      rw [value, checkValue, Expr.child_of_isLeaf h]
      rfl
  | index m i e =>
      rw [value, checkValue, Expr.child_of_isLeaf h]
      rfl
  | short m name res => rfl

theorem Expr.follows_leaf {M : Mode W} {e : Expr} (h : e.isLeaf) (hkind : M.creates e.leafKind)
    (hadmits : W.Admits e.ids e.resolutions)
    (hrefs : ∀ id ∈ e.references, W.scope.isStruct id ∨ M.shared id) :
    Check.Follows M P e.check.result e.check.result fun Q => Q.Types W := by
  cases e with
  | lit m l =>
      have hcheck : (Expr.lit m l).check.result = (literalType m.span l >>= recorded m.id) := by
        rw [Expr.check]
        rfl
      have hl : ∀ k, l.kind? = some k → M.creates k := by
        intro k hk
        rwa [Expr.leafKind, hk, Option.getD_some] at hkind
      rw [hcheck]
      exact (follows_literalType _ hl).bind (fun _ => keepsErrors_recorded _ _)
        fun _ _ _ _ ht => follows_recorded hadmits.head ht
  | path m p =>
      have hcheck : (Expr.path m p).check.result = (pathType m.span p >>= recorded m.id) := by
        rw [Expr.check]
        rfl
      rw [hcheck]
      exact (follows_pathType hkind _ (fun id hid => hrefs id (Option.mem_toList.2 hid))
        (hadmits.tail.args)).bind (fun _ => keepsErrors_recorded _ _)
        fun _ _ _ _ ht => follows_recorded hadmits.head ht
  | _ => cases h

namespace FieldInit

variable {F : FieldInit}

theorem follows_value {M : Mode W} (h : F.isLeaf) (hkind : M.creates F.leafKind)
    (hadmits : W.Admits F.ids F.resolutions)
    (hrefs : ∀ id ∈ F.references, W.scope.isStruct id ∨ M.shared id) :
    Check.Follows M P F.value F.value fun Q => Q.Types W := by
  cases F with
  | named m name e =>
      rw [value, checkValue, Expr.child_of_isLeaf h]
      exact Expr.follows_leaf h hkind hadmits.tail hrefs
  | index m i e =>
      rw [value, checkValue, Expr.child_of_isLeaf h]
      exact Expr.follows_leaf h hkind hadmits.tail hrefs
  | short m name res =>
      have hvalue : (short m name res).value =
          (pathType m.span (.ident name res) >>= recorded m.id) := rfl
      have hargs : ∀ t ∈ (Path.ident name res).args, W.Admits t.ids t.resolutions := by
        simp [Path.ident, Path.args]
      rw [hvalue]
      exact (follows_pathType hkind _ (fun id hid => hrefs id (Option.mem_toList.2 hid)) hargs).bind
        (fun _ => keepsErrors_recorded _ _) fun _ _ _ _ ht => follows_recorded hadmits.head ht

theorem steady_value (F : FieldInit) : Check.Steady F.ids F.value :=
  ⟨F.steady.grows, F.steady.explains⟩

end FieldInit

/-! ## Deposits -/

/-- The value of the field is checked, the declared type is unified with its type, and the node of the
field gets the result. Nothing has been reported. -/
inductive FieldInit.Deposits (F : FieldInit) (u : Ty) (s : Session) : Session → Prop
  | intro {t c : Ty} {mid : Session} (hvalue : F.value.perform s = (.ok t, mid))
      (herrors : mid.sink.errors = []) (hunify : (mid.context.unify u t).1 = .ok c) :
      Deposits F u s { mid with context := (mid.context.unify u t).2.insert F.mark.id c }

def Pairing.same (kinds : List VarKind) (s : Session) : Pairing :=
  ⟨kinds, kinds, fun σ σ' => σ' = σ ∧ RespectsKinds kinds σ ∧ s.context.bindings.SatisfiedBy σ⟩

variable {kinds : List VarKind} {shared : NodeId → Prop}

theorem Setting.IsType.same {t : Ty} (h : W.IsType kinds t) : (Pairing.same kinds s).Types W t t :=
  ⟨h, h, by rintro σ _ ⟨rfl, -⟩; rfl⟩

theorem Session.IsClean.same (h : s.IsClean W kinds) : (Pairing.same kinds s).Twins W s s where
  holds :=
    { left := h
      right := h
      locations_eq := rfl
      entries := fun id _ hplain => by
        cases ht : s.context.types.find? id with
        | none => exact .none
        | some t => exact .some (h.isType_find? hplain ht).same
      satisfied := by
        rintro σ _ ⟨rfl, -, hσ⟩
        exact ⟨hσ, hσ⟩
      respects := by
        rintro σ _ ⟨rfl, -, -⟩ hkinds
        exact hkinds
      aligned := by
        rintro σ _ ⟨rfl, -, -⟩ i
        rfl }
  covers := ⟨fun hkinds hσ => ⟨_, rfl, hkinds, hσ⟩, fun hkinds hσ => ⟨_, ⟨rfl, hkinds, hσ⟩, hkinds⟩⟩

namespace FieldInit

variable {F : FieldInit} {t u u' : Ty}

structure IsPlain (W : Setting) (F : FieldInit) : Prop where
  isLeaf : F.isLeaf
  admits : W.Admits F.ids F.resolutions

theorem IsPlain.owns (hF : F.IsPlain W) : W.Owns F.mark.id := hF.admits.owns _ F.mark_mem_ids

/-- What one session reads, another one that is paired with it reads as well. -/
theorem IsPlain.read (hF : F.IsPlain W) (h : P.Holds W shared s s')
    (hrefs : ∀ id ∈ F.references, W.scope.isStruct id ∨ shared id) {mid : Session}
    (hvalue : F.value.perform s = (.ok t, mid)) (herrors : mid.sink.errors = []) :
    ∃ n t' mid', F.value.perform s' = (.ok t', mid') ∧
      (P.more (.replicate n F.leafKind)).Holds W shared mid mid' ∧
      (P.more (.replicate n F.leafKind)).Types W t t' ∧ mid.IsReadFrom s ∧ mid'.IsReadFrom s' := by
  have hfollows : Check.Follows (.reading W shared F.leafKind s s') P F.value F.value
      fun Q => Q.Types W := follows_value hF.isLeaf rfl hF.admits hrefs
  obtain ⟨-, t', ⟨n, rfl⟩, ⟨hholds, hread, hread'⟩, ht', ht⟩ :=
    hfollows s s' ⟨h, .refl s, .refl s'⟩ t (by rw [hvalue]) (by rw [hvalue]; exact herrors)
  rw [hvalue] at hholds hread
  exact ⟨n, t', _, Prod.ext ht' rfl, hholds, ht, hread, hread'⟩

namespace Deposits

/-- What a deposit does to a session in which nothing has been reported: it creates variables, it
leaves no new solutions, and it types nodes of the field only. -/
structure Effect (W : Setting) (F : FieldInit) (kinds : List VarKind) (n : Nat) (s s₁ : Session) :
    Prop where
  clean : s₁.IsClean W (kinds ++ .replicate n F.leafKind)
  locations_eq : s₁.locations = s.locations
  satisfied : ∀ {σ}, RespectsKinds (kinds ++ .replicate n F.leafKind) σ →
    s₁.context.bindings.SatisfiedBy σ → s.context.bindings.SatisfiedBy σ
  kept : ∀ id ∉ F.ids, s₁.context.types.find? id = s.context.types.find? id

theorem exists_effect (hF : F.IsPlain W) (hs : s.IsClean W kinds) (hu : W.IsType kinds u)
    (h : F.Deposits u s s₁) : ∃ n, Effect W F kinds n s s₁ := by
  obtain @⟨t, c, mid, hvalue, herrors, hunify⟩ := h
  obtain ⟨n, t', mid', -, hholds, ht, hread, -⟩ :=
    hF.read hs.same.holds (fun _ _ => .inr trivial) hvalue herrors
  have hu' := hu.mono (List.prefix_append kinds (.replicate n F.leafKind))
  have hunified := hholds.left.unify hu' ht.left
  have hc := hholds.left.isType_unify hu' ht.left hunify
  obtain ⟨-, htypes, -⟩ := Context.unify_eq_iff.1 (Prod.eta (mid.context.unify u t)).symm
  refine ⟨n, hunified.insert hF.owns.plain (hunified.lt_size hF.owns) hc, hread.locations_eq, ?_, ?_⟩
  · intro σ hkinds hσ
    exact (hread.satisfied σ).1
      ((hholds.left.satisfiedBy_unify_iff hu' ht.left hunify hkinds).1 hσ).1
  · intro id hid
    have hmark : id ≠ F.mark.id := fun heq => hid (heq ▸ F.mark_mem_ids)
    have hgrows := F.steady_value.grows s
    rw [hvalue] at hgrows
    show ((mid.context.unify u t).2.types.insert F.mark.id c).find? id = s.context.types.find? id
    rw [NodeTypes.find?_insert, if_neg hmark, htypes]
    by_contra hne
    rcases hgrows.changed id hne with hmem | ⟨hle, hlt⟩
    · exact hid hmem
    · rw [hread.locations_eq] at hlt
      exact Nat.not_lt.2 hle hlt

theorem effect (hF : F.IsPlain W) (hs : s.IsClean W kinds) (hu : W.IsType kinds u)
    (h : F.Deposits u s s₁) {n : Nat} (hclean : s₁.IsClean W (kinds ++ .replicate n F.leafKind)) :
    Effect W F kinds n s s₁ := by
  obtain ⟨m, heffect⟩ := h.exists_effect hF hs hu
  obtain rfl : m = n := by
    have hcount := heffect.clean.sound.bindings.count_eq.symm.trans hclean.sound.bindings.count_eq
    simpa using hcount
  exact heffect

/-- A deposit in one session is possible in every session that is paired with it, if some pair solves
what it binds. -/
theorem replay (hF : F.IsPlain W) (hs : P.Holds W shared s s')
    (hrefs : ∀ id ∈ F.references, W.scope.isStruct id ∨ shared id) (hu : P.Types W u u')
    (h : F.Deposits u s s₁) {n : Nat} (hclean : s₁.IsClean W (P.kinds ++ .replicate n F.leafKind))
    (hsolvable : ∃ σ σ', P.joint σ σ' ∧ RespectsKinds (P.kinds ++ .replicate n F.leafKind) σ ∧
      s₁.context.bindings.SatisfiedBy σ) :
    ∃ s₁', F.Deposits u' s' s₁' ∧
      ((P.more (.replicate n F.leafKind)).narrow s₁.context.bindings).Holds W shared s₁ s₁' := by
  obtain ⟨hvalue, herrors, hunify⟩ := h
  obtain ⟨m, t', mid', hvalue', hholds, ht, -, -⟩ := hF.read hs hrefs hvalue herrors
  have hu' := hu.mono (.more P (.replicate m F.leafKind))
  obtain rfl : m = n := by
    have hcount := (hholds.left.unify hu'.left ht.left).sound.bindings.count_eq
    have hcount' := hcount.symm.trans hclean.sound.bindings.count_eq
    simpa [Pairing.more] using hcount'
  obtain ⟨c', hunify', hunified, hc⟩ := hholds.unify hu' ht hunify hsolvable
  refine ⟨_, .intro hvalue' hholds.right.errors_eq hunify', ?_⟩
  exact hunified.insert hF.owns.plain (hunified.left.lt_size hF.owns) hc

/-- A deposit in one of two twins is possible in the other one, and they stay twins. -/
theorem twins (hF : F.IsPlain W) (hs : P.Twins W s s') (hu : P.Types W u u')
    (h : F.Deposits u s s₁) : ∃ n s₁' Q, F.Deposits u' s' s₁' ∧ Q.Twins W s₁ s₁' ∧ P.Leads Q ∧
      Q.kinds = P.kinds ++ .replicate n F.leafKind ∧
      Q.kinds' = P.kinds' ++ .replicate n F.leafKind := by
  obtain @⟨t, c, mid, hvalue, herrors, hunify⟩ := h
  obtain ⟨n, t', mid', hvalue', hholds, ht, hread, hread'⟩ :=
    hF.read hs.holds (fun _ _ => .inr trivial) hvalue herrors
  have hmore := (hs.more (.replicate n F.leafKind)).covers
  have hmid : (P.more (.replicate n F.leafKind)).Twins W mid mid' :=
    ⟨hholds, fun hkinds hσ => hmore.forth hkinds ((hread.satisfied _).1 hσ),
      fun hkinds hσ => hmore.back hkinds ((hread'.satisfied _).1 hσ)⟩
  have hu' := hu.mono (.more P (.replicate n F.leafKind))
  obtain ⟨c', hunify', hunified, hc⟩ := hmid.unify hu' ht hunify
  refine ⟨n, _, (P.more _).narrow _, .intro hvalue' hholds.right.errors_eq hunify',
    hunified.insert hF.owns.plain (hunified.holds.left.lt_size hF.owns) hc, ?_, rfl, rfl⟩
  exact (Pairing.Leads.more P _).trans (.narrow _ _)

end Deposits

end FieldInit

end TypeInference

import Mathlib.Data.Finset.Card
import TypeInference.Proofs.Context.Created

/-!
# Merge steps descend

A walk that comes to a variable it has bound before enters a merge step: what the
variable stands for and its counterpart meet in turn. The variable was unbound when
the enclosing meeting began, so each merge step finds fewer unbound variables than
the meeting around it did. Hence the recursion ends, although the types that meet
grow, and any depth that exceeds the number of unbound variables is deep enough.
The kinds of variables play no part.
-/

namespace TypeInference

open Ty

namespace Bindings

variable {start b : Bindings} {t : Ty}

/-- Created variables are bound once at most, and resolving a type over them ends in a type over those
of them that are not bound. -/
structure Regular (b : Bindings) : Prop where
  tidy : b.Tidy
  nodup : (b.solved.map Prod.fst).Nodup
  lt_count : ∀ v, b.isBound v → v < b.count
  old : ∀ k v, v < b.count → (b.resolve (.infer k v)).Old b.count

theorem regular_empty : empty.Regular where
  tidy := tidy_empty
  nodup := List.nodup_nil
  lt_count _ hv := nomatch hv
  old _ _ hv := absurd hv (Nat.not_lt_zero _)

theorem Regular.create (hb : b.Regular) (n : Nat) : Regular { b with count := b.count + n } where
  tidy := hb.tidy
  nodup := hb.nodup
  lt_count v hv := Nat.lt_of_lt_of_le (hb.lt_count v hv) (Nat.le_add_right _ n)
  old k v hv := by
    by_cases hlt : v < b.count
    · exact (hb.old k v hlt).mono (Nat.le_add_right _ n)
    · have hunbound : b.isBound v = false := Bool.eq_false_iff.2 fun h => hlt (hb.lt_count v h)
      rw [show resolve { b with count := b.count + n } (.infer k v) = .infer k v from
        resolve_infer_of_unbound hunbound k]
      exact every_leaf hv rfl

theorem Regular.resolve_old (hb : b.Regular) (ht : t.Old b.count) : (b.resolve t).Old b.count :=
  ht.rewrite_vars (isLocal_isOld _) fun k v hv => hb.old k v (ht _ hv)

/-- To bind an unbound variable to a resolved type without it keeps bindings regular. -/
theorem Regular.assign (hb : b.Regular) {k : VarKind} {v : VarId}
    (hself : b.resolve (.infer k v) = .infer k v) (hv : v < b.count) (ht : t.Old b.count)
    (hoccurs : (b.resolve t).hasVar v = false) : (b.assign v (b.resolve t)).Regular where
  tidy := (refines_assign hb.tidy hoccurs).tidy
  nodup := nodup_assign hb.nodup (hb.tidy.unbound_of_resolve_eq hself) _
  lt_count w hw := by
    rw [isBound_assign, Bool.or_eq_true, beq_iff_eq] at hw
    rcases hw with hw | rfl
    · exact hb.lt_count w hw
    · exact hv
  old l w hw := by
    rw [resolve_assign]
    exact every_point (isLocal_isOld _) (hb.old l w hw) (hb.resolve_old ht)

/-- Types over variables with kinds are types over created variables. -/
theorem Valid.old {kinds : List VarKind} (hb : b.Valid kinds) (ht : t.WellKinded kinds) :
    t.Old b.count := by
  refine Every.mono ht fun u hu => ?_
  cases u with
  | infer k v => exact hb.count_eq ▸ (List.getElem?_eq_some_iff.1 hu).1
  | _ => trivial

theorem Valid.regular {kinds : List VarKind} (hb : b.Valid kinds) : b.Regular where
  tidy := hb.tidy
  nodup := hb.nodup
  lt_count := hb.lt_of_bound
  old k v hv := by
    by_cases hbound : b.isBound v
    · have hlt : v < kinds.length := hb.count_eq ▸ hv
      rw [show b.resolve (.infer k v) = b.resolve (.infer kinds[v] v) from
        chase_eq_of_bound (isBound_iff.1 hbound) k _]
      exact hb.old (hb.wellKinded v _ (List.getElem?_eq_getElem hlt))
    · rw [resolve_infer_of_unbound (by simpa using hbound)]
      exact every_leaf hv rfl

def unbound (b : Bindings) : Finset VarId := (Finset.range b.count).filter fun v => b.isBound v = false

theorem mem_unbound {v : VarId} : v ∈ b.unbound ↔ v < b.count ∧ b.isBound v = false := by
  rw [unbound, Finset.mem_filter, Finset.mem_range]

/-- The depth of the solver is bounded by the number of unbound variables. -/
theorem Regular.free_eq (hb : b.Regular) : b.free = b.unbound.card := by
  have hbound : (Finset.range b.count).filter (fun v => ¬ b.isBound v = false) =
      (b.solved.map Prod.fst).toFinset := by
    ext v
    rw [Finset.mem_filter, Finset.mem_range, List.mem_toFinset, ← isBound_iff, Bool.not_eq_false]
    exact ⟨And.right, fun hv => ⟨hb.lt_count v hv, hv⟩⟩
  have hcard := Finset.card_filter_add_card_filter_not (s := Finset.range b.count)
    (fun v => b.isBound v = false)
  rw [hbound, List.toFinset_card_of_nodup hb.nodup, List.length_map, Finset.card_range,
    ← unbound] at hcard
  exact Nat.sub_eq_of_eq_add hcard.symm

structure Later (start b : Bindings) : Prop where
  regular : b.Regular
  count_eq : b.count = start.count
  bound : ∀ v, start.isBound v → b.isBound v

theorem Later.refl (hb : b.Regular) : b.Later b := ⟨hb, rfl, fun _ hv => hv⟩

/-- Whatever the solver binds, it keeps bindings regular and takes none back. -/
theorem isInvariant_later (start : Bindings) : IsInvariant (Ty.Old start.count) start.Later where
  part ht hp := Every.part ht hp
  unify ha hb hc := Every.unify (isLocal_isOld _) ha hb hc
  resolve hb ht := by
    have ht' : Ty.Old (Bindings.count _) _ := hb.count_eq.symm ▸ ht
    exact hb.count_eq ▸ hb.regular.resolve_old ht'
  assign {b k v t} hb hv ht hself hoccurs := by
    have hcreated : v < b.count := hb.count_eq.symm ▸ hv.root
    have hold : t.Old b.count := hb.count_eq.symm ▸ ht
    refine ⟨hb.regular.assign hself hcreated hold hoccurs, hb.count_eq, fun w hw => ?_⟩
    rw [isBound_assign, hb.bound w hw, Bool.true_or]

/-- Bindings that bind another variable leave fewer unbound. -/
theorem Later.card_unbound_lt (h : start.Later b) {v : VarId} (hv : v ∈ start.unbound)
    (hbound : b.isBound v = true) : b.unbound.card < start.unbound.card := by
  have hsub : b.unbound ⊆ start.unbound := by
    intro w hw
    rw [mem_unbound] at hw ⊢
    refine ⟨h.count_eq ▸ hw.1, Bool.eq_false_iff.2 fun hw' => ?_⟩
    simp [h.bound w hw'] at hw
  refine Finset.card_lt_card ((Finset.ssubset_iff_of_subset hsub).2 ⟨v, hv, fun hmem => ?_⟩)
  simp [(mem_unbound.1 hmem).2] at hbound

end Bindings

/-! ## The recursion without a bound on its depth -/

namespace Solve

open Bindings

/-- Whether the walk of some types beside others, from the bindings `b` on, comes to the merge step of
`x` and `y` at the bindings `b'`. -/
inductive Enters (merge : Ty → Ty → Solve Unit) :
    List Ty → List Ty → Bindings → Ty → Ty → Bindings → Prop where
  /-- The first type is a variable that is bound, but not to its counterpart. -/
  | var {k : VarKind} {v : VarId} {u : Ty} {ts us : List Ty} {b : Bindings} (hne : u ≠ .error)
      (hdiffers : b.resolve (.infer k v) ≠ b.resolve u)
      (hbound : b.resolve (.infer k v) ≠ .infer k v) :
      Enters merge (.infer k v :: ts) (u :: us) b (b.resolve (.infer k v)) (b.resolve u) b
  | part {t u x y : Ty} {ts us : List Ty} {b b' : Bindings} (hsettled : t.isSettled)
      (hhead : t.head = u.head) (h : Enters merge t.parts u.parts b x y b') :
      Enters merge (t :: ts) (u :: us) b x y b'
  | next {t u x y : Ty} {ts us : List Ty} {b b₁ b' : Bindings}
      (hrun : perform (walk merge t u) b = (.ok (), b₁)) (h : Enters merge ts us b₁ x y b') :
      Enters merge (t :: ts) (u :: us) b x y b'

/-- The meeting of two types at the bindings `b` has this run: both are walked beside their common
type, and the merge steps that the walks enter are meetings that find fewer unbound variables. -/
inductive Meets : Ty → Ty → Bindings → Except UnifyError Ty × Bindings → Prop where
  | clash {t u : Ty} {b : Bindings} {e : UnifyError} (h : Ty.unify t u = .error e) :
      Meets t u b (.error e, b)
  | walks {t u c : Ty} {b : Bindings} (hc : Ty.unify t u = .ok c) (merge : Ty → Ty → Solve Ty)
      (fewer : ∀ x y b', Enters (fun x y => discard (merge x y)) [t, u] [c, c] b x y b' →
        b'.unbound.card < b.unbound.card)
      (inner : ∀ x y b', Enters (fun x y => discard (merge x y)) [t, u] [c, c] b x y b' →
        Meets x y b' (perform (merge x y) b')) :
      Meets t u b (perform (do
        walk (fun x y => discard (merge x y)) t c
        walk (fun x y => discard (merge x y)) u c
        return c) b)

variable {merge merge' : Ty → Ty → Solve Unit} {start b b' : Bindings} {t u x y : Ty} {ts us : List Ty}

structure Resolved (b : Bindings) (t : Ty) : Prop where
  old : t.Old b.count
  resolve_eq : b.resolve t = t

theorem resolved_resolve (hb : b.Regular) (ht : t.Old b.count) : Resolved b (b.resolve t) :=
  ⟨hb.resolve_old ht, hb.tidy.resolve_resolve t⟩

/-- Types with the same root that are walked beside each other have components that are. -/
theorem refines_parts (h : Ty.Refines t u) (hsettled : t.isSettled) (hhead : t.head = u.head)
    {i : Nat} {p q : Ty} (hp : t.parts[i]? = some p) (hq : u.parts[i]? = some q) :
    Ty.Refines p q := by
  cases h with
  | error => cases t <;> simp [isSettled, head] at hsettled hhead
  | var => simp [isSettled] at hsettled
  | node _ _ hparts => exact hparts i p q hp hq

/-- A merge step that is entered after `start` finds fewer unbound variables, if the variables that are
walked were unbound there. -/
theorem Enters.descends
    (hmerge : ∀ x y : Ty, x.Old start.count → y.Old start.count → Keeps start.Later (merge x y))
    (h : Enters merge ts us b x y b')
    (hrefines : ∀ (i : Nat) t u, ts[i]? = some t → us[i]? = some u → Ty.Refines t u)
    (hts : ∀ t ∈ ts, t.Old start.count ∧ ∀ v, t.hasVar v → start.isBound v = false)
    (hus : ∀ u ∈ us, u.Old start.count) (hb : start.Later b) :
    start.Later b' ∧ b'.unbound.card < start.unbound.card ∧ Resolved b' x ∧ Resolved b' y := by
  induction h with
  | @var k v u ts us b hne hdiffers hbound =>
      obtain ⟨hold, hunbound⟩ := hts _ List.mem_cons_self
      have hv : v < start.count := hold.root
      have hmem := mem_unbound.2 ⟨hv, hunbound v (infer_hasVar k v)⟩
      refine ⟨hb, hb.card_unbound_lt hmem (isBound_of_resolve_ne hbound),
        resolved_resolve hb.regular (hb.count_eq.symm ▸ hold),
        resolved_resolve hb.regular (hb.count_eq.symm ▸ hus u List.mem_cons_self)⟩
  | @part t u x y ts us b b' hsettled hhead _ ih =>
      obtain ⟨hold, hunbound⟩ := hts t List.mem_cons_self
      refine ih (fun i p q => refines_parts (hrefines 0 t u rfl rfl) hsettled hhead)
        (fun p hp => ⟨hold.part hp, fun v hv => hunbound v ?_⟩)
        (fun q hq => (hus u List.mem_cons_self).part hq) hb
      obtain ⟨k, hk⟩ := hasVar_iff.1 hv
      exact hasVar_iff.2 ⟨k, mem_nodes_of_part hp hk⟩
  | @next t u x y ts us b b₁ b' hrun _ ih =>
      have hkeeps := keeps_walk (isInvariant_later start) hmerge (hrefines 0 t u rfl rfl)
        (hts t List.mem_cons_self).1 (hus u List.mem_cons_self) b hb
      rw [hrun] at hkeeps
      exact ih (fun i t' u' ht hu => hrefines (i + 1) t' u' ht hu)
        (fun t' ht => hts t' (List.mem_cons_of_mem _ ht))
        (fun u' hu => hus u' (List.mem_cons_of_mem _ hu)) hkeeps

/-- What holds of the two types that meet beside their common type. -/
theorem forall_pair {R : Ty → Ty → Prop} {c : Ty} (ht : R t c) (hu : R u c) (i : Nat) (p q : Ty)
    (hp : [t, u][i]? = some p) (hq : [c, c][i]? = some q) : R p q := by
  rcases i with _ | _ | i
  · cases hp
    cases hq
    exact ht
  · cases hp
    cases hq
    exact hu
  · simp at hp

/-- A meeting whose depth exceeds the number of unbound variables runs as if there were no bound. -/
theorem meets_meet (depth : Nat) (hb : b.Regular) (ht : Resolved b t) (hu : Resolved b u)
    (hdepth : b.unbound.card < depth) : Meets t u b (perform (meet depth t u) b) := by
  induction depth generalizing b t u with
  | zero => exact (Nat.not_lt_zero _ hdepth).elim
  | succ depth ih =>
      rw [meet, perform_bind, perform_ofExcept]
      cases hc : Ty.unify t u with
      | error e => exact .clash hc
      | ok c =>
          obtain ⟨hrt, hru⟩ := refines_of_unify hc
          have hcold : c.Old b.count := ht.old.unify (isLocal_isOld _) hu.old hc
          have hmerge (x y : Ty) (hx : x.Old b.count) (hy : y.Old b.count) :
              Keeps b.Later (discard (meet depth x y)) :=
            (keeps_meet (isInvariant_later b) depth hx hy).bind fun _ => keeps_pure _
          have hunbound {t : Ty} (ht : Resolved b t) (v : VarId) (hv : t.hasVar v) :
              b.isBound v = false := hb.tidy t v (ht.resolve_eq.symm ▸ hv)
          have hentered {x y : Ty} {b' : Bindings}
              (h : Enters (fun x y => discard (meet depth x y)) [t, u] [c, c] b x y b') :=
            h.descends hmerge (forall_pair hrt hru)
              (by simpa using ⟨⟨ht.old, hunbound ht⟩, hu.old, hunbound hu⟩) (by simpa using hcold)
              (.refl hb)
          refine .walks hc (meet depth) (fun x y b' h => (hentered h).2.1) fun x y b' h => ?_
          obtain ⟨hlater, hfewer, hx, hy⟩ := hentered h
          exact ih hlater.regular hx hy (by omega)

/-! ## A meeting has one run -/

/-- Whether two ways to merge do the same in every merge step that both enter. -/
def Agree (merge merge' : Ty → Ty → Solve Unit) (ts us : List Ty) (b : Bindings) : Prop :=
  ∀ x y b', Enters merge ts us b x y b' → Enters merge' ts us b x y b' →
    perform (merge x y) b' = perform (merge' x y) b'

/-- The merge steps of a walk are merge steps of a walk that begins with it. -/
theorem Enters.head (h : Enters merge [t] [u] b x y b') : Enters merge (t :: ts) (u :: us) b x y b' := by
  cases h with
  | var hne hdiffers hbound => exact .var hne hdiffers hbound
  | part hsettled hhead h => exact .part hsettled hhead h
  | next _ h => cases h

theorem Agree.head (h : Agree merge merge' (t :: ts) (u :: us) b) : Agree merge merge' [t] [u] b :=
  fun x y b' henters henters' => h x y b' henters.head henters'.head

theorem walkList_congr
    (hwalk : ∀ (i : Nat) t u, ts[i]? = some t → us[i]? = some u → ∀ b, Agree merge merge' [t] [u] b →
      perform (walk merge t u) b = perform (walk merge' t u) b)
    (h : Agree merge merge' ts us b) :
    perform (walkList merge ts us) b = perform (walkList merge' ts us) b := by
  induction ts generalizing us b with
  | nil => simp only [walkList]
  | cons t ts ih =>
      cases us with
      | nil => simp only [walkList]
      | cons u us =>
          have hfirst := hwalk 0 t u rfl rfl b h.head
          rw [walkList, walkList, perform_bind, perform_bind, ← hfirst]
          rcases hrun : perform (walk merge t u) b with ⟨e | _, b₁⟩
          · rfl
          · exact ih (fun i t' u' ht hu => hwalk (i + 1) t' u' ht hu) fun x y b' henters henters' =>
              h x y b' (.next hrun henters) (.next (hfirst ▸ hrun) henters')

/-- A walk merges nowhere else than where it enters a merge step. -/
theorem walk_congr (hrefines : Ty.Refines t u) (h : Agree merge merge' [t] [u] b) :
    perform (walk merge t u) b = perform (walk merge' t u) b := by
  induction hrefines generalizing b with
  | error => rw [walk_error, walk_error]
  | @var k v u hne _ _ =>
      rw [walk_infer hne, walk_infer hne]
      simp only [bindVar, perform_bind, perform_get]
      split
      · rfl
      · rename_i hdiffers
        split
        · rfl
        · rename_i hbound
          exact h _ _ _ (.var hne hdiffers hbound) (.var hne hdiffers hbound)
  | @node t u hsettled hhead _ ih =>
      rw [walk_eq_parts hsettled hhead, walk_eq_parts hsettled hhead]
      exact walkList_congr (fun i p q hp hq b' => ih i p q hp hq) fun x y b' henters henters' =>
        h x y b' (.part hsettled hhead henters) (.part hsettled hhead henters')

theorem walkList_pair (c : Ty) : walkList merge [t, u] [c, c] = (do walk merge t c; walk merge u c) := by
  simp [walkList]

theorem Meets.unique {run run' : Except UnifyError Ty × Bindings} (h : Meets t u b run)
    (h' : Meets t u b run') : run = run' := by
  induction h generalizing run' with
  | clash he =>
      cases h' with
      | clash he' => rw [Except.error.inj (he.symm.trans he')]
      | walks hc => cases he.symm.trans hc
  | @walks t u c b hc merge _ _ ih =>
      cases h' with
      | clash he => cases he.symm.trans hc
      | walks hc' merge' _ inner' =>
          obtain rfl := Except.ok.inj (hc.symm.trans hc')
          obtain ⟨hrt, hru⟩ := refines_of_unify hc
          have hagree : Agree (fun x y => discard (merge x y)) (fun x y => discard (merge' x y))
              [t, u] [c, c] b := by
            intro x y b' henters henters'
            rw [perform_discard, perform_discard, ih x y b' henters (inner' x y b' henters')]
          have hwalks := walkList_congr
            (forall_pair (fun b => walk_congr hrt) fun b => walk_congr hru) hagree
          simp only [walkList_pair] at hwalks
          have hbind (merge : Ty → Ty → Solve Unit) :
              perform (do walk merge t c; walk merge u c; return c) b =
                perform ((do walk merge t c; walk merge u c) >>= fun _ => pure c) b := by
            rw [bind_assoc]
          rw [hbind, hbind, perform_bind, hwalks, ← perform_bind]

/-- Any two depths that exceed the number of unbound variables give the same run. -/
theorem meet_eq_of_free_lt (hb : b.Regular) (ht : Resolved b t) (hu : Resolved b u)
    {depth depth' : Nat} (hdepth : b.free < depth) (hdepth' : b.free < depth') :
    perform (meet depth t u) b = perform (meet depth' t u) b := by
  rw [hb.free_eq] at hdepth hdepth'
  exact (meets_meet depth hb ht hu hdepth).unique (meets_meet depth' hb ht hu hdepth')

end Solve

/-! ## Unification in a context -/

namespace Context

open Bindings Solve

variable {c : Context} {a b : Ty}

theorem Arises.regular (h : c.Arises) : c.bindings.Regular :=
  bindings_induct regular_empty (fun _ n hb => hb.create n)
    (fun c _ _ _ ha hb hregular =>
      (keeps_unify (isInvariant_later c.bindings) ha hb c.bindings (.refl hregular)).regular) h

/-- Unifying in a context runs a meeting of the resolved types. -/
theorem unify_eq_meet (c : Context) (a b : Ty) :
    c.unify a b =
      ((perform (meet (c.bindings.free + 1) (c.resolve a) (c.resolve b)) c.bindings).1.map
        (perform (meet (c.bindings.free + 1) (c.resolve a) (c.resolve b)) c.bindings).2.resolve,
      { c with bindings :=
          (perform (meet (c.bindings.free + 1) (c.resolve a) (c.resolve b)) c.bindings).2 }) := by
  have hunify : c.unify a b = ((perform (Solve.unify a b) c.bindings).1,
    { c with bindings := (perform (Solve.unify a b) c.bindings).2 }) := rfl
  rw [hunify, Solve.unify, perform_bind, perform_get]
  simp only [perform_bind]
  rw [resolve, resolve]
  rcases perform (meet (c.bindings.free + 1) (c.bindings.resolve a) (c.bindings.resolve b))
    c.bindings with ⟨e | r, b'⟩ <;> rfl

/-- Unifying two types over created variables comes to an end, whatever kinds they use the variables
with: the meeting of the resolved types has one run, in which every merge step, at any depth, is
entered with fewer unbound variables than there were when the two walks around it began. -/
theorem Arises.meets_unify (h : c.Arises) (ha : a.Old c.bindings.count)
    (hb : b.Old c.bindings.count) :
    ∃ run, (∀ run', Meets (c.resolve a) (c.resolve b) c.bindings run' ↔ run' = run) ∧
      c.unify a b = (run.1.map run.2.resolve, { c with bindings := run.2 }) := by
  have hregular := h.regular
  have hmeets := meets_meet (c.bindings.free + 1) hregular (resolved_resolve hregular ha)
    (resolved_resolve hregular hb) (by rw [hregular.free_eq]; exact Nat.lt_succ_self _)
  exact ⟨_, fun run' => ⟨fun hrun => hrun.unique hmeets, fun hrun => hrun ▸ hmeets⟩,
    unify_eq_meet c a b⟩

/-- The parameters of the first type are one variable. Their counterparts are brought together when the
variable has been bound, and two of the three variables are unbound then. -/
theorem Arises.meets_unify_repeated :
    let c := (((bare.newVar .general).2.newVar .integral).2.newVar .integral).2
    let a := Ty.fn [.infer .general 0, .infer .general 0] .unit
    let b := Ty.fn [.infer .integral 1, .infer .integral 2] .unit
    let b' := c.bindings.assign 0 (.infer .integral 1)
    (∀ merge, Enters merge [a, b] [b, b] c.bindings (.infer .integral 1) (.infer .integral 2) b') ∧
      b'.unbound.card = 2 ∧ c.bindings.unbound.card = 3 ∧
      ∃ run, (∀ run', Meets (c.resolve a) (c.resolve b) c.bindings run' ↔ run' = run) ∧
        c.unify a b = (run.1.map run.2.resolve, { c with bindings := run.2 }) := by
  intro c a b b'
  have harises : c.Arises := (((Arises.new bare.builtins).newVar _).newVar _).newVar _
  refine ⟨fun merge => ?_, by decide, by decide,
    Arises.meets_unify harises (by decide) (by decide)⟩
  exact .part rfl rfl (.next rfl (.var (by decide) (by decide) (by decide)))

end Context

end TypeInference

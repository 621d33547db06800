import TypeInference.Proofs.Context.Walk

/-!
# Success makes both sides agree

After a walk that succeeds, both sides resolve to one type. The first variable
met is bound to its counterpart; a variable met again makes its two
counterparts meet, and later bindings keep what has been made equal.
-/

namespace TypeInference

/-- What the unifier expects of every node: struct types of one declaration share its shape, and
nothing is an error. -/
def Ty.IsProper (shapes : NodeId → Shape) (t : Ty) : Prop := t.HasShape shapes ∧ t ≠ .error

theorem Ty.isLocal_isProper (shapes : NodeId → Shape) : Ty.IsLocal (Ty.IsProper shapes) :=
  Ty.IsLocal.and (Ty.isLocal_hasShape shapes) Ty.isLocal_ne_error

namespace Solve

open Ty Bindings

section

variable {kinds : List VarKind} {shapes : NodeId → Shape} {merge : Ty → Ty → Solve Unit}

theorem rewrite_point {v : VarId} {t u : Ty} (h : u.hasVar v = false) :
    u.rewrite (point v t) .param = u := by
  refine Eq.trans (rewrite_congr (fun k w hw => ?_) fun _ _ => rfl) (rewrite_id u)
  have hne : w ≠ v := by
    rintro rfl
    have hvar := hasVar_iff.2 ⟨k, infer_mem_nodes.2 hw⟩
    simp [h] at hvar
  rw [point, if_neg hne]

/-- A variable resolves to the type that it was bound to. -/
theorem resolve_assign_self {b : Bindings} {k : VarKind} {v : VarId} {u : Ty}
    (hv : b.resolve (.infer k v) = .infer k v) (hoccurs : (b.resolve u).hasVar v = false) :
    (b.assign v (b.resolve u)).resolve (.infer k v) = (b.assign v (b.resolve u)).resolve u := by
  rw [resolve_assign, resolve_assign, hv, rewrite_point hoccurs]
  simp [point]

/-- Whether success of bringing two types together makes them equal. -/
def Agrees (kinds : List VarKind) (P : Ty → Prop) (merge : Ty → Ty → Solve Unit) : Prop :=
  ∀ b t u b', Ready kinds P b t u → perform (merge t u) b = (.ok (), b') →
    b'.resolve t = b'.resolve u

theorem agree_bindVar {P : Ty → Prop} (hmerge : Agrees kinds P merge) (hbinds : Binds kinds P merge)
    {b b' : Bindings} (hb : b.Valid kinds) {k : VarKind} {v : VarId} {u : Ty}
    (hv : kinds[v]? = some k) (hu : u.WellKinded kinds) (hPv : (b.resolve (.infer k v)).Every P)
    (hPu : (b.resolve u).Every P) (h : perform (bindVar merge k v u) b = (.ok (), b')) :
    b'.resolve (.infer k v) = b'.resolve u := by
  have hvar : (infer k v).WellKinded kinds := every_leaf hv rfl
  simp only [bindVar, perform_bind, perform_get] at h
  by_cases hsame : b.resolve (.infer k v) = b.resolve u
  · rw [if_pos hsame] at h
    obtain rfl : b = b' := by simpa using h
    exact hsame
  · rw [if_neg hsame] at h
    by_cases hunbound : b.resolve (.infer k v) = .infer k v
    · rw [if_pos hunbound] at h
      by_cases hoccurs : (b.resolve u).hasVar v
      · simp [if_pos hoccurs] at h
      · rw [if_neg hoccurs] at h
        obtain rfl : b.assign v (b.resolve u) = b' := by simpa using h
        exact resolve_assign_self hunbound (by simpa using hoccurs)
    · rw [if_neg hunbound] at h
      have hready : Ready kinds P b (b.resolve (.infer k v)) (b.resolve u) :=
        ⟨hb, hb.tidy.resolve_resolve _, hb.tidy.resolve_resolve u, resolve_wellKinded hb hvar,
          resolve_wellKinded hb hu, hPv, hPu⟩
      have hsteps : Steps kinds P b b' := by
        have := hbinds b _ _ hready
        rwa [h] at this
      have heq := hmerge b _ _ b' hready h
      rwa [resolve_of_steps hb hsteps, resolve_of_steps hb hsteps] at heq

theorem perform_bind_eq_ok_iff {α β : Type} {x : Solve α} {f : α → Solve β} {b b' : Bindings}
    {r : β} :
    perform (x >>= f) b = (.ok r, b') ↔
      ∃ a b₁, perform x b = (.ok a, b₁) ∧ perform (f a) b₁ = (.ok r, b') := by
  rw [perform_bind]
  rcases perform x b with ⟨e | a, b₁⟩ <;> simp

theorem perform_discard_eq_ok_iff {α : Type} {x : Solve α} {b b' : Bindings} :
    perform (discard x) b = (.ok (), b') ↔ ∃ a, perform x b = (.ok a, b') := by
  rw [show perform (discard x) b = perform (x >>= fun _ => pure ()) b from rfl,
    perform_bind_eq_ok_iff]
  simp

/-- Lists agree when their members do, since later steps keep what has been made equal. -/
theorem agree_walkList {P : Ty → Prop} (hP : IsLocal P) {ts us : List Ty}
    (hlen : ts.length = us.length)
    (h : ∀ (i : Nat) t u, ts[i]? = some t → us[i]? = some u → ∀ b b' : Bindings, b.Valid kinds →
      (b.resolve t).Every P → (b.resolve u).Every P → perform (walk merge t u) b = (.ok (), b') →
      Steps kinds P b b' ∧ b'.resolve t = b'.resolve u)
    {b b' : Bindings} (hb : b.Valid kinds) (hts : ∀ t ∈ ts, (b.resolve t).Every P)
    (hus : ∀ u ∈ us, (b.resolve u).Every P) (hrun : perform (walkList merge ts us) b = (.ok (), b')) :
    Steps kinds P b b' ∧ ts.map b'.resolve = us.map b'.resolve := by
  induction ts generalizing us b with
  | nil =>
      cases us with
      | nil =>
          obtain rfl : b = b' := by simpa [walkList] using hrun
          exact ⟨.refl, rfl⟩
      | cons u us => simp at hlen
  | cons t ts ih =>
      cases us with
      | nil => simp at hlen
      | cons u us =>
          rw [walkList, perform_bind_eq_ok_iff] at hrun
          obtain ⟨_, b₁, hfirst, hrest⟩ := hrun
          obtain ⟨hsteps, heq⟩ := h 0 t u rfl rfl b b₁ hb (hts t List.mem_cons_self)
            (hus u List.mem_cons_self) hfirst
          obtain ⟨hsteps', heq'⟩ := ih (by simpa using hlen)
            (fun i t' u' ht hu => h (i + 1) t' u' ht hu) (hb.steps hsteps)
            (fun t' ht => every_of_steps hP hsteps (hts t' (List.mem_cons_of_mem _ ht)))
            (fun u' hu => every_of_steps hP hsteps (hus u' (List.mem_cons_of_mem _ hu))) hrest
          refine ⟨hsteps.trans hsteps', ?_⟩
          rw [List.map_cons, List.map_cons, heq', resolve_eq_of_steps (hb.steps hsteps) hsteps' heq]

theorem agree_walk (hmerge : Agrees kinds (IsProper shapes) merge)
    (hbinds : Binds kinds (IsProper shapes) merge) {t u : Ty} (h : Refines t u)
    (ht : t.WellKinded kinds) (hu : u.WellKinded kinds) {b b' : Bindings} (hb : b.Valid kinds)
    (hPt : (b.resolve t).Every (IsProper shapes)) (hPu : (b.resolve u).Every (IsProper shapes))
    (hrun : perform (walk merge t u) b = (.ok (), b')) : b'.resolve t = b'.resolve u := by
  induction h generalizing b b' with
  | error => exact (hPu.root.2 rfl).elim
  | var hne haccepts =>
      rw [walk_infer hne] at hrun
      exact agree_bindVar hmerge hbinds hb ht.root hu hPt hPu hrun
  | @node t u hsettled hhead hparts ih =>
      rw [walk_eq_parts hsettled hhead] at hrun
      have hnt := ne_infer_of_isSettled hsettled
      have hnu := ne_infer_of_isSettled ((isSettled_of_head hhead).symm.trans hsettled)
      obtain ⟨hht, hst, hpt⟩ := root_resolve (b := b') hnt
      obtain ⟨hhu, hsu, hpu⟩ := root_resolve (b := b') hnu
      refine ext_parts (by rw [hht, hhu, hhead]) ?_ ?_
      · have hshape := shape_eq_of_head hPt.root.1 hPu.root.1
          (by rw [(root_resolve hnt).1, (root_resolve hnu).1, hhead])
        rw [hst, hsu, ← (root_resolve (b := b) hnt).2.1, ← (root_resolve (b := b) hnu).2.1, hshape]
      · rw [hpt, hpu]
        refine (agree_walkList (isLocal_isProper shapes) (length_parts_of_head hhead)
          (fun i p q hp hq b b' hb hPp hPq hfirst => ?_) hb
          (fun p hp => hPt.part (resolve_part hnt hp)) (fun q hq => hPu.part (resolve_part hnu hq))
          hrun).2
        have hkp := ht.part (List.mem_of_getElem? hp)
        have hkq := hu.part (List.mem_of_getElem? hq)
        have hsteps := binds_walk (isLocal_isProper shapes) hbinds (hparts i p q hp hq) hkp hkq hb
          hPp hPq
        rw [hfirst] at hsteps
        exact ⟨hsteps, ih i p q hp hq hkp hkq hb hPp hPq hfirst⟩

/-- After a meeting that succeeds, both sides and their common type resolve to one type. -/
theorem agree_meet (depth : Nat) {b b' : Bindings} {t u c : Ty}
    (h : Ready kinds (IsProper shapes) b t u) (hrun : perform (meet depth t u) b = (.ok c, b')) :
    b'.resolve t = b'.resolve c ∧ b'.resolve u = b'.resolve c := by
  induction depth generalizing b t u b' c with
  | zero => simp [meet] at hrun
  | succ depth ih =>
      have hP : IsLocal (IsProper shapes) := isLocal_isProper shapes
      rw [meet, perform_bind, perform_ofExcept] at hrun
      cases hc : Ty.unify t u with
      | error e => simp [hc] at hrun
      | ok r =>
          simp only [hc, perform_bind_eq_ok_iff] at hrun
          obtain ⟨_, b₁, hleft, _, b₂, hright, hpure⟩ := hrun
          obtain ⟨rfl, rfl⟩ : r = c ∧ b₂ = b' := by simpa using hpure
          obtain ⟨hrt, hru⟩ := refines_of_unify hc
          have hwell := h.wellKinded_left.unify (isLocal_hasKind kinds) h.wellKinded_right hc
          have hPr : (b.resolve r).Every (IsProper shapes) := by
            rw [resolve_of_unify h.valid.tidy h.resolved_left h.resolved_right hc]
            exact h.every_left.unify hP h.every_right hc
          have hPt : (b.resolve t).Every (IsProper shapes) := h.resolved_left.symm ▸ h.every_left
          have hPu : (b.resolve u).Every (IsProper shapes) := h.resolved_right.symm ▸ h.every_right
          have hbinds : Binds kinds (IsProper shapes) fun x y => discard (meet depth x y) :=
            fun _ _ _ hready => steps_bind (binds_meet hP depth hready) fun _ => .refl
          have hagrees : Agrees kinds (IsProper shapes) fun x y => discard (meet depth x y) := by
            intro b x y b' hready hmeet
            obtain ⟨z, hz⟩ := perform_discard_eq_ok_iff.1 hmeet
            obtain ⟨hx, hy⟩ := ih hready hz
            exact hx.trans hy.symm
          have hsteps : Steps kinds (IsProper shapes) b b₁ := by
            have := binds_walk hP hbinds hrt h.wellKinded_left hwell h.valid hPt hPr
            rwa [hleft] at this
          have hb₁ := h.valid.steps hsteps
          have hsteps' : Steps kinds (IsProper shapes) b₁ b₂ := by
            have := binds_walk hP hbinds hru h.wellKinded_right hwell hb₁
              (every_of_steps hP hsteps hPu) (every_of_steps hP hsteps hPr)
            rwa [hright] at this
          refine ⟨resolve_eq_of_steps hb₁ hsteps' ?_, ?_⟩
          · exact agree_walk hagrees hbinds hrt h.wellKinded_left hwell h.valid hPt hPr hleft
          · exact agree_walk hagrees hbinds hru h.wellKinded_right hwell hb₁
              (every_of_steps hP hsteps hPu) (every_of_steps hP hsteps hPr) hright

end

end Solve

end TypeInference

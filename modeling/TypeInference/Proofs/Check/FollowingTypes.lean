import TypeInference.Proofs.Check.Following
import TypeInference.Proofs.Program.References

/-!
# Reading on both sides

Written types, paths and literals are read from declarations and from the types
of nodes, so that types are read together that are one type in every pair of
solutions.
-/

namespace TypeInference

open Ty Check

structure Setting.Admits (W : Setting) (ids : List NodeId) (resolutions : List TypeRes) : Prop where
  owns : ∀ id ∈ ids, W.Owns id
  names : ∀ r ∈ resolutions, r = .builtin ∨ ∃ id, r = .adt id ∧ W.scope.isStruct id

variable {W : Setting}

namespace Setting.Admits

variable {ids ids' : List NodeId} {ress ress' : List TypeRes}

theorem mono (h : W.Admits ids' ress') (hids : ids ⊆ ids') (hress : ress ⊆ ress') :
    W.Admits ids ress :=
  ⟨fun _ hi => h.owns _ (hids hi), fun _ hr => h.names _ (hress hr)⟩

theorem head {id : NodeId} (h : W.Admits (id :: ids) ress) : W.Owns id :=
  h.owns id List.mem_cons_self

theorem tail {id : NodeId} (h : W.Admits (id :: ids) ress) : W.Admits ids ress :=
  h.mono (List.subset_cons_self _ _) (List.Subset.refl _)

theorem member {ν : Type} {nodes : List ν} {node : ν} {f : ν → List NodeId} {r : ν → List TypeRes}
    (h : W.Admits (nodes.flatMap f) (nodes.flatMap r)) (hnode : node ∈ nodes) :
    W.Admits (f node) (r node) :=
  h.mono (fun _ hi => List.mem_flatMap.2 ⟨node, hnode, hi⟩)
    fun _ hr => List.mem_flatMap.2 ⟨node, hnode, hr⟩

/-- The arguments on the last segment of a path are written on the path. -/
theorem args {p : Path} (h : W.Admits p.ids p.resolutions) :
    ∀ t ∈ p.args, W.Admits t.ids t.resolutions := by
  intro t ht
  rcases p.exists_args_eq with hnil | ⟨s, hs, hargs⟩
  · simp [hnil] at ht
  · have hsegment : W.Admits (TypeRef.idsAll s.args) (TypeRef.resolutionsAll s.args) := h.member hs
    rw [TypeRef.idsAll_eq, TypeRef.resolutionsAll_eq, ← hargs] at hsegment
    exact hsegment.member ht

end Setting.Admits

def Literal.kind? : Literal → Option VarKind
  | .int _ none => some .integral
  | .float _ none => some .float
  | _ => none

namespace Check

variable {M : Mode W} {P : Pairing} {t t' : Ty} {id : NodeId} {α β : Type}
  {R : Pairing → α → β → Prop}

/-- What holds of the sessions may be used to show that a run follows. -/
theorem follows_of {x : Check α} {y : Check β}
    (h : ∀ s s', P.Holds W M.shared s s' → Follows M P x y R) : Follows M P x y R :=
  fun s s' hs => h s s' (M.holds hs) s s' hs

/-! ## Written types -/

theorem follows_withArgs {d : Adt Ty} (hd : W.scope.structs id = some d) {args args' : List Ty}
    (hargs : P.TypesAll W args args') (span : Span) :
    Follows M P (d.withArgs args span) (d.withArgs args' span)
      fun Q a a' => Q.Types W (.adt a) (.adt a') := by
  refine follows_of fun s s' hs => ?_
  unfold Adt.withArgs Adt.apply
  by_cases hparams : d.params = []
  · have hplain : d.isGeneric = false := by simp [Adt.isGeneric, hparams]
    simp only [hplain, Bool.not_false, if_true]
    exact follows_pure (hs.declaration hd hparams)
  · have hgeneric : d.isGeneric = true := by simp [Adt.isGeneric, hparams]
    simp only [hgeneric, Bool.not_true, Bool.false_eq_true, if_false, ← hargs.length_eq]
    by_cases hlen : args.length = d.params.length
    · simp only [hlen, ne_eq, not_true_eq_false, if_false]
      exact follows_pure (hs.instantiate hd hparams hlen hargs)
    · simp only [ne_eq, hlen, not_false_eq_true, if_true]
      exact (fails_giveUp _ span).follows _

theorem keepsErrors_readAll (ts : List TypeRef) : (TypeRef.readAll .body ts).KeepsErrors := by
  have h : Steady (TypeRef.idsAll ts) (TypeRef.readAll .body ts) :=
    steady_readAll fun _ ht => steady_read (TypeRef.ids_subset_idsAll ht)
  exact h.keepsErrors

theorem keepsErrors_withArgs (a : Adt Ty) (args : List Ty) (span : Span) :
    (a.withArgs args span).KeepsErrors :=
  keepsErrors_of_steady (steady_withArgs a args span)

theorem follows_readAll {ts : List TypeRef}
    (h : ∀ t ∈ ts, ∀ Q, Follows M Q (t.read .body) (t.read .body) fun Q => Q.Types W) :
    Follows M P (TypeRef.readAll .body ts) (TypeRef.readAll .body ts) fun Q => Q.TypesAll W := by
  induction ts generalizing P with
  | nil =>
      rw [TypeRef.readAll]
      exact follows_pure .nil
  | cons t ts ih =>
      rw [TypeRef.readAll]
      refine (h t List.mem_cons_self P).bind
        (fun ty => (keepsErrors_readAll ts).bind fun tys => keepsErrors_pure _)
        fun Q ty ty' _ hty => ?_
      refine (ih fun u hu => h u (List.mem_cons_of_mem _ hu)).bind (fun tys => keepsErrors_pure _)
        fun Q tys tys' hlead htys => ?_
      exact follows_pure (.cons (hty.mono (M.leads hlead)) htys)

section

variable (hgeneral : M.creates .general)
include hgeneral

theorem follows_readStruct {m : Mark} {name : String} {args : List TypeRef} (hm : W.Owns m.id)
    (hid : W.scope.isStruct id)
    (hargs : ∀ t ∈ args, ∀ Q, Follows M Q (t.read .body) (t.read .body) fun Q => Q.Types W) :
    Follows M P ((TypeRef.path m name (some (.adt id)) args).read .body)
      ((TypeRef.path m name (some (.adt id)) args).read .body) fun Q => Q.Types W := by
  refine follows_lookup_struct hid (fails_giveUp _ _) fun d hd => ?_
  simp only
  split
  · exact (follows_freshInstance hgeneral hd).bind (fun _ => keepsErrors_recorded _ _)
      fun _ _ _ _ ha => follows_recorded hm ha
  · refine (follows_readAll hargs).bind (fun _ => (keepsErrors_withArgs _ _ _).bind fun _ =>
      keepsErrors_recorded _ _) fun _ _ _ _ htys => ?_
    exact (follows_withArgs hd htys _).bind (fun _ => keepsErrors_recorded _ _)
      fun _ _ _ _ ha => follows_recorded hm ha

theorem follows_read {t : TypeRef} (h : W.Admits t.ids t.resolutions) :
    Follows M P (t.read .body) (t.read .body) fun Q => Q.Types W := by
  induction t generalizing P with
  | unit m => exact follows_recorded h.head .unit
  | infer m =>
      exact (follows_newVar hgeneral).bind (fun _ => keepsErrors_recorded _ _) fun _ _ _ _ ht =>
        follows_recorded h.head ht
  | unresolved m name args => exact (fails_giveUp _ _).follows _
  | builtin m name args =>
      refine (follows_builtin? name).bind (fun r => ?_) fun Q r r' _ hr => ?_
      · split
        · exact keepsErrors_recorded _ _
        · exact keepsErrors_giveUp _ _
      · obtain ⟨rfl, hprim⟩ := hr
        split
        · obtain ⟨p, rfl⟩ := hprim _ rfl
          exact follows_recorded h.head (.prim p)
        · exact (fails_giveUp _ _).follows _
  | adt m name id args ih =>
      have hid : W.scope.isStruct id := by simpa using h.names (.adt id) List.mem_cons_self
      refine follows_readStruct hgeneral h.head hid fun t ht Q => ih t ht ?_
      exact h.tail.mono (TypeRef.ids_subset_idsAll ht) fun _ hr =>
        List.mem_cons_of_mem _ (TypeRef.resolutions_subset_resolutionsAll ht hr)
  | param m name id args =>
      exact absurd (h.names (.param id) List.mem_cons_self) (by simp)

theorem follows_readOptional {t : Option TypeRef}
    (h : W.Admits (TypeRef.idsOption t) (TypeRef.resolutionsOption t)) :
    Follows M P (TypeRef.readOptional .body t) (TypeRef.readOptional .body t)
      fun Q => Option.Rel (Q.Types W) := by
  cases t with
  | none => exact follows_pure .none
  | some t =>
      exact (follows_read hgeneral h).bind (fun _ => keepsErrors_pure _)
        fun _ _ _ _ ht => follows_pure (.some ht)

theorem follows_instanceIn {d : Adt Ty} (hd : W.scope.structs id = some d) {args : List TypeRef}
    (hargs : ∀ t ∈ args, W.Admits t.ids t.resolutions) (span : Span) :
    Follows M P (d.instanceIn args span) (d.instanceIn args span)
      fun Q a a' => Q.Types W (.adt a) (.adt a') := by
  unfold Adt.instanceIn
  split
  · exact follows_freshInstance hgeneral hd
  · exact (follows_readAll fun t ht _ => follows_read hgeneral (hargs t ht)).bind
      (fun _ => keepsErrors_withArgs _ _ _) fun _ _ _ _ htys => follows_withArgs hd htys span

/-! ## Paths -/

/-- The type of what a path names, if that is a struct or has a type on both sides. -/
theorem follows_pathType (span : Span) {p : Path}
    (hres : ∀ id, p.res = some id → W.scope.isStruct id ∨ M.shared id)
    (hargs : ∀ t ∈ p.args, W.Admits t.ids t.resolutions) :
    Follows M P (pathType span p) (pathType span p) fun Q => Q.Types W := by
  unfold pathType
  cases hpath : p.res with
  | none => exact (fails_giveUp _ _).follows _
  | some id =>
      by_cases hid : W.scope.isStruct id
      · refine follows_lookup_struct hid (fails_giveUp _ _) fun d hd => ?_
        simp only
        split
        · exact (follows_instanceIn hgeneral hd hargs span).bind (fun _ => keepsErrors_pure _)
            fun _ _ _ _ ha => follows_pure ha
        · rename_i hfree
          exact follows_of fun s s' hs => follows_pure (hs.declaration_of_free hd hfree)
      · -- A coherent type need not be instantiated, whatever its form is.
        refine follows_lookup ((hres id hpath).resolve_left hid) hid (fails_giveUp _ _)
          fun t t' ht => (follows_pure ht).of_eq ?_ ?_
        · cases t with
          | adt a => simp [ht.left.coherent.isUninstantiated_eq_false]
          | _ => rfl
        · cases t' with
          | adt a' => simp [ht.right.coherent.isUninstantiated_eq_false]
          | _ => rfl

/-! ## Literals -/

omit hgeneral in
theorem follows_suffixedType (accepts : Prim → Bool) (suffix : String) (span : Span) :
    Follows M P (suffixedType accepts suffix span) (suffixedType accepts suffix span)
      fun Q => Q.Types W := by
  refine (follows_builtin? suffix).bind (fun r => ?_) fun Q r r' _ hr => ?_
  · split
    · split
      · exact keepsErrors_pure _
      · exact keepsErrors_reportTyped _ _
    · exact keepsErrors_reportTyped _ _
  · obtain ⟨rfl, -⟩ := hr
    split
    · split
      · exact follows_pure (.prim _)
      · exact (fails_reportTyped _ span).follows _
    · exact (fails_reportTyped _ span).follows _

end

theorem follows_literalType (span : Span) {l : Literal} (hl : ∀ k, l.kind? = some k → M.creates k) :
    Follows M P (literalType span l) (literalType span l) fun Q => Q.Types W := by
  cases l with
  | int value suffix =>
      cases suffix with
      | none => exact follows_newVar (hl _ rfl)
      | some suffix => exact follows_suffixedType _ _ _
  | float bits suffix =>
      cases suffix with
      | none => exact follows_newVar (hl _ rfl)
      | some suffix => exact follows_suffixedType _ _ _
  | bool value => exact follows_builtin (p := .bool) rfl
  | char value => exact follows_builtin (p := .char) rfl
  | str value => exact follows_builtin (p := .str) rfl
  | unit => exact follows_pure .unit

end Check

end TypeInference

import Mathlib.Data.List.Nodup
import TypeInference.Check.Item
import TypeInference.Proofs.Check.FieldPermutation

/-!
# Bodies with fields in another order

By induction on programs, a body whose literals are written with their fields
in another order is checked with the same outcome, the same rewritten nodes and
types that become the same in every solution.
-/

namespace TypeInference

open Ty Walk Check

variable {W : Setting} {P : Pairing} {o o' : FieldOrder} {s s' : Session} {t t' : Ty}

/-! ## What may be rearranged -/

/-- Whether nodes with these identities, type names and literals may be checked with the fields in
either order: where the orders differ, the fields of a literal are apart. -/
structure Setting.Rearranges (W : Setting) (o o' : FieldOrder) (ids : List NodeId)
    (resolutions : List TypeRes) (literals : List (NodeId × List FieldInit)) : Prop where
  admits : W.Admits ids resolutions
  nodup : ids.Nodup
  apart : ∀ l ∈ literals, l.2.all FieldInit.isLeaf → o.arrange l.1 l.2 ≠ o'.arrange l.1 l.2 →
    l.2.Pairwise FieldInit.Apart

namespace Setting.Rearranges

variable {ids ids' : List NodeId} {ress ress' : List TypeRes} {ls ls' : List (NodeId × List FieldInit)}

theorem mono (h : W.Rearranges o o' ids' ress' ls') (hids : ids.Sublist ids') (hress : ress ⊆ ress')
    (hls : ls ⊆ ls') : W.Rearranges o o' ids ress ls :=
  ⟨h.admits.mono hids.subset hress, h.nodup.sublist hids, fun l hl => h.apart l (hls hl)⟩

theorem head {id : NodeId} (h : W.Rearranges o o' (id :: ids) ress ls) : W.Owns id := h.admits.head

theorem tail {id : NodeId} (h : W.Rearranges o o' (id :: ids) ress ls) :
    W.Rearranges o o' ids ress ls :=
  h.mono (List.sublist_cons_self _ _) (List.Subset.refl _) (List.Subset.refl _)

theorem left (h : W.Rearranges o o' (ids ++ ids') (ress ++ ress') (ls ++ ls')) :
    W.Rearranges o o' ids ress ls :=
  h.mono (List.sublist_append_left _ _) (List.subset_append_left _ _) (List.subset_append_left _ _)

theorem right (h : W.Rearranges o o' (ids ++ ids') (ress ++ ress') (ls ++ ls')) :
    W.Rearranges o o' ids' ress' ls' :=
  h.mono (List.sublist_append_right _ _) (List.subset_append_right _ _)
    (List.subset_append_right _ _)

theorem member {ν : Type} {nodes : List ν} {node : ν} {f : ν → List NodeId} {r : ν → List TypeRes}
    {g : ν → List (NodeId × List FieldInit)}
    (h : W.Rearranges o o' (nodes.flatMap f) (nodes.flatMap r) (nodes.flatMap g))
    (hnode : node ∈ nodes) : W.Rearranges o o' (f node) (r node) (g node) := by
  refine h.mono ?_ (fun _ hr => List.mem_flatMap.2 ⟨node, hnode, hr⟩)
    fun _ hl => List.mem_flatMap.2 ⟨node, hnode, hl⟩
  rw [List.flatMap_def]
  exact List.sublist_flatten_of_mem (List.mem_map_of_mem hnode)

end Setting.Rearranges

/-- Fields that share no node and are apart are separate. -/
theorem FieldInit.pairwise_separate {fields : List FieldInit}
    (hnodup : (fields.flatMap FieldInit.ids).Nodup) (hapart : fields.Pairwise Apart) :
    fields.Pairwise Separate := by
  have hdisjoint := (List.nodup_flatMap.1 hnodup).2
  exact (hapart.and hdisjoint).imp fun ⟨hapart, hdisjoint⟩ =>
    ⟨hapart, fun id hid hid' => hdisjoint hid hid'⟩

/-- The value of a plain field is the same on both sides. -/
theorem FieldInit.IsPlain.follows_checkValue {F : FieldInit} (hF : F.IsPlain W) :
    Follows (.twins W) P F.checkValue F.checkValue fun Q => Q.Yields W := by
  rw [FieldInit.checkValue_of_isLeaf hF.isLeaf]
  have hvalue : Check.Follows (.twins W) P F.value F.value fun Q => Q.Types W :=
    FieldInit.follows_value hF.isLeaf trivial hF.admits fun _ _ => .inr trivial
  exact follows_leaf (hvalue.imp fun _ _ _ _ ht => ⟨rfl, ht⟩)

namespace Walk

/-! ## Nodes -/

/-- A node whose own type is found and recorded. -/
theorem follows_typed {ν : Type} {node : ν} {id : NodeId} {x y : Check Ty}
    (h : Check.Follows (.twins W) P x y fun Q => Q.Types W) (hid : W.Owns id) :
    Follows (.twins W) P (leaf node (x >>= recorded id)) (leaf node (y >>= recorded id))
      fun Q => Q.Yields W :=
  follows_leaf (h.bind (fun _ => keepsErrors_recorded _ _) fun _ _ _ _ ht =>
    (follows_recorded hid ht).imp fun _ _ _ _ ht => ⟨rfl, ht⟩)

theorem keepsErrors_typed {ν : Type} {node : ν} {id : NodeId} {x : Check Ty} (h : Check.Steady [] x) :
    (leaf node (x >>= recorded id)).KeepsErrors :=
  keepsErrors_leaf (h.keepsErrors.bind fun _ => keepsErrors_recorded _ _)

/-- A node of one part whose type is found by a rule. -/
theorem follows_node {μ ν α : Type} {w v : Walk μ α} {rebuild rebuild' node : μ → ν} {id : NodeId}
    {x : μ → α → Check Ty} {R : Pairing → μ → μ → α → α → Prop} (hid : W.Owns id)
    (hw : Follows (.twins W) P w v R) (hkeeps : ∀ n a, Check.Steady [] (x n a))
    (hx : ∀ Q n n' a a', R Q n n' a a' →
      n' = n ∧ Check.Follows (.twins W) Q (x n a) (x n a') fun Q => Q.Types W) :
    Follows (.twins W) P (child w rebuild fun n a => leaf (node n) (x n a >>= recorded id))
      (child v rebuild' fun n a => leaf (node n) (x n a >>= recorded id)) fun Q => Q.Yields W := by
  refine follows_child hw (fun n a => keepsErrors_typed (hkeeps n a)) fun Q n n' a a' _ h => ?_
  obtain ⟨rfl, hrule⟩ := hx Q n n' a a' h
  exact follows_typed hrule hid

/-- A node of two parts, of which the second one is checked after the first. -/
theorem follows_pair {μ κ ν α β : Type} {w w' : Walk μ α} {v v' : Walk κ β} {rebuild first : μ → ν}
    {last last' node : μ → κ → ν} {id : NodeId} {x : μ → α → κ → β → Check Ty}
    {R : Pairing → μ → μ → α → α → Prop} {T : Pairing → κ → κ → β → β → Prop} (hid : W.Owns id)
    (hw : Follows (.twins W) P w w' R) (hlast : v.KeepsErrors)
    (hv : ∀ Q, Follows (.twins W) Q v v' T) (hkeeps : ∀ n a k b, Check.Steady [] (x n a k b))
    (hx : ∀ Q Q' n n' a a' k k' b b', R Q n n' a a' → Q.Leads Q' → T Q' k k' b b' →
      n' = n ∧ k' = k ∧ Check.Follows (.twins W) Q' (x n a k b) (x n a' k b') fun Q => Q.Types W) :
    Follows (.twins W) P
      (child w rebuild fun n a => child v (last n) fun k b =>
        leaf (node n k) (x n a k b >>= recorded id))
      (child w' first fun n a => child v' (last' n) fun k b =>
        leaf (node n k) (x n a k b >>= recorded id)) fun Q => Q.Yields W := by
  refine follows_child hw (fun n a => keepsErrors_child hlast fun k b =>
    keepsErrors_typed (hkeeps n a k b)) fun Q n n' a a' _ hfirst => ?_
  refine follows_child (hv Q) (fun k b => keepsErrors_typed (hkeeps n a k b)) ?_
  intro Q' k k' b b' hlead hsecond
  obtain ⟨rfl, rfl, hrule⟩ := hx Q Q' n n' a a' k k' b b' hfirst hlead hsecond
  exact follows_typed hrule hid

/-! ## Lists of nodes -/

theorem follows_checkExprs {es : List Expr} (h : ∀ e ∈ es, ∀ P, Follows (.twins W) P
      (e.arranged o).check (e.arranged o').check fun Q => Q.Yields W) :
    Follows (.twins W) P (Expr.checkAll (es.map (Expr.arranged o)))
      (Expr.checkAll (es.map (Expr.arranged o')))
      fun Q n n' ts ts' => n' = n ∧ Q.TypesAll W ts ts' := by
  induction es generalizing P with
  | nil =>
      rw [List.map_nil, List.map_nil, Expr.checkAll]
      exact follows_leaf (follows_pure ⟨rfl, .nil⟩)
  | cons e es ih =>
      rw [List.map_cons, List.map_cons, Expr.checkAll, Expr.checkAll]
      refine follows_child (h e List.mem_cons_self P) (fun _ _ => ?_) ?_
      · exact keepsErrors_child (Expr.steady_checkAll _).keepsErrors fun _ _ =>
          keepsErrors_leaf (keepsErrors_pure _)
      · rintro Q n n' t t' - ⟨rfl, ht⟩
        refine follows_child (ih fun e he => h e (List.mem_cons_of_mem _ he))
          (fun _ _ => keepsErrors_leaf (keepsErrors_pure _)) ?_
        rintro R ns ns' ts ts' hlead ⟨rfl, hts⟩
        exact follows_leaf (follows_pure ⟨rfl, .cons (ht.mono hlead) hts⟩)

theorem follows_checkStmts {stmts : List Stmt} (hasTail : Bool) (h : ∀ s ∈ stmts, ∀ P,
      Follows (.twins W) P (s.arranged o).check (s.arranged o').check fun Q => Q.Yields W) :
    Follows (.twins W) P (Stmt.checkAll hasTail (stmts.map (Stmt.arranged o)))
      (Stmt.checkAll hasTail (stmts.map (Stmt.arranged o')))
      fun Q n n' r r' => n' = n ∧ Option.Rel (Q.Types W) r r' := by
  induction stmts generalizing P with
  | nil =>
      rw [List.map_nil, List.map_nil, Stmt.checkAll]
      exact follows_leaf (follows_pure ⟨rfl, .none⟩)
  | cons stmt rest ih =>
      rw [List.map_cons, List.map_cons, Stmt.checkAll, Stmt.checkAll]
      have hrest (stmt : Stmt) : (child (Stmt.checkAll hasTail (rest.map (Stmt.arranged o))) (stmt :: ·)
          fun rest value => leaf (stmt :: rest) (return value)).KeepsErrors :=
        keepsErrors_child (Stmt.steady_checkAll _ _).keepsErrors fun _ _ =>
          keepsErrors_leaf (keepsErrors_pure _)
      refine follows_child (h stmt List.mem_cons_self P) (fun n t => ?_) ?_
      · split
        · exact keepsErrors_leaf (keepsErrors_pure _)
        · exact keepsErrors_first (keepsErrors_requireUnit _ _) fun _ => hrest _
      · rintro Q n n' t t' - ⟨rfl, ht⟩
        have hempty : (rest.map (Stmt.arranged o')).isEmpty = (rest.map (Stmt.arranged o)).isEmpty := by
          simp
        rw [hempty]
        split
        · rename_i hlast
          simp only [Bool.and_eq_true, List.isEmpty_iff, List.map_eq_nil_iff] at hlast
          obtain rfl := hlast.1.2
          exact follows_leaf (follows_pure ⟨rfl, .some ht⟩)
        · refine follows_first (follows_requireUnit _ ht) (fun _ => hrest _) fun R _ _ _ _ => ?_
          refine follows_child (ih fun s hs => h s (List.mem_cons_of_mem _ hs))
            (fun _ _ => keepsErrors_leaf (keepsErrors_pure _)) ?_
          rintro R' ns ns' r r' - ⟨rfl, hr⟩
          exact follows_leaf (follows_pure ⟨rfl, hr⟩)

/-! ## Parts of nodes -/

/-- The types of arguments, at the spans of the arguments. -/
theorem typesAt_zip {ts ts' : List Ty} (h : P.TypesAll W ts ts') (spans : List Span) :
    P.TypesAt W (ts.zip spans) (ts'.zip spans) := by
  induction h generalizing spans with
  | nil => exact .nil
  | cons ht _ ih =>
      cases spans with
      | nil => exact .nil
      | cons span spans => exact .cons ⟨ht, rfl⟩ (ih spans)

/-- The written fields of a literal, all of them leaves, in both orders. -/
theorem follows_arrange {m : Mark} {fields : List FieldInit}
    (h : W.Rearranges o o' (fields.flatMap FieldInit.ids) (fields.flatMap FieldInit.resolutions)
      [(m.id, fields)])
    (hleaf : fields.all FieldInit.isLeaf) {a a' : Adt Ty} (ha : P.Types W (.adt a) (.adt a'))
    {slots slots' : Slots} (hslots : slots.Matches slots') :
    Follows (.twins W) P (FieldInit.checkAll a slots (o.arrange m.id fields))
      (FieldInit.checkAll a' slots' (o'.arrange m.id fields)) fun _ _ _ => Slots.Matches := by
  have hplain : ∀ F ∈ o.arrange m.id fields, F.IsPlain W := fun F hF => by
    have hmem := (o.perm m.id fields).mem_iff.1 hF
    exact ⟨List.all_eq_true.1 hleaf F hmem, h.admits.member hmem⟩
  by_cases hsame : o.arrange m.id fields = o'.arrange m.id fields
  · rw [← hsame]
    exact follows_checkFields ha hslots (List.forall₂_same.2 fun F hF =>
      ⟨(hplain F hF).owns, rfl, fun _ => (hplain F hF).follows_checkValue⟩)
  · have hseparate := FieldInit.pairwise_separate h.nodup (h.apart _ List.mem_cons_self hleaf hsame)
    exact follows_checkFields_perm hplain
      (((o.perm m.id fields).pairwise_iff FieldInit.Separate.symm).2 hseparate)
      ((o.perm m.id fields).trans (o'.perm m.id fields).symm) ha hslots

/-- Whether two arrangements of a node are checked alike where it may be rearranged. -/
def FollowsAll {ν : Type} (W : Setting) (o o' : FieldOrder) (ids : List NodeId)
    (resolutions : List TypeRes) (literals : List (NodeId × List FieldInit)) (w w' : Walk ν Ty) : Prop :=
  W.Rearranges o o' ids resolutions literals → ∀ P, Follows (.twins W) P w w' fun Q => Q.Yields W

end Walk

section

variable {m : Mark}

theorem Expr.follows_lit {l : Literal} :
    FollowsAll W o o' (lit m l).ids (lit m l).resolutions (lit m l).literals
      ((lit m l).arranged o).check ((lit m l).arranged o').check := by
  intro h P
  rw [Expr.arranged, Expr.arranged, Expr.check]
  exact follows_typed (follows_literalType m.span fun _ _ => trivial) h.head

theorem Expr.follows_path {p : Path} :
    FollowsAll W o o' (path m p).ids (path m p).resolutions (path m p).literals
      ((path m p).arranged o).check ((path m p).arranged o').check := by
  intro h P
  rw [Expr.arranged, Expr.arranged, Expr.check]
  exact follows_typed (follows_pathType trivial m.span (fun _ _ => .inr trivial) h.tail.admits.args)
    h.head

theorem Expr.follows_block {b : Block}
    (ih : FollowsAll W o o' b.ids b.resolutions b.literals (b.arranged o).check (b.arranged o').check) :
    FollowsAll W o o' (block m b).ids (block m b).resolutions (block m b).literals
      ((block m b).arranged o).check ((block m b).arranged o').check := by
  intro h P
  rw [Expr.arranged, Expr.arranged, Expr.check, Expr.check]
  exact follows_node h.head (ih h.tail P) (fun _ t => steady_pure t) fun _ _ _ _ _ ht =>
    ⟨ht.node_eq, follows_pure ht.types⟩

/-- The fields of a literal are put into the order only where all of them are leaves. -/
theorem Expr.follows_struct {p : Path} {span : Span} {fields : List FieldInit} {base : Option Expr}
    (ihfields : ∀ f ∈ fields, FollowsAll W o o' f.ids f.resolutions f.literals
      (f.arranged o).checkValue (f.arranged o').checkValue)
    (ihbase : ∀ b, base = some b → FollowsAll W o o' b.ids b.resolutions b.literals
      (b.arranged o).check (b.arranged o').check) :
    FollowsAll W o o' (struct m p span fields base).ids (struct m p span fields base).resolutions
      (struct m p span fields base).literals ((struct m p span fields base).arranged o).check
      ((struct m p span fields base).arranged o').check := by
  intro h P
  rw [Expr.arranged, Expr.arranged, Expr.check_struct, Expr.check_struct]
  have hinner : W.Rearranges o o' (p.ids ++ (Expr.idsOption base ++ FieldInit.idsAll fields))
      (p.resolutions ++ (Expr.resolutionsOption base ++ FieldInit.resolutionsAll fields))
      ([] ++ (Expr.literalsOption base ++ FieldInit.literalsAll fields)) :=
    h.tail.mono (List.Sublist.refl _) (List.Subset.refl _) (List.subset_cons_self _ _)
  have hfields := hinner.right.right
  rw [FieldInit.idsAll_eq, FieldInit.resolutionsAll_eq, FieldInit.literalsAll_eq] at hfields
  refine follows_node h.head (follows_literal hinner.left.admits.args span m.span ?_
    fun Q a a' ha => ?_) (fun _ t => steady_pure t) fun _ _ _ _ _ ht =>
      ⟨ht.node_eq, follows_pure ht.types⟩
  · cases base with
    | none => exact .none
    | some b => exact .some (ihbase b rfl hinner.right.left)
  · split
    · rename_i hleaf
      refine follows_arrange ⟨hfields.admits, hfields.nodup, fun l hl => ?_⟩ hleaf ha (.empty _)
      rw [List.mem_singleton.1 hl]
      exact h.apart _ List.mem_cons_self
    · rw [FieldInit.arrangedAll_eq, FieldInit.arrangedAll_eq]
      refine follows_checkFields ha (.empty _) (List.forall₂_map_left_iff.2
        (List.forall₂_map_right_iff.2 (List.forall₂_same.2 fun f hf => ⟨?_, ?_, ?_⟩)))
      · rw [FieldInit.mark_arranged]
        exact (hfields.member hf).admits.owns _ f.mark_mem_ids
      · rw [FieldInit.fieldName_arranged, FieldInit.fieldName_arranged]
      · exact ihfields f hf (hfields.member hf)

theorem Expr.follows_field {base : Expr} {name : String}
    (ih : FollowsAll W o o' base.ids base.resolutions base.literals
      (base.arranged o).check (base.arranged o').check) :
    FollowsAll W o o' (field m base name).ids (field m base name).resolutions
      (field m base name).literals ((field m base name).arranged o).check
      ((field m base name).arranged o').check := by
  intro h P
  rw [Expr.arranged, Expr.arranged, Expr.check, Expr.check]
  exact follows_node h.head (ih h.tail P) (fun _ t => steady_fieldType m.span name t)
    fun _ _ _ _ _ ht => ⟨ht.node_eq, follows_fieldType m.span name ht.types⟩

theorem Expr.follows_tupleIndex {base : Expr} {index : Nat}
    (ih : FollowsAll W o o' base.ids base.resolutions base.literals
      (base.arranged o).check (base.arranged o').check) :
    FollowsAll W o o' (tupleIndex m base index).ids (tupleIndex m base index).resolutions
      (tupleIndex m base index).literals ((tupleIndex m base index).arranged o).check
      ((tupleIndex m base index).arranged o').check := by
  intro h P
  rw [Expr.arranged, Expr.arranged, Expr.check, Expr.check]
  exact follows_node h.head (ih h.tail P) (fun _ t => steady_fieldType m.span _ t)
    fun _ _ _ _ _ ht => ⟨ht.node_eq, follows_fieldType m.span _ ht.types⟩

theorem Expr.follows_call {callee : Expr} {args : List Expr}
    (ihcallee : FollowsAll W o o' callee.ids callee.resolutions callee.literals
      (callee.arranged o).check (callee.arranged o').check)
    (ihargs : ∀ e ∈ args, FollowsAll W o o' e.ids e.resolutions e.literals
      (e.arranged o).check (e.arranged o').check) :
    FollowsAll W o o' (call m callee args).ids (call m callee args).resolutions
      (call m callee args).literals ((call m callee args).arranged o).check
      ((call m callee args).arranged o').check := by
  intro h P
  rw [Expr.arranged, Expr.arranged, Expr.check, Expr.check, Expr.arrangedAll_eq, Expr.arrangedAll_eq]
  have hargs := h.tail.right
  rw [Expr.idsAll_eq, Expr.resolutionsAll_eq, Expr.literalsAll_eq] at hargs
  refine follows_pair h.head (ihcallee h.tail.left P) (Expr.steady_checkAll _).keepsErrors
    (fun _ => follows_checkExprs fun e he => ihargs e he (hargs.member he))
    (fun _ _ _ _ => steady_callType _ _ _ _) ?_
  rintro Q Q' n _ t t' ns _ ts ts' ⟨rfl, ht⟩ hlead ⟨rfl, hts⟩
  exact ⟨rfl, rfl, follows_callType m.span _ (ht.mono hlead) (typesAt_zip hts _)⟩

theorem Expr.follows_unary {op : UnOp} {e : Expr}
    (ih : FollowsAll W o o' e.ids e.resolutions e.literals (e.arranged o).check (e.arranged o').check) :
    FollowsAll W o o' (unary m op e).ids (unary m op e).resolutions (unary m op e).literals
      ((unary m op e).arranged o).check ((unary m op e).arranged o').check := by
  intro h P
  rw [Expr.arranged, Expr.arranged, Expr.check, Expr.check]
  exact follows_node h.head (ih h.tail P) (fun _ t => steady_unaryType m.span op t)
    fun _ _ _ _ _ ht => ⟨ht.node_eq, follows_unaryType m.span op ht.types⟩

theorem Expr.follows_binary {op : BinOp} {l r : Expr}
    (ihl : FollowsAll W o o' l.ids l.resolutions l.literals (l.arranged o).check (l.arranged o').check)
    (ihr : FollowsAll W o o' r.ids r.resolutions r.literals (r.arranged o).check (r.arranged o').check) :
    FollowsAll W o o' (binary m op l r).ids (binary m op l r).resolutions (binary m op l r).literals
      ((binary m op l r).arranged o).check ((binary m op l r).arranged o').check := by
  intro h P
  rw [Expr.arranged, Expr.arranged, Expr.check, Expr.check]
  refine follows_pair h.head (ihl h.tail.left P) (Expr.steady _).keepsErrors (ihr h.tail.right)
    (fun _ _ _ _ => steady_binaryType _ _ _ _) ?_
  rintro Q Q' n _ t t' k _ u u' ⟨rfl, ht⟩ hlead ⟨rfl, hu⟩
  exact ⟨rfl, rfl, follows_binaryType m.span op (ht.mono hlead) hu rfl rfl⟩

theorem Expr.follows_assign {l r : Expr}
    (ihl : FollowsAll W o o' l.ids l.resolutions l.literals (l.arranged o).check (l.arranged o').check)
    (ihr : FollowsAll W o o' r.ids r.resolutions r.literals (r.arranged o).check (r.arranged o').check) :
    FollowsAll W o o' (assign m l r).ids (assign m l r).resolutions (assign m l r).literals
      ((assign m l r).arranged o).check ((assign m l r).arranged o').check := by
  intro h P
  rw [Expr.arranged, Expr.arranged, Expr.check_assign, Expr.check_assign]
  refine follows_pair h.head (ihl h.tail.left P) (Expr.steady _).keepsErrors (ihr h.tail.right)
    (fun _ t _ u => (steady_unifyAt _ t u).bind fun _ => steady_pure _) ?_
  rintro Q Q' n _ t t' k _ u u' ⟨rfl, ht⟩ hlead ⟨rfl, hu⟩
  exact ⟨rfl, rfl, (follows_unifyAt _ (ht.mono hlead) hu).bind (fun _ => keepsErrors_pure _)
    fun _ _ _ _ _ => follows_pure .unit⟩

theorem Expr.follows_paren {e : Expr}
    (ih : FollowsAll W o o' e.ids e.resolutions e.literals (e.arranged o).check (e.arranged o').check) :
    FollowsAll W o o' (paren m e).ids (paren m e).resolutions (paren m e).literals
      ((paren m e).arranged o).check ((paren m e).arranged o').check := by
  intro h P
  rw [Expr.arranged, Expr.arranged, Expr.check, Expr.check]
  exact follows_node h.head (ih h.tail P) (fun _ t => steady_pure t) fun _ _ _ _ _ ht =>
    ⟨ht.node_eq, follows_pure ht.types⟩

theorem Block.follows_mk {stmts : List Stmt} {tail : Option Expr}
    (ihstmts : ∀ n ∈ stmts, FollowsAll W o o' n.ids n.resolutions n.literals
      (n.arranged o).check (n.arranged o').check)
    (ihtail : ∀ e, tail = some e → FollowsAll W o o' e.ids e.resolutions e.literals
      (e.arranged o).check (e.arranged o').check) :
    FollowsAll W o o' (mk m stmts tail).ids (mk m stmts tail).resolutions (mk m stmts tail).literals
      ((mk m stmts tail).arranged o).check ((mk m stmts tail).arranged o').check := by
  intro h P
  have hstmts := h.tail.left
  rw [Stmt.idsAll_eq, Stmt.resolutionsAll_eq, Stmt.literalsAll_eq] at hstmts
  have hall (hasTail : Bool) (P : Pairing) := follows_checkStmts (P := P) hasTail fun n hn =>
    ihstmts n hn (hstmts.member hn)
  rw [Block.arranged, Block.arranged, Stmt.arrangedAll_eq, Stmt.arrangedAll_eq]
  cases tail with
  | none =>
      rw [Expr.arrangedOption, Expr.arrangedOption, Block.check, Block.check]
      refine follows_node h.head (hall false P) (fun _ _ => steady_pure _) ?_
      rintro Q n _ r r' ⟨rfl, hr⟩
      refine ⟨rfl, follows_pure ?_⟩
      cases hr with
      | none => exact .unit
      | some ht => exact ht
  | some e =>
      rw [Expr.arrangedOption, Expr.arrangedOption, Block.check, Block.check]
      refine follows_pair h.head (hall true P) (Expr.steady _).keepsErrors (ihtail e rfl h.tail.right)
        (fun _ _ _ _ => steady_pure _) ?_
      rintro Q Q' n _ r r' k _ t t' ⟨rfl, -⟩ - ⟨rfl, ht⟩
      exact ⟨rfl, rfl, follows_pure ht⟩

/-- Whatever the type of a binding is, it is recorded, and the statement is unit. -/
theorem Check.follows_bound {binding id : NodeId} (hbinding : W.Owns binding) (hid : W.Owns id)
    {annotated annotated' : Option Ty} {init init' : Option (Ty × Span)}
    (hannotated : Option.Rel (P.Types W) annotated annotated')
    (hinit : Option.Rel (fun i i' => P.Types W i.1 i'.1 ∧ i'.2 = i.2) init init') :
    Follows (.twins W) P (do record binding (← bindingType annotated init); recorded id .unit)
      (do record binding (← bindingType annotated' init'); recorded id .unit)
      fun Q => Q.Types W := by
  have hkeeps (t : Ty) : (record binding t >>= fun _ => recorded id .unit).KeepsErrors :=
    (steady_record (List.mem_singleton_self binding) t).keepsErrors.bind fun _ =>
      keepsErrors_recorded _ _
  refine (follows_bindingType hannotated hinit).bind hkeeps fun Q t t' _ ht => ?_
  exact (follows_record hbinding ht).bind (fun _ => keepsErrors_recorded _ _) fun _ _ _ _ _ =>
    follows_recorded hid .unit

theorem Stmt.follows_bind {binding : NodeId} {name : String} {ty : Option TypeRef}
    {init : Option Expr}
    (ih : ∀ e, init = some e → FollowsAll W o o' e.ids e.resolutions e.literals
      (e.arranged o).check (e.arranged o').check) :
    FollowsAll W o o' (bind m binding name ty init).ids (bind m binding name ty init).resolutions
      (bind m binding name ty init).literals ((bind m binding name ty init).arranged o).check
      ((bind m binding name ty init).arranged o').check := by
  intro h P
  have hinner : W.Rearranges o o' (TypeRef.idsOption ty ++ Expr.idsOption init)
      (TypeRef.resolutionsOption ty ++ Expr.resolutionsOption init)
      ([] ++ Expr.literalsOption init) := h.tail.tail
  have hkeeps (annotated : Option Ty) (init : Option (Ty × Span)) :
      (do record binding (← bindingType annotated init); recorded m.id .unit : Check Ty).KeepsErrors :=
    (steady_bound (List.mem_cons_self (l := [m.id])) (by simp) annotated init).keepsErrors
  have hread := follows_readOptional (M := .twins W) (P := P) trivial hinner.left.admits
  rw [Stmt.arranged, Stmt.arranged]
  cases init with
  | none =>
      rw [Expr.arrangedOption, Expr.arrangedOption, Stmt.check]
      refine follows_leaf (hread.bind (fun _ => hkeeps _ _) fun Q r r' _ hr => ?_)
      exact (follows_bound h.tail.head h.head hr .none).imp fun _ _ _ _ ht => ⟨rfl, ht⟩
  | some e =>
      rw [Expr.arrangedOption, Expr.arrangedOption, Stmt.check, Stmt.check]
      refine follows_first hread (fun _ => keepsErrors_child (Expr.steady _).keepsErrors fun _ _ =>
        keepsErrors_leaf (hkeeps _ _)) fun Q r r' _ hr => ?_
      refine follows_child (ih e rfl hinner.right Q) (fun _ _ => keepsErrors_leaf (hkeeps _ _)) ?_
      rintro Q' n n' t t' hlead ⟨rfl, ht⟩
      have hr' := rel_mono hr fun _ _ hu => hu.mono hlead
      have hinit : Option.Rel (fun i i' : Ty × Span => Q'.Types W i.1 i'.1 ∧ i'.2 = i.2)
          (some (t, n'.span)) (some (t', n'.span)) := .some ⟨ht, rfl⟩
      exact follows_leaf ((follows_bound h.tail.head h.head hr' hinit).imp fun _ _ _ _ ht =>
        ⟨rfl, ht⟩)

theorem Stmt.follows_expr {e : Expr}
    (ih : FollowsAll W o o' e.ids e.resolutions e.literals (e.arranged o).check (e.arranged o').check) :
    FollowsAll W o o' (expr m e).ids (expr m e).resolutions (expr m e).literals
      ((expr m e).arranged o).check ((expr m e).arranged o').check := by
  intro h P
  rw [Stmt.arranged, Stmt.arranged, Stmt.check, Stmt.check]
  exact follows_node h.head (ih h.tail P) (fun _ t => steady_pure t) fun _ _ _ _ _ ht =>
    ⟨ht.node_eq, follows_pure ht.types⟩

theorem Stmt.follows_semi {e : Expr}
    (ih : FollowsAll W o o' e.ids e.resolutions e.literals (e.arranged o).check (e.arranged o').check) :
    FollowsAll W o o' (semi m e).ids (semi m e).resolutions (semi m e).literals
      ((semi m e).arranged o).check ((semi m e).arranged o').check := by
  intro h P
  rw [Stmt.arranged, Stmt.arranged, Stmt.check, Stmt.check]
  exact follows_node h.head (ih h.tail P) (fun _ _ => steady_pure .unit) fun _ _ _ _ _ ht =>
    ⟨ht.node_eq, follows_pure .unit⟩

/-- The value of a written field that is an expression of its own. -/
theorem FieldInit.follows_wrapped {e : Expr} {wrap : Expr → FieldInit} {id : NodeId}
    (ih : FollowsAll W o o' e.ids e.resolutions e.literals (e.arranged o).check (e.arranged o').check) :
    FollowsAll W o o' (id :: e.ids) e.resolutions e.literals
      (child (e.arranged o).check wrap fun e t => leaf (wrap e) (return t))
      (child (e.arranged o').check wrap fun e t => leaf (wrap e) (return t)) := by
  intro h P
  refine follows_child (ih h.tail P) (fun _ _ => keepsErrors_leaf (keepsErrors_pure _)) ?_
  rintro Q n n' t t' - ⟨rfl, ht⟩
  exact follows_leaf (follows_pure ⟨rfl, ht⟩)

theorem FieldInit.follows_short {name : String} {res : Option NodeId} :
    FollowsAll W o o' (short m name res).ids (short m name res).resolutions
      (short m name res).literals ((short m name res).arranged o).checkValue
      ((short m name res).arranged o').checkValue :=
  fun h _ => follows_typed (follows_pathType trivial m.span (fun _ _ => .inr trivial)
    (by simp [Path.ident, Path.args])) h.head

end

/-! ## Programs -/

/-- A node is checked alike with the fields in either order, by induction on programs. -/
theorem Walk.follows_check :
    (∀ e : Expr, FollowsAll W o o' e.ids e.resolutions e.literals
      (e.arranged o).check (e.arranged o').check) ∧
    (∀ b : Block, FollowsAll W o o' b.ids b.resolutions b.literals
      (b.arranged o).check (b.arranged o').check) ∧
    (∀ n : Stmt, FollowsAll W o o' n.ids n.resolutions n.literals
      (n.arranged o).check (n.arranged o').check) ∧
    ∀ f : FieldInit, FollowsAll W o o' f.ids f.resolutions f.literals
      (f.arranged o).checkValue (f.arranged o').checkValue := by
  apply Expr.induct
  case lit => exact fun _ _ => Expr.follows_lit
  case path => exact fun _ _ => Expr.follows_path
  case block => exact fun _ _ => Expr.follows_block
  case struct => exact fun _ _ _ _ _ => Expr.follows_struct
  case field => exact fun _ _ _ => Expr.follows_field
  case tupleIndex => exact fun _ _ _ => Expr.follows_tupleIndex
  case call => exact fun _ _ _ => Expr.follows_call
  case unary => exact fun _ _ _ => Expr.follows_unary
  case binary => exact fun _ _ _ _ => Expr.follows_binary
  case assign => exact fun _ _ _ => Expr.follows_assign
  case paren => exact fun _ _ => Expr.follows_paren
  case mk => exact fun _ _ _ => Block.follows_mk
  case bind => exact fun _ _ _ _ _ => Stmt.follows_bind
  case expr => exact fun _ _ => Stmt.follows_expr
  case semi => exact fun _ _ => Stmt.follows_semi
  case named => exact fun _ _ _ => FieldInit.follows_wrapped
  case index => exact fun _ _ _ => FieldInit.follows_wrapped
  case short => exact fun _ _ _ => FieldInit.follows_short

end TypeInference

import TypeInference.Proofs.Check.Coverage
import TypeInference.Proofs.Check.Passes
import TypeInference.Proofs.Program.Lookups

/-!
# References in bodies are resolved

A type with an unresolved name in it cannot be read, and a path that did not
resolve has no type. So a walk that succeeds and reports nothing has found
every reference on its way resolved. What keeps the arguments of a path from
being skipped is that a generic struct stays recorded as it was declared.
-/

namespace TypeInference

open Walk Check

namespace Check

variable {α β : Type}

/-- Both parts of a success have succeeded. -/
theorem ok_of_bind {x : Check α} {f : α → Check β} {s : Session} {b : β}
    (h : ((x >>= f).perform s).1 = .ok b) :
    ∃ a s', x.perform s = (.ok a, s') ∧ ((f a).perform s').1 = .ok b := by
  rw [perform_bind] at h
  rcases hrun : x.perform s with ⟨e | a, s'⟩
  · rw [hrun] at h
    cases h
  · rw [hrun] at h
    exact ⟨a, s', rfl, h⟩

end Check

namespace TypeRef

theorem resolve_of_readAll {position : Position} {ts : List TypeRef} {s : Session} {tys : List Ty}
    (hts : ∀ t ∈ ts, ∀ s ty, ((t.read position).perform s).1 = .ok ty → Reference.Resolve t.lookups)
    (h : ((readAll position ts).perform s).1 = .ok tys) :
    Reference.Resolve (ts.flatMap lookups) := by
  induction ts generalizing s tys with
  | nil => exact Reference.resolve_nil
  | cons t ts ih =>
      rw [List.forall_mem_cons] at hts
      rw [readAll] at h
      obtain ⟨ty, s₁, hrun, h⟩ := ok_of_bind h
      obtain ⟨tys', s₂, hrun', -⟩ := ok_of_bind h
      rw [List.flatMap_cons]
      exact (hts.1 s ty (by rw [hrun])).append (ih hts.2 (by rw [hrun']))

/-- A written type is read only if the names that are read in it have resolved. -/
theorem resolve_of_read {position : Position} (t : TypeRef) {s : Session} {ty : Ty}
    (h : ((t.read position).perform s).1 = .ok ty) : Reference.Resolve t.lookups := by
  induction t generalizing s ty with
  | unit m => exact Reference.resolve_nil
  | infer m => exact Reference.resolve_nil
  | unresolved m name args => simp [read] at h
  | builtin m name args => exact fun r hr => by rw [List.mem_singleton.1 hr]; rfl
  | adt m name id args ih =>
      rw [lookups_adt]
      refine List.forall_mem_cons.2 ⟨rfl, ?_⟩
      rw [read] at h
      obtain ⟨r, s', -, h⟩ := ok_of_bind h
      split at h
      · split at h
        · rename_i hempty
          obtain rfl : args = [] := by simpa using (Bool.and_eq_true_iff.1 hempty).1
          exact Reference.resolve_nil
        · obtain ⟨tys, s'', hrun, -⟩ := ok_of_bind h
          exact resolve_of_readAll (fun t ht s ty => ih t ht) (by rw [hrun])
      · simp at h
      · simp at h
  | param m name id args => exact fun r hr => by rw [List.mem_singleton.1 hr]; rfl

theorem resolve_of_readOptional {position : Position} {t : Option TypeRef} {s : Session}
    {r : Option Ty} (h : ((readOptional position t).perform s).1 = .ok r) :
    Reference.Resolve (t.toList.flatMap lookups) := by
  cases t with
  | none => exact Reference.resolve_nil
  | some t =>
      obtain ⟨ty, s', hrun, -⟩ := ok_of_bind h
      simpa using resolve_of_read t (congrArg Prod.fst hrun)

end TypeRef

/-! ## What a run needs -/

def Session.HasGeneric (generic : NodeId → Bool) (ids : List NodeId) (s : Session) : Prop :=
  ∀ id, generic id → id ∉ ids ∧ id < s.locations.size ∧
    ∃ a, s.context.types.find? id = some (.adt a) ∧ a.isUninstantiated

variable {generic : NodeId → Bool} {ids : List NodeId} {s s' : Session} {α β : Type}
  {Q : α → Prop} {R : Prop}

theorem Session.HasGeneric.after (h : s.HasGeneric generic ids) (hgrows : s.Grows ids s') :
    s'.HasGeneric generic ids := by
  intro id hid
  obtain ⟨hnot, hlt, a, ha, hfree⟩ := h id hid
  exact ⟨hnot, Nat.lt_of_lt_of_le hlt hgrows.size_le, a, (hgrows.kept id hnot hlt).trans ha, hfree⟩

theorem Session.HasGeneric.lookup (h : s.HasGeneric generic ids) {id : NodeId} (hid : generic id) :
    ∃ a, s.context.lookup id = some (.adt a) ∧ a.isUninstantiated := by
  obtain ⟨-, -, a, ha, hfree⟩ := h id hid
  refine ⟨a.map s.context.resolve, ?_, ?_⟩
  · rw [Context.lookup, ha]
    exact congrArg some (Ty.rewrite_adt _ _ a)
  · simpa [Adt.isUninstantiated, Adt.isGeneric, Adt.map] using hfree

namespace Check

/-- A computation whose results have the property if nothing is reported. -/
structure Needs (generic : NodeId → Bool) (ids : List NodeId) (x : Check α) (Q : α → Prop) :
    Prop where
  steady : Steady ids x
  needs : ∀ s : Session, s.HasGeneric generic ids → (x.perform s).2.sink.errors = [] →
    ∀ a, (x.perform s).1 = .ok a → Q a

/-- The arguments of an instance have been read if some are written. -/
theorem resolve_of_instanceIn {a b : Adt Ty} {args : List TypeRef} {span : Span}
    (h : ((a.instanceIn args span).perform s).1 = .ok b) :
    Reference.Resolve (args.flatMap TypeRef.lookups) := by
  unfold Adt.instanceIn at h
  split at h
  · rename_i hempty
    rw [List.isEmpty_iff.1 hempty]
    exact Reference.resolve_nil
  · obtain ⟨tys, s', hrun, -⟩ := ok_of_bind h
    exact TypeRef.resolve_of_readAll (fun t _ _ _ => t.resolve_of_read) (by rw [hrun])

/-- A path that names a generic struct is looked up where the struct is recorded. -/
theorem resolve_lookups {p : Path} {res : NodeId} (hres : p.res = some res)
    (hargs : ∀ a, s.context.lookup res = some (.adt a) → a.isUninstantiated →
      Reference.Resolve (p.args.flatMap TypeRef.lookups))
    (hs : s.HasGeneric generic ids) : Reference.Resolve (p.lookups generic) := by
  refine List.forall_mem_cons.2 ⟨by rw [hres]; rfl, ?_⟩
  split
  · rename_i hgeneric
    rw [hres, Option.any_some] at hgeneric
    obtain ⟨a, ha, hfree⟩ := hs.lookup hgeneric
    exact hargs a ha hfree
  · exact Reference.resolve_nil

theorem needs_pathType (span : Span) {p : Path} (hp : p.ids ⊆ ids) :
    Needs generic ids (pathType span p) fun _ => Reference.Resolve (p.lookups generic) := by
  refine ⟨steady_pathType span hp, fun s hs _ t h => ?_⟩
  unfold pathType at h
  split at h
  · simp at h
  · rename_i res hres
    refine resolve_lookups hres (fun a ha hfree => ?_) hs
    rw [perform_bind, perform_lookup, ha] at h
    simp only [hfree, if_true] at h
    obtain ⟨b, s', hrun, -⟩ := ok_of_bind h
    exact resolve_of_instanceIn (s := s) (b := b) (by rw [hrun])

theorem needs_structOf {p : Path} (span : Span) (hp : p.ids ⊆ ids) :
    Needs generic ids (structOf p span) fun _ => Reference.Resolve (p.lookups generic) := by
  refine ⟨steady_structOf span hp, fun s hs _ b h => ?_⟩
  unfold structOf at h
  split at h
  · simp at h
  · rename_i res hres
    refine resolve_lookups hres (fun a ha hfree => ?_) hs
    rw [perform_bind, perform_lookup, ha] at h
    simp only [hfree, if_true] at h
    exact resolve_of_instanceIn h

/-- A written field that has no place has been reported. -/
theorem needs_declaredField (a : Adt Ty) (slots : Slots) (node : FieldInit) :
    Needs generic ids (declaredField a slots node) fun r => r.isSome := by
  refine ⟨steady_declaredField a slots node, fun s _ herrors r h => ?_⟩
  cases r with
  | some f => rfl
  | none =>
      have hrun : (declaredField a slots node).perform s = (.ok none, _) := Prod.ext h rfl
      exact (Walk.errors_of_declaredField hrun herrors).elim

end Check

namespace Walk

/-- A walk that can succeed without a report only if the proposition holds. -/
structure Needs {ν : Type} (generic : NodeId → Bool) (ids : List NodeId) (w : Walk ν α) (R : Prop) :
    Prop where
  steady : Steady ids w
  needs : ∀ s : Session, s.HasGeneric generic ids → (w s).session.sink.errors = [] →
    ∀ a, (w s).outcome = .ok a → R

variable {ν μ : Type} {R' : Prop}

theorem Steady.needs {w : Walk ν α} (h : Steady ids w) (hR : R) : Needs generic ids w R :=
  ⟨h, fun _ _ _ _ _ => hR⟩

theorem needs_first {node : ν} {x : Check α} {next : α → Walk ν β}
    (hx : Check.Needs generic ids x Q) (hnext : ∀ a, Needs generic ids (next a) (Q a → R)) :
    Needs generic ids (first node x next) R := by
  refine ⟨steady_first hx.steady fun a => (hnext a).steady, fun s hs herrors b hok => ?_⟩
  rcases first_cases node x next s with ⟨a, s', hrun, heq⟩ | ⟨e, s', -, heq⟩
  · rw [heq] at hok herrors
    have hgrows := hx.steady.grows s
    have hQ := hx.needs s hs
    rw [hrun] at hgrows hQ
    have hnil := ((hnext a).steady.grows s').errors_eq_nil herrors
    exact (hnext a).needs s' (hs.after hgrows) herrors b hok (hQ hnil a rfl)
  · rw [heq] at hok
    cases hok

theorem needs_child {w : Walk μ α} {rebuild : μ → ν} {next : μ → α → Walk ν β}
    (hw : Needs generic ids w R')
    (hnext : ∀ s a, Needs generic ids (next (w s).node a) (R' → R)) :
    Needs generic ids (child w rebuild next) R := by
  refine ⟨steady_child hw.steady fun s a => (hnext s a).steady, fun s hs herrors b hok => ?_⟩
  rcases child_cases w rebuild next s with ⟨a, hrun, heq⟩ | ⟨e, -, heq⟩
  · rw [heq] at hok herrors
    have hnil := ((hnext s a).steady.grows _).errors_eq_nil herrors
    exact (hnext s a).needs _ (hs.after (hw.steady.grows s)) herrors b hok (hw.needs s hs hnil a hrun)
  · rw [heq] at hok
    cases hok

/-- A node of one part is resolved if the part is. -/
theorem needs_node {w : Walk μ α} {rebuild node : μ → ν} {x : μ → α → Check Ty} {id : NodeId}
    (hid : id ∈ ids) (hw : Needs generic ids w R) (hx : ∀ n a, Check.Steady ids (x n a)) :
    Needs generic ids (child w rebuild fun n a => leaf (node n) (x n a >>= recorded id)) R :=
  needs_child hw fun _ a => (steady_typed hid (hx _ a)).needs fun h => h

/-- A node of two parts has the references of both. -/
theorem needs_pair {κ : Type} {w : Walk μ α} {v : Walk κ β} {rebuild : μ → ν} {rebuild' node : μ → κ → ν}
    {x : μ → α → κ → β → Check Ty} {id : NodeId} {refs refs' : List Reference} (hid : id ∈ ids)
    (hw : Needs generic ids w (Reference.Resolve refs))
    (hv : Needs generic ids v (Reference.Resolve refs'))
    (hx : ∀ n a k b, Check.Steady ids (x n a k b)) :
    Needs generic ids (child w rebuild fun n a => child v (rebuild' n) fun k b =>
      leaf (node n k) (x n a k b >>= recorded id)) (Reference.Resolve (refs ++ refs')) :=
  needs_child hw fun _ a => needs_child hv fun _ b =>
    (steady_typed hid (hx _ a _ b)).needs fun hlast hfirst => hfirst.append hlast

/-- Whether the walk of these nodes needs the references, wherever the nodes are. -/
def NeedsAll (generic : NodeId → Bool) (ids own : List NodeId) (w : Walk ν α)
    (refs : List Reference) : Prop :=
  own ⊆ ids → Needs generic ids w (Reference.Resolve refs)

/-! ## Struct literals and lists of nodes -/

variable {generic : NodeId → Bool} {ids : List NodeId}

theorem needs_literalBase {base : Option Expr} (a : Adt Ty)
    (h : ∀ b, base = some b → Needs generic ids b.check (Reference.Resolve (b.lookups generic))) :
    Needs generic ids (literalBase a base) (Reference.Resolve (Expr.lookupsOption generic base)) := by
  cases base with
  | none => exact (steady_leaf (steady_pure _)).needs Reference.resolve_nil
  | some b =>
      exact needs_child (h b rfl) fun _ t => (steady_leaf (steady_unifyBase a t _)).needs id

theorem needs_checkField {node : FieldInit} (a : Adt Ty) (slots : Slots)
    (hmark : node.mark.id ∈ ids) (h : Needs generic ids node.checkValue R) :
    Needs generic ids (node.check a slots) R := by
  rw [FieldInit.check_eq]
  refine needs_first (needs_declaredField a slots node) fun r => ?_
  cases r with
  | none => exact (steady_leaf (steady_pure _)).needs fun h => by cases h
  | some f =>
      refine needs_child h fun s t => (steady_leaf (steady_acceptField f slots t ?_)).needs fun h _ => h
      rw [(mark_checkValue node s).1]
      exact hmark

theorem needs_checkFields {fields : List FieldInit} (a : Adt Ty) (slots : Slots)
    (h : ∀ f ∈ fields, f.mark.id ∈ ids ∧
      Needs generic ids f.checkValue (Reference.Resolve (f.lookups generic))) :
    Needs generic ids (FieldInit.checkAll a slots fields)
      (Reference.Resolve (FieldInit.lookupsAll generic fields)) := by
  induction fields generalizing slots with
  | nil =>
      rw [FieldInit.checkAll]
      exact (steady_leaf (steady_pure _)).needs Reference.resolve_nil
  | cons f rest ih =>
      rw [FieldInit.checkAll]
      obtain ⟨hmark, hvalue⟩ := h f List.mem_cons_self
      refine needs_child (needs_checkField a slots hmark hvalue) fun _ slots => ?_
      refine needs_child (ih slots fun g hg => h g (List.mem_cons_of_mem _ hg)) fun _ _ => ?_
      exact (steady_leaf (steady_pure _)).needs fun hrest hf => hf.append hrest

theorem needs_literal {path : Path} {fields : List FieldInit} {base : Option Expr}
    (pathSpan span : Span) (hpath : path.ids ⊆ ids)
    (hfields : ∀ f ∈ fields, f.mark.id ∈ ids ∧
      Needs generic ids f.checkValue (Reference.Resolve (f.lookups generic)))
    (hbase : ∀ b, base = some b →
      Needs generic ids b.check (Reference.Resolve (b.lookups generic))) :
    Needs generic ids (literal path pathSpan span fields base) (Reference.Resolve
      (path.lookups generic ++
        (Expr.lookupsOption generic base ++ FieldInit.lookupsAll generic fields))) :=
  needs_first (needs_structOf pathSpan hpath) fun a =>
    needs_child (needs_literalBase a hbase) fun _ t =>
      needs_child (needs_checkFields a _ hfields) fun _ slots =>
        (steady_child (steady_completeLiteral a t span _ _ slots) fun _ _ =>
          steady_leaf (steady_pure _)).needs fun hfields hbase hpath =>
            hpath.append (hbase.append hfields)

theorem needs_checkExprs {es : List Expr}
    (h : ∀ e ∈ es, Needs generic ids e.check (Reference.Resolve (e.lookups generic))) :
    Needs generic ids (Expr.checkAll es) (Reference.Resolve (Expr.lookupsAll generic es)) := by
  induction es with
  | nil =>
      rw [Expr.checkAll]
      exact (steady_leaf (steady_pure _)).needs Reference.resolve_nil
  | cons e es ih =>
      rw [Expr.checkAll]
      refine needs_child (h e List.mem_cons_self) fun _ _ => ?_
      refine needs_child (ih fun e he => h e (List.mem_cons_of_mem _ he)) fun _ _ => ?_
      exact (steady_leaf (steady_pure _)).needs fun hrest he => he.append hrest

theorem needs_checkStmts {stmts : List Stmt} (hasTail : Bool)
    (h : ∀ s ∈ stmts, Needs generic ids s.check (Reference.Resolve (s.lookups generic))) :
    Needs generic ids (Stmt.checkAll hasTail stmts)
      (Reference.Resolve (Stmt.lookupsAll generic stmts)) := by
  induction stmts with
  | nil =>
      rw [Stmt.checkAll]
      exact (steady_leaf (steady_pure _)).needs Reference.resolve_nil
  | cons stmt rest ih =>
      rw [Stmt.checkAll]
      have hrest := ih fun s hs => h s (List.mem_cons_of_mem _ hs)
      refine needs_child (h stmt List.mem_cons_self) fun _ t => ?_
      split
      · rename_i hlast
        obtain rfl : rest = [] := by simp at hlast; exact hlast.1.2
        exact (steady_leaf (steady_pure _)).needs fun hstmt => hstmt.append Reference.resolve_nil
      · have hunit (span : Span) : Check.Needs generic ids (requireUnit span t) fun _ => True :=
          ⟨steady_requireUnit span t, fun _ _ _ _ _ => trivial⟩
        refine needs_first (hunit _) fun _ => needs_child hrest fun _ _ => ?_
        exact (steady_leaf (steady_pure _)).needs fun hrest _ hstmt => hstmt.append hrest

end Walk

/-! ## Nodes -/

section

variable {m : Mark}

theorem Expr.needs_lit {l : Literal} :
    NeedsAll generic ids (lit m l).ids (lit m l).check ((lit m l).lookups generic) := by
  intro h
  rw [Expr.check]
  exact (steady_typed (h List.mem_cons_self) (steady_literalType m.span l)).needs
    Reference.resolve_nil

theorem Expr.needs_path {p : Path} :
    NeedsAll generic ids (path m p).ids (path m p).check ((path m p).lookups generic) := by
  intro h
  obtain ⟨hm, hp⟩ := List.cons_subset.1 h
  rw [Expr.check, leaf_bind]
  exact needs_first (needs_pathType m.span hp) fun t =>
    (steady_leaf (steady_recorded hm t)).needs fun h => h

theorem Expr.needs_block {b : Block} (ih : NeedsAll generic ids b.ids b.check (b.lookups generic)) :
    NeedsAll generic ids (block m b).ids (block m b).check ((block m b).lookups generic) := by
  intro h
  obtain ⟨hm, hb⟩ := List.cons_subset.1 h
  rw [Expr.check]
  exact needs_node hm (ih hb) fun _ t => steady_pure t

theorem Expr.needs_struct {p : Path} {span : Span} {fields : List FieldInit} {base : Option Expr}
    (ihfields : ∀ f ∈ fields, NeedsAll generic ids f.ids f.checkValue (f.lookups generic))
    (ihbase : ∀ b, base = some b → NeedsAll generic ids b.ids b.check (b.lookups generic)) :
    NeedsAll generic ids (struct m p span fields base).ids (struct m p span fields base).check
      ((struct m p span fields base).lookups generic) := by
  intro h
  simp only [Expr.ids, List.cons_subset, List.append_subset, FieldInit.idsAll_eq] at h
  obtain ⟨hm, hp, hbase, hfields⟩ := h
  rw [Expr.check_struct]
  refine needs_node hm (needs_literal span m.span hp (fun f hf => ?_) fun b hb => ?_) fun _ t =>
    steady_pure t
  · have hsub : f.ids ⊆ ids := fun i hi => hfields (List.mem_flatMap.2 ⟨f, hf, hi⟩)
    exact ⟨hsub f.mark_mem_ids, ihfields f hf hsub⟩
  · subst hb
    exact ihbase b rfl hbase

theorem Expr.needs_field {base : Expr} {name : String}
    (ih : NeedsAll generic ids base.ids base.check (base.lookups generic)) :
    NeedsAll generic ids (field m base name).ids (field m base name).check
      ((field m base name).lookups generic) := by
  intro h
  obtain ⟨hm, hbase⟩ := List.cons_subset.1 h
  rw [Expr.check]
  exact needs_node hm (ih hbase) fun _ t => steady_fieldType m.span name t

theorem Expr.needs_tupleIndex {base : Expr} {index : Nat}
    (ih : NeedsAll generic ids base.ids base.check (base.lookups generic)) :
    NeedsAll generic ids (tupleIndex m base index).ids (tupleIndex m base index).check
      ((tupleIndex m base index).lookups generic) := by
  intro h
  obtain ⟨hm, hbase⟩ := List.cons_subset.1 h
  rw [Expr.check]
  exact needs_node hm (ih hbase) fun _ t => steady_fieldType m.span _ t

theorem Expr.needs_call {callee : Expr} {args : List Expr}
    (ihcallee : NeedsAll generic ids callee.ids callee.check (callee.lookups generic))
    (ihargs : ∀ e ∈ args, NeedsAll generic ids e.ids e.check (e.lookups generic)) :
    NeedsAll generic ids (call m callee args).ids (call m callee args).check
      ((call m callee args).lookups generic) := by
  intro h
  simp only [Expr.ids, List.cons_subset, List.append_subset, Expr.idsAll_eq] at h
  obtain ⟨hm, hcallee, hargs⟩ := h
  rw [Expr.check]
  exact needs_pair hm (ihcallee hcallee) (needs_checkExprs fun e he =>
    ihargs e he fun i hi => hargs (List.mem_flatMap.2 ⟨e, he, hi⟩))
    fun _ t _ _ => steady_callType m.span _ t _

theorem Expr.needs_unary {op : UnOp} {e : Expr}
    (ih : NeedsAll generic ids e.ids e.check (e.lookups generic)) :
    NeedsAll generic ids (unary m op e).ids (unary m op e).check ((unary m op e).lookups generic) := by
  intro h
  obtain ⟨hm, he⟩ := List.cons_subset.1 h
  rw [Expr.check]
  exact needs_node hm (ih he) fun _ t => steady_unaryType m.span op t

theorem Expr.needs_binary {op : BinOp} {l r : Expr}
    (ihl : NeedsAll generic ids l.ids l.check (l.lookups generic))
    (ihr : NeedsAll generic ids r.ids r.check (r.lookups generic)) :
    NeedsAll generic ids (binary m op l r).ids (binary m op l r).check
      ((binary m op l r).lookups generic) := by
  intro h
  simp only [Expr.ids, List.cons_subset, List.append_subset] at h
  obtain ⟨hm, hl, hr⟩ := h
  rw [Expr.check]
  exact needs_pair hm (ihl hl) (ihr hr) fun _ _ _ _ => steady_binaryType m.span op _ _

theorem Expr.needs_assign {l r : Expr}
    (ihl : NeedsAll generic ids l.ids l.check (l.lookups generic))
    (ihr : NeedsAll generic ids r.ids r.check (r.lookups generic)) :
    NeedsAll generic ids (assign m l r).ids (assign m l r).check ((assign m l r).lookups generic) := by
  intro h
  simp only [Expr.ids, List.cons_subset, List.append_subset] at h
  obtain ⟨hm, hl, hr⟩ := h
  rw [Expr.check_assign]
  exact needs_pair hm (ihl hl) (ihr hr) fun _ t _ u =>
    (steady_unifyAt _ t u).bind fun _ => steady_pure _

theorem Expr.needs_paren {e : Expr} (ih : NeedsAll generic ids e.ids e.check (e.lookups generic)) :
    NeedsAll generic ids (paren m e).ids (paren m e).check ((paren m e).lookups generic) := by
  intro h
  obtain ⟨hm, he⟩ := List.cons_subset.1 h
  rw [Expr.check]
  exact needs_node hm (ih he) fun _ t => steady_pure t

theorem Block.needs_mk {stmts : List Stmt} {tail : Option Expr}
    (ihstmts : ∀ n ∈ stmts, NeedsAll generic ids n.ids n.check (n.lookups generic))
    (ihtail : ∀ e, tail = some e → NeedsAll generic ids e.ids e.check (e.lookups generic)) :
    NeedsAll generic ids (mk m stmts tail).ids (mk m stmts tail).check
      ((mk m stmts tail).lookups generic) := by
  intro h
  simp only [Block.ids, List.cons_subset, List.append_subset, Stmt.idsAll_eq] at h
  obtain ⟨hm, hstmts, htail⟩ := h
  have hall (hasTail : Bool) : Walk.Needs generic ids (Stmt.checkAll hasTail stmts)
      (Reference.Resolve (Stmt.lookupsAll generic stmts)) :=
    needs_checkStmts hasTail fun n hn =>
      ihstmts n hn fun i hi => hstmts (List.mem_flatMap.2 ⟨n, hn, hi⟩)
  cases tail with
  | none =>
      rw [Block.check, Block.lookups, Expr.lookupsOption, List.append_nil]
      exact needs_node hm (hall false) fun _ _ => steady_pure _
  | some e =>
      rw [Block.check]
      exact needs_pair hm (hall true) (ihtail e rfl htail) fun _ _ _ t => steady_pure t

theorem Stmt.needs_bind {binding : NodeId} {name : String} {ty : Option TypeRef}
    {init : Option Expr}
    (ih : ∀ e, init = some e → NeedsAll generic ids e.ids e.check (e.lookups generic)) :
    NeedsAll generic ids (bind m binding name ty init).ids (bind m binding name ty init).check
      ((bind m binding name ty init).lookups generic) := by
  intro h
  simp only [Stmt.ids, List.cons_subset, List.append_subset] at h
  obtain ⟨hm, hbinding, hty, hinit⟩ := h
  have hread : Check.Needs generic ids (TypeRef.readOptional .body ty) fun _ =>
      Reference.Resolve (ty.toList.flatMap TypeRef.lookups) :=
    ⟨steady_readOptional hty, fun _ _ _ _ hok => TypeRef.resolve_of_readOptional hok⟩
  cases init with
  | none =>
      rw [Stmt.check, leaf_bind]
      exact needs_first hread fun annotated =>
        (steady_leaf (steady_bound hbinding hm annotated none)).needs fun hty =>
          hty.append Reference.resolve_nil
  | some e =>
      rw [Stmt.check]
      exact needs_first hread fun annotated => needs_child (ih e rfl hinit) fun _ _ =>
        (steady_leaf (steady_bound hbinding hm annotated _)).needs fun hinit hty => hty.append hinit

theorem Stmt.needs_expr {e : Expr} (ih : NeedsAll generic ids e.ids e.check (e.lookups generic)) :
    NeedsAll generic ids (expr m e).ids (expr m e).check ((expr m e).lookups generic) := by
  intro h
  obtain ⟨hm, he⟩ := List.cons_subset.1 h
  rw [Stmt.check]
  exact needs_node hm (ih he) fun _ t => steady_pure t

theorem Stmt.needs_semi {e : Expr} (ih : NeedsAll generic ids e.ids e.check (e.lookups generic)) :
    NeedsAll generic ids (semi m e).ids (semi m e).check ((semi m e).lookups generic) := by
  intro h
  obtain ⟨hm, he⟩ := List.cons_subset.1 h
  rw [Stmt.check]
  exact needs_node hm (ih he) fun _ _ => steady_pure .unit

theorem FieldInit.needs_named {name : String} {e : Expr}
    (ih : NeedsAll generic ids e.ids e.check (e.lookups generic)) :
    NeedsAll generic ids (named m name e).ids (named m name e).checkValue
      ((named m name e).lookups generic) :=
  fun h => needs_child (ih (List.cons_subset.1 h).2) fun _ _ => (steady_leaf (steady_pure _)).needs id

theorem FieldInit.needs_index {i : Nat} {e : Expr}
    (ih : NeedsAll generic ids e.ids e.check (e.lookups generic)) :
    NeedsAll generic ids (index m i e).ids (index m i e).checkValue
      ((index m i e).lookups generic) :=
  fun h => needs_child (ih (List.cons_subset.1 h).2) fun _ _ => (steady_leaf (steady_pure _)).needs id

theorem FieldInit.needs_short {name : String} {res : Option NodeId} :
    NeedsAll generic ids (short m name res).ids (short m name res).checkValue
      ((short m name res).lookups generic) := by
  intro h
  have hpath : (Path.ident name res).ids ⊆ ids := by simp [Path.ident, Path.ids, TypeRef.idsAll]
  rw [FieldInit.checkValue, leaf_bind]
  refine needs_first (needs_pathType m.span hpath) fun t => ?_
  refine (steady_leaf (steady_recorded (h List.mem_cons_self) t)).needs fun h => ?_
  exact List.forall_mem_singleton.2 (h _ List.mem_cons_self)

end

/-! ## Bodies -/

/-- The check of a node needs all references in it, by induction on programs. -/
theorem Walk.needs_check (generic : NodeId → Bool) (ids : List NodeId) :
    (∀ e : Expr, NeedsAll generic ids e.ids e.check (e.lookups generic)) ∧
      (∀ b : Block, NeedsAll generic ids b.ids b.check (b.lookups generic)) ∧
      (∀ n : Stmt, NeedsAll generic ids n.ids n.check (n.lookups generic)) ∧
      ∀ f : FieldInit, NeedsAll generic ids f.ids f.checkValue (f.lookups generic) := by
  apply Expr.induct
  case lit => exact fun _ _ => Expr.needs_lit
  case path => exact fun _ _ => Expr.needs_path
  case block => exact fun _ _ => Expr.needs_block
  case struct => exact fun _ _ _ _ _ => Expr.needs_struct
  case field => exact fun _ _ _ => Expr.needs_field
  case tupleIndex => exact fun _ _ _ => Expr.needs_tupleIndex
  case call => exact fun _ _ _ => Expr.needs_call
  case unary => exact fun _ _ _ => Expr.needs_unary
  case binary => exact fun _ _ _ _ => Expr.needs_binary
  case assign => exact fun _ _ _ => Expr.needs_assign
  case paren => exact fun _ _ => Expr.needs_paren
  case mk => exact fun _ _ _ => Block.needs_mk
  case bind => exact fun _ _ _ _ _ => Stmt.needs_bind
  case expr => exact fun _ _ => Stmt.needs_expr
  case semi => exact fun _ _ => Stmt.needs_semi
  case named => exact fun _ _ _ => FieldInit.needs_named
  case index => exact fun _ _ _ => FieldInit.needs_index
  case short => exact fun _ _ _ => FieldInit.needs_short

theorem Item.needs_check (generic : NodeId → Bool) {ids : List NodeId} {item : Item}
    (h : item.bodyIds ⊆ ids) :
    Walk.Needs generic ids item.check (Reference.Resolve (item.kind.bodyLookups generic)) := by
  have hsigned {x : Check Ty} (hx : Steady [] x) : Check.Needs generic ids x fun _ => True :=
    ⟨hx.mono (List.nil_subset ids), fun _ _ _ _ _ => trivial⟩
  unfold Item.check
  unfold Item.bodyIds at h
  cases hkind : item.kind with
  | struct decl => exact (Walk.steady_leaf (steady_pure ())).needs Reference.resolve_nil
  | fn decl =>
      rw [hkind] at h
      refine Walk.needs_first (hsigned (steady_returnType item.id)) fun ret => ?_
      refine Walk.needs_child ((Walk.needs_check generic ids).2.1 decl.body h) fun _ t => ?_
      exact (Walk.steady_leaf (steady_requireType _ ret t)).needs fun hbody _ => hbody
  | const decl =>
      rw [hkind] at h
      refine Walk.needs_first (hsigned (steady_constType item.id)) fun expected => ?_
      refine Walk.needs_child ((Walk.needs_check generic ids).1 decl.value h) fun _ t => ?_
      exact (Walk.steady_leaf (steady_requireType _ expected t)).needs fun hvalue _ => hvalue

/-- Where nothing is reported, the references in all bodies have been found resolved. -/
theorem Program.resolve_checkAll {generic : NodeId → Bool} {ids : List NodeId} {items : List Item}
    {s : Session} (hids : ∀ item ∈ items, item.bodyIds ⊆ ids) (hs : s.HasGeneric generic ids)
    (hended : (checkAll items s).2.1 = .ok ()) (herrors : (checkAll items s).2.2.sink.errors = []) :
    ∀ item ∈ items, Reference.Resolve (item.kind.bodyLookups generic) := by
  induction items generalizing s with
  | nil => simp
  | cons item rest ih =>
      rw [List.forall_mem_cons] at hids
      have hneeds := item.needs_check generic hids.1
      obtain ⟨hok, heq⟩ := checkAll_cons_of_errors hended herrors
      rw [heq] at hended herrors
      have hnil := (grows_checkAll rest _).errors_eq_nil herrors
      refine List.forall_mem_cons.2 ⟨hneeds.needs s hs hnil () hok, ?_⟩
      exact ih hids.2 (hs.after (hneeds.steady.grows s)) hended herrors

end TypeInference

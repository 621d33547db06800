import TypeInference.Ty.Rewrite

/-!
# Nodes of a type

A type is a head over its component types. The head and the components decide
it, up to what all struct types of one declaration share. Statements about a
whole type are statements about every node of it.
-/

namespace TypeInference

/-- What the struct types of one declaration share: everything but their types. -/
structure Shape where
  name : String
  kind : StructKind
  params : List Param
  fields : List (String × Nat)
  deriving DecidableEq, Repr

section

variable {σ τ : Type}

def Field.label (f : Field τ) : String × Nat := (f.name, f.index)

def Adt.shape (a : Adt τ) : Shape := ⟨a.name, a.kind, a.params, a.fields.map Field.label⟩

@[simp] theorem Field.label_map (f : σ → τ) (x : Field σ) : (x.map f).label = x.label := rfl

@[simp] theorem Adt.shape_map (f : σ → τ) (a : Adt σ) : (a.map f).shape = a.shape := by
  simp [Adt.shape, Adt.map, Field.map, Field.label, Function.comp_def]

theorem Adt.parts_map (f : σ → τ) (a : Adt σ) : (a.map f).parts = a.parts.map f := by
  obtain ⟨d, n, k, fs, ps, args⟩ := a
  cases args <;> simp [Adt.parts, Adt.map, Field.map, Function.comp_def]

theorem Field.eq_of_labels {fs gs : List (Field τ)} (hl : fs.map Field.label = gs.map Field.label)
    (ht : fs.map Field.ty = gs.map Field.ty) : fs = gs := by
  induction fs generalizing gs with
  | nil =>
      simpa using hl
  | cons f fs ih =>
      cases gs with
      | nil => simp at hl
      | cons g gs =>
          obtain ⟨n, t, i⟩ := f
          obtain ⟨m, u, j⟩ := g
          simp only [List.map_cons, List.cons.injEq, Field.label, Prod.mk.injEq] at hl ht
          obtain ⟨⟨rfl, rfl⟩, hl⟩ := hl
          obtain ⟨rfl, ht⟩ := ht
          rw [ih hl ht]

end

namespace Ty

/-- The root of a type, as far as unification compares it. -/
inductive Head where
  | error
  | infer (kind : VarKind) (var : VarId)
  | unit
  | prim (p : Prim)
  | param (p : Param)
  | fn (params : Nat)
  | adt (decl : NodeId) (fields : Nat) (args : Option Nat)
  deriving DecidableEq

def head : Ty → Head
  | .error => .error
  | .infer k v => .infer k v
  | .unit => .unit
  | .prim p => .prim p
  | .param p => .param p
  | .fn ps _ => .fn ps.length
  | .adt a => .adt a.decl a.fields.length (a.args.map List.length)

/-- The shape that a struct type repeats from its declaration. -/
def shape? : Ty → Option Shape
  | .adt a => some a.shape
  | _ => none

def parts : Ty → List Ty
  | .fn ps r => ps ++ [r]
  | .adt a => a.parts
  | _ => []

theorem ext_parts {t u : Ty} (hhead : t.head = u.head) (hshape : t.shape? = u.shape?)
    (hparts : t.parts = u.parts) : t = u := by
  cases t with
  | adt a =>
      cases u with
      | adt b =>
          obtain ⟨d, n, k, fs, ps, args⟩ := a
          obtain ⟨e, m, l, gs, qs, brgs⟩ := b
          simp only [head, Head.adt.injEq] at hhead
          simp only [shape?, Adt.shape, Option.some.injEq, Shape.mk.injEq] at hshape
          simp only [parts, Adt.parts] at hparts
          obtain ⟨rfl, hlen, hargs⟩ := hhead
          obtain ⟨rfl, rfl, rfl, hlabels⟩ := hshape
          obtain ⟨htys, hrest⟩ := List.append_inj hparts (by simpa using hlen)
          obtain rfl := Field.eq_of_labels hlabels htys
          cases args <;> cases brgs <;> simp_all
      | _ => simp [head] at hhead
  | fn ps r =>
      cases u with
      | fn qs s =>
          obtain ⟨rfl, hr⟩ := List.append_inj' hparts rfl
          simpa using hr
      | _ => simp [head] at hhead
  | _ => cases u <;> simp_all [head]

theorem isSettled_of_head {t u : Ty} (h : t.head = u.head) : t.isSettled = u.isSettled := by
  cases t <;> cases u <;> simp_all [head, isSettled]

theorem length_parts_of_head {t u : Ty} (h : t.head = u.head) :
    t.parts.length = u.parts.length := by
  cases t with
  | adt a =>
      cases u with
      | adt b =>
          obtain ⟨d, n, k, fs, ps, args⟩ := a
          obtain ⟨e, m, l, gs, qs, brgs⟩ := b
          cases args <;> cases brgs <;> simp_all [head, parts, Adt.parts]
      | _ => simp [head] at h
  | fn ps r => cases u <;> simp_all [head, parts]
  | _ => cases u <;> simp_all [head, parts]

theorem getElem?_of_head {t u p : Ty} {i : Nat} (h : t.head = u.head) (hp : t.parts[i]? = some p) :
    ∃ q, u.parts[i]? = some q := by
  have hi : i < u.parts.length := length_parts_of_head h ▸ (List.getElem?_eq_some_iff.1 hp).1
  exact ⟨u.parts[i], List.getElem?_eq_getElem hi⟩

@[elab_as_elim]
theorem parts_induct {motive : Ty → Prop}
    (step : ∀ t : Ty, (∀ p ∈ t.parts, motive p) → motive t) (t : Ty) : motive t := by
  induction t with
  | fn ps r ihp ihr =>
      refine step _ fun p hp => ?_
      rcases List.mem_append.1 hp with hp | hp
      · exact ihp p hp
      · simp_all
  | adt a ihf iha =>
      refine step _ fun p hp => ?_
      rcases List.mem_append.1 hp with hp | hp
      · obtain ⟨f, hf, rfl⟩ := List.mem_map.1 hp
        exact ihf f hf
      · cases hargs : a.args with
        | none => simp [hargs] at hp
        | some args => exact iha args hargs p (by simpa [hargs] using hp)
  | _ => exact step _ (by simp [parts])

/-! ## Nodes -/

mutual

def nodes : Ty → List Ty
  | .fn ps r => .fn ps r :: (nodesList ps ++ nodes r)
  | .adt ⟨d, n, k, fs, ps, none⟩ => .adt ⟨d, n, k, fs, ps, none⟩ :: nodesFields fs
  | .adt ⟨d, n, k, fs, ps, some xs⟩ =>
      .adt ⟨d, n, k, fs, ps, some xs⟩ :: (nodesFields fs ++ nodesList xs)
  | t => [t]

def nodesList : List Ty → List Ty
  | [] => []
  | t :: ts => nodes t ++ nodesList ts

def nodesFields : List (Field Ty) → List Ty
  | [] => []
  | ⟨_, t, _⟩ :: fs => nodes t ++ nodesFields fs

end

theorem nodesList_eq (ts : List Ty) : nodesList ts = ts.flatMap nodes := by
  induction ts with
  | nil => rfl
  | cons t ts ih => simp [nodesList, ih]

theorem nodesFields_eq (fs : List (Field Ty)) :
    nodesFields fs = (fs.map Field.ty).flatMap nodes := by
  induction fs with
  | nil => rfl
  | cons f fs ih => simp [nodesFields, ih]

theorem nodes_eq (t : Ty) : t.nodes = t :: t.parts.flatMap nodes := by
  cases t with
  | fn ps r => simp [nodes, parts, nodesList_eq]
  | adt a =>
      obtain ⟨d, n, k, fs, ps, args⟩ := a
      cases args <;> simp [nodes, parts, Adt.parts, nodesList_eq, nodesFields_eq]
  | _ => simp [nodes, parts]

theorem self_mem_nodes (t : Ty) : t ∈ t.nodes := by
  rw [nodes_eq]
  exact List.mem_cons_self

theorem mem_nodes_of_part {t p n : Ty} (hp : p ∈ t.parts) (hn : n ∈ p.nodes) : n ∈ t.nodes := by
  rw [nodes_eq]
  exact List.mem_cons_of_mem _ (List.mem_flatMap.2 ⟨p, hp, hn⟩)

/-- A node is the type itself or lies in a component. -/
theorem mem_nodes_iff {t n : Ty} : n ∈ t.nodes ↔ n = t ∨ ∃ p ∈ t.parts, n ∈ p.nodes := by
  rw [nodes_eq]
  simp

theorem length_nodes_lt_of_part {t p : Ty} (hp : p ∈ t.parts) :
    p.nodes.length < t.nodes.length := by
  have hsub : p.nodes.Sublist (t.parts.map nodes).flatten :=
    List.sublist_flatten_of_mem (List.mem_map_of_mem hp)
  rw [nodes_eq t, List.length_cons, List.flatMap_def]
  exact Nat.lt_succ_of_le hsub.length_le

theorem length_nodes_le {t n : Ty} (hn : n ∈ t.nodes) : n.nodes.length ≤ t.nodes.length := by
  induction t using parts_induct with
  | step t ih =>
      rcases mem_nodes_iff.1 hn with rfl | ⟨p, hp, hn⟩
      · exact Nat.le_refl _
      · exact Nat.le_of_lt (Nat.lt_of_le_of_lt (ih p hp hn) (length_nodes_lt_of_part hp))

def Every (P : Ty → Prop) (t : Ty) : Prop := ∀ n ∈ t.nodes, P n

instance (P : Ty → Prop) [DecidablePred P] (t : Ty) : Decidable (t.Every P) :=
  inferInstanceAs (Decidable (∀ n ∈ t.nodes, P n))

theorem every_iff {P : Ty → Prop} {t : Ty} :
    t.Every P ↔ P t ∧ ∀ p ∈ t.parts, p.Every P := by
  unfold Every
  rw [nodes_eq]
  simp only [List.forall_mem_cons, List.mem_flatMap]
  grind

theorem Every.root {P : Ty → Prop} {t : Ty} (h : t.Every P) : P t := (every_iff.1 h).1

theorem Every.part {P : Ty → Prop} {t p : Ty} (h : t.Every P) (hp : p ∈ t.parts) : p.Every P :=
  (every_iff.1 h).2 p hp

theorem Every.mono {P Q : Ty → Prop} {t : Ty} (h : t.Every P) (hPQ : ∀ n, P n → Q n) :
    t.Every Q := fun n hn => hPQ n (h n hn)

/-- A property of nodes that only their heads and their shapes decide. -/
def IsLocal (P : Ty → Prop) : Prop :=
  ∀ {t u : Ty}, t.head = u.head → t.shape? = u.shape? → P t → P u

theorem IsLocal.and {P Q : Ty → Prop} (hP : IsLocal P) (hQ : IsLocal Q) :
    IsLocal fun t => P t ∧ Q t :=
  fun hhead hshape h => ⟨hP hhead hshape h.1, hQ hhead hshape h.2⟩

/-! ## Leaves among the nodes -/

theorem infer_mem_nodes {k : VarKind} {v : VarId} {t : Ty} :
    .infer k v ∈ t.nodes ↔ .infer k v ∈ t.leaves := by
  induction t using parts_induct with
  | step t ih =>
      rw [nodes_eq]
      cases t with
      | fn ps r =>
          have ih' := fun p hp => ih p hp
          simp only [leaves_fn, parts] at ih' ⊢
          grind
      | adt a =>
          have ih' := fun p hp => ih p hp
          simp only [leaves_adt, parts] at ih' ⊢
          grind
      | _ => simp [leaves, parts]

theorem hasVar_iff {t : Ty} {v : VarId} :
    t.hasVar v = true ↔ ∃ k, .infer k v ∈ t.nodes := by
  simp only [hasVar, List.any_eq_true, infer_mem_nodes]
  constructor
  · rintro ⟨l, hl, hv⟩
    cases l with
    | infer k w =>
        have : v = w := by simpa [isVar] using hv
        exact ⟨k, this ▸ hl⟩
    | _ => simp [isVar] at hv
  · rintro ⟨k, hk⟩
    exact ⟨_, hk, by simp [isVar]⟩

/-- Leaves are not compound. -/
theorem parts_of_mem_leaves {t l : Ty} (h : l ∈ t.leaves) :
    (∀ ps r, l ≠ .fn ps r) ∧ ∀ a, l ≠ .adt a := by
  induction t with
  | fn ps r ihp ihr =>
      rw [leaves_fn, List.mem_append, List.mem_flatMap] at h
      rcases h with ⟨p, hp, h⟩ | h
      · exact ihp p hp h
      · exact ihr h
  | adt a ihf iha =>
      rw [leaves_adt, List.mem_flatMap] at h
      obtain ⟨p, hp, h⟩ := h
      rcases List.mem_append.1 hp with hp | hp
      · obtain ⟨f, hf, rfl⟩ := List.mem_map.1 hp
        exact ihf f hf h
      · cases hargs : a.args with
        | none => simp [hargs] at hp
        | some args => exact iha args hargs p (by simpa [hargs] using hp) h
  | _ =>
      obtain rfl := List.mem_singleton.1 h
      exact ⟨by simp, by simp⟩

theorem mem_nodes_of_mem_leaves {t l : Ty} (h : l ∈ t.leaves) : l ∈ t.nodes := by
  induction t with
  | fn ps r ihp ihr =>
      rw [leaves_fn, List.mem_append, List.mem_flatMap] at h
      rcases h with ⟨p, hp, h⟩ | h
      · exact mem_nodes_of_part (List.mem_append_left _ hp) (ihp p hp h)
      · exact mem_nodes_of_part (List.mem_append_right _ (List.mem_singleton_self r)) (ihr h)
  | adt a ihf iha =>
      rw [leaves_adt, List.mem_flatMap] at h
      obtain ⟨p, hp, h⟩ := h
      refine mem_nodes_of_part hp ?_
      rcases List.mem_append.1 hp with hp | hp
      · obtain ⟨f, hf, rfl⟩ := List.mem_map.1 hp
        exact ihf f hf h
      · cases hargs : a.args with
        | none => simp [hargs] at hp
        | some args => exact iha args hargs p (by simpa [hargs] using hp) h
  | _ =>
      obtain rfl := List.mem_singleton.1 h
      exact self_mem_nodes _

/-! ## Rewriting node by node -/

section

variable {var : VarKind → VarId → Ty} {param : Param → Ty}

/-- Neither a variable nor a parameter, so that rewriting keeps the head. -/
def IsFixed : Ty → Prop
  | .infer _ _ | .param _ => False
  | _ => True

theorem head_rewrite {t : Ty} (h : t.IsFixed) : (t.rewrite var param).head = t.head := by
  cases t with
  | infer k v => exact h.elim
  | param p => exact h.elim
  | fn ps r => simp [head]
  | adt a =>
      obtain ⟨d, n, k, fs, ps, args⟩ := a
      cases args <;> simp [head, Adt.map]
  | _ => rfl

theorem shape_rewrite {t : Ty} (h : t.IsFixed) : (t.rewrite var param).shape? = t.shape? := by
  cases t with
  | infer k v => exact h.elim
  | param p => exact h.elim
  | fn ps r => simp [shape?]
  | adt a => simp [shape?]
  | _ => rfl

theorem parts_rewrite {t : Ty} (h : t.IsFixed) :
    (t.rewrite var param).parts = t.parts.map (rewrite var param) := by
  cases t with
  | infer k v => exact h.elim
  | param p => exact h.elim
  | fn ps r => simp [parts]
  | adt a => simp [parts, Adt.parts_map]
  | _ => rfl

/-- Replacing variables only keeps the root of everything else. -/
theorem root_rewrite_param {t : Ty} (h : ∀ k v, t ≠ .infer k v) :
    (t.rewrite var .param).head = t.head ∧ (t.rewrite var .param).shape? = t.shape? ∧
      (t.rewrite var .param).parts = t.parts.map (rewrite var .param) := by
  cases t with
  | infer k v => exact (h k v rfl).elim
  | param p => exact ⟨rfl, rfl, rfl⟩
  | _ => exact ⟨head_rewrite trivial, shape_rewrite trivial, parts_rewrite trivial⟩

theorem rewrite_mem_nodes {t n : Ty} (hn : n ∈ t.nodes) :
    n.rewrite var param ∈ (t.rewrite var param).nodes := by
  induction t using parts_induct with
  | step t ih =>
      rcases mem_nodes_iff.1 hn with rfl | ⟨p, hp, hn⟩
      · exact self_mem_nodes _
      · have hfixed : t.IsFixed := by
          cases t <;> simp_all [parts, IsFixed]
        refine mem_nodes_of_part ?_ (ih p hp hn)
        rw [parts_rewrite hfixed]
        exact List.mem_map_of_mem hp

theorem every_rewrite {P : Ty → Prop} (hP : IsLocal P) {t : Ty}
    (hfixed : ∀ n ∈ t.nodes, n.IsFixed → P n)
    (hvar : ∀ k v, .infer k v ∈ t.nodes → (var k v).Every P)
    (hparam : ∀ p, .param p ∈ t.nodes → (param p).Every P) :
    (t.rewrite var param).Every P := by
  induction t using parts_induct with
  | step t ih =>
      have hroot : t.IsFixed → (t.rewrite var param).Every P := by
        intro hfix
        rw [every_iff, parts_rewrite hfix]
        refine ⟨hP (head_rewrite hfix).symm (shape_rewrite hfix).symm
          (hfixed t (self_mem_nodes t) hfix), ?_⟩
        intro q hq
        obtain ⟨p, hp, rfl⟩ := List.mem_map.1 hq
        exact ih p hp (fun n hn => hfixed n (mem_nodes_of_part hp hn))
          (fun k v h => hvar k v (mem_nodes_of_part hp h))
          fun r h => hparam r (mem_nodes_of_part hp h)
      cases t with
      | infer k v => exact hvar k v (self_mem_nodes _)
      | param p => exact hparam p (self_mem_nodes _)
      | _ => exact hroot trivial

theorem every_leaf {P : Ty → Prop} {t : Ty} (h : P t) (hparts : t.parts = []) : t.Every P :=
  every_iff.2 ⟨h, by simp [hparts]⟩

/-- Replacing variables by types whose nodes have the property keeps it. -/
theorem Every.rewrite_vars {P : Ty → Prop} (hP : IsLocal P) {t : Ty} (ht : t.Every P)
    (hvar : ∀ k v, .infer k v ∈ t.nodes → (var k v).Every P) :
    (t.rewrite var .param).Every P :=
  every_rewrite hP (fun n hn _ => ht n hn) hvar fun _ h => every_leaf (ht _ h) rfl

end

end Ty

end TypeInference

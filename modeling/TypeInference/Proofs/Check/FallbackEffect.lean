import TypeInference.Proofs.Check.Unreported
import TypeInference.Proofs.Context.Refinement

/-!
# What the fallback changes

The fallback visits the entries in ascending order and stops at the first whose
type is undetermined. The entries before it get their defaults, the others keep
what they resolve to. So every node is known either by its default or by its
former type, and a second run finds nothing left to change.
-/

namespace TypeInference

open Ty Check

/-- Whether an error or a general variable occurs in the type, at whatever depth. -/
def Ty.IsUndetermined (t : Ty) : Prop := .error ∈ t.nodes ∨ ∃ v, .infer .general v ∈ t.nodes

/-- Whether this is the first leaf that is undetermined. -/
def Ty.FirstUndetermined (t leaf : Ty) : Prop :=
  leaf.IsUndetermined ∧ ∃ before after, t.leaves = before ++ leaf :: after ∧
    ∀ l ∈ before, ¬l.IsUndetermined

/-- Whether the type that the node resolves to is undetermined. -/
def Session.IsUndetermined (s : Session) (id : NodeId) : Prop :=
  ∃ t, s.context.lookup id = some t ∧ t.IsUndetermined

/-! ## Undetermined types -/

namespace Ty

variable {t l : Ty}

theorem error_mem_nodes : .error ∈ t.nodes ↔ .error ∈ t.leaves := by
  induction t using parts_induct with
  | step t ih =>
      rw [nodes_eq]
      cases t with
      | fn ps r =>
          simp only [leaves_fn, parts] at ih ⊢
          grind
      | adt a =>
          simp only [leaves_adt, parts] at ih ⊢
          grind
      | _ => simp [leaves, parts]

theorem lacksDefault_iff_eq : l.lacksDefault ↔ l = .error ∨ ∃ v, l = .infer .general v := by
  cases l with
  | infer k v => cases k <;> simp [lacksDefault, isError, isGeneralVar]
  | _ => simp [lacksDefault, isError, isGeneralVar]

/-- Among leaves, the undetermined ones are those without a default. -/
theorem isUndetermined_iff_of_mem_leaves (hl : l ∈ t.leaves) :
    l.IsUndetermined ↔ l.lacksDefault := by
  obtain ⟨hfn, hadt⟩ := parts_of_mem_leaves hl
  rw [lacksDefault_iff_eq]
  cases l with
  | fn ps r => exact (hfn ps r rfl).elim
  | adt a => exact (hadt a rfl).elim
  | _ => simp [IsUndetermined, nodes, eq_comm]

theorem isUndetermined_iff : t.IsUndetermined ↔ t.firstUnresolved? ≠ none := by
  simp only [IsUndetermined, error_mem_nodes, infer_mem_nodes, firstUnresolved?, ne_eq,
    List.find?_eq_none, lacksDefault_iff_eq]
  grind

theorem withDefaults_of_concrete {defaults : Defaults} (h : t.isConcrete) :
    t.withDefaults defaults = t := by
  refine Eq.trans (rewrite_congr (fun k v hv => ?_) fun _ _ => rfl) (rewrite_id t)
  have hsettled := List.all_eq_true.1 h _ hv
  simp [isSettled] at hsettled

theorem firstUndetermined_of_eq_some {leaf : Ty} (h : t.firstUnresolved? = some leaf) :
    t.FirstUndetermined leaf ∧ leaf.lacksDefault := by
  obtain ⟨hlacks, before, after, hleaves, hbefore⟩ := List.find?_eq_some_iff_append.1 h
  have hmem {l : Ty} (hl : l ∈ before ++ leaf :: after) : l ∈ t.leaves := hleaves ▸ hl
  refine ⟨⟨(isUndetermined_iff_of_mem_leaves (hmem (by simp))).2 hlacks, before, after, hleaves,
    fun l hl => ?_⟩, hlacks⟩
  rw [isUndetermined_iff_of_mem_leaves (hmem (List.mem_append_left _ hl))]
  simpa using hbefore l hl

end Ty

/-! ## One run -/

mutual

/-- The type with `i32` for every integral and `f32` for every float variable. -/
def Ty.defaulted : Ty → Ty
  | .infer .integral _ => .prim .i32
  | .infer .float _ => .prim .f32
  | .fn ps r => .fn (defaultedList ps) r.defaulted
  | .adt ⟨d, n, k, fs, ps, none⟩ => .adt ⟨d, n, k, defaultedFields fs, ps, none⟩
  | .adt ⟨d, n, k, fs, ps, some xs⟩ =>
      .adt ⟨d, n, k, defaultedFields fs, ps, some (defaultedList xs)⟩
  | t => t

def Ty.defaultedList : List Ty → List Ty
  | [] => []
  | t :: ts => t.defaulted :: defaultedList ts

def Ty.defaultedFields : List (Field Ty) → List (Field Ty)
  | [] => []
  | ⟨n, t, i⟩ :: fs => ⟨n, t.defaulted, i⟩ :: defaultedFields fs

end

theorem Ty.defaultedList_eq {ts : List Ty} (h : ∀ t ∈ ts, t.withDefaults .prims = t.defaulted) :
    ts.map (withDefaults .prims) = defaultedList ts := by
  induction ts with
  | nil => rfl
  | cons t ts ih =>
      rw [List.forall_mem_cons] at h
      rw [List.map_cons, h.1, ih h.2, defaultedList]

theorem Ty.defaultedFields_eq {fs : List (Field Ty)}
    (h : ∀ f ∈ fs, f.ty.withDefaults .prims = f.ty.defaulted) :
    fs.map (Field.map (withDefaults .prims)) = defaultedFields fs := by
  induction fs with
  | nil => rfl
  | cons f fs ih =>
      rw [List.forall_mem_cons] at h
      rw [List.map_cons, Field.map, h.1, ih h.2, defaultedFields]

/-- These are the defaults that the fallback gives. -/
theorem Ty.withDefaults_prims (t : Ty) : t.withDefaults .prims = t.defaulted := by
  induction t with
  | error | unit | prim p | param p => rfl
  | infer k v => cases k <;> rfl
  | fn ps r ihp ihr => rw [withDefaults_fn, defaultedList_eq ihp, ihr, defaulted]
  | adt a ihf iha =>
      rw [withDefaults_adt, Adt.map, defaultedFields_eq ihf]
      obtain ⟨d, n, k, fs, ps, _ | xs⟩ := a
      · rfl
      · rw [Option.map_some, defaultedList_eq (iha xs rfl), defaulted]

/-- Entries that all have defaults get them, whatever comes after them. -/
theorem sweepRows_append (resolve : Ty → Ty) {before : List (NodeId × Ty)}
    (h : ∀ row ∈ before, (resolve row.2).firstUnresolved? = none) (rest : List (NodeId × Ty)) :
    let visit := fun p id ty => defaultEntry .prims p id (resolve ty)
    NodeTypes.sweepRows visit none (before ++ rest) =
      ((NodeTypes.sweepRows visit none rest).1,
        before.map (fun row => (row.1, (resolve row.2).defaulted)) ++
          (NodeTypes.sweepRows visit none rest).2) := by
  intro visit
  induction before with
  | nil => rfl
  | cons row before ih =>
      obtain ⟨id, t⟩ := row
      rw [List.forall_mem_cons] at h
      have hvisit : visit none id t = ⟨none, (resolve t).defaulted, false⟩ :=
        withDefaults_prims (resolve t) ▸ defaultEntry_of_none h.1 none id
      simp [NodeTypes.sweepRows, hvisit, ih h.2]

variable {s : Session}

/-- A sweep changes only the entries. -/
theorem Context.eq_of_sweep {σ : Type} {visit : σ → NodeId → Ty → Visit σ} {r r' : σ}
    {c c' : Context} (h : c.sweep visit r = (r', c')) : c' = { c with types := c'.types } := by
  cases h
  rfl

/-- How the fallback ends: every entry gets its default, or the entries before an undetermined one
do, which itself is replaced by what it resolves to. -/
theorem applyDefaults_cases (hs : s.context.builtins = Prim.all) :
    ∃ types : NodeTypes,
      ((∀ row ∈ s.context.types.rows, (s.context.resolve row.2).firstUnresolved? = none) ∧
        types.rows = s.context.types.rows.map
          (fun row => (row.1, (s.context.resolve row.2).defaulted)) ∧
        applyDefaults.perform s = (.ok (), { s with context := { s.context with types } })) ∨
      ∃ before k t after leaf, s.context.types.rows = before ++ (k, t) :: after ∧
        (∀ row ∈ before, (s.context.resolve row.2).firstUnresolved? = none) ∧
        (s.context.resolve t).firstUnresolved? = some leaf ∧
        types.rows = before.map (fun row => (row.1, (s.context.resolve row.2).defaulted)) ++
          (k, s.context.resolve t) :: after ∧
        applyDefaults.perform s =
          perform (giveUpAll (unresolvedCause k leaf.obstacle) ((s.locations.find? k).getD .origin))
            { s with context := { s.context with types } } := by
  have hperform := perform_applyDefaults hs
  have hrows : (s.context.sweep (defaultEntry .prims) none).2.types.rows =
      (NodeTypes.sweepRows (fun p id ty => defaultEntry .prims p id
        (s.context.resolve ty)) none s.context.types.rows).2 := rfl
  rcases hsweep : s.context.sweep (defaultEntry .prims) none with
    ⟨_ | ⟨k, reason⟩, c⟩
  · obtain ⟨hdefaults, hall⟩ := sweepRows_defaultEntry s.context.resolve
      s.context.types.rows (congrArg Prod.fst hsweep)
    simp only [withDefaults_prims] at hdefaults
    have hc := Context.eq_of_sweep hsweep
    rw [hsweep, hdefaults] at hrows
    rw [hsweep] at hperform
    refine ⟨c.types, .inl ⟨hall, hrows, hperform.trans ?_⟩⟩
    rw [← hc]
  · obtain ⟨before, t, after, leaf, hsplit, hleaf, rfl, hbefore⟩ :=
      sweepRows_defaultEntry_of_some s.context.resolve (congrArg Prod.fst hsweep)
    have hc := Context.eq_of_sweep hsweep
    rw [hsweep, hsplit, sweepRows_append s.context.resolve hbefore] at hrows
    rw [hsweep] at hperform
    refine ⟨c.types, .inr ⟨before, k, t, after, leaf, hsplit, hbefore, hleaf, hrows.trans ?_,
      hperform.trans ?_⟩⟩
    · simp [NodeTypes.sweepRows, defaultEntry_of_some hleaf]
    · rw [← hc]

/-- What the nodes are known by once the entries are replaced. -/
theorem Context.lookup_of_rows {c : Context} {types : NodeTypes} {id : NodeId} {f : Ty → Ty}
    (hids : types.rows.map Prod.fst = c.types.rows.map Prod.fst)
    (h : ∀ t, (id, t) ∈ c.types.rows →
      ∃ u, (id, u) ∈ types.rows ∧ c.resolve u = f (c.resolve t)) :
    ({ c with types } : Context).lookup id = (c.lookup id).map f := by
  cases ht : c.types.find? id with
  | some t =>
      obtain ⟨u, hu, hresolve⟩ := h t (NodeTypes.mem_of_find? ht)
      have hfind : types.find? id = some u := NodeTypes.find?_of_mem hu
      rw [lookup, lookup, ht, hfind]
      exact congrArg some hresolve
  | none =>
      have hmem : id ∉ types.rows.map Prod.fst := by
        rw [hids, List.mem_map]
        rintro ⟨row, hrow, rfl⟩
        rw [NodeTypes.find?_of_mem hrow] at ht
        cases ht
      have hfind : types.find? id = none := by
        refine Option.eq_none_iff_forall_ne_some.2 fun u hu => hmem ?_
        exact List.mem_map_of_mem (NodeTypes.mem_of_find? hu)
      rw [lookup, lookup, ht, hfind]
      rfl

theorem resolve_defaulted {t : Ty} (ht : (s.context.resolve t).firstUnresolved? = none) :
    s.context.resolve (s.context.resolve t).defaulted = (s.context.resolve t).defaulted := by
  rw [← withDefaults_prims]
  exact resolve_of_concrete (isConcrete_withDefaults ht) _

/-- No entry is undetermined exactly if no node is. -/
theorem not_isUndetermined_of_rows
    (h : ∀ row ∈ s.context.types.rows, (s.context.resolve row.2).firstUnresolved? = none)
    (id : NodeId) : ¬s.IsUndetermined id := by
  rintro ⟨t, ht, hundetermined⟩
  obtain ⟨u, hu, rfl⟩ := Option.map_eq_some_iff.1 ht
  exact isUndetermined_iff.1 hundetermined (h _ (NodeTypes.mem_of_find? hu))

section

variable {before after : List (NodeId × Ty)} {k : NodeId} {t : Ty}

/-- The entries before and after a given one belong to lesser and to greater nodes. -/
theorem NodeTypes.lt_of_split {m : NodeTypes} (hsplit : m.rows = before ++ (k, t) :: after) :
    (∀ row ∈ before, row.1 < k) ∧ ∀ row ∈ after, k < row.1 := by
  have hascending := m.ascending
  rw [hsplit, List.pairwise_append, List.pairwise_cons] at hascending
  exact ⟨fun row hrow => hascending.2.2 row hrow _ List.mem_cons_self, hascending.2.1.1⟩

variable (hsplit : s.context.types.rows = before ++ (k, t) :: after)

include hsplit

theorem lookup_of_split : s.context.lookup k = some (s.context.resolve t) := by
  have hrow : (k, t) ∈ s.context.types.rows := hsplit ▸ by simp
  rw [Context.lookup, NodeTypes.find?_of_mem hrow, Option.map_some]

/-- The first undetermined entry is that of the least undetermined node. -/
theorem isLeast_of_split
    (hbefore : ∀ row ∈ before, (s.context.resolve row.2).firstUnresolved? = none)
    (ht : (s.context.resolve t).firstUnresolved? ≠ none) :
    IsLeast {id | s.IsUndetermined id} k := by
  refine ⟨⟨_, lookup_of_split hsplit, isUndetermined_iff.2 ht⟩, ?_⟩
  rintro i ⟨u, hu, hundetermined⟩
  obtain ⟨u', hu', rfl⟩ := Option.map_eq_some_iff.1 hu
  have hi := NodeTypes.mem_of_find? hu'
  rw [hsplit, List.mem_append, List.mem_cons] at hi
  rcases hi with hi | hi | hi
  · exact (isUndetermined_iff.1 hundetermined (hbefore _ hi)).elim
  · exact Nat.le_of_eq (congrArg Prod.fst hi).symm
  · exact Nat.le_of_lt ((NodeTypes.lt_of_split hsplit).2 _ hi)

/-- The entries before the first undetermined one get their defaults, the others are known as
before. -/
theorem lookup_of_stopped (htidy : s.context.bindings.Tidy) {types : NodeTypes}
    (hbefore : ∀ row ∈ before, (s.context.resolve row.2).firstUnresolved? = none)
    (hrows : types.rows = before.map (fun row => (row.1, (s.context.resolve row.2).defaulted)) ++
      (k, s.context.resolve t) :: after) (id : NodeId) :
    ({ s.context with types } : Context).lookup id =
      (s.context.lookup id).map fun u => if id < k then u.defaulted else u := by
  obtain ⟨hlt, hgt⟩ := NodeTypes.lt_of_split hsplit
  refine Context.lookup_of_rows (by simp [hrows, hsplit]) fun u hu => ?_
  rw [hsplit, List.mem_append, List.mem_cons] at hu
  rw [hrows]
  rcases hu with hu | hu | hu
  · rw [if_pos (hlt _ hu)]
    exact ⟨_, List.mem_append_left _ (List.mem_map_of_mem hu), resolve_defaulted (hbefore _ hu)⟩
  · obtain ⟨rfl, rfl⟩ := Prod.mk.inj hu
    rw [if_neg (Nat.lt_irrefl _)]
    exact ⟨s.context.resolve u, by simp, htidy.resolve_resolve u⟩
  · rw [if_neg (Nat.lt_asymm (hgt _ hu))]
    exact ⟨u, by simp [hu], rfl⟩

end

/-- What one run of the fallback does. It blames the least undetermined node, if there is one. -/
theorem applyDefaults_spec (hs : s.context.builtins = Prim.all) (htidy : s.context.bindings.Tidy) :
    let run := applyDefaults.perform s
    (run.2.context.builtins = s.context.builtins ∧ run.2.context.bindings = s.context.bindings) ∧
      ((∀ id, ¬s.IsUndetermined id) ∧ run.1 = .ok () ∧ run.2.sink = s.sink ∧
          (∀ id, run.2.context.lookup id = (s.context.lookup id).map defaulted) ∨
        ∃ k t leaf, IsLeast {id | s.IsUndetermined id} k ∧ s.context.lookup k = some t ∧
          t.FirstUndetermined leaf ∧ leaf.lacksDefault ∧
          (let e : TypeError := ⟨unresolvedCause k leaf.obstacle, (s.locations.find? k).getD .origin⟩
          run.1 = .error (s.sink.fatal e).1 ∧ run.2.sink = (s.sink.fatal e).2) ∧
          ∀ id, run.2.context.lookup id =
            (s.context.lookup id).map fun u => if id < k then u.defaulted else u) := by
  intro run
  obtain ⟨types, ⟨hall, hrows, hrun⟩ | ⟨before, k, t, after, leaf, hsplit, hbefore, hleaf, hrows,
    hrun⟩⟩ := applyDefaults_cases hs
  · rw [show run = _ from hrun]
    refine ⟨⟨rfl, rfl⟩, .inl ⟨not_isUndetermined_of_rows hall, rfl, rfl, fun id => ?_⟩⟩
    refine Context.lookup_of_rows (by simp [hrows]) fun t ht =>
      ⟨_, ?_, resolve_defaulted (hall _ ht)⟩
    rw [hrows]
    exact List.mem_map_of_mem ht
  · rw [perform_giveUpAll] at hrun
    rw [show run = _ from hrun]
    obtain ⟨hfirst, hlacks⟩ := firstUndetermined_of_eq_some hleaf
    exact ⟨⟨rfl, rfl⟩, .inr ⟨k, _, leaf, isLeast_of_split hsplit hbefore (by simp [hleaf]),
      lookup_of_split hsplit, hfirst, hlacks, ⟨rfl, rfl⟩,
      lookup_of_stopped hsplit htidy hbefore hrows⟩⟩

/-! ## A second run -/

theorem Ty.defaulted_defaulted {t : Ty} (h : ¬t.IsUndetermined) :
    t.defaulted.defaulted = t.defaulted := by
  rw [← withDefaults_prims, ← withDefaults_prims]
  exact withDefaults_of_concrete (isConcrete_withDefaults (not_not.1 (mt isUndetermined_iff.2 h)))

/-- Where the nodes up to the first undetermined one are known by their defaults, the fallback
changes nothing that is known of a node. -/
theorem lookup_applyDefaults_of_defaulted (hs : s.context.builtins = Prim.all)
    (htidy : s.context.bindings.Tidy)
    (h : ∀ id, (∀ i ≤ id, ¬s.IsUndetermined i) →
      (s.context.lookup id).map defaulted = s.context.lookup id) (id : NodeId) :
    (applyDefaults.perform s).2.context.lookup id = s.context.lookup id := by
  obtain ⟨-, ⟨hnone, -, -, hlookup⟩ | ⟨k, -, -, hleast, -, -, -, -, hlookup⟩⟩ :=
    applyDefaults_spec hs htidy
  · exact (hlookup id).trans (h id fun i _ => hnone i)
  · rw [hlookup]
    by_cases hid : id < k
    · simp only [hid, if_true]
      exact h id fun i hi hundetermined =>
        Nat.not_lt.2 (hleast.2 hundetermined) (Nat.lt_of_le_of_lt hi hid)
    · simp [hid]

/-- A second run changes nothing that is known of a node. -/
theorem lookup_applyDefaults_twice (hs : s.context.builtins = Prim.all)
    (htidy : s.context.bindings.Tidy) (id : NodeId) :
    let first := (applyDefaults.perform s).2
    (applyDefaults.perform first).2.context.lookup id = first.context.lookup id := by
  intro first
  obtain ⟨⟨hbuiltins, hbindings⟩, hcases⟩ := applyDefaults_spec hs htidy
  have hfixed {i : NodeId} (hlookup : first.context.lookup i = (s.context.lookup i).map defaulted)
      (hi : ¬s.IsUndetermined i) :
      (first.context.lookup i).map defaulted = first.context.lookup i := by
    rw [hlookup, Option.map_map]
    exact Option.map_congr fun t ht => defaulted_defaulted fun hundetermined =>
      hi ⟨t, ht, hundetermined⟩
  refine lookup_applyDefaults_of_defaulted (hbuiltins.trans hs)
    (show first.context.bindings.Tidy from hbindings ▸ htidy) (fun i hi => ?_) id
  rcases hcases with ⟨hnone, -, -, hlookup⟩ | ⟨k, t, -, hleast, hk, -, -, -, hlookup⟩
  · exact hfixed (hlookup i) (hnone i)
  · -- the node that the first run stopped at is as undetermined as before
    have hlt : i < k := by
      refine Nat.not_le.1 fun hle => hi k hle ?_
      obtain ⟨u, hu, hundetermined⟩ := hleast.1
      refine ⟨u, ?_, hundetermined⟩
      rw [hlookup, hu]
      simp
    refine hfixed ?_ fun hundetermined => Nat.not_lt.2 (hleast.2 hundetermined) hlt
    rw [hlookup]
    simp [hlt]

/--
The fallback in any context with the primitive types, reporting to a sink that
stops at fatal errors. If no node is undetermined, it reports nothing and gives
every node the default of its type. Otherwise it reports one fatal error, at the
location of the least undetermined node, for the first undetermined leaf of its
type; the lesser nodes get their defaults, and the others are known as before.
A second run changes nothing that is known of a node.
-/
theorem applyDefaults_effect (types : NodeTypes) (actions : List Context.Action)
    (locations : Locations) (errors : List TypeError) (hasFatal : Bool) :
    let s : Session := ⟨(⟨types, Prim.all, .empty⟩ : Context).after actions, locations,
      ⟨.strict, errors, hasFatal⟩⟩
    let first := applyDefaults.perform s
    let second := applyDefaults.perform first.2
    ((∀ id, ¬s.IsUndetermined id) ∧ first.1 = .ok () ∧ first.2.sink = s.sink ∧
        (∀ id, first.2.context.lookup id = (s.context.lookup id).map defaulted) ∨
      ∃ k t leaf cause, IsLeast {id | s.IsUndetermined id} k ∧ s.context.lookup k = some t ∧
        t.FirstUndetermined leaf ∧
        (leaf = .error ∧ cause = .resolutionFailure k ∨
          (∃ v, leaf = .infer .general v) ∧ cause = .ambiguousType k) ∧
        first.1 = .error .program ∧
        first.2.sink =
          ⟨.strict, errors ++ [⟨cause, (locations.find? k).getD .origin⟩], true⟩ ∧
        (∀ id < k, first.2.context.lookup id = (s.context.lookup id).map defaulted) ∧
        ∀ id ≥ k, first.2.context.lookup id = s.context.lookup id) ∧
      ∀ id, second.2.context.lookup id = first.2.context.lookup id := by
  intro s first second
  have hs : s.context.builtins = Prim.all := Context.builtins_after actions
  have htidy : s.context.bindings.Tidy := (Context.refines_after actions Bindings.tidy_empty).tidy
  refine ⟨?_, lookup_applyDefaults_twice hs htidy⟩
  obtain ⟨-, hdone | ⟨k, t, leaf, hleast, hk, hfirst, hlacks, ⟨hended, hsink⟩, hlookup⟩⟩ :=
    applyDefaults_spec hs htidy
  · exact .inl hdone
  · refine .inr ⟨k, t, leaf, _, hleast, hk, hfirst, ?_, hended, hsink, fun id hid => ?_,
      fun id hid => ?_⟩
    · rcases lacksDefault_iff_eq.1 hlacks with rfl | ⟨v, rfl⟩
      · exact .inl ⟨rfl, rfl⟩
      · exact .inr ⟨⟨v, rfl⟩, rfl⟩
    · rw [hlookup]
      simp [hid]
    · rw [hlookup]
      simp [Nat.not_lt.2 hid]

end TypeInference

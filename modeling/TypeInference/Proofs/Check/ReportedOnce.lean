import TypeInference.Proofs.Check.Failures

/-!
# Defects are reported once

The declarations of a run report one error each at most. An item that is left
without a type has been reported, or it mentions a struct that has been, and no
item is reported twice, however many others mention it.
-/

namespace TypeInference

open Declare

/-! ## What is mentioned -/

/-- Whether the second item is the first one, or a struct that its signature mentions. -/
def Item.Involves (p : Program) (item w : Item) : Prop := w = item ∨ item.Mentions p w.id

theorem Item.Mentions.trans {p : Program} {item : Item} {z y : NodeId} (h : item.Mentions p z)
    (h' : p.Mentions z y) : item.Mentions p y := by
  obtain ⟨t, ht, x, hx, hz⟩ := h
  exact ⟨t, ht, x, hx, Relation.ReflTransGen.trans h' hz⟩

theorem Declaring.Fails.subset_failed {p : Program} {mentions : NodeId → Prop}
    {own : TypeError → Prop} {d d' : Declaring} (h : d.Fails p mentions own d') :
    d.failed ⊆ d'.failed := by
  cases h with
  | own _ _ failed => exact failed ▸ List.Subset.refl _
  | through _ _ _ kept => exact kept

namespace Program

variable {p : Program} {items : List Item} {start : Declaring} {n : Nat} {item w : Item}

theorem item_eq_of_id_eq (hnodup : p.signatureIds.Nodup) (hitem : item ∈ p.items) (hw : w ∈ p.items)
    (h : w.id = item.id) : w = item :=
  eq_of_mem_signatureIds hnodup hw hitem List.mem_cons_self (h ▸ List.mem_cons_self)

/-- No item is declared twice in a run. -/
theorem index_unique (hdistinct : items.Nodup) {m : Nat} (hn : items[n]? = some item)
    (hm : items[m]? = some item) : n = m :=
  (List.getElem?_inj (List.getElem?_eq_some_iff.1 hn).1 hdistinct).1 (hn.trans hm.symm)

/-- An item that mentions a failed struct involves what the struct mentions. -/
theorem involves_of_mentions (hnodup : p.signatureIds.Nodup) (hitem : item ∈ p.items) {z : NodeId}
    (hz : z = item.id ∨ item.Mentions p z) (hsome : (p.struct? z).isSome) (hw : w ∈ p.items)
    (hmentions : p.Mentions z w.id) : item.Involves p w := by
  rcases hz with rfl | hz
  · obtain ⟨⟨item', decl⟩, hstruct⟩ := Option.isSome_iff_exists.1 hsome
    obtain ⟨hitem', -, hid⟩ := mem_of_struct? hstruct
    obtain rfl := item_eq_of_id_eq hnodup hitem hitem' hid
    exact ((mentions_iff hstruct w.id).1 hmentions).imp_left (item_eq_of_id_eq hnodup hitem hw)
  · exact .inr (hz.trans hmentions)

/-! ## Runs -/

/-- What the first declarations of a run leave. -/
def declared (p : Program) (items : List Item) (start : Declaring) (n : Nat) : Declaring :=
  (p.declareAll (items.take n) start).2

theorem declared_succ (hget : items[n]? = some item) :
    p.declared items start (n + 1) = ((p.declare item).perform (p.declared items start n)).2 := by
  rw [declared, declared, List.take_add_one, hget, declareAll_eq_foldl, declareAll_eq_foldl,
    List.foldl_append]
  rfl

theorem declared_of_length_le (hle : items.length ≤ n) :
    p.declared items start (n + 1) = p.declared items start n := by
  rw [declared, declared, List.take_of_length_le hle,
    List.take_of_length_le (Nat.le_succ_of_le hle)]

theorem grows_declared (hitems : ∀ w ∈ items, w ∈ p.items) (start : Declaring) {m : Nat}
    (hle : n ≤ m) :
    (p.declared items start n).session.Grows p.signatureIds (p.declared items start m).session := by
  induction hle with
  | refl => exact .refl _ _
  | @step m _ ih =>
      cases hget : items[m]? with
      | none => rwa [declared_of_length_le (List.getElem?_eq_none_iff.1 hget)]
      | some w =>
          rw [declared_succ hget]
          exact ih.trans ((steady_declare (hitems w (List.mem_of_getElem? hget))).grows _)

/-- Whether the declaration at this position in a run reports an error, and one only, which is about
the item: the one that is declared, or a struct that fails with it. -/
def Blames (p : Program) (items : List Item) (start : Declaring) (n : Nat) (w : Item) : Prop :=
  let d := p.declared items start n
  let d' := p.declared items start (n + 1)
  ∃ e, d.session.Reports d'.session [e] ∧ w.Causes e ∧
    ((∀ decl, w.kind ≠ .struct decl) ∧ items[n]? = some w ∨
      (∃ decl, p.struct? w.id = some (w, decl)) ∧ w.id ∉ d.failed ∧ w.id ∈ d'.failed)

/-- Whether an earlier declaration of a run has reported the struct or one that it mentions. -/
def BlamedBefore (p : Program) (items : List Item) (start : Declaring) (n : Nat) (z : NodeId) :
    Prop :=
  ∃ m < n, ∃ w decl, p.struct? w.id = some (w, decl) ∧ p.Mentions z w.id ∧ p.Blames items start m w

/-- What holds between the declarations of a run: items other than structs have no types before
they are declared, and whatever made a struct fail has been reported. -/
structure Accounted (p : Program) (items : List Item) (start : Declaring) (n : Nat) : Prop where
  unknown : (p.declared items start n).Unknown p []
  complete : (p.declared items start n).session.Complete p.struct?
  pending : ∀ m w, n ≤ m → items[m]? = some w → (∀ decl, w.kind ≠ .struct decl) →
    (p.declared items start n).session.context.contains w.id = false
  blamed : ∀ z ∈ (p.declared items start n).failed, p.BlamedBefore items start n z

theorem BlamedBefore.mono {m : Nat} {z : NodeId} (h : p.BlamedBefore items start n z)
    (hle : n ≤ m) : p.BlamedBefore items start m z := by
  obtain ⟨k, hk, h⟩ := h
  exact ⟨k, Nat.lt_of_lt_of_le hk hle, h⟩

theorem BlamedBefore.of_mentions {y z : NodeId} (h : p.BlamedBefore items start n z)
    (hy : p.Mentions y z) : p.BlamedBefore items start n y := by
  obtain ⟨m, hm, w, decl, hstruct, hz, hblames⟩ := h
  exact ⟨m, hm, w, decl, hstruct, Relation.ReflTransGen.trans hz hy, hblames⟩

theorem accounted_zero (p : Program) (items : List Item) (locations : Locations) (sink : Sink) :
    p.Accounted items (.start (.start locations sink)) 0 where
  unknown := ⟨by simp [declared, declareAll, Declaring.start], by simp⟩
  complete := fun _ _ _ _ h => by cases h
  pending := fun _ _ _ _ _ => rfl
  blamed := by simp [declared, declareAll, Declaring.start]

/-- What fails has a cause that has been reported, now or before. -/
theorem Accounted.blamed_of_fails (h : p.Accounted items start n) {mentions : NodeId → Prop}
    {own : TypeError → Prop}
    (hfails : (p.declared items start n).Fails p mentions own (p.declared items start (n + 1))) :
    ∀ y ∈ (p.declared items start (n + 1)).failed, p.BlamedBefore items start (n + 1) y := by
  cases hfails with
  | own e reports failed hown =>
      intro y hy
      exact (h.blamed y (failed ▸ hy)).mono (Nat.le_succ n)
  | through z mentioned mem kept new cause =>
      have hz : p.BlamedBefore items start (n + 1) z := by
        rcases cause with ⟨hz, -⟩ | ⟨hz, e, w, decl, hreports, hstruct, hcauses⟩
        · exact (h.blamed z hz).mono (Nat.le_succ n)
        · obtain ⟨-, -, rfl⟩ := mem_of_struct? hstruct
          exact ⟨n, Nat.lt_succ_self n, w, decl, hstruct, .refl, e, hreports, hcauses,
            .inr ⟨⟨decl, hstruct⟩, hz, mem⟩⟩
      intro y hy
      rcases new y hy with hy | hy
      · exact (h.blamed y hy).mono (Nat.le_succ n)
      · exact hz.of_mentions hy

section

variable (hnodup : p.signatureIds.Nodup) (hitems : ∀ w ∈ items, w ∈ p.items)
include hnodup hitems

namespace Accounted

theorem settles (h : p.Accounted items start n) (hget : items[n]? = some item) :
    (p.declare item).Settles p [] item (p.declared items start n) :=
  settles_declare hnodup (by simp) (hitems item (List.mem_of_getElem? hget)) (by simp) h.unknown
    (h.pending n item (Nat.le_refl n) hget)

/-- An item that is no struct has no type before its own declaration has succeeded. -/
theorem contains_eq_false (h : p.Accounted items start n) (hget : items[n]? = some item)
    (hw : w ∈ p.items) (hkind : ∀ decl, w.kind ≠ .struct decl) (hne : item ≠ w)
    (hnone : (p.declared items start n).session.context.contains w.id = false) :
    (p.declared items start (n + 1)).session.context.contains w.id = false := by
  have hitem := hitems item (List.mem_of_getElem? hget)
  have hblocked : (p.declared items start n).Unknown p [w.id] :=
    ⟨h.unknown.failed, by simpa using ⟨⟨w, hw, rfl⟩, hnone⟩⟩
  have hsettles := settles_declare hnodup
    (by simpa using struct?_eq_none_of_kind hnodup hw hkind) hitem
    (by simpa using fun heq => hne (item_eq_of_id_eq hnodup hw hitem heq)) hblocked
    (h.pending n item (Nat.le_refl n) hget)
  rw [declared_succ hget]
  rcases hsettles with ⟨d', hrun, hd', -⟩ | ⟨d', hrun, hd', -⟩
  · rw [hrun]
    exact (hd'.blocked w.id (List.mem_singleton_self _)).2
  · rw [hrun]
    exact (hd'.blocked w.id (List.mem_singleton_self _)).2

theorem succ (h : p.Accounted items start n) (hdistinct : items.Nodup)
    (hget : items[n]? = some item) : p.Accounted items start (n + 1) := by
  have hitem := hitems item (List.mem_of_getElem? hget)
  have hsettles := h.settles hnodup hitems hget
  constructor
  case unknown =>
    rw [declared_succ hget]
    rcases hsettles with ⟨d', hrun, hd', -⟩ | ⟨d', hrun, hd', -⟩ <;> rwa [hrun]
  case complete =>
    rw [declared_succ hget]
    exact completes_declare hnodup hitem _ h.complete
  case pending =>
    intro m w hle hm hkind
    refine h.contains_eq_false hnodup hitems hget (hitems w (List.mem_of_getElem? hm)) hkind ?_
      (h.pending m w (Nat.le_of_succ_le hle) hm hkind)
    rintro rfl
    exact Nat.ne_of_lt hle (index_unique hdistinct hget hm)
  case blamed =>
    rcases hsettles with ⟨d', hrun, -, hfailed, -⟩ | ⟨d', hrun, -, -, hfails⟩
    · obtain rfl : p.declared items start (n + 1) = d' := by rw [declared_succ hget, hrun]
      exact fun y hy => (h.blamed y (hfailed ▸ hy)).mono (Nat.le_succ n)
    · obtain rfl : p.declared items start (n + 1) = d' := by rw [declared_succ hget, hrun]
      exact h.blamed_of_fails hfails

/-- A declaration succeeds and reports nothing, or its item has no type, and an item that it
involves is reported now or, if nothing is reported, has been reported before. -/
theorem ends (h : p.Accounted items start n) (hget : items[n]? = some item) :
    ((p.declare item).perform (p.declared items start n) =
          (.ok (), p.declared items start (n + 1)) ∧
        (p.declared items start (n + 1)).session.sink.errors =
          (p.declared items start n).session.sink.errors) ∨
      ((p.declare item).perform (p.declared items start n) =
          (.error .item, p.declared items start (n + 1)) ∧
        ((∃ w, item.Involves p w ∧ p.Blames items start n w) ∨
          (p.declared items start (n + 1)).session.sink.errors =
              (p.declared items start n).session.sink.errors ∧
            ∃ m < n, ∃ w decl, w.kind = .struct decl ∧ item.Involves p w ∧
              p.Blames items start m w)) := by
  have hitem := hitems item (List.mem_of_getElem? hget)
  have hsucc {d' : Declaring} {r : Except Abort Unit}
      (hrun : (p.declare item).perform (p.declared items start n) = (r, d')) :
      p.declared items start (n + 1) = d' := by rw [declared_succ hget, hrun]
  rcases h.settles hnodup hitems hget with ⟨d', hrun, -, -, herrors⟩ | ⟨d', hrun, -, -, hfails⟩
  · obtain rfl := hsucc hrun
    exact .inl ⟨hrun, herrors⟩
  · obtain rfl := hsucc hrun
    refine .inr ⟨hrun, ?_⟩
    cases hfails with
    | own e reports failed hown =>
        exact .inl ⟨item, .inl rfl, e, reports, hown.2, .inl ⟨hown.1, hget⟩⟩
    | through z mentioned mem kept new cause =>
        rcases cause with ⟨hz, herrors⟩ | ⟨hz, e, w, decl, hreports, hstruct, hcauses⟩
        · obtain ⟨m, hm, w, decl, hstruct, hmentions, hblames⟩ := h.blamed z hz
          obtain ⟨hw, hkind, -⟩ := mem_of_struct? hstruct
          have hsome := (h.unknown.failed z hz).1
          exact .inr ⟨herrors, m, hm, w, decl, hkind,
            involves_of_mentions hnodup hitem mentioned hsome hw hmentions, hblames⟩
        · obtain ⟨hw, -, rfl⟩ := mem_of_struct? hstruct
          have hsome : (p.struct? w.id).isSome := by rw [hstruct]; rfl
          exact .inl ⟨w, involves_of_mentions hnodup hitem mentioned hsome hw .refl, e, hreports,
            hcauses, .inr ⟨⟨decl, hstruct⟩, hz, mem⟩⟩

end Accounted

/-! ## Whole runs -/

theorem accounted (hdistinct : items.Nodup) (locations : Locations) (sink : Sink) (n : Nat) :
    p.Accounted items (.start (.start locations sink)) n := by
  induction n with
  | zero => exact p.accounted_zero items locations sink
  | succ n ih =>
      cases hget : items[n]? with
      | some item => exact ih.succ hnodup hitems hdistinct hget
      | none =>
          have heq : p.declared items (.start (.start locations sink)) (n + 1) =
              p.declared items (.start (.start locations sink)) n :=
            declared_of_length_le (List.getElem?_eq_none_iff.1 hget)
          exact ⟨heq ▸ ih.unknown, heq ▸ ih.complete,
            fun m w hle => heq ▸ ih.pending m w (Nat.le_of_succ_le hle),
            fun z hz => (ih.blamed z (heq ▸ hz)).mono (Nat.le_succ n)⟩

section

variable (hdistinct : items.Nodup) (hall : ∀ n, p.Accounted items start n)
include hall

theorem subset_failed {m : Nat} (hle : n ≤ m) :
    (p.declared items start n).failed ⊆ (p.declared items start m).failed := by
  induction hle with
  | refl => exact List.Subset.refl _
  | @step m _ ih =>
      refine List.Subset.trans ih ?_
      cases hget : items[m]? with
      | none =>
          rw [declared_of_length_le (List.getElem?_eq_none_iff.1 hget)]
          exact List.Subset.refl _
      | some w =>
          rw [declared_succ hget]
          rcases (hall m).settles hnodup hitems hget with
            ⟨d', hrun, -, hfailed, -⟩ | ⟨d', hrun, -, -, hfails⟩
          · rw [hrun]
            exact hfailed ▸ List.Subset.refl _
          · rw [hrun]
            exact hfails.subset_failed

include hdistinct

/-- An item whose declaration has failed never has a type. -/
theorem contains_eq_false_of_error {m : Nat} (hget : items[n]? = some item) (hlt : n < m)
    {e : Abort} (herror : ((p.declare item).perform (p.declared items start n)).1 = .error e) :
    (p.declared items start m).session.context.contains item.id = false := by
  have hitem := hitems item (List.mem_of_getElem? hget)
  by_cases hkind : ∀ decl, item.kind ≠ .struct decl
  · induction hlt with
    | refl =>
        rcases (hall n).settles hnodup hitems hget with ⟨d', hrun, -⟩ | ⟨d', hrun, -, hnone, -⟩
        · rw [hrun] at herror
          cases herror
        · rwa [declared_succ hget, hrun]
    | @step m hlt ih =>
        cases hget' : items[m]? with
        | none => rwa [declared_of_length_le (List.getElem?_eq_none_iff.1 hget')]
        | some w =>
            refine (hall m).contains_eq_false hnodup hitems hget' hitem hkind ?_ ih
            rintro rfl
            exact Nat.ne_of_lt hlt (index_unique hdistinct hget hget')
  · simp only [not_forall, not_not] at hkind
    obtain ⟨decl, hkind⟩ := hkind
    have hfailed : item.id ∈ (p.declared items start (n + 1)).failed := by
      rw [declared_succ hget]
      rw [declare, hkind] at herror ⊢
      exact mem_failed_of_demand (Prod.ext herror rfl)
    exact ((hall m).unknown.failed item.id (subset_failed hnodup hitems hall hlt hfailed)).2

/-- An item has a type from its declaration on, or it never has one. -/
theorem contains_iff_of_lt {m : Nat} (hget : items[n]? = some item) (hlt : n < m) :
    (p.declared items start m).session.context.contains item.id ↔
      ((p.declare item).perform (p.declared items start n)).1 = .ok () := by
  refine ⟨fun hcontains => ?_, fun hok => ?_⟩
  · cases hrun : ((p.declare item).perform (p.declared items start n)).1 with
    | ok _ => rfl
    | error e =>
        rw [contains_eq_false_of_error hnodup hitems hdistinct hall hget hlt hrun] at hcontains
        cases hcontains
  · have hhas := has_declare hnodup (hitems item (List.mem_of_getElem? hget)) (hall n).complete hok
    rw [← declared_succ hget] at hhas
    exact (grows_declared hitems _ hlt).retained _ (Session.has_cons.1 hhas).1

/-- No item is reported by two declarations of a run. -/
theorem Blames.unique {m : Nat} (h : p.Blames items start n w) (h' : p.Blames items start m w) :
    n = m := by
  obtain ⟨-, -, -, hw⟩ := h
  obtain ⟨-, -, -, hw'⟩ := h'
  rcases hw with ⟨hkind, hget⟩ | ⟨⟨decl, hstruct⟩, hnew, hfailed⟩
  · rcases hw' with ⟨-, hget'⟩ | ⟨⟨decl, hstruct⟩, -⟩
    · exact index_unique hdistinct hget hget'
    · exact (hkind decl (mem_of_struct? hstruct).2.1).elim
  · rcases hw' with ⟨hkind, -⟩ | ⟨-, hnew', hfailed'⟩
    · exact (hkind decl (mem_of_struct? hstruct).2.1).elim
    · rcases Nat.lt_trichotomy n m with hlt | heq | hlt
      · exact (hnew' (subset_failed hnodup hitems hall hlt hfailed)).elim
      · exact heq
      · exact (hnew (subset_failed hnodup hitems hall hlt hfailed')).elim

end

end

/-- Each declaration of a run over the items in some order ends with success or stops its item. It
succeeds if and only if the item has a type from then on. It reports nothing if it succeeds, and
one error at most otherwise, about an item that it involves. If it fails without a report, a struct
that it involves has been reported before. Every item that is left without a type involves one that
has been reported by exactly one declaration. -/
theorem reported_once (hnodup : p.ids.Nodup) (hperm : items.Perm p.items) (locations : Locations)
    (sink : Sink) :
    let start : Declaring := .start (.start locations sink)
    let state := p.declared items start
    (∀ n item, items[n]? = some item →
      let run := (p.declare item).perform (state n)
      run.2 = state (n + 1) ∧
      (∀ m, n < m → (run.1 = .ok () ↔ (state m).session.context.contains item.id)) ∧
      (run.1 = .ok () ∧ (state (n + 1)).session.sink.errors = (state n).session.sink.errors ∨
        run.1 = .error .item ∧
          ((∃ w, item.Involves p w ∧ p.Blames items start n w) ∨
            (state (n + 1)).session.sink.errors = (state n).session.sink.errors ∧
              ∃ m < n, ∃ w decl, w.kind = .struct decl ∧ item.Involves p w ∧
                p.Blames items start m w))) ∧
    (∀ item ∈ items, (state items.length).session.context.contains item.id = false →
      ∃ w, item.Involves p w ∧ ∃! n, p.Blames items start n w) ∧
    ∀ w n m, p.Blames items start n w → p.Blames items start m w → n = m := by
  intro start state
  have hnodup' : p.signatureIds.Nodup :=
    (List.nodup_append.1 (p.ids_perm.nodup_iff.1 hnodup)).1
  have hitems : ∀ w ∈ items, w ∈ p.items := fun w hw => hperm.mem_iff.1 hw
  have hdistinct : items.Nodup := by
    refine hperm.nodup_iff.2 ((List.nodup_flatMap.1 hnodup').2.imp fun {i j} hdisjoint heq => ?_)
    exact hdisjoint List.mem_cons_self (heq ▸ List.mem_cons_self)
  have hall : ∀ n, p.Accounted items start n := accounted hnodup' hitems hdistinct locations sink
  have hunique (w : Item) (n m : Nat) (h : p.Blames items start n w)
      (h' : p.Blames items start m w) : n = m := h.unique hnodup' hitems hdistinct hall h'
  refine ⟨fun n item hget => ⟨(declared_succ hget).symm, fun m hlt => ?_, ?_⟩,
    fun item hitem hnone => ?_, hunique⟩
  · exact (contains_iff_of_lt hnodup' hitems hdistinct hall hget hlt).symm
  · rcases (hall n).ends hnodup' hitems hget with ⟨hrun, herrors⟩ | ⟨hrun, hreported⟩
    · exact .inl ⟨by rw [hrun], herrors⟩
    · exact .inr ⟨by rw [hrun], hreported⟩
  · obtain ⟨n, hn, hget⟩ := List.mem_iff_getElem.1 hitem
    have hget : items[n]? = some item := by rw [List.getElem?_eq_getElem hn, hget]
    rcases (hall n).ends hnodup' hitems hget with ⟨hrun, -⟩ | ⟨-, hreported⟩
    · have hcontains := (contains_iff_of_lt hnodup' hitems hdistinct hall hget hn).2
        (by rw [hrun])
      rw [hnone] at hcontains
      cases hcontains
    · rcases hreported with ⟨w, hw, hblames⟩ | ⟨-, m, -, w, decl, -, hw, hblames⟩
      · exact ⟨w, hw, n, hblames, fun m h => hunique w m n h hblames⟩
      · exact ⟨w, hw, m, hblames, fun k h => hunique w k m h hblames⟩

/-- Of two structs and two functions that mention them, the struct with the unresolved field is
reported by the declaration that comes first, and the other three fail without a report. -/
theorem reported_once_through :
    let struct (id : NodeId) (name : String) (field : NodeId) (t : TypeRef) : Item :=
      ⟨⟨id, ⟨id, id + 1⟩⟩, name, .struct ⟨.named, [], [⟨⟨field, ⟨field, field + 1⟩⟩, "x", t⟩]⟩⟩
    let inner : Item := struct 2 "Inner" 1 (.path ⟨0, ⟨0, 1⟩⟩ "Missing" none [])
    let outer : Item := struct 5 "Outer" 4 (.path ⟨3, ⟨3, 4⟩⟩ "Inner" (some (.adt 2)) [])
    let maker (id : NodeId) (name : String) (t : TypeRef) : Item :=
      ⟨⟨id + 1, ⟨id + 1, id + 2⟩⟩, name, .fn ⟨[], some t, .mk ⟨id, ⟨id, id + 1⟩⟩ [] none⟩⟩
    let first : Item := maker 7 "first" (.path ⟨6, ⟨6, 7⟩⟩ "Outer" (some (.adt 5)) [])
    let second : Item := maker 10 "second" (.path ⟨9, ⟨9, 10⟩⟩ "Inner" (some (.adt 2)) [])
    let p : Program := ⟨[inner, second, outer, first]⟩
    let items : List Item := [first, outer, second, inner]
    let start : Declaring := .start (.start ⟨Array.replicate 12 ⟨0, 1⟩⟩ .fresh)
    p.ids.Nodup ∧ items.Perm p.items ∧
      (p.declared items start 4).session.sink.errors =
        [⟨.unresolvedPath "Missing", ⟨0, 1⟩⟩] ∧
      (∀ item ∈ items, (p.declared items start 4).session.context.contains item.id = false) ∧
      ∀ item ∈ items, ∃ w, item.Involves p w ∧ ∃! n, p.Blames items start n w := by
  intro struct inner outer maker first second p items start
  have hnodup : p.ids.Nodup := by decide +kernel
  have hperm : items.Perm p.items := (List.reverse_perm items).symm
  have herrors : (p.declared items start 4).session.sink.errors =
      [⟨.unresolvedPath "Missing", ⟨0, 1⟩⟩] := by decide +kernel
  have hnone : ∀ item ∈ items,
      (p.declared items start 4).session.context.contains item.id = false := by decide +kernel
  exact ⟨hnodup, hperm, herrors, hnone, fun item hitem =>
    (reported_once hnodup hperm ⟨Array.replicate 12 ⟨0, 1⟩⟩ .fresh).2.1 item hitem
      (hnone item hitem)⟩

end Program

end TypeInference

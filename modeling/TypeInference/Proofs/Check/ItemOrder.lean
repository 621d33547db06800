import TypeInference.Proofs.Check.ItemsApart
import TypeInference.Proofs.Check.SignatureOrder

/-!
# The order of items

A program is lowerable exactly if its signatures are in order and every item is
by itself. What a node of the program is in the end depends on its item only. So
the order of items does not matter.
-/

namespace TypeInference

open Ty Check

variable {p q : Program} {start s : Session} {done : List Item} {item : Item}

/-! ## Resolved sessions -/

def Session.Resolved (s : Session) : Prop :=
  ∀ id t, s.context.lookup id = some t → t.firstUnresolved? = none

/-- Whether the item, checked by itself, leaves nothing to report. -/
def Item.Settled (start : Session) (item : Item) : Prop :=
  item.Clean start ∧ (item.check start).session.Resolved

/-- A type without errors and variables has no leaf that lacks a default. -/
theorem Ty.Fine.firstUnresolved? {shapes : NodeId → Shape} {t : Ty} (h : t.Fine shapes []) :
    t.firstUnresolved? = none := by
  refine List.find?_eq_none.2 fun l hl => ?_
  have hnode := mem_nodes_of_mem_leaves hl
  have hkind := h.wellKinded l hnode
  have hproper := (h.proper l hnode).2
  cases l with
  | infer k v => cases hkind
  | error => exact (hproper rfl).elim
  | _ => simp [lacksDefault, isError, isGeneralVar]

namespace Session.Opens

theorem resolved (h : start.Opens p) : start.Resolved := fun id t ht =>
  (h.sound.types id t (Context.lookup_of_empty h.empty id ▸ ht)).firstUnresolved?

/-- Nodes outside the bodies that have been checked are known as they were from the start. -/
theorem lookup_kept {ids : List NodeId} {id : NodeId} (h : start.Opens p) (hgrows : start.Grows ids s)
    (hid : id ∉ ids) (hlt : id < start.locations.size) :
    s.context.lookup id = start.context.lookup id := by
  rw [Context.lookup_of_empty h.empty, Context.lookup, hgrows.kept id hid hlt]
  cases ht : start.context.types.find? id with
  | none => rfl
  | some t =>
      exact congrArg some (rewrite_of_wellKinded_nil (h.sound.types id t ht).wellKinded _)

/-- Nodes with types are located. -/
theorem lt_size {ids : List NodeId} {id : NodeId} {t : Ty} (h : start.Opens p)
    (hgrows : start.Grows ids s) (hids : ∀ id ∈ ids, id < start.locations.size)
    (ht : s.context.lookup id = some t) : id < s.locations.size := by
  obtain ⟨u, hu, -⟩ := Option.map_eq_some_iff.1 ht
  by_cases heq : s.context.types.find? id = start.context.types.find? id
  · exact Nat.lt_of_lt_of_le (h.sound.located id u (heq ▸ hu)) hgrows.size_le
  · rcases hgrows.changed id heq with hmem | ⟨-, hlt⟩
    · exact Nat.lt_of_lt_of_le (hids id hmem) hgrows.size_le
    · exact hlt

end Session.Opens

namespace Session.After

variable (hstart : start.Opens p) (h : start.After p done s)
include hstart h

/-- In a body, a node is known as it is when the item is checked by itself. -/
theorem lookup_body (hitem : item ∈ done) (hitems : done ⊆ p.items) {id : NodeId}
    (hid : id ∈ item.bodyIds) :
    ∃ n, s.context.lookup id = ((item.check start).session.context.lookup id).map (shift n) := by
  have hlt := hstart.fresh.located id (List.mem_flatMap.2 ⟨item, hitems hitem, hid⟩)
  have hsize := (item.steady_check.grows start).size_le
  obtain ⟨i, hsame, -, hlookup⟩ := h.shown item hitem id (Nat.lt_of_lt_of_le hlt hsize) (.inl hid)
  rcases hsame with rfl | ⟨-, hle⟩
  · exact hlookup
  · exact (Nat.not_lt.2 hle hlt).elim

/-- The types of the items have defaults exactly if those of each item by itself do. -/
theorem resolved_iff (hitems : done ⊆ p.items) :
    s.Resolved ↔ ∀ item ∈ done, (item.check start).session.Resolved := by
  have hlt {item : Item} (hitem : item ∈ done) {id : NodeId} (hid : id ∈ item.bodyIds) :
      id < start.locations.size :=
    hstart.fresh.located id (List.mem_flatMap.2 ⟨item, hitems hitem, hid⟩)
  have hshift {t u : Ty} {n : Nat} (heq : t = u.shift n) :
      t.firstUnresolved? = none ↔ u.firstUnresolved? = none := by
    rw [heq, firstUnresolved?_shift, Option.map_eq_none_iff]
  constructor
  · intro hresolved item hitem j u hu
    have hgrows := item.steady_check.grows start
    by_cases hrelevant : j ∈ item.bodyIds ∨ start.locations.size ≤ j
    · have hj := hstart.lt_size hgrows (fun _ hid => hlt hitem hid) hu
      obtain ⟨id, -, -, n, hlookup⟩ := h.shown item hitem j hj hrelevant
      rw [hu, Option.map_some] at hlookup
      exact (hshift rfl).1 (hresolved id _ hlookup)
    · obtain ⟨hbody, hold⟩ := not_or.1 hrelevant
      rw [hstart.lookup_kept hgrows hbody (Nat.lt_of_not_le hold)] at hu
      exact hstart.resolved j u hu
  · intro hall id t ht
    -- A node is known from the start, or as a node of an item that was checked by itself.
    have hshown {item : Item} (hitem : item ∈ done) {j : NodeId} {n : Nat} (hlookup :
        s.context.lookup id = ((item.check start).session.context.lookup j).map (shift n)) :
        t.firstUnresolved? = none := by
      obtain ⟨u, hu, heq⟩ := Option.map_eq_some_iff.1 (hlookup.symm.trans ht)
      exact (hshift heq.symm).2 (hall item hitem j u hu)
    rcases Nat.lt_or_ge id start.locations.size with hold | hnew
    · by_cases hbody : id ∈ done.flatMap Item.bodyIds
      · obtain ⟨item, hitem, hid⟩ := List.mem_flatMap.1 hbody
        obtain ⟨n, hlookup⟩ := h.lookup_body hstart hitem hitems hid
        exact hshown hitem hlookup
      · rw [hstart.lookup_kept h.grows hbody hold] at ht
        exact hstart.resolved id t ht
    · obtain ⟨kinds, hs⟩ := h.sound
      obtain ⟨u, hu, -⟩ := Option.map_eq_some_iff.1 ht
      obtain ⟨item, hitem, j, -, -, n, hlookup⟩ := h.made id hnew (hs.located id u hu)
      exact hshown hitem hlookup

end Session.After

/-! ## Programs -/

namespace Program

section

variable {locations : Locations} (hnodup : p.ids.Nodup) (hlocated : ∀ id ∈ p.ids, id < locations.size)
include hnodup hlocated

/-- What a signature pass that reports nothing leaves to the bodies. -/
theorem opens_signing {N : NodeTypes} (hrun : p.declareAll p.items (.start (.start locations .fresh)) =
    (.ok (), ⟨.signing locations .fresh N, []⟩)) : (Session.signing locations .fresh N).Opens p := by
  obtain ⟨kinds, hsound, hfresh⟩ := sound_signatures hnodup hlocated hrun rfl
  have hcount : 0 = kinds.length := hsound.bindings.count_eq
  obtain rfl : kinds = [] := List.length_eq_zero_iff.1 hcount.symm
  exact ⟨rfl, hsound, hfresh, hlocated, rfl⟩

variable (hp : p.WellResolved) (hscoped : p.WellScoped) {N : NodeTypes}
  (hrun : p.declareAll p.items (.start (.start locations .fresh)) =
    (.ok (), ⟨.signing locations .fresh N, []⟩))
include hp hscoped hrun

/-- The bodies of a lowerable program are clean by themselves, and the body pass shows what they
show. -/
theorem after_of_lowerable (hok : (p.check locations .fresh).outcome = .ok .lowerable) :
    (∀ item ∈ p.items, item.Clean (.signing locations .fresh N)) ∧
      ∃ s, (Session.signing locations .fresh N).After p p.items s ∧ s.Resolved ∧
        ∀ id, (p.check locations .fresh).typeOf id =
          (s.context.lookup id).map fun t => t.withDefaults .prims := by
  obtain ⟨d, items, s, hdeclare, -, hcheck, herrors, hbuiltins, hswept, -, hsession⟩ :=
    passes_of_lowerable hok
  obtain rfl : d = ⟨.signing locations .fresh N, []⟩ := (Prod.mk.inj (hdeclare.symm.trans hrun)).2
  have hstart := opens_signing hnodup hlocated hrun
  have hapart : (([] ++ p.items).flatMap Item.bodyIds).Nodup := hstart.fresh.nodup
  have hclean := hstart.after.clean_of_checkAll hnodup hp hscoped hstart (List.Subset.refl _) hapart
  have hafter := hstart.after.checkAll hnodup hp hscoped hstart (List.Subset.refl _) hapart
  rw [hcheck] at hclean hafter
  refine ⟨hclean rfl herrors, s, (hafter (hclean rfl herrors)).2,
    (errors_applyDefaults_iff hbuiltins herrors).1 hswept, fun id => ?_⟩
  rw [Checked.typeOf, hsession]
  exact lookup_applyDefaults hbuiltins hswept id

/-- A program whose signatures are in order is lowerable exactly if every item is settled by itself. -/
theorem lowerable_iff_settled : (p.check locations .fresh).outcome = .ok .lowerable ↔
    ∀ item ∈ p.items, item.Settled (.signing locations .fresh N) := by
  have hstart := opens_signing hnodup hlocated hrun
  constructor
  · intro hok
    obtain ⟨hclean, s, hafter, hresolved, -⟩ :=
      after_of_lowerable hnodup hlocated hp hscoped hrun hok
    have hall := (hafter.resolved_iff hstart (List.Subset.refl _)).1 hresolved
    exact fun item hitem => ⟨hclean item hitem, hall item hitem⟩
  · intro hsettled
    have hapart : (([] ++ p.items).flatMap Item.bodyIds).Nodup := hstart.fresh.nodup
    obtain ⟨hended, hafter⟩ := hstart.after.checkAll hnodup hp hscoped hstart (List.Subset.refl _)
      hapart fun item hitem => (hsettled item hitem).1
    have hresolved := (hafter.resolved_iff hstart (List.Subset.refl _)).2 fun item hitem =>
      (hsettled item hitem).2
    obtain ⟨kinds, hsound⟩ := hafter.sound
    refine lowerable_iff_passes.2 ⟨_, _, hrun, rfl, Prod.ext hended rfl, hafter.errors, ?_⟩
    exact (errors_applyDefaults_iff hsound.builtins hafter.errors).2 hresolved

/-- In a lowerable program, a node in a body is what it is when its item is checked by itself, and
any other node is what it was declared to be. -/
theorem typeOf_of_settled (hok : (p.check locations .fresh).outcome = .ok .lowerable) :
    (∀ item ∈ p.items, ∀ id ∈ item.bodyIds, (p.check locations .fresh).typeOf id =
      ((item.check (.signing locations .fresh N)).session.context.lookup id).map
        fun t => t.withDefaults .prims) ∧
    ∀ id < locations.size, id ∉ p.bodyIds → (p.check locations .fresh).typeOf id =
      (N.find? id).map fun t => t.withDefaults .prims := by
  have hstart := opens_signing hnodup hlocated hrun
  have hsettled := (lowerable_iff_settled hnodup hlocated hp hscoped hrun).1 hok
  obtain ⟨-, s, hafter, -, htypes⟩ := after_of_lowerable hnodup hlocated hp hscoped hrun hok
  constructor
  · intro item hitem id hid
    obtain ⟨n, hlookup⟩ := hafter.lookup_body hstart hitem (List.Subset.refl _) hid
    rw [htypes, hlookup]
    cases ht : (item.check (.signing locations .fresh N)).session.context.lookup id with
    | none => rfl
    | some t => exact congrArg some (withDefaults_shift _ ((hsettled item hitem).2 id t ht) _)
  · intro id hlt hid
    rw [htypes, hstart.lookup_kept hafter.grows hid hlt, Session.lookup_signing]

end

section

variable {locations : Locations} (hnodup : p.ids.Nodup) (hlocated : ∀ id ∈ p.ids, id < locations.size)
  (hp : p.WellResolved) (hscoped : p.WellScoped) (hperm : p.items.Perm q.items)
include hnodup hlocated hp hscoped hperm

theorem lowerable_of_perm (hok : (p.check locations .fresh).outcome = .ok .lowerable) :
    (q.check locations .fresh).outcome = .ok .lowerable ∧ ∀ id < locations.size,
      (p.check locations .fresh).typeOf id = (q.check locations .fresh).typeOf id := by
  obtain ⟨d, -, hdeclare, herrors, -⟩ := lowerable_iff_passes.1 hok
  have hsignatures := (List.nodup_append.1 (p.ids_perm.nodup_iff.1 hnodup)).1
  obtain ⟨N, hsession, hrun'⟩ := signatures_of_perm hsignatures hp hperm hdeclare herrors
  -- Both signature passes leave the same session, so the items are checked by themselves alike.
  obtain ⟨N', hsession', hrun⟩ := signatures_of_perm hsignatures hp (.refl p.items) hdeclare herrors
  obtain rfl : N = N' := congrArg (·.context.types) (hsession.symm.trans hsession')
  have hnodup' : q.ids.Nodup := (ids_of_perm hperm).nodup_iff.1 hnodup
  have hlocated' : ∀ id ∈ q.ids, id < locations.size := fun id hid =>
    hlocated id ((ids_of_perm hperm).mem_iff.2 hid)
  have hp' := hp.of_perm hperm
  have hscoped' := hscoped.of_perm hperm
  have hsettled := (lowerable_iff_settled hnodup hlocated hp hscoped hrun).1 hok
  have hok' := (lowerable_iff_settled hnodup' hlocated' hp' hscoped' hrun').2 fun item hitem =>
    hsettled item (hperm.mem_iff.2 hitem)
  obtain ⟨hbody, hother⟩ := typeOf_of_settled hnodup hlocated hp hscoped hrun hok
  obtain ⟨hbody', hother'⟩ := typeOf_of_settled hnodup' hlocated' hp' hscoped' hrun' hok'
  refine ⟨hok', fun id hlt => ?_⟩
  by_cases hid : id ∈ p.bodyIds
  · obtain ⟨item, hitem, hid⟩ := List.mem_flatMap.1 hid
    rw [hbody item hitem id hid, hbody' item (hperm.mem_iff.1 hitem) id hid]
  · rw [hother id hlt hid, hother' id hlt (mt (bodyIds_of_perm hperm).mem_iff.2 hid)]

/-- The order of items is irrelevant: a program is lowerable in one order exactly if it is in any
other, and then every node of the program has the same type. -/
theorem check_of_perm :
    ((p.check locations .fresh).outcome = .ok .lowerable ↔
      (q.check locations .fresh).outcome = .ok .lowerable) ∧
    ((p.check locations .fresh).outcome = .ok .lowerable → ∀ id < locations.size,
      (p.check locations .fresh).typeOf id = (q.check locations .fresh).typeOf id) := by
  have hlocated' : ∀ id ∈ q.ids, id < locations.size := fun id hid =>
    hlocated id ((ids_of_perm hperm).mem_iff.2 hid)
  refine ⟨⟨fun hok => ?_, fun hok => ?_⟩, fun hok => ?_⟩
  · exact (lowerable_of_perm hnodup hlocated hp hscoped hperm hok).1
  · exact (lowerable_of_perm ((ids_of_perm hperm).nodup_iff.1 hnodup) hlocated' (hp.of_perm hperm)
      (hscoped.of_perm hperm) hperm.symm hok).1
  · exact (lowerable_of_perm hnodup hlocated hp hscoped hperm hok).2

end

/-- A function that updates a struct, a function with an unconstrained literal, and the struct: once in
this order and once the other way round, so that the literals get different variables. -/
theorem check_of_perm_reversed :
    let int (id : NodeId) : TypeRef := .path ⟨id, ⟨id, id + 1⟩⟩ "i32" (some .builtin) []
    let point (id : NodeId) : TypeRef := .path ⟨id, ⟨id, id + 1⟩⟩ "P" (some (.adt 4)) []
    let literal : Expr := .struct ⟨11, ⟨11, 12⟩⟩ (.ident "P" (some 4)) ⟨11, 12⟩
      [.named ⟨9, ⟨9, 10⟩⟩ "y" (.lit ⟨8, ⟨8, 9⟩⟩ (.int 1 none))]
      (some (.path ⟨10, ⟨10, 11⟩⟩ (.ident "p" (some 6))))
    let declare : Item := ⟨⟨4, ⟨4, 5⟩⟩, "P", .struct ⟨.named, [],
      [⟨⟨1, ⟨1, 2⟩⟩, "x", int 0⟩, ⟨⟨3, ⟨3, 4⟩⟩, "y", int 2⟩]⟩⟩
    let update : Item := ⟨⟨13, ⟨13, 14⟩⟩, "update", .fn ⟨[⟨⟨6, ⟨6, 7⟩⟩, "p", point 5⟩],
      some (point 7), .mk ⟨12, ⟨12, 13⟩⟩ [] (some literal)⟩⟩
    let bind : Item := ⟨⟨18, ⟨18, 19⟩⟩, "f", .fn ⟨[], none, .mk ⟨17, ⟨17, 18⟩⟩
      [.bind ⟨16, ⟨16, 17⟩⟩ 15 "z" none (some (.lit ⟨14, ⟨14, 15⟩⟩ (.int 1 none)))] none⟩⟩
    let p : Program := ⟨[update, bind, declare]⟩
    let q : Program := ⟨[declare, bind, update]⟩
    let locations : Locations := ⟨Array.replicate 19 ⟨0, 1⟩⟩
    p.ids.Nodup ∧ (∀ id ∈ p.ids, id < locations.size) ∧ p.WellResolved ∧ p.WellScoped ∧
      p.items.Perm q.items ∧ (p.check locations .fresh).outcome = .ok .lowerable ∧
      (p.check locations .fresh).typeOf 15 = some (.prim .i32) ∧
      (q.check locations .fresh).outcome = .ok .lowerable ∧
      ∀ id < 19, (p.check locations .fresh).typeOf id = (q.check locations .fresh).typeOf id := by
  intro int point literal declare update bind p q locations
  have hnodup : p.ids.Nodup := by decide +kernel
  have hlocated : ∀ id ∈ p.ids, id < locations.size := by decide +kernel
  have hp : p.WellResolved := by decide +kernel
  have hscoped : p.WellScoped := by decide +kernel
  have hperm : p.items.Perm q.items := List.reverse_perm q.items
  have hok : (p.check locations .fresh).outcome = .ok .lowerable := by decide +kernel
  have htype : (p.check locations .fresh).typeOf 15 = some (.prim .i32) := by decide +kernel
  have hsize : locations.size = 19 := by decide +kernel
  -- From here on the programs need not be evaluated.
  clear_value p q locations
  obtain ⟨hiff, htypes⟩ := check_of_perm hnodup hlocated hp hscoped hperm
  exact ⟨hnodup, hlocated, hp, hscoped, hperm, hok, htype, hiff.1 hok, hsize ▸ htypes hok⟩

/-- Without locations, a node that is made for a literal takes the id of its struct, and items that come
later no longer find the struct. -/
theorem not_check_of_perm_unlocated :
    let int (id : NodeId) : TypeRef := .path ⟨id, ⟨id, id + 1⟩⟩ "i32" (some .builtin) []
    let one (id : NodeId) : Expr := .lit ⟨id, ⟨id, id + 1⟩⟩ (.int 1 none)
    let declare : Item := ⟨⟨0, ⟨0, 1⟩⟩, "S", .struct ⟨.named, [],
      [⟨⟨2, ⟨2, 3⟩⟩, "x", int 1⟩, ⟨⟨4, ⟨4, 5⟩⟩, "y", int 3⟩]⟩⟩
    let update : Item := ⟨⟨13, ⟨13, 14⟩⟩, "f", .fn ⟨[⟨⟨6, ⟨6, 7⟩⟩, "b",
      .path ⟨5, ⟨5, 6⟩⟩ "S" (some (.adt 0)) []⟩], none, .mk ⟨12, ⟨12, 13⟩⟩
      [.semi ⟨11, ⟨11, 12⟩⟩ (.struct ⟨10, ⟨10, 11⟩⟩ (.ident "S" (some 0)) ⟨10, 11⟩
        [.named ⟨8, ⟨8, 9⟩⟩ "x" (one 7)] (some (.path ⟨9, ⟨9, 10⟩⟩ (.ident "b" (some 6)))))]
      none⟩⟩
    let make : Item := ⟨⟨21, ⟨21, 22⟩⟩, "g", .fn ⟨[], none, .mk ⟨20, ⟨20, 21⟩⟩
      [.semi ⟨19, ⟨19, 20⟩⟩ (.struct ⟨18, ⟨18, 19⟩⟩ (.ident "S" (some 0)) ⟨18, 19⟩
        [.named ⟨15, ⟨15, 16⟩⟩ "x" (one 14), .named ⟨17, ⟨17, 18⟩⟩ "y" (one 16)] none)]
      none⟩⟩
    let p : Program := ⟨[declare, make, update]⟩
    let q : Program := ⟨[declare, update, make]⟩
    p.ids.Nodup ∧ p.WellResolved ∧ p.WellScoped ∧ p.items.Perm q.items ∧
      (p.check ⟨#[]⟩ .fresh).outcome = .ok .lowerable ∧
      (q.check ⟨#[]⟩ .fresh).outcome = .ok (.rejected .bodies) := by
  intro int one declare update make p q
  exact ⟨by decide +kernel, by decide +kernel, by decide +kernel,
    (List.Perm.swap update make []).cons declare, by decide +kernel, by decide +kernel⟩

end Program

end TypeInference

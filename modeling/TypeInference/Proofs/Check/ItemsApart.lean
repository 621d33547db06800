import Mathlib.Data.List.Nodup
import TypeInference.Proofs.Check.DisplacedBodies
import TypeInference.Proofs.Check.Fallback

/-!
# Items checked apart

The body pass checks every item in the session that the items before it left.
That comes to the same, up to the numbers of variables and of new nodes, as
checking the item by itself, right after the signatures.
-/

namespace TypeInference

open Ty Bindings Check

variable {p : Program} {start s s' : Session} {done : List Item} {item : Item}

/-! ## Sessions of a body pass -/

/-- A session right after the signatures of a program: no variables have been created, nothing in a
body has a type yet, and every node is located. -/
structure Session.Opens (p : Program) (s : Session) : Prop where
  empty : s.context.bindings = .empty
  sound : s.Sound p.shapes []
  fresh : s.Fresh p.bodyIds
  located : ∀ id ∈ p.ids, id < s.locations.size
  errors : s.sink.errors = []

def Item.Clean (s : Session) (item : Item) : Prop :=
  (item.check s).outcome = .ok () ∧ (item.check s).session.sink.errors = []

/-- Whether a node has in the session the type that a node has when the item is checked by itself, up
to the numbers of variables. New nodes may be known by different identities. -/
def Session.Shows (start s : Session) (item : Item) (id j : NodeId) : Prop :=
  (id = j ∨ start.locations.size ≤ id ∧ start.locations.size ≤ j) ∧ id < s.locations.size ∧
    ∃ n, s.context.lookup id = ((item.check start).session.context.lookup j).map (shift n)

structure Session.After (p : Program) (start : Session) (done : List Item) (s : Session) : Prop where
  sound : ∃ kinds, s.Sound p.shapes kinds
  grows : start.Grows (done.flatMap Item.bodyIds) s
  errors : s.sink.errors = []
  shown : ∀ item ∈ done, ∀ j < (item.check start).session.locations.size,
    j ∈ item.bodyIds ∨ start.locations.size ≤ j → ∃ id, start.Shows s item id j
  made : ∀ id, start.locations.size ≤ id → id < s.locations.size →
    ∃ item ∈ done, ∃ j, start.Shows s item id j

theorem Session.Opens.after (h : start.Opens p) : start.After p [] start :=
  ⟨⟨[], h.sound⟩, .refl _ _, h.errors, by simp, fun id hle hlt => (Nat.not_lt.2 hle hlt).elim⟩

/-- A check on top of past bindings does not change what the nodes outside it are known to be. -/
theorem Session.Grows.lookup_kept {kinds : List VarKind} {ids : List NodeId} {b : Bindings}
    {id : NodeId} (h : s.Grows ids s') (hs : s.Sound p.shapes kinds)
    (hbindings : s'.context.bindings = s.context.bindings.onTop b) (hid : id ∉ ids)
    (hlt : id < s.locations.size) : s'.context.lookup id = s.context.lookup id := by
  rw [Context.lookup, h.kept id hid hlt, Context.lookup]
  cases ht : s.context.types.find? id with
  | none => rfl
  | some t =>
      refine congrArg some ?_
      rw [Context.resolve, hbindings]
      refine resolve_onTop_of_lt b fun v hv => ?_
      have hwell := resolve_wellKinded hs.bindings.toValid (hs.types id t ht).wellKinded
      obtain ⟨k, hk⟩ := hasVar_iff.1 hv
      rw [hs.bindings.count_eq]
      exact (List.getElem?_eq_some_iff.1 (hwell _ hk)).1

namespace Session.After

/-! ## The next item -/

/-- The place at which the next item is checked: the bodies before it are out of scope. -/
def place (h : start.After p done s) : Place where
  past := s.context.bindings
  bounded := let ⟨_, hs⟩ := h.sound; hs.bindings.toValid.bounded
  base := start.locations.size
  added := s.locations.size - start.locations.size
  inScope id := id < start.locations.size ∧ id ∉ done.flatMap Item.bodyIds
  lt_base := And.left

theorem displaces (h : start.After p done s) (hstart : start.Opens p) :
    h.place.Displaces [] start s := by
  obtain ⟨kinds, hs⟩ := h.sound
  have hsize : s.locations.size = start.locations.size + h.place.added :=
    (Nat.add_sub_of_le h.grows.size_le).symm
  constructor
  case valid => exact hstart.sound.bindings.toValid
  case wellKinded => exact fun id t ht => (hstart.sound.types id t ht).wellKinded
  case bindings =>
    rw [hstart.empty]
    exact (onTop_empty _).symm
  case types =>
    intro id hid
    rcases hid with ⟨hlt, hdone⟩ | hle
    · rw [Place.node_of_inScope (P := h.place) ⟨hlt, hdone⟩, h.grows.kept id hdone hlt]
      cases ht : start.context.types.find? id with
      | none => rfl
      | some t =>
          have hwell := (hstart.sound.types id t ht).wellKinded
          exact congrArg some (rewrite_of_wellKinded_nil hwell _).symm
    · have habsent {r : Session} {kinds : List VarKind} (hr : r.Sound p.shapes kinds) {i : NodeId}
          (hi : r.locations.size ≤ i) : r.context.types.find? i = none :=
        Option.eq_none_iff_forall_ne_some.2 fun t ht => Nat.not_lt.2 hi (hr.located i t ht)
      rw [Place.node_of_le hle, habsent hstart.sound hle, habsent hs]
      · rfl
      · rw [hsize]
        exact Nat.add_le_add_right hle _
  case builtins => exact h.grows.builtins_eq
  case size => exact hsize
  case base_le => exact Nat.le_refl _
  case policy => exact h.grows.policy_eq
  case errors => exact ⟨fun _ => hstart.errors, fun _ => h.errors⟩

section

variable (hnodup : p.ids.Nodup) (hp : p.WellResolved) (hscoped : p.WellScoped)
  (hstart : start.Opens p) (hdone : done ⊆ p.items) (hitem : item ∈ p.items)
  (hapart : ∀ id ∈ item.bodyIds, id ∉ done.flatMap Item.bodyIds)

include hnodup hstart hdone in
/-- Signatures are in scope everywhere. -/
theorem inScope_of_signature (h : start.After p done s) {id : NodeId} (hid : id ∈ p.signatureIds) :
    h.place.inScope id := by
  refine ⟨hstart.located id (p.ids_perm.mem_iff.2 (List.mem_append_left _ hid)), fun hmem => ?_⟩
  obtain ⟨item, hitem, hbody⟩ := List.mem_flatMap.1 hmem
  have hdisjoint := (List.nodup_append.1 (p.ids_perm.nodup_iff.1 hnodup)).2.2
  exact hdisjoint id hid id (List.mem_flatMap.2 ⟨item, hdone hitem, hbody⟩) rfl

include hstart hitem hapart in
theorem inScope_of_body (h : start.After p done s) {id : NodeId} (hid : id ∈ item.bodyIds) :
    h.place.inScope id :=
  ⟨hstart.fresh.located id (List.mem_flatMap.2 ⟨item, hitem, hid⟩), hapart id hid⟩

include hstart hitem hapart in
/-- Nothing in the body of the next item has a type yet. -/
theorem fresh (h : start.After p done s) : s.Fresh item.bodyIds := by
  have hbody {id : NodeId} (hid : id ∈ item.bodyIds) : id ∈ p.bodyIds :=
    List.mem_flatMap.2 ⟨item, hitem, hid⟩
  constructor
  case nodup => exact (List.nodup_flatMap.1 hstart.fresh.nodup).1 item hitem
  case located =>
    exact fun id hid => Nat.lt_of_lt_of_le (hstart.fresh.located id (hbody hid)) h.grows.size_le
  case absent =>
    intro id hid
    rw [h.grows.kept id (hapart id hid) (hstart.fresh.located id (hbody hid))]
    exact hstart.fresh.absent id (hbody hid)

include hnodup hp hscoped hstart hdone hitem hapart

theorem admits (h : start.After p done s) :
    h.place.Admits item.bodyIds item.kind.bodyResolutions item.kind.references := by
  have hsignature {id : NodeId} (hid : id ∈ p.signatureIds) : h.place.inScope id :=
    h.inScope_of_signature hnodup hstart hdone hid
  have hself {item' : Item} (h' : item' ∈ p.items) : item'.id ∈ p.signatureIds :=
    (Program.signatureIds_subset h').1
  constructor
  case ids => exact fun id hid => h.inScope_of_body hstart hitem hapart hid
  case resolutions =>
    intro r hr
    rcases hp.body hitem hr with rfl | ⟨s, hs, rfl, -⟩
    · trivial
    · exact hsignature (hself hs)
  case references =>
    intro id hid
    rcases hscoped item hitem id hid with hid | hid
    · obtain ⟨item', hitem', rfl⟩ := List.mem_map.1 hid
      exact hsignature (hself hitem')
    · rcases List.mem_append.1 hid with hid | hid
      · exact hsignature (List.mem_flatMap.2 ⟨item, hitem, hid⟩)
      · exact h.inScope_of_body hstart hitem hapart hid

/-- The next item is checked as it is by itself. -/
theorem mirrored (h : start.After p done s) :
    ∃ kinds, h.place.Displaces kinds (item.check start).session (item.check s).session ∧
      Both Eq (fun _ _ => True) (item.check start).outcome (item.check s).outcome := by
  have hid := h.inScope_of_signature hnodup hstart hdone (Program.signatureIds_subset hitem).1
  have hbody := h.admits hnodup hp hscoped hstart hdone hitem hapart
  obtain ⟨kinds, -, hsessions, houtcomes⟩ :=
    item.mirrors_check hid hbody [] start s (h.displaces hstart)
  exact ⟨kinds, hsessions, houtcomes⟩

theorem clean_iff (h : start.After p done s) : item.Clean s ↔ item.Clean start := by
  obtain ⟨kinds, hsessions, houtcomes⟩ := h.mirrored hnodup hp hscoped hstart hdone hitem hapart
  exact and_congr houtcomes.eq_ok_iff hsessions.errors

/-- What has been shown of nodes is still shown after the next item. -/
theorem shows_kept (h : start.After p done s) {item' : Item} {id j : NodeId}
    (hid : id ∉ item.bodyIds) (hshows : start.Shows s item' id j) :
    start.Shows (item.check s).session item' id j := by
  obtain ⟨kinds, hs⟩ := h.sound
  obtain ⟨kinds', hsessions, -⟩ := h.mirrored hnodup hp hscoped hstart hdone hitem hapart
  obtain ⟨hsame, hlt, n, hlookup⟩ := hshows
  have hgrows := item.steady_check.grows s
  refine ⟨hsame, Nat.lt_of_lt_of_le hlt hgrows.size_le, n, ?_⟩
  rw [hgrows.lookup_kept hs hsessions.bindings hid hlt, hlookup]

/-- What the next item gives to nodes is what it gives to them by itself. -/
theorem shows_next (h : start.After p done s) {j : NodeId}
    (hj : j < (item.check start).session.locations.size)
    (hrelevant : j ∈ item.bodyIds ∨ start.locations.size ≤ j) :
    ∃ id, start.Shows (item.check s).session item id j := by
  obtain ⟨kinds, hsessions, -⟩ := h.mirrored hnodup hp hscoped hstart hdone hitem hapart
  rcases hrelevant with hmem | hle
  · have hscope := h.inScope_of_body hstart hitem hapart hmem
    have hlookup := hsessions.lookup (.inl hscope)
    rw [Place.node_of_inScope hscope] at hlookup
    have hlt := (h.fresh hstart hitem hapart).located j hmem
    exact ⟨j, .inl rfl, Nat.lt_of_lt_of_le hlt (item.steady_check.grows s).size_le, _, hlookup⟩
  · have hlookup := hsessions.lookup (.inr hle)
    rw [Place.node_of_le hle] at hlookup
    refine ⟨j + h.place.added, .inr ⟨Nat.le_add_right_of_le hle, hle⟩, ?_, _, hlookup⟩
    rw [hsessions.size]
    exact Nat.add_lt_add_right hj _

/-- The nodes that the next item makes show what it makes by itself. -/
theorem shows_made (h : start.After p done s) {id : NodeId} (hle : s.locations.size ≤ id)
    (hid : id < (item.check s).session.locations.size) :
    ∃ j, start.Shows (item.check s).session item id j := by
  obtain ⟨kinds, hsessions, -⟩ := h.mirrored hnodup hp hscoped hstart hdone hitem hapart
  have hgrown := h.grows.size_le
  obtain ⟨j, hj, rfl⟩ : ∃ j, start.locations.size ≤ j ∧ id = j + h.place.added := by
    have hadded : h.place.added = s.locations.size - start.locations.size := rfl
    exact ⟨id - h.place.added, by omega, (Nat.sub_add_cancel (by omega)).symm⟩
  have hlookup := hsessions.lookup (.inr hj)
  rw [Place.node_of_le hj] at hlookup
  exact ⟨j, .inr ⟨Nat.le_trans hgrown hle, hj⟩, hid, _, hlookup⟩

theorem step (h : start.After p done s) (hclean : item.Clean s) :
    start.After p (done ++ [item]) (item.check s).session := by
  have hgrows := item.steady_check.grows s
  have hlt {id : NodeId} (hid : id ∈ item.bodyIds) : id < start.locations.size :=
    hstart.fresh.located id (List.mem_flatMap.2 ⟨item, hitem, hid⟩)
  constructor
  case sound =>
    obtain ⟨kinds, hs⟩ := h.sound
    obtain ⟨kinds₁, hlead, -⟩ := item.infers p.shapes_isIndexed hs (h.fresh hstart hitem hapart) ()
      hclean.1 hclean.2
    exact ⟨kinds₁, hlead.sound⟩
  case grows =>
    rw [List.flatMap_append]
    refine (h.grows.mono (List.subset_append_left _ _)).trans (hgrows.mono ?_)
    simp
  case errors => exact hclean.2
  case shown =>
    intro item' hitem' j hj hrelevant
    rcases List.mem_append.1 hitem' with hitem' | hitem'
    · obtain ⟨id, hshows⟩ := h.shown item' hitem' j hj hrelevant
      refine ⟨id, h.shows_kept hnodup hp hscoped hstart hdone hitem hapart (fun hid => ?_) hshows⟩
      rcases hshows.1 with rfl | ⟨hle, -⟩
      · rcases hrelevant with hmem | hle
        · exact hapart id hid (List.mem_flatMap.2 ⟨item', hitem', hmem⟩)
        · exact Nat.not_lt.2 hle (hlt hid)
      · exact Nat.not_lt.2 hle (hlt hid)
    · obtain rfl := List.mem_singleton.1 hitem'
      exact h.shows_next hnodup hp hscoped hstart hdone hitem hapart hj hrelevant
  case made =>
    intro id hle hid
    rcases Nat.lt_or_ge id s.locations.size with hold | hnew
    · obtain ⟨item', hitem', j, hshows⟩ := h.made id hle hold
      exact ⟨item', List.mem_append_left _ hitem', j, h.shows_kept hnodup hp hscoped hstart hdone
        hitem hapart (fun hmem => Nat.not_lt.2 hle (hlt hmem)) hshows⟩
    · obtain ⟨j, hshows⟩ := h.shows_made hnodup hp hscoped hstart hdone hitem hapart hnew hid
      exact ⟨item, by simp, j, hshows⟩

end

/-! ## The whole pass -/

/-- An item is apart from those before it. -/
theorem next {items : List Item} (hitems : done ++ [item] ++ items ⊆ p.items)
    (hapart : ((done ++ [item] ++ items).flatMap Item.bodyIds).Nodup) :
    done ⊆ p.items ∧ item ∈ p.items ∧ ∀ id ∈ item.bodyIds, id ∉ done.flatMap Item.bodyIds := by
  rw [List.flatMap_append, List.flatMap_append] at hapart
  have hdisjoint := (List.nodup_append.1 (List.nodup_append.1 hapart).1).2.2
  refine ⟨fun i hi => hitems (by simp [hi]), hitems (by simp), fun id hid hmem => ?_⟩
  exact hdisjoint id hmem id (by simpa using hid) rfl

section

variable (hnodup : p.ids.Nodup) (hp : p.WellResolved) (hscoped : p.WellScoped)
  (hstart : start.Opens p) {items : List Item} (hitems : done ++ items ⊆ p.items)
  (hapart : ((done ++ items).flatMap Item.bodyIds).Nodup)
include hnodup hp hscoped hstart hitems hapart

/-- Items that are clean by themselves are clean one after the other. -/
theorem checkAll (h : start.After p done s) (hclean : ∀ item ∈ items, item.Clean start) :
    (Program.checkAll items s).2.1 = .ok () ∧
      start.After p (done ++ items) (Program.checkAll items s).2.2 := by
  induction items generalizing done s with
  | nil =>
      rw [List.append_nil]
      exact ⟨rfl, h⟩
  | cons item rest ih =>
      rw [List.append_cons] at hitems hapart ⊢
      rw [List.forall_mem_cons] at hclean
      obtain ⟨hdone, hitem, hdisjoint⟩ := next hitems hapart
      have hnow := (h.clean_iff hnodup hp hscoped hstart hdone hitem hdisjoint).2 hclean.1
      rw [Program.checkAll_cons_of_ok hnow.1]
      exact ih hitems hapart (h.step hnodup hp hscoped hstart hdone hitem hdisjoint hnow) hclean.2

/-- Items that are clean one after the other are clean by themselves. -/
theorem clean_of_checkAll (h : start.After p done s)
    (hended : (Program.checkAll items s).2.1 = .ok ())
    (herrors : (Program.checkAll items s).2.2.sink.errors = []) :
    ∀ item ∈ items, item.Clean start := by
  induction items generalizing done s with
  | nil => simp
  | cons item rest ih =>
      rw [List.append_cons] at hitems hapart
      obtain ⟨hdone, hitem, hdisjoint⟩ := next hitems hapart
      obtain ⟨hok, heq⟩ := Program.checkAll_cons_of_errors hended herrors
      rw [heq] at hended herrors
      have hnow : item.Clean s := ⟨hok, (Program.grows_checkAll rest _).errors_eq_nil herrors⟩
      have hlater := ih hitems hapart (h.step hnodup hp hscoped hstart hdone hitem hdisjoint hnow)
        hended herrors
      have hclean := (h.clean_iff hnodup hp hscoped hstart hdone hitem hdisjoint).1 hnow
      exact List.forall_mem_cons.2 ⟨hclean, hlater⟩

end

end Session.After

end TypeInference

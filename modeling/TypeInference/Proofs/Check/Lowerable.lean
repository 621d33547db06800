import TypeInference.Proofs.Check.Declared
import TypeInference.Proofs.Check.Fallback

/-!
# Lowerable programs are complete

A program is lowerable exactly if its check reports nothing. Then every node of
the rewritten program has a type, the synthesized ones included, and every type
in the table is concrete.
-/

namespace TypeInference

open Walk Check

variable {s : Session}

/-! ## Bodies -/

namespace Item

/-- The check of an item changes nothing but its body. -/
theorem declaration_check (item : Item) (s : Session) :
    (item.check s).node.id = item.id ∧
      (item.check s).node.kind.declaredIds = item.kind.declaredIds := by
  have hgives : Gives (fun n => n.id = item.id ∧ n.kind.declaredIds = item.kind.declaredIds)
      item.check := by
    unfold Item.check
    cases hkind : item.kind with
    | struct decl => exact gives_leaf ⟨rfl, by rw [hkind]⟩ _
    | fn decl =>
        refine gives_first ⟨rfl, by rw [hkind]⟩ fun ret => ?_
        exact gives_child (gives_true _) (fun _ _ => ⟨rfl, rfl⟩) fun _ _ _ => gives_leaf ⟨rfl, rfl⟩ _
    | const decl =>
        refine gives_first ⟨rfl, by rw [hkind]⟩ fun u => ?_
        exact gives_child (gives_true _) (fun _ _ => ⟨rfl, rfl⟩) fun _ _ _ => gives_leaf ⟨rfl, rfl⟩ _
  exact hgives s

theorem covers_check (item : Item) : Covers s item.check fun item _ => item.kind.bodyNodeIds := by
  unfold Item.check
  cases hkind : item.kind with
  | struct decl =>
      refine covers_leaf (l := []) (steady_pure ()) fun _ => ?_
      rw [hkind]
      exact s.has_nil
  | fn decl =>
      refine covers_first (steady_returnType item.id) fun ret s' _ _ => ?_
      refine covers_child (l := []) (Walk.covers_check.2.1 decl.body s') decl.body.steady
        (fun t => steady_leaf (steady_requireType _ ret t)) fun t _ hbody => ?_
      exact covers_leaf (l := []) (steady_requireType _ ret t) fun _ => hbody
  | const decl =>
      refine covers_first (steady_constType item.id) fun u s' _ _ => ?_
      refine covers_child (l := []) (Walk.covers_check.1 decl.value s') decl.value.steady
        (fun t => steady_leaf (steady_requireType _ u t)) fun t _ hvalue => ?_
      exact covers_leaf (l := []) (steady_requireType _ u t) fun _ => hvalue

end Item

namespace Program

variable {p : Program} {locations : Locations}

/-- Where nothing is reported, the bodies get types in addition to the declarations. -/
theorem has_checkAll {items : List Item}
    (hdeclared : ∀ item ∈ items, s.Has (item.id :: item.kind.declaredIds))
    (hended : (checkAll items s).2.1 = .ok ()) (herrors : (checkAll items s).2.2.sink.errors = []) :
    (checkAll items s).2.2.Has (Program.nodeIds ⟨(checkAll items s).1⟩) := by
  unfold Program.nodeIds
  induction items generalizing s with
  | nil => exact s.has_nil
  | cons item rest ih =>
      obtain ⟨hok, heq⟩ := checkAll_cons_of_errors hended herrors
      rw [heq] at hended herrors ⊢
      have hgrows := item.steady_check.grows s
      have hrest := grows_checkAll rest (item.check s).session
      obtain ⟨hid, hnames⟩ := item.declaration_check s
      have hfirst : (item.check s).session.Has (item.check s).node.nodeIds := by
        rw [Item.nodeIds, hid, hnames]
        have hitem := (hdeclared item List.mem_cons_self).after hgrows
        have hbody := item.covers_check () hok (hrest.errors_eq_nil herrors)
        rw [Session.has_cons] at hitem ⊢
        exact ⟨hitem.1, Session.has_append.2 ⟨hitem.2, hbody⟩⟩
      have hdeclared' : ∀ item' ∈ rest,
          (item.check s).session.Has (item'.id :: item'.kind.declaredIds) := fun item' h' =>
        (hdeclared item' (List.mem_cons_of_mem _ h')).after hgrows
      rw [List.flatMap_cons]
      exact Session.has_append.2 ⟨hfirst.after hrest, ih hdeclared' hended herrors⟩

/-! ## Outcomes -/

/-- A program is rejected only for what has been reported. -/
theorem errors_of_rejected {passes : List Pass} {pass : Pass}
    (h : (runAll passes p s).outcome = .ok (.rejected pass)) :
    (runAll passes p s).session.sink.errors ≠ [] := by
  induction passes generalizing p s with
  | nil => cases h
  | cons first rest ih =>
      rw [runAll] at h ⊢
      rcases hrun : p.run first s with ⟨p', d | u, s'⟩
      · simp [hrun] at h
      · simp only [hrun] at h ⊢
        split
        · rename_i hblocking
          simp only [Sink.isBlocking, Bool.and_eq_true, Bool.not_eq_true', List.isEmpty_eq_false_iff]
            at hblocking
          exact hblocking.2
        · rename_i hblocking
          rw [if_neg hblocking] at h
          exact ih h

theorem lowerable_iff : (p.check locations .fresh).outcome = .ok .lowerable ↔
    (∃ o, (p.check locations .fresh).outcome = .ok o) ∧
      (p.check locations .fresh).session.sink.errors = [] := by
  constructor
  · intro hok
    obtain ⟨_, _, _, -, -, -, -, -, herrors, -, hsession⟩ := passes_of_lowerable hok
    exact ⟨⟨_, hok⟩, hsession ▸ herrors⟩
  · rintro ⟨⟨o, hok⟩, herrors⟩
    cases o with
    | lowerable => exact hok
    | rejected pass => exact (errors_of_rejected hok herrors).elim

/-- Every node of a lowerable program has a type. -/
theorem has_of_lowerable (hnodup : p.ids.Nodup)
    (hok : (p.check locations .fresh).outcome = .ok .lowerable) :
    (p.check locations .fresh).session.Has (p.check locations .fresh).program.nodeIds := by
  obtain ⟨d, items, s, hdeclare, herrors₁, hcheck, herrors₂, hbuiltins, herrors₃, hprogram,
    hsession⟩ := passes_of_lowerable hok
  have hsignatures : p.signatureIds.Nodup :=
    (List.nodup_append.1 (p.ids_perm.nodup_iff.1 hnodup)).1
  have hdeclared := has_declareAll hsignatures (fun _ h => h)
    (d := .start (.start locations .fresh)) (fun _ _ _ _ h => by cases h) (fun h => (h rfl).elim)
  rw [hdeclare] at hdeclared
  have hbodies := has_checkAll (hdeclared rfl herrors₁)
  rw [hcheck] at hbodies
  rw [hprogram, hsession]
  intro id hid
  have hcontains := hbodies rfl herrors₂ id hid
  unfold Context.contains NodeTypes.contains at hcontains ⊢
  rw [(applyDefaults_of_errors hbuiltins herrors₃).2.1, Option.isSome_map]
  exact hcontains

/-- A program is lowerable exactly if its check ends without a defect and has reported nothing. Then
every node of the rewritten program has a type, and every type in the table is concrete. -/
theorem complete_of_lowerable (hnodup : p.ids.Nodup) :
    ((p.check locations .fresh).outcome = .ok .lowerable ↔
      (∃ o, (p.check locations .fresh).outcome = .ok o) ∧
        (p.check locations .fresh).session.sink.errors = []) ∧
    ((p.check locations .fresh).outcome = .ok .lowerable →
      (∀ id ∈ (p.check locations .fresh).program.nodeIds,
        ((p.check locations .fresh).typeOf id).isSome) ∧
      ∀ id t, (p.check locations .fresh).typeOf id = some t → t.isConcrete) := by
  refine ⟨lowerable_iff, fun hok => ⟨fun id hid => ?_, ?_⟩⟩
  · have hcontains := has_of_lowerable hnodup hok id hid
    rwa [Context.contains_eq_isSome_lookup] at hcontains
  · obtain ⟨_, _, _, -, -, -, -, hbuiltins, herrors, -, hsession⟩ := passes_of_lowerable hok
    have hconcrete := (applyDefaults_of_errors hbuiltins herrors).2.2
    intro id t ht
    rw [Checked.typeOf, hsession, Context.lookup_of_concrete hconcrete] at ht
    exact hconcrete id t ht

/-- A function that updates a struct: the nodes 14 and 15 are made from the base of the literal. -/
theorem complete_of_lowerable_update :
    let int (id : NodeId) : TypeRef := .path ⟨id, ⟨id, id + 1⟩⟩ "i32" (some .builtin) []
    let point (id : NodeId) : TypeRef := .path ⟨id, ⟨id, id + 1⟩⟩ "P" (some (.adt 4)) []
    let literal : Expr := .struct ⟨11, ⟨11, 12⟩⟩ (.ident "P" (some 4)) ⟨11, 12⟩
      [.named ⟨9, ⟨9, 10⟩⟩ "y" (.lit ⟨8, ⟨8, 9⟩⟩ (.int 1 none))]
      (some (.path ⟨10, ⟨10, 11⟩⟩ (.ident "p" (some 6))))
    let p : Program := ⟨[⟨⟨4, ⟨4, 5⟩⟩, "P", .struct ⟨.named, [],
        [⟨⟨1, ⟨1, 2⟩⟩, "x", int 0⟩, ⟨⟨3, ⟨3, 4⟩⟩, "y", int 2⟩]⟩⟩,
      ⟨⟨13, ⟨13, 14⟩⟩, "update", .fn ⟨[⟨⟨6, ⟨6, 7⟩⟩, "p", point 5⟩], some (point 7),
        .mk ⟨12, ⟨12, 13⟩⟩ [] (some literal)⟩⟩]⟩
    let c := p.check ⟨Array.replicate 14 ⟨0, 1⟩⟩ .fresh
    p.ids.Nodup ∧ c.outcome = .ok .lowerable ∧ c.session.sink.errors = [] ∧
      c.program.nodeIds = [4, 1, 3, 13, 6, 12, 11, 10, 15, 14, 10, 9, 8] ∧
      (∀ id ∈ c.program.nodeIds, (c.typeOf id).isSome) ∧
      ∀ id t, c.typeOf id = some t → t.isConcrete := by
  intro int point literal p c
  have hnodup : p.ids.Nodup := by decide +kernel
  have hok : c.outcome = .ok .lowerable := by decide +kernel
  have hnodes : c.program.nodeIds = [4, 1, 3, 13, 6, 12, 11, 10, 15, 14, 10, 9, 8] := by
    decide +kernel
  -- From here on the program need not be evaluated.
  clear_value p
  have hcomplete := @complete_of_lowerable p ⟨Array.replicate 14 ⟨0, 1⟩⟩ hnodup
  exact ⟨hnodup, hok, (hcomplete.1.1 hok).2, hnodes, hcomplete.2 hok⟩

end Program

end TypeInference

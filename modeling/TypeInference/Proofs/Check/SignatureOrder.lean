import TypeInference.Proofs.Check.SignatureDetermined
import TypeInference.Proofs.Check.Soundness
import TypeInference.Proofs.Program.References

/-!
# The order of declarations

Signature passes over the same items in two orders leave the same session where
they report nothing, and if one reports nothing then neither does the other.
-/

namespace TypeInference

/-- Tables with the same entries are the same. -/
theorem NodeTypes.ext_find? {N M : NodeTypes} (h : N.find? = M.find?) : N = M := by
  have hnodup (m : NodeTypes) : m.rows.Nodup :=
    m.ascending.imp fun {a b} (hlt : a.1 < b.1) (heq : a = b) => Nat.ne_of_lt hlt (congrArg Prod.fst heq)
  have hmem (row : NodeId × Ty) : row ∈ N.rows ↔ row ∈ M.rows := by
    constructor
    · intro hrow
      exact mem_of_find? (h ▸ find?_of_mem hrow)
    · intro hrow
      exact mem_of_find? (h ▸ find?_of_mem hrow)
  have hperm : N.rows.Perm M.rows := (List.perm_ext_iff_of_nodup (hnodup N) (hnodup M)).2 hmem
  have hrows : N.rows = M.rows := List.Perm.eq_of_pairwise
    (fun a b _ _ hab hba => absurd hab (Nat.lt_asymm hba)) N.ascending M.ascending hperm
  cases N
  cases M
  cases hrows
  rfl

theorem Typing.Within.antisymm {T F : Typing} (h : T.Within F) (h' : F.Within T) : T = F :=
  funext fun id => Option.ext fun t => ⟨h id t, h' id t⟩

namespace Program

variable {p q : Program} {locations : Locations}

/-! ## Programs with the same items -/

section

variable (hperm : p.items.Perm q.items)
include hperm

theorem signatureIds_of_perm : p.signatureIds.Perm q.signatureIds := hperm.flatMap_right _

theorem bodyIds_of_perm : p.bodyIds.Perm q.bodyIds := hperm.flatMap_right _

theorem ids_of_perm : p.ids.Perm q.ids := hperm.flatMap_right _

/-- A struct is found no matter where it stands. -/
theorem struct?_of_perm (hnodup : p.signatureIds.Nodup) : q.struct? = p.struct? := by
  have hnodup' : q.signatureIds.Nodup := (signatureIds_of_perm hperm).nodup_iff.1 hnodup
  funext id
  refine Option.ext fun ⟨item, decl⟩ => ⟨fun h => ?_, fun h => ?_⟩
  · obtain ⟨hitem, hkind, rfl⟩ := mem_of_struct? h
    exact struct?_of_mem hnodup (hperm.mem_iff.2 hitem) hkind
  · obtain ⟨hitem, hkind, rfl⟩ := mem_of_struct? h
    exact struct?_of_mem hnodup' (hperm.mem_iff.1 hitem) hkind

theorem WellResolved.of_perm (hp : p.WellResolved) : q.WellResolved := by
  constructor
  case adt =>
    intro item hitem id hid
    obtain ⟨s, hs, hstruct⟩ := hp.adt item (hperm.mem_iff.2 hitem) id hid
    exact ⟨s, hperm.mem_iff.1 hs, hstruct⟩
  case param => exact fun item hitem => hp.param item (hperm.mem_iff.2 hitem)
  case complete => exact fun item hitem => hp.complete item (hperm.mem_iff.2 hitem)

theorem WellScoped.of_perm (hp : p.WellScoped) : q.WellScoped := by
  intro item hitem id hid
  rw [← (hperm.map Item.id).mem_iff]
  exact hp item (hperm.mem_iff.2 hitem) id hid

end

/-! ## Signature passes -/

/-- A signature pass that reports nothing has declared every item. -/
theorem signedIn_of_signatures (hnodup : p.signatureIds.Nodup) (hp : p.WellResolved) {d : Declaring}
    (hrun : p.declareAll p.items (.start (.start locations .fresh)) = (.ok (), d))
    (herrors : d.session.sink.errors = []) :
    ∃ N, d.session = .signing locations .fresh N ∧
      ∀ item ∈ p.items, item.SignedIn p.struct? N.find? := by
  have hempty (i : NodeId) : ¬ NodeTypes.empty.contains i := by
    simp [NodeTypes.contains, NodeTypes.find?, NodeTypes.empty]
  have hsigned := signedIn_declareAll (l := locations) (k := .fresh) (N := .empty) hnodup hp
    (fun _ h => h) hnodup ⟨fun _ _ _ _ i _ hi => (hempty i hi).elim, fun id _ hid => (hempty id hid).elim⟩
    fun _ _ _ i _ => hempty i
  rw [show (⟨.signing locations .fresh .empty, []⟩ : Declaring) = .start (.start locations .fresh)
    from rfl, hrun] at hsigned
  obtain ⟨N, hsession, -, hall⟩ := hsigned rfl herrors
  exact ⟨N, hsession, hall⟩

/-- Where a table declares every item, the pass reports nothing and records entries of it. -/
theorem signatures_of_signedIn (locations : Locations) (hp : p.WellResolved) {F : Typing}
    (hsigned : ∀ item ∈ p.items, item.SignedIn p.struct? F) :
    ∃ N, p.declareAll p.items (.start (.start locations .fresh)) =
        (.ok (), ⟨.signing locations .fresh N, []⟩) ∧ Typing.Within N.find? F :=
  declareAll_of_signedIn hp (fun _ h => h) hsigned (N := .empty) fun _ _ h => by cases h

/-- Signature passes over the same items do the same where one of them reports nothing. -/
theorem signatures_of_perm (hnodup : p.signatureIds.Nodup) (hp : p.WellResolved)
    (hperm : p.items.Perm q.items) {d : Declaring}
    (hrun : p.declareAll p.items (.start (.start locations .fresh)) = (.ok (), d))
    (herrors : d.session.sink.errors = []) :
    ∃ N, d.session = .signing locations .fresh N ∧
      q.declareAll q.items (.start (.start locations .fresh)) =
        (.ok (), ⟨.signing locations .fresh N, []⟩) := by
  have hnodup' : q.signatureIds.Nodup := (signatureIds_of_perm hperm).nodup_iff.1 hnodup
  have hstruct := struct?_of_perm hperm hnodup
  obtain ⟨N, hsession, hsigned⟩ := signedIn_of_signatures hnodup hp hrun herrors
  obtain ⟨M, hrun', hwithin⟩ := signatures_of_signedIn locations (hp.of_perm hperm)
    fun item hitem => hstruct ▸ hsigned item (hperm.mem_iff.2 hitem)
  obtain ⟨M', hsession', hsigned'⟩ := signedIn_of_signatures hnodup' (hp.of_perm hperm) hrun' rfl
  obtain ⟨N', hrun'', hwithin'⟩ := signatures_of_signedIn locations hp
    fun item hitem => hstruct ▸ hsigned' item (hperm.mem_iff.1 hitem)
  -- The table that either pass leaves determines the other pass.
  obtain rfl : M = M' := congrArg (·.context.types) hsession'
  obtain rfl : N' = N := by
    rw [hrun] at hrun''
    rw [(Prod.mk.inj hrun'').2] at hsession
    exact congrArg (·.context.types) hsession
  obtain rfl : M = N' := NodeTypes.ext_find? (hwithin.antisymm hwithin')
  exact ⟨M, hsession, hrun'⟩

end Program

end TypeInference

import TypeInference.Proofs.Check.Passes
import TypeInference.Proofs.Program.Resolutions

/-!
# Invariants of the signature pass

An invariant of sessions that reading and recording keep is kept by the whole
signature pass, also where it fails. What is known of a type that was read for a
name is at hand when the name and its item are recorded.
-/

namespace TypeInference

variable {I : Session → Prop} {α β : Type} {Q : α → Prop} {R : β → Prop}

namespace Check

/-- Whether the invariant is kept, and a result has the property. -/
def Maintains (I : Session → Prop) (x : Check α) (Q : α → Prop) : Prop :=
  ∀ s, I s → I (x.perform s).2 ∧ ∀ a, (x.perform s).1 = .ok a → Q a

theorem maintains_pure {a : α} (h : Q a) : Maintains I (pure a : Check α) Q := by
  refine fun s hs => ⟨hs, fun b hb => ?_⟩
  rwa [← Except.ok.inj hb]

theorem Maintains.bind {x : Check α} {f : α → Check β} (hx : Maintains I x Q)
    (hf : ∀ a, Q a → Maintains I (f a) R) : Maintains I (x >>= f) R := by
  intro s hs
  obtain ⟨hs', hresult⟩ := hx s hs
  rw [perform_bind]
  rcases hrun : x.perform s with ⟨e | a, s'⟩
  · rw [hrun] at hs'
    exact ⟨hs', fun b hb => by cases hb⟩
  · rw [hrun] at hs' hresult
    exact hf a (hresult a rfl) s' hs'

end Check

def Session.IsQuiet (I : Session → Prop) : Prop :=
  ∀ s cause span, I s → I ((Check.report cause span).perform s).2

namespace Check

theorem maintains_giveUp (hI : Session.IsQuiet I) (cause : Cause) (span : Span) :
    Maintains I (giveUp cause span : Check α) Q :=
  fun s hs => ⟨hI s cause span hs, fun _ ha => by cases ha⟩

theorem maintains_readAll {position : Position} {ts : List TypeRef} {Q : Ty → Prop}
    (h : ∀ t ∈ ts, Maintains I (t.read position) Q) :
    Maintains I (TypeRef.readAll position ts) fun tys => ∀ t ∈ tys, Q t := by
  induction ts with
  | nil =>
      rw [TypeRef.readAll]
      exact maintains_pure (by simp)
  | cons t ts ih =>
      rw [List.forall_mem_cons] at h
      rw [TypeRef.readAll]
      exact h.1.bind fun ty hty => (ih h.2).bind fun tys htys =>
        maintains_pure (List.forall_mem_cons.2 ⟨hty, htys⟩)

end Check

namespace Declare

/-- Whether the invariant is kept, and a result has the property. -/
def Maintains (I : Session → Prop) (x : Declare α) (Q : α → Prop) : Prop :=
  ∀ d : Declaring, I d.session →
    I (x.perform d).2.session ∧ ∀ a, (x.perform d).1 = .ok a → Q a

theorem maintains_pure {a : α} (h : Q a) : Maintains I (pure a : Declare α) Q := by
  refine fun d hd => ⟨hd, fun b hb => ?_⟩
  rwa [← Except.ok.inj hb]

theorem Maintains.bind {x : Declare α} {f : α → Declare β} (hx : Maintains I x Q)
    (hf : ∀ a, Q a → Maintains I (f a) R) : Maintains I (x >>= f) R := by
  intro d hd
  obtain ⟨hd', hresult⟩ := hx d hd
  rw [perform_bind]
  rcases hrun : x.perform d with ⟨e | a, d'⟩
  · rw [hrun] at hd'
    exact ⟨hd', fun b hb => by cases hb⟩
  · rw [hrun] at hd' hresult
    exact hf a (hresult a rfl) d' hd'

theorem maintains_ofCheck {x : Check α} (h : Check.Maintains I x Q) : Maintains I (ofCheck x) Q :=
  fun d hd => h d.session hd

theorem maintains_noting (id : NodeId) {x : Declare Unit} {Q : Unit → Prop} (h : Maintains I x Q) :
    Maintains I (noting id x) Q := by
  intro d hd
  obtain ⟨hd', hresult⟩ := h d hd
  rw [perform_noting]
  rcases hrun : x.perform d with ⟨e | a, d'⟩
  · rw [hrun] at hd'
    exact ⟨hd', fun _ h => by cases h⟩
  · rw [hrun] at hd' hresult
    exact ⟨hd', fun _ _ => hresult () rfl⟩

theorem maintains_unlessKnown (hI : Session.IsQuiet I)
    {structs : NodeId → Option (Item × StructDecl)} (path : List NodeId) (id : NodeId)
    {declare : Item → StructDecl → Declare Unit} (h : ∀ item decl, structs id = some (item, decl) →
      Maintains I (declare item decl) fun _ => True) :
    Maintains I (unlessKnown structs path id declare) fun _ => True := by
  intro d hd
  rw [perform_unlessKnown]
  split
  · exact ⟨hd, fun _ _ => trivial⟩
  · split
    · exact ⟨hd, fun _ _ => trivial⟩
    · rename_i item decl hstruct
      split
      · exact ⟨hI d.session _ _ hd, fun _ _ => trivial⟩
      · split
        · exact ⟨hd, fun _ _ => trivial⟩
        · exact maintains_noting id (h item decl hstruct) d hd

theorem maintains_recordParams {gs : List (GenericParam × Param)} (h : ∀ g ∈ gs,
    Check.Maintains I (Check.record g.1.mark.id (.param g.2)) fun _ => True) :
    Maintains I (recordParams gs) fun _ => True := by
  induction gs with
  | nil => exact maintains_pure trivial
  | cons g gs ih =>
      rw [List.forall_mem_cons] at h
      exact (maintains_ofCheck h.1).bind fun _ _ => ih h.2

section

variable {demand : NodeId → Declare Unit} (hdemand : ∀ id, Maintains I (demand id) fun _ => True)
include hdemand

theorem maintains_forM (structs : List NodeId) :
    Maintains I (structs.forM demand) fun _ => True := by
  induction structs with
  | nil => exact maintains_pure trivial
  | cons id rest ih => exact (hdemand id).bind fun _ _ => ih

theorem maintains_read {t : TypeRef} {Q : Ty → Prop}
    (h : Check.Maintains I (t.read .signature) Q) : Maintains I (read demand t) Q :=
  (maintains_forM hdemand t.structs).bind fun _ _ => maintains_ofCheck h

theorem maintains_readNames {xs : List TypedName} {Q : TypedName → Ty → Prop}
    (hread : ∀ x ∈ xs, Check.Maintains I (x.ty.read .signature) (Q x))
    (hrecord : ∀ x ∈ xs, ∀ ty, Q x ty →
      Check.Maintains I (Check.record x.mark.id ty) fun _ => True) :
    Maintains I (readNames demand xs) (List.Forall₂ Q xs) := by
  induction xs with
  | nil => exact maintains_pure .nil
  | cons x xs ih =>
      rw [List.forall_mem_cons] at hread hrecord
      refine (maintains_read hdemand hread.1).bind fun ty hty => ?_
      refine (maintains_ofCheck (hrecord.1 ty hty)).bind fun _ _ => ?_
      exact (ih hread.2 hrecord.2).bind fun tys htys => maintains_pure (.cons hty htys)

end

/-- A struct is declared if every one that it demands is. -/
theorem maintains_demand (hI : Session.IsQuiet I) {structs : NodeId → Option (Item × StructDecl)}
    (hstruct : ∀ demand id item decl, structs id = some (item, decl) →
      (∀ id, Maintains I (demand id) fun _ => True) →
        Maintains I (struct demand item decl) fun _ => True)
    (depth : Nat) (path : List NodeId) (id : NodeId) :
    Maintains I (demand structs depth path id) fun _ => True := by
  induction depth generalizing path id with
  | zero => exact maintains_unlessKnown hI path id fun _ _ _ => maintains_pure trivial
  | succ depth ih =>
      exact maintains_unlessKnown hI path id fun item decl h =>
        hstruct _ id item decl h fun id' => ih (id :: path) id'

end Declare

/-- Every type was read for a name, and for every name a type was read. -/
theorem exists_of_forall₂ {Q : TypedName → Ty → Prop} {xs : List TypedName} {tys : List Ty}
    (h : List.Forall₂ Q xs tys) :
    (∀ ty ∈ tys, ∃ x ∈ xs, Q x ty) ∧ ∀ x ∈ xs, ∃ ty ∈ tys, Q x ty := by
  induction h with
  | nil => simp
  | cons hx _ ih =>
      simp only [List.mem_cons, forall_eq_or_imp, exists_eq_or_imp]
      exact ⟨⟨.inl hx, fun ty hty => .inr (ih.1 ty hty)⟩, .inl hx, fun x hx => .inr (ih.2 x hx)⟩

/-- A run of declarations keeps an invariant that every one of them keeps. -/
theorem Program.maintains_declareAll {p : Program} {items : List Item}
    (h : ∀ item ∈ items, Declare.Maintains I (p.declare item) fun _ => True) {d : Declaring}
    (hd : I d.session) : I (p.declareAll items d).2.session := by
  induction items generalizing d with
  | nil => exact hd
  | cons item rest ih =>
      rw [List.forall_mem_cons] at h
      obtain ⟨hd', -⟩ := h.1 d hd
      rw [declareAll]
      rcases hrun : (p.declare item).perform d with ⟨e | u, d'⟩
      · rw [hrun] at hd'
        cases e with
        | defect e => exact hd'
        | program => exact hd'
        | item => exact ih h.2 hd'
      · rw [hrun] at hd'
        exact ih h.2 hd'

end TypeInference

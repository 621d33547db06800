import TypeInference.Proofs.Check.SignatureTable

/-!
# What a signature pass leaves

A declaration that succeeds has added entries for nodes that had none. A struct
is declared once, while nothing else of its signature is: it is either known or
on the path. So where nothing is reported, the table declares every item.
-/

namespace TypeInference

open Declare

/-! ## Tables that grow -/

structure NodeTypes.Adds (may : NodeId → Prop) (N N' : NodeTypes) : Prop where
  within : Typing.Within N.find? N'.find?
  added : ∀ i, N'.contains i → N.contains i ∨ may i

namespace NodeTypes

variable {may may' : NodeId → Prop} {N N' N'' : NodeTypes}

theorem contains_iff {i : NodeId} : N.contains i ↔ ∃ t, N.find? i = some t :=
  Option.isSome_iff_exists

theorem contains_of_within (h : Typing.Within N.find? N'.find?) {i : NodeId} (hi : N.contains i) :
    N'.contains i := by
  obtain ⟨t, ht⟩ := contains_iff.1 hi
  exact contains_iff.2 ⟨t, h i t ht⟩

theorem adds_refl (may : NodeId → Prop) (N : NodeTypes) : Adds may N N :=
  ⟨.refl _, fun _ h => .inl h⟩

theorem Adds.trans (h : Adds may N N') (h' : Adds may N' N'') : Adds may N N'' :=
  ⟨h.within.trans h'.within, fun i hi => (h'.added i hi).elim (h.added i) .inr⟩

theorem Adds.mono (h : Adds may N N') (hmay : ∀ i, may i → may' i) : Adds may' N N' :=
  ⟨h.within, fun i hi => (h.added i hi).imp_right (hmay i)⟩

/-- What a table has no entry for and gets none for. -/
theorem Adds.new (h : Adds may N N') {i : NodeId} (hi : ¬ N.contains i) (hmay : ¬ may i) :
    ¬ N'.contains i := fun h' => (h.added i h').elim hi hmay

theorem adds_insert {i : NodeId} (hi : ¬ N.contains i) (t : Ty) (hmay : may i) :
    Adds may N (N.insert i t) := by
  constructor
  case within =>
    intro j u hu
    have hne : j ≠ i := fun heq => hi (heq ▸ contains_iff.2 ⟨u, hu⟩)
    rw [find?_insert, if_neg hne, hu]
  case added =>
    intro j hj
    rw [contains_insert, Bool.or_eq_true, beq_iff_eq] at hj
    rcases hj with rfl | hj
    · exact .inr hmay
    · exact .inl hj

end NodeTypes

variable {α β : Type} {l : Locations} {k : Sink} {N : NodeTypes}

/-! ## Successful computations on tables -/

/-- Whether a success of the computation changes nothing but the table, and what holds of the new
one and of the result. -/
def Check.Yields (l : Locations) (k : Sink) (N : NodeTypes) (x : Check α)
    (Q : NodeTypes → α → Prop) : Prop :=
  ∀ a s', x.perform (.signing l k N) = (.ok a, s') → ∃ N', s' = .signing l k N' ∧ Q N' a

/-- The same of a declaration that finds no failed struct. -/
def Declare.Yields (l : Locations) (k : Sink) (N : NodeTypes) (x : Declare α)
    (Q : NodeTypes → α → Prop) : Prop :=
  ∀ a d', x.perform ⟨.signing l k N, []⟩ = (.ok a, d') → ∃ N', d' = ⟨.signing l k N', []⟩ ∧ Q N' a

namespace Check

variable {Q : NodeTypes → α → Prop} {Q' : NodeTypes → β → Prop}

theorem yields_of_perform {x : Check α} {a : α} {M : NodeTypes}
    (hrun : x.perform (.signing l k N) = (.ok a, .signing l k M)) (h : Q M a) :
    Yields l k N x Q := by
  intro b s' hb
  obtain ⟨rfl, rfl⟩ : a = b ∧ .signing l k M = s' := by simpa [hrun] using hb
  exact ⟨M, rfl, h⟩

theorem Yields.imp {x : Check α} {P : NodeTypes → α → Prop} (h : Yields l k N x P)
    (hPQ : ∀ N' a, P N' a → Q N' a) : Yields l k N x Q := by
  intro a s' hrun
  obtain ⟨N', rfl, ha⟩ := h a s' hrun
  exact ⟨N', rfl, hPQ N' a ha⟩

theorem Yields.bind {x : Check α} {f : α → Check β} (hx : Yields l k N x Q)
    (hf : ∀ N' a, Q N' a → Yields l k N' (f a) Q') : Yields l k N (x >>= f) Q' := by
  intro b s' hrun
  rw [perform_bind] at hrun
  rcases hfirst : x.perform (.signing l k N) with ⟨e | a, s₁⟩
  · simp [hfirst] at hrun
  · obtain ⟨N₁, rfl, ha⟩ := hx a s₁ hfirst
    rw [hfirst] at hrun
    exact hf N₁ a ha b s' hrun

theorem yields_giveUp (cause : Cause) (span : Span) :
    Yields l k N (giveUp cause span : Check α) Q := by
  intro a s' hrun
  simp at hrun

theorem yields_lookup (id : NodeId) :
    Yields l k N (lookup id) fun N' r => N' = N ∧ r = N.find? id :=
  yields_of_perform (M := N) (by rw [perform_lookup, Session.lookup_signing]) ⟨rfl, rfl⟩

theorem yields_recorded (id : NodeId) (t : Ty) :
    Yields l k N (recorded id t) fun N' u => N' = N.insert id t ∧ u = t :=
  yields_of_perform (M := N.insert id t) rfl ⟨rfl, rfl⟩

theorem yields_withArgs (a : Adt Ty) (tys : List Ty) (span : Span) :
    Yields l k N (a.withArgs tys span) fun N' b => N' = N ∧ a.apply tys = .ok b := by
  unfold Adt.withArgs
  cases h : a.apply tys with
  | ok b => exact yields_of_perform (M := N) (perform_pure _ _) ⟨rfl, rfl⟩
  | error e => exact yields_giveUp _ _

end Check

/-! ## Reading written types -/

namespace TypeRef

open Check NodeTypes

/-- What reading a type leaves, in a table that has no entries for it yet. -/
def Readable (t : TypeRef) : Prop :=
  t.isComplete → t.ids.Nodup → ∀ l k (N : NodeTypes), (∀ i ∈ t.ids, ¬ N.contains i) →
    Yields l k N (t.read .signature) fun N' ty => Adds (· ∈ t.ids) N N' ∧ t.Reads N'.find? ty

theorem yields_readAll {ts : List TypeRef} (h : ∀ t ∈ ts, t.Readable)
    (hcomplete : ∀ t ∈ ts, t.isComplete) (hnodup : (idsAll ts).Nodup)
    (hnew : ∀ i ∈ idsAll ts, ¬ N.contains i) :
    Yields l k N (readAll .signature ts) fun N' tys =>
      Adds (· ∈ idsAll ts) N N' ∧ ReadsAll N'.find? ts tys := by
  induction ts generalizing N with
  | nil =>
      rw [readAll]
      exact yields_of_perform (M := N) (perform_pure _ _) ⟨adds_refl _ N, rfl⟩
  | cons t ts ih =>
      rw [readAll]
      rw [idsAll, List.nodup_append] at hnodup
      obtain ⟨hfirst, hrest, hdisjoint⟩ := hnodup
      have hleft : ∀ i ∈ t.ids, i ∈ idsAll (t :: ts) := fun i hi => List.mem_append_left _ hi
      have hright : ∀ i ∈ idsAll ts, i ∈ idsAll (t :: ts) := fun i hi => List.mem_append_right _ hi
      refine (h t List.mem_cons_self (hcomplete t List.mem_cons_self) hfirst l k N fun i hi =>
        hnew i (hleft i hi)).bind fun N₁ ty hfirst => ?_
      obtain ⟨hadds, hty⟩ := hfirst
      refine (ih (fun u hu => h u (List.mem_cons_of_mem _ hu))
        (fun u hu => hcomplete u (List.mem_cons_of_mem _ hu)) hrest fun i hi =>
          hadds.new (hnew i (hright i hi)) fun hi' => hdisjoint i hi' i hi rfl).bind
        fun N₂ tys hrest => ?_
      obtain ⟨hadds', htys⟩ := hrest
      exact yields_of_perform (M := N₂) (perform_pure _ _)
        ⟨(hadds.mono hleft).trans (hadds'.mono hright), ty, tys, rfl, hty.within hadds'.within, htys⟩

theorem readable_struct {m : Mark} {name : String} {id : NodeId} {args : List TypeRef}
    (ih : ∀ t ∈ args, t.Readable) : (path m name (some (.adt id)) args).Readable := by
  intro hcomplete hnodup l k N hnew
  refine (yields_lookup id).bind ?_
  rintro _ r ⟨rfl, rfl⟩
  split
  · rename_i a ha
    rw [isComplete, areComplete_iff] at hcomplete
    rw [ids, List.nodup_cons] at hnodup
    have hwritten : ¬ (args.isEmpty && Position.signature == .body) := by simp
    rw [if_neg hwritten]
    refine (yields_readAll ih hcomplete hnodup.2 fun i hi =>
      hnew i (List.mem_cons_of_mem _ hi)).bind fun N₁ tys hargs => ?_
    obtain ⟨hadds, htys⟩ := hargs
    refine (yields_withArgs a tys m.span).bind ?_
    rintro N₂ b ⟨rfl, hb⟩
    refine (yields_recorded m.id (.adt b)).imp ?_
    rintro _ _ ⟨rfl, rfl⟩
    have hinsert : Adds (· ∈ (path m name (some (.adt id)) args).ids) N₂
        (N₂.insert m.id (.adt b)) :=
      adds_insert (hadds.new (hnew m.id List.mem_cons_self) hnodup.1) _ List.mem_cons_self
    refine ⟨(hadds.mono fun i hi => List.mem_cons_of_mem _ hi).trans hinsert, a, tys, b,
      hinsert.within _ _ (hadds.within _ _ ha), htys.within hinsert.within, hb, rfl, by simp⟩
  · exact yields_giveUp _ _
  · exact yields_giveUp _ _

theorem readable (t : TypeRef) : t.Readable := by
  induction t with
  | unit m =>
      intro _ _ l k N hnew
      refine (yields_recorded m.id .unit).imp ?_
      rintro _ _ ⟨rfl, rfl⟩
      exact ⟨adds_insert (hnew m.id (by simp [ids])) _ (by simp [ids]), rfl, by simp⟩
  | infer m => exact fun h => by simp [isComplete] at h
  | unresolved m name args => exact fun _ _ _ _ _ _ => yields_giveUp _ _
  | builtin m name args =>
      intro _ _ l k N hnew
      refine (yields_of_perform (Q := fun N' r => N' = N ∧ r = Context.initial.builtin? name)
        (M := N) rfl ⟨rfl, rfl⟩).bind ?_
      rintro _ r ⟨rfl, rfl⟩
      split
      · rename_i ty hty
        refine (yields_recorded m.id ty).imp ?_
        rintro _ _ ⟨rfl, rfl⟩
        exact ⟨adds_insert (hnew m.id (by simp [ids])) _ (by simp [ids]), hty, by simp⟩
      · exact yields_giveUp _ _
  | adt m name id args ih => exact readable_struct ih
  | param m name id args =>
      intro _ _ l k N hnew
      refine (yields_lookup id).bind ?_
      rintro N r ⟨rfl, rfl⟩
      split
      · rename_i ty hty
        refine (yields_recorded m.id ty).imp ?_
        rintro _ u ⟨rfl, rfl⟩
        have hinsert : Adds (· ∈ (path m name (some (.param id)) args).ids) N (N.insert m.id u) :=
          adds_insert (hnew m.id (by simp [ids])) u (by simp [ids])
        exact ⟨hinsert, hinsert.within _ _ hty, by simp⟩
      · exact yields_giveUp _ _

end TypeRef

namespace Declare

variable {Q : NodeTypes → α → Prop} {Q' : NodeTypes → β → Prop}

theorem yields_pure {a : α} (h : Q N a) : Yields l k N (pure a) Q := by
  intro b d' hrun
  obtain ⟨rfl, rfl⟩ : a = b ∧ _ = d' := by simpa using hrun
  exact ⟨N, rfl, h⟩

theorem Yields.imp {x : Declare α} {P : NodeTypes → α → Prop} (h : Yields l k N x P)
    (hPQ : ∀ N' a, P N' a → Q N' a) : Yields l k N x Q := by
  intro a d' hrun
  obtain ⟨N', rfl, ha⟩ := h a d' hrun
  exact ⟨N', rfl, hPQ N' a ha⟩

theorem Yields.bind {x : Declare α} {f : α → Declare β} (hx : Yields l k N x Q)
    (hf : ∀ N' a, Q N' a → Yields l k N' (f a) Q') : Yields l k N (x >>= f) Q' := by
  intro b d' hrun
  rw [perform_bind] at hrun
  rcases hfirst : x.perform ⟨.signing l k N, []⟩ with ⟨e | a, d₁⟩
  · simp [hfirst] at hrun
  · obtain ⟨N₁, rfl, ha⟩ := hx a d₁ hfirst
    rw [hfirst] at hrun
    exact hf N₁ a ha b d' hrun

theorem yields_ofCheck {x : Check α} (hx : Check.Yields l k N x Q) : Yields l k N (ofCheck x) Q := by
  intro a d' hrun
  rw [perform_ofCheck] at hrun
  obtain ⟨hok, rfl⟩ := Prod.mk.inj hrun
  obtain ⟨N', hs, ha⟩ := hx a _ (Prod.ext hok rfl)
  exact ⟨N', congrArg (Declaring.mk · []) hs, ha⟩

theorem yields_record (id : NodeId) (t : Ty) :
    Yields l k N (ofCheck (Check.record id t)) fun N' _ => N' = N.insert id t :=
  yields_ofCheck (Check.yields_of_perform (M := N.insert id t) rfl rfl)

theorem yields_noting {x : Declare Unit} {Q : NodeTypes → Unit → Prop} (id : NodeId)
    (h : Yields l k N x Q) : Yields l k N (noting id x) Q := by
  intro a d' hrun
  rw [perform_noting] at hrun
  rcases hfirst : x.perform ⟨.signing l k N, []⟩ with ⟨e | u, d₁⟩
  · simp [hfirst] at hrun
  · obtain ⟨N₁, rfl, hu⟩ := h u d₁ hfirst
    obtain ⟨-, rfl⟩ : () = a ∧ _ = d' := by simpa [hfirst] using hrun
    exact ⟨N₁, rfl, hu⟩

end Declare

/-! ## Declarations -/

namespace Program

open NodeTypes

variable {p : Program}

def Outside (p : Program) (path : List NodeId) (i : NodeId) : Prop :=
  ∃ id item decl, p.struct? id = some (item, decl) ∧ id ∉ path ∧ i ∈ item.signatureIds

theorem Outside.of_cons {path : List NodeId} {id i : NodeId} (h : p.Outside (id :: path) i) :
    p.Outside path i := by
  obtain ⟨id', item, decl, hstruct, hpath, hi⟩ := h
  exact ⟨id', item, decl, hstruct, fun h => hpath (List.mem_cons_of_mem _ h), hi⟩

/-- Nodes of signatures that only what is on the path may record, and that are no structs. -/
def Own (p : Program) (path : List NodeId) (i : NodeId) : Prop :=
  ¬ p.Outside path i ∧ p.struct? i = none

/-- What holds of the table while the structs on the path are being declared: whatever else has been
begun is known, and what is known is founded. -/
structure Progress (p : Program) (path : List NodeId) (N : NodeTypes) : Prop where
  begun : ∀ id item decl, p.struct? id = some (item, decl) → ∀ i ∈ item.signatureIds,
    N.contains i → N.contains id ∨ id ∈ path
  founded : ∀ id, (p.struct? id).isSome → N.contains id → Founded p.struct? N.find? id

/-- What holds on a path holds once another struct is being declared. -/
theorem Progress.begin {path : List NodeId} (h : p.Progress path N) (id : NodeId) :
    p.Progress (id :: path) N :=
  ⟨fun id' item decl hstruct i hi hcontains =>
    (h.begun id' item decl hstruct i hi hcontains).imp_right (List.mem_cons_of_mem _), h.founded⟩

theorem Progress.adds {path : List NodeId} {may : NodeId → Prop} {N' : NodeTypes}
    (h : p.Progress path N) (hadds : Adds may N N') (hmay : ∀ i, may i → p.Own path i) :
    p.Progress path N' := by
  constructor
  case begun =>
    intro id item decl hstruct i hi hcontains
    rcases hadds.added i hcontains with hbefore | hnew
    · exact (h.begun id item decl hstruct i hi hbefore).imp_left (contains_of_within hadds.within)
    · refine .inr (by_contra fun hpath => (hmay i hnew).1 ⟨id, item, decl, hstruct, hpath, hi⟩)
  case founded =>
    intro id hstruct hcontains
    rcases hadds.added id hcontains with hbefore | hnew
    · exact (h.founded id hstruct hbefore).within hadds.within
    · rw [(hmay id hnew).2] at hstruct
      cases hstruct

/-- Whether demands for structs do what they should while the structs on the path are declared. -/
def Serves (p : Program) (path : List NodeId) (demand : NodeId → Declare Unit) : Prop :=
  ∀ l k N id, (p.struct? id).isSome → p.Progress path N →
    Yields l k N (demand id) fun N' _ =>
      Adds (p.Outside path) N N' ∧ p.Progress path N' ∧ N'.contains id

section

variable {path : List NodeId} {demand : NodeId → Declare Unit} (hdemand : p.Serves path demand)
include hdemand

theorem yields_forM {ids : List NodeId} (hids : ∀ id ∈ ids, (p.struct? id).isSome)
    (hN : p.Progress path N) :
    Yields l k N (ids.forM demand) fun N' _ =>
      Adds (p.Outside path) N N' ∧ p.Progress path N' ∧ ∀ id ∈ ids, N'.contains id := by
  induction ids generalizing N with
  | nil => exact yields_pure ⟨adds_refl _ N, hN, by simp⟩
  | cons id ids ih =>
      refine (hdemand l k N id (hids id List.mem_cons_self) hN).bind
        fun N₁ _ ⟨hadds, hN₁, hid⟩ => ?_
      intro a d' hrun
      obtain ⟨N₂, rfl, hadds', hN₂, hrest⟩ :=
        ih (fun id' h' => hids id' (List.mem_cons_of_mem _ h')) hN₁ a d' hrun
      exact ⟨N₂, rfl, hadds.trans hadds', hN₂,
        List.forall_mem_cons.2 ⟨contains_of_within hadds'.within hid, hrest⟩⟩

theorem yields_read {t : TypeRef} (hcomplete : t.isComplete)
    (hstructs : ∀ id ∈ t.structs, (p.struct? id).isSome) (hnodup : t.ids.Nodup)
    (hown : ∀ i ∈ t.ids, p.Own path i) (hnew : ∀ i ∈ t.ids, ¬ N.contains i) (hN : p.Progress path N) :
    Yields l k N (read demand t) fun N' ty =>
      Adds (fun i => p.Outside path i ∨ i ∈ t.ids) N N' ∧ p.Progress path N' ∧
        (∀ id ∈ t.structs, Founded p.struct? N'.find? id) ∧ t.Reads N'.find? ty := by
  refine (yields_forM hdemand hstructs hN).bind fun N₁ _ ⟨hadds, hN₁, hknown⟩ => yields_ofCheck ?_
  refine (t.readable hcomplete hnodup l k N₁ fun i hi => hadds.new (hnew i hi) (hown i hi).1).imp
    fun N₂ ty ⟨hadds', hty⟩ => ?_
  refine ⟨(hadds.mono fun _ => .inl).trans (hadds'.mono fun _ => .inr), hN₁.adds hadds' hown,
    fun id hid => ?_, hty⟩
  exact (hN₁.founded id (hstructs id hid) (hknown id hid)).within hadds'.within

theorem yields_readNames {xs : List TypedName} (hcomplete : ∀ x ∈ xs, x.ty.isComplete)
    (hstructs : ∀ x ∈ xs, ∀ id ∈ x.ty.structs, (p.struct? id).isSome)
    (hnodup : (xs.flatMap TypedName.ids).Nodup) (hown : ∀ i ∈ xs.flatMap TypedName.ids, p.Own path i)
    (hnew : ∀ i ∈ xs.flatMap TypedName.ids, ¬ N.contains i) (hN : p.Progress path N) :
    Yields l k N (readNames demand xs) fun N' tys =>
      Adds (fun i => p.Outside path i ∨ i ∈ xs.flatMap TypedName.ids) N N' ∧ p.Progress path N' ∧
        (∀ x ∈ xs, ∀ id ∈ x.ty.structs, Founded p.struct? N'.find? id) ∧
        TypedName.ReadsAll N'.find? xs tys := by
  induction xs generalizing N with
  | nil => exact yields_pure ⟨adds_refl _ N, hN, by simp, .nil⟩
  | cons x xs ih =>
      rw [List.flatMap_cons] at hnodup hown hnew ⊢
      rw [TypedName.ids] at hnodup hown hnew ⊢
      rw [List.forall_mem_cons] at hcomplete hstructs
      obtain ⟨hfirst, hrest, hdisjoint⟩ := List.nodup_append.1 hnodup
      obtain ⟨hx, hty⟩ := List.nodup_cons.1 hfirst
      have hnot {N' : NodeTypes} (hadds : Adds (fun i => p.Outside path i ∨ i ∈ x.ty.ids) N N')
          {i : NodeId} (hi : i ∈ x.mark.id :: x.ty.ids ++ xs.flatMap TypedName.ids)
          (hti : i ∉ x.ty.ids) : ¬ N'.contains i :=
        hadds.new (hnew i hi) (not_or.2 ⟨(hown i hi).1, hti⟩)
      have hleft {i : NodeId} (hi : i ∈ x.ty.ids) :
          i ∈ x.mark.id :: x.ty.ids ++ xs.flatMap TypedName.ids :=
        List.mem_append_left _ (List.mem_cons_of_mem _ hi)
      refine (yields_read hdemand hcomplete.1 hstructs.1 hty (fun i hi => hown i (hleft hi))
        (fun i hi => hnew i (hleft hi)) hN).bind fun N₁ ty hfirst => ?_
      obtain ⟨hadds, hN₁, hfounded, hread⟩ := hfirst
      refine (yields_record x.mark.id ty).bind ?_
      rintro N₂ _ rfl
      have hmark : x.mark.id ∈ x.mark.id :: x.ty.ids ++ xs.flatMap TypedName.ids := by simp
      have hrecord : Adds (· = x.mark.id) N₁ (N₁.insert x.mark.id ty) :=
        adds_insert (hnot hadds hmark hx) ty rfl
      have hN₂ := hN₁.adds hrecord fun i hi => hi ▸ hown _ hmark
      refine (ih hcomplete.2 hstructs.2 hrest (fun i hi => hown i (List.mem_append_right _ hi))
        (fun i hi => hrecord.new (hnot hadds (List.mem_append_right _ hi) fun h => ?_) fun h => ?_)
          hN₂).bind fun N₃ tys hrest => ?_
      · exact hdisjoint i (List.mem_cons_of_mem _ h) i hi rfl
      · exact hdisjoint i (h ▸ List.mem_cons_self) i hi rfl
      obtain ⟨hadds', hN₃, hfounded', hread'⟩ := hrest
      have hwithin := hrecord.within.trans hadds'.within
      refine yields_pure ⟨?_, hN₃, List.forall_mem_cons.2 ⟨fun id hid =>
        (hfounded id hid).within hwithin, hfounded'⟩,
        .cons ⟨hread.within hwithin, hadds'.within _ _ (by simp)⟩ hread'⟩
      refine ((hadds.mono fun i => Or.imp_right hleft).trans (hrecord.mono fun i hi => ?_)).trans
        (hadds'.mono fun i => Or.imp_right (List.mem_append_right _))
      exact .inr (hi ▸ hmark)

end

theorem yields_recordParams {gs : List (GenericParam × Param)}
    (hnodup : (gs.map fun g => g.1.mark.id).Nodup)
    (hnew : ∀ g ∈ gs, ¬ N.contains g.1.mark.id) :
    Yields l k N (recordParams gs) fun N' _ =>
      Adds (fun i => ∃ g ∈ gs, i = g.1.mark.id) N N' ∧
        ∀ g ∈ gs, N'.find? g.1.mark.id = some (.param g.2) := by
  induction gs generalizing N with
  | nil => exact yields_pure ⟨adds_refl _ N, by simp⟩
  | cons g gs ih =>
      obtain ⟨hfirst, hrest⟩ := List.nodup_cons.1 hnodup
      rw [List.forall_mem_cons] at hnew
      refine (yields_record g.1.mark.id (.param g.2)).bind ?_
      rintro N₁ _ rfl
      have hrecord : Adds (· = g.1.mark.id) N (N.insert g.1.mark.id (.param g.2)) :=
        adds_insert hnew.1 _ rfl
      intro a d' hrun
      obtain ⟨N₂, rfl, hadds, hparams⟩ := ih hrest (fun g' hg' => hrecord.new (hnew.2 g' hg')
        fun heq => hfirst (List.mem_map.2 ⟨g', hg', heq⟩)) a d' hrun
      refine ⟨N₂, rfl, (hrecord.mono fun i hi => ⟨g, List.mem_cons_self, hi⟩).trans
        (hadds.mono ?_), List.forall_mem_cons.2 ⟨hadds.within _ _ (by simp), hparams⟩⟩
      rintro i ⟨g', hg', hi⟩
      exact ⟨g', List.mem_cons_of_mem _ hg', hi⟩

/-! ## Structs -/

section

variable (hnodup : p.signatureIds.Nodup) (hp : p.WellResolved)
include hnodup

/-- No struct but those on the path has nodes of a struct on the path. -/
theorem not_outside_of_struct {path : List NodeId} {id : NodeId} {item : Item} {decl : StructDecl}
    (hstruct : p.struct? id = some (item, decl)) (hid : id ∈ path) {i : NodeId}
    (hi : i ∈ item.signatureIds) : ¬ p.Outside path i := by
  obtain ⟨hitem, -, rfl⟩ := mem_of_struct? hstruct
  rintro ⟨id', item', decl', hstruct', hpath, hi'⟩
  obtain ⟨hitem', -, rfl⟩ := mem_of_struct? hstruct'
  obtain rfl := eq_of_mem_signatureIds hnodup hitem hitem' hi hi'
  exact hpath hid

/-- What a struct declares is its own while it is on the path. -/
theorem own_of_struct {path : List NodeId} {id : NodeId} {item : Item} {decl : StructDecl}
    (hstruct : p.struct? id = some (item, decl)) (hid : id ∈ path) {i : NodeId}
    (hi : i ∈ item.kind.signatureIds) : p.Own path i :=
  ⟨not_outside_of_struct hnodup hstruct hid (List.mem_cons_of_mem _ hi),
    struct?_eq_none_of_mem hnodup (mem_of_struct? hstruct).1 hi⟩

omit hnodup in
/-- The table before a struct is declared has nothing of it. -/
theorem Progress.new_of_struct {path : List NodeId} (hN : p.Progress path N) {id : NodeId}
    {item : Item} {decl : StructDecl} (hstruct : p.struct? id = some (item, decl)) (hpath : id ∉ path)
    (hid : ¬ N.contains id) : ∀ i ∈ item.signatureIds, ¬ N.contains i := fun i hi hcontains =>
  (hN.begun id item decl hstruct i hi hcontains).elim hid hpath

/-- Once a struct is recorded it is not underway any more. -/
theorem Progress.insert {path : List NodeId} {id : NodeId} (hN : p.Progress (id :: path) N) {t : Ty}
    (hid : ¬ N.contains id) (hfounded : Founded p.struct? (N.insert id t).find? id) :
    p.Progress path (N.insert id t) := by
  have hadds : Adds (· = id) N (N.insert id t) := adds_insert hid t rfl
  have hwithin := hadds.within
  have hknown : (N.insert id t).contains id := by simp
  constructor
  case begun =>
    intro id' item' decl' hstruct' i hi hcontains
    have hself (hbefore : N.contains i) : (N.insert id t).contains id' ∨ id' ∈ path := by
      rcases hN.begun id' item' decl' hstruct' i hi hbefore with h | h
      · exact .inl (contains_of_within hwithin h)
      · rcases List.mem_cons.1 h with rfl | h
        · exact .inl hknown
        · exact .inr h
    rw [contains_insert, Bool.or_eq_true, beq_iff_eq] at hcontains
    rcases hcontains with rfl | hcontains
    · obtain ⟨item, decl, hstruct⟩ : ∃ item decl, p.struct? i = some (item, decl) := by
        cases hfounded with
        | intro hstruct => exact ⟨_, _, hstruct⟩
      obtain ⟨hitem, -, rfl⟩ := mem_of_struct? hstruct
      obtain ⟨hitem', -, rfl⟩ := mem_of_struct? hstruct'
      obtain rfl := eq_of_mem_signatureIds hnodup hitem hitem' List.mem_cons_self hi
      exact .inl hknown
    · exact hself hcontains
  case founded =>
    intro id' hstruct' hcontains
    rw [contains_insert, Bool.or_eq_true, beq_iff_eq] at hcontains
    rcases hcontains with rfl | hcontains
    · exact hfounded
    · exact (hN.founded id' hstruct' hcontains).within hwithin

/-- A struct is recorded last, when its type parameters and its fields have been. -/
theorem yields_recordStruct {path : List NodeId} {item : Item} {decl : StructDecl} {M : NodeTypes}
    {tys : List Ty} (hstruct : p.struct? item.id = some (item, decl)) (hpath : item.id ∉ path)
    (hid : ¬ N.contains item.id)
    (hadds : Adds (fun i => p.Outside (item.id :: path) i ∨ i ∈ item.kind.signatureIds) N M)
    (hM : p.Progress (item.id :: path) M)
    (hparams : ∀ g ∈ decl.generics.zip (params decl.generics),
      M.find? g.1.mark.id = some (.param g.2))
    (hbefore : ∀ x ∈ decl.fields, ∀ z ∈ x.ty.structs, Founded p.struct? M.find? z)
    (hread : TypedName.ReadsAll M.find? decl.fields tys) :
    Yields l k M (ofCheck (Check.record item.id (decl.declared item tys))) fun N' _ =>
      Adds (p.Outside path) N N' ∧ p.Progress path N' ∧ N'.contains item.id := by
  have hself := (List.nodup_cons.1 ((List.nodup_flatMap.1 hnodup).1 item (mem_of_struct? hstruct).1)).1
  refine (yields_record item.id (decl.declared item tys)).imp ?_
  rintro N' _ rfl
  have hnew : ¬ M.contains item.id := hadds.new hid
    (not_or.2 ⟨not_outside_of_struct hnodup hstruct List.mem_cons_self List.mem_cons_self, hself⟩)
  have hrecord : Adds (· = item.id) M (M.insert item.id (decl.declared item tys)) :=
    adds_insert hnew _ rfl
  have hwithin := hrecord.within
  have hfounded : Founded p.struct? (M.insert item.id (decl.declared item tys)).find? item.id :=
    .intro hstruct (fun x hx z hz => (hbefore x hx z hz).within hwithin)
      (fun g hg => hwithin _ _ (hparams g hg)) (hread.within hwithin) (by simp)
  have houtside {i : NodeId} (hi : i ∈ item.signatureIds) : p.Outside path i :=
    ⟨item.id, item, decl, hstruct, hpath, hi⟩
  refine ⟨(hadds.mono ?_).trans (hrecord.mono ?_), hM.insert hnodup hnew hfounded, by simp⟩
  · rintro i (hi | hi)
    · exact hi.of_cons
    · exact houtside (List.mem_cons_of_mem _ hi)
  · rintro i rfl
    exact houtside List.mem_cons_self

include hp

theorem yields_struct {path : List NodeId} {demand : NodeId → Declare Unit} {id : NodeId}
    {item : Item} {decl : StructDecl} (hstruct : p.struct? id = some (item, decl)) (hpath : id ∉ path)
    (hdemand : p.Serves (id :: path) demand) (hN : p.Progress path N) (hid : ¬ N.contains id) :
    Yields l k N (struct demand item decl) fun N' _ =>
      Adds (p.Outside path) N N' ∧ p.Progress path N' ∧ N'.contains id := by
  have hnew := hN.new_of_struct hstruct hpath hid
  have hown {i : NodeId} (hi : i ∈ item.kind.signatureIds) : p.Own (id :: path) i :=
    own_of_struct hnodup hstruct List.mem_cons_self hi
  obtain ⟨hitem, hkind, rfl⟩ := mem_of_struct? hstruct
  have htypes {x : TypedName} (hx : x ∈ decl.fields) : x.ty ∈ item.kind.signatureTypes := by
    rw [hkind]
    exact List.mem_map_of_mem hx
  have hleft {i : NodeId} (hi : i ∈ decl.generics.map (·.mark.id)) : i ∈ item.kind.signatureIds := by
    rw [hkind]
    exact List.mem_append_left _ hi
  have hright {i : NodeId} (hi : i ∈ decl.fields.flatMap TypedName.ids) :
      i ∈ item.kind.signatureIds := by
    rw [hkind]
    exact List.mem_append_right _ hi
  have hsignature := (List.nodup_cons.1 ((List.nodup_flatMap.1 hnodup).1 item hitem)).2
  rw [hkind, ItemKind.signatureIds, List.nodup_append] at hsignature
  obtain ⟨hgenerics, hfields, hdisjoint⟩ := hsignature
  have hgeneric {g : GenericParam × Param} (hg : g ∈ decl.generics.zip (params decl.generics)) :
      g.1.mark.id ∈ decl.generics.map (·.mark.id) :=
    List.mem_map_of_mem (List.of_mem_zip hg).1
  have hzip : ((decl.generics.zip (params decl.generics)).map fun g => g.1.mark.id).Nodup := by
    rwa [ids_zip_params]
  refine (yields_recordParams hzip fun g hg => hnew _ (List.mem_cons_of_mem _
    (hleft (hgeneric hg)))).bind fun N₁ _ hgenerics => ?_
  obtain ⟨hadds₁, hparams⟩ := hgenerics
  have hN₁ : p.Progress (item.id :: path) N₁ := by
    refine (hN.begin item.id).adds hadds₁ ?_
    rintro i ⟨g, hg, rfl⟩
    exact hown (hleft (hgeneric hg))
  refine (yields_readNames hdemand (fun x hx => hp.complete item hitem x.ty (htypes hx))
    (fun x hx z hz => hp.isSome_struct? hnodup hitem (htypes hx) hz) hfields
    (fun i hi => hown (hright hi)) (fun i hi => ?_) hN₁).bind
    fun N₂ tys hnames => ?_
  · refine hadds₁.new (hnew i (List.mem_cons_of_mem _ (hright hi))) ?_
    rintro ⟨g, hg, heq⟩
    exact hdisjoint _ (hgeneric hg) i hi heq.symm
  · obtain ⟨hadds₂, hN₂, hbefore, hread⟩ := hnames
    refine yields_recordStruct hnodup hstruct hpath hid ((hadds₁.mono ?_).trans (hadds₂.mono ?_)) hN₂
      (fun g hg => hadds₂.within _ _ (hparams g hg)) hbefore hread
    · rintro i ⟨g, hg, rfl⟩
      exact .inr (hleft (hgeneric hg))
    · exact fun i => Or.imp_right hright

/-- A demand for a struct that is not on the path leaves it known. -/
theorem serves_demand {depth : Nat} {path : List NodeId} (hunderway : p.Underway depth path) :
    p.Serves path (Declare.demand p.struct? depth path) := by
  induction depth generalizing path with
  | zero =>
      intro l k N id hstruct hN u d' hrun
      obtain ⟨⟨item, decl⟩, hitem⟩ := Option.isSome_iff_exists.1 hstruct
      rw [Declare.demand, perform_unlessKnown] at hrun
      simp only [List.contains_nil, Bool.false_eq_true, if_false, hitem] at hrun
      split at hrun
      · simp at hrun
      · rename_i hpath
        obtain ⟨depth', hdepth, -⟩ := hunderway.cons (by simpa using hpath) hstruct
        omega
  | succ depth ih =>
      intro l k N id hstruct hN u d' hrun
      obtain ⟨⟨item, decl⟩, hitem⟩ := Option.isSome_iff_exists.1 hstruct
      rw [Declare.demand, perform_unlessKnown] at hrun
      simp only [List.contains_nil, Bool.false_eq_true, if_false, hitem] at hrun
      split at hrun
      · simp at hrun
      · rename_i hpath
        have hpath' : id ∉ path := by simpa using hpath
        split at hrun
        · rename_i hknown
          obtain rfl : _ = d' := (Prod.mk.inj hrun).2
          exact ⟨N, rfl, adds_refl _ N, hN, hknown⟩
        · rename_i hknown
          obtain ⟨depth', hdepth, hunderway'⟩ := hunderway.cons hpath' hstruct
          obtain rfl : depth' = depth := by omega
          exact yields_noting id (yields_struct hnodup hp hitem hpath' (ih hunderway') hN hknown)
            u d' hrun

/-! ## Items -/

omit hp in
/-- What a function or a constant declares is its own from the start. -/
theorem own_of_other {item : Item} (hitem : item ∈ p.items) (hkind : ∀ decl, item.kind ≠ .struct decl)
    {i : NodeId} (hi : i ∈ item.signatureIds) : p.Own [] i := by
  constructor
  · rintro ⟨id, item', decl, hstruct, -, hi'⟩
    obtain ⟨hitem', hkind', -⟩ := mem_of_struct? hstruct
    obtain rfl := eq_of_mem_signatureIds hnodup hitem hitem' hi hi'
    exact hkind decl hkind'
  · rcases List.mem_cons.1 hi with rfl | hi
    · exact struct?_eq_none_of_kind hnodup hitem hkind
    · exact struct?_eq_none_of_mem hnodup hitem hi

omit hp in
/-- A function or a constant is recorded last, when its signature has been read. -/
theorem yields_recordItem {item : Item} {M : NodeTypes} (hitem : item ∈ p.items)
    (hkind : ∀ decl, item.kind ≠ .struct decl)
    (hnew : ∀ i ∈ item.signatureIds, ¬ N.contains i)
    (hadds : Adds (fun i => p.Outside [] i ∨ i ∈ item.kind.signatureIds) N M) (hM : p.Progress [] M)
    (t : Ty) : Yields l k M (ofCheck (Check.record item.id t)) fun N' _ =>
      Adds (fun i => p.Outside [] i ∨ i ∈ item.signatureIds) N N' ∧ p.Progress [] N' ∧
        Typing.Within M.find? N'.find? ∧ N'.find? item.id = some t := by
  have hown : p.Own [] item.id := own_of_other hnodup hitem hkind List.mem_cons_self
  have hself := (List.nodup_cons.1 ((List.nodup_flatMap.1 hnodup).1 item hitem)).1
  refine (yields_record item.id t).imp ?_
  rintro N' _ rfl
  have hid : ¬ M.contains item.id :=
    hadds.new (hnew _ List.mem_cons_self) (not_or.2 ⟨hown.1, hself⟩)
  have hrecord : Adds (· = item.id) M (M.insert item.id t) := adds_insert hid t rfl
  refine ⟨?_, hM.adds hrecord fun i hi => hi ▸ hown, hrecord.within, by simp⟩
  exact (hadds.mono fun i => Or.imp_right (List.mem_cons_of_mem _)).trans
    (hrecord.mono fun i hi => .inr (hi ▸ List.mem_cons_self))

omit hp in
/-- What is recorded for a function is made of what its signature was read to. -/
theorem yields_recordFn {item : Item} {decl : FnDecl} {M : NodeTypes} {tys : List Ty} {ret : Ty}
    (hitem : item ∈ p.items) (hkind : item.kind = .fn decl)
    (hnew : ∀ i ∈ item.signatureIds, ¬ N.contains i)
    (hadds : Adds (fun i => p.Outside [] i ∨ i ∈ item.kind.signatureIds) N M) (hM : p.Progress [] M)
    (hbefore : ∀ x ∈ decl.params, ∀ z ∈ x.ty.structs, Founded p.struct? M.find? z)
    (hread : TypedName.ReadsAll M.find? decl.params tys)
    (hret : match decl.ret with
      | some t => (∀ z ∈ t.structs, Founded p.struct? M.find? z) ∧ t.Reads M.find? ret
      | none => ret = .unit) :
    Yields l k M (ofCheck (Check.record item.id (.fn tys ret))) fun N' _ =>
      Adds (fun i => p.Outside [] i ∨ i ∈ item.signatureIds) N N' ∧ p.Progress [] N' ∧
        item.SignedIn p.struct? N'.find? := by
  refine (yields_recordItem hnodup hitem (by simp [hkind]) hnew hadds hM (.fn tys ret)).imp
    fun N' _ ⟨hall, hN', hwithin, hself⟩ => ⟨hall, hN', ?_⟩
  rw [Item.SignedIn, hkind]
  refine ⟨tys, ret, fun x hx z hz => (hbefore x hx z hz).within hwithin, hread.within hwithin, ?_,
    hself⟩
  cases hdecl : decl.ret with
  | none => simpa [hdecl] using hret
  | some t =>
      simp only [hdecl] at hret ⊢
      exact ⟨fun z hz => (hret.1 z hz).within hwithin, hret.2.within hwithin⟩

theorem yields_fn {item : Item} {decl : FnDecl} (hitem : item ∈ p.items) (hkind : item.kind = .fn decl)
    (hN : p.Progress [] N) (hnew : ∀ i ∈ item.signatureIds, ¬ N.contains i) :
    Yields l k N (fn p.demand item decl) fun N' _ =>
      Adds (fun i => p.Outside [] i ∨ i ∈ item.signatureIds) N N' ∧ p.Progress [] N' ∧
        item.SignedIn p.struct? N'.find? := by
  have hdemand : p.Serves [] p.demand := serves_demand hnodup hp p.underway_nil
  have hids : item.kind.signatureIds =
      decl.params.flatMap TypedName.ids ++ TypeRef.idsOption decl.ret := by
    rw [hkind, ItemKind.signatureIds]
  have hsub {i : NodeId} (hi : i ∈ item.kind.signatureIds) : i ∈ item.signatureIds :=
    List.mem_cons_of_mem _ hi
  have hown {i : NodeId} (hi : i ∈ item.kind.signatureIds) : p.Own [] i :=
    own_of_other hnodup hitem (by simp [hkind]) (hsub hi)
  have htypes {t : TypeRef} (ht : t ∈ decl.params.map TypedName.ty ++ decl.ret.toList) :
      t ∈ item.kind.signatureTypes := by rwa [hkind]
  have hparam {x : TypedName} (hx : x ∈ decl.params) : x.ty ∈ item.kind.signatureTypes :=
    htypes (List.mem_append_left _ (List.mem_map_of_mem hx))
  have hsignature := (List.nodup_cons.1 ((List.nodup_flatMap.1 hnodup).1 item hitem)).2
  rw [hids, List.nodup_append] at hsignature
  obtain ⟨hparams, hret, hdisjoint⟩ := hsignature
  rw [hids] at hsub hown
  refine (yields_readNames hdemand (fun x hx => hp.complete item hitem x.ty (hparam hx))
    (fun x hx z hz => hp.isSome_struct? hnodup hitem (hparam hx) hz) hparams
    (fun i hi => hown (List.mem_append_left _ hi))
    (fun i hi => hnew i (hsub (List.mem_append_left _ hi))) hN).bind fun N₁ tys hnames => ?_
  obtain ⟨hadds₁, hN₁, hbefore, hread⟩ := hnames
  cases hdecl : decl.ret with
  | none =>
      refine yields_recordFn hnodup hitem hkind hnew ?_ hN₁ hbefore hread (by rw [hdecl])
      rw [hids]
      exact hadds₁.mono fun i => Or.imp_right (List.mem_append_left _)
  | some t =>
      have ht : t ∈ item.kind.signatureTypes := htypes (List.mem_append_right _ (by simp [hdecl]))
      have hidsOption : TypeRef.idsOption decl.ret = t.ids := by rw [hdecl, TypeRef.idsOption]
      rw [hidsOption] at hids hret hdisjoint hown hsub
      refine (yields_read hdemand (hp.complete item hitem t ht)
        (fun z hz => hp.isSome_struct? hnodup hitem ht hz) hret
        (fun i hi => hown (List.mem_append_right _ hi))
        (fun i hi => hadds₁.new (hnew i (hsub (List.mem_append_right _ hi)))
          (not_or.2 ⟨(hown (List.mem_append_right _ hi)).1, fun h => hdisjoint i h i hi rfl⟩))
        hN₁).bind fun N₂ ret hwritten => ?_
      obtain ⟨hadds₂, hN₂, hreadRet⟩ := hwritten
      refine yields_recordFn hnodup hitem hkind hnew ?_ hN₂
        (fun x hx z hz => (hbefore x hx z hz).within hadds₂.within) (hread.within hadds₂.within)
        (by rwa [hdecl])
      rw [hids]
      exact (hadds₁.mono fun i => Or.imp_right (List.mem_append_left _)).trans
        (hadds₂.mono fun i => Or.imp_right (List.mem_append_right _))

theorem yields_const {item : Item} {decl : ConstDecl} (hitem : item ∈ p.items)
    (hkind : item.kind = .const decl) (hN : p.Progress [] N)
    (hnew : ∀ i ∈ item.signatureIds, ¬ N.contains i) :
    Yields l k N (const p.demand item decl) fun N' _ =>
      Adds (fun i => p.Outside [] i ∨ i ∈ item.signatureIds) N N' ∧ p.Progress [] N' ∧
        item.SignedIn p.struct? N'.find? := by
  have hdemand : p.Serves [] p.demand := serves_demand hnodup hp p.underway_nil
  have hother : ∀ decl, item.kind ≠ .struct decl := by simp [hkind]
  have hids : item.kind.signatureIds = decl.ty.ids := by rw [hkind, ItemKind.signatureIds]
  have hsub {i : NodeId} (hi : i ∈ decl.ty.ids) : i ∈ item.signatureIds :=
    List.mem_cons_of_mem _ (by rwa [hids])
  have htype : decl.ty ∈ item.kind.signatureTypes := by
    rw [hkind]
    exact List.mem_singleton_self _
  have hsignature := (List.nodup_cons.1 ((List.nodup_flatMap.1 hnodup).1 item hitem)).2
  refine (yields_read hdemand (hp.complete item hitem _ htype)
    (fun z hz => hp.isSome_struct? hnodup hitem htype hz) (hids ▸ hsignature)
    (fun i hi => own_of_other hnodup hitem hother (hsub hi)) (fun i hi => hnew i (hsub hi))
    hN).bind fun N₁ ty hwritten => ?_
  obtain ⟨hadds, hN₁, hbefore, hread⟩ := hwritten
  refine (yields_recordItem hnodup hitem hother hnew (by rwa [hids]) hN₁ ty).imp fun N₂ _ h => ?_
  obtain ⟨hall, hN₂, hrecord, hself⟩ := h
  refine ⟨hall, hN₂, ?_⟩
  rw [Item.SignedIn, hkind]
  exact ⟨ty, fun z hz => (hbefore z hz).within hrecord, hread.within hrecord, hself⟩

theorem yields_declare {item : Item} (hitem : item ∈ p.items) (hN : p.Progress [] N)
    (hnew : (∀ decl, item.kind ≠ .struct decl) → ∀ i ∈ item.signatureIds, ¬ N.contains i) :
    Yields l k N (p.declare item) fun N' _ =>
      Adds (fun i => p.Outside [] i ∨ i ∈ item.signatureIds) N N' ∧ p.Progress [] N' ∧
        item.SignedIn p.struct? N'.find? := by
  unfold declare
  cases hkind : item.kind with
  | struct decl =>
      have hsome : (p.struct? item.id).isSome := by
        rw [struct?_of_mem hnodup hitem hkind]
        rfl
      refine (serves_demand hnodup hp p.underway_nil l k N item.id hsome hN).imp
        fun N' _ ⟨hadds, hN', hknown⟩ => ⟨hadds.mono fun _ => .inl, hN', ?_⟩
      rw [Item.SignedIn, hkind]
      exact hN'.founded item.id hsome hknown
  | fn decl => exact yields_fn hnodup hp hitem hkind hN (hnew (by simp [hkind]))
  | const decl => exact yields_const hnodup hp hitem hkind hN (hnew (by simp [hkind]))

/-- Where nothing is reported, the table that is left declares every item. -/
theorem signedIn_declareAll {items : List Item} (hitems : ∀ item ∈ items, item ∈ p.items)
    (hdistinct : (items.flatMap Item.signatureIds).Nodup) (hN : p.Progress [] N)
    (hnew : ∀ item ∈ items, (∀ decl, item.kind ≠ .struct decl) →
      ∀ i ∈ item.signatureIds, ¬ N.contains i)
    (hended : (p.declareAll items ⟨.signing l k N, []⟩).1 = .ok ())
    (herrors : (p.declareAll items ⟨.signing l k N, []⟩).2.session.sink.errors = []) :
    ∃ N', (p.declareAll items ⟨.signing l k N, []⟩).2.session = .signing l k N' ∧
      Typing.Within N.find? N'.find? ∧ ∀ item ∈ items, item.SignedIn p.struct? N'.find? := by
  induction items generalizing N with
  | nil => exact ⟨N, rfl, .refl _, by simp⟩
  | cons item rest ih =>
      rw [List.forall_mem_cons] at hnew
      obtain ⟨d, hrun, -, heq⟩ :=
        p.declareAll_cons_of_errors hitems (fun h => (h rfl).elim) hended herrors
      have hitem := hitems item List.mem_cons_self
      obtain ⟨N₁, rfl, hadds, hN₁, hsigned⟩ := yields_declare hnodup hp hitem hN hnew.1 () d hrun
      rw [heq] at hended herrors ⊢
      rw [List.flatMap_cons, List.nodup_append] at hdistinct
      have hrest : ∀ item' ∈ rest, item' ∈ p.items := fun item' h' =>
        hitems item' (List.mem_cons_of_mem _ h')
      have hnew₁ : ∀ item' ∈ rest, (∀ decl, item'.kind ≠ .struct decl) →
          ∀ i ∈ item'.signatureIds, ¬ N₁.contains i := fun item' h' hkind i hi => by
        refine hadds.new (hnew.2 item' h' hkind i hi) (not_or.2
          ⟨(own_of_other hnodup (hrest item' h') hkind hi).1, fun hi' => ?_⟩)
        exact hdistinct.2.2 i hi' i (List.mem_flatMap.2 ⟨item', h', hi⟩) rfl
      obtain ⟨N₂, hsession, hwithin, hall⟩ := ih hrest hdistinct.2.1 hN₁ hnew₁ hended herrors
      exact ⟨N₂, hsession, hadds.within.trans hwithin,
        List.forall_mem_cons.2 ⟨hsigned.within hwithin, hall⟩⟩

end

end Program

end TypeInference

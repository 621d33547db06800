import TypeInference.Proofs.Check.SignatureEnds
import TypeInference.Proofs.Check.Traversal

/-!
# Failed declarations

A declaration that fails has one cause. Either it reports an error, about its
own item or about a struct that the item mentions, or it meets a struct that has
failed before, and then it reports nothing. Every struct whose declaration was
underway fails with it, and mentions the struct that is the cause.
-/

namespace TypeInference

open Moment

/-! ## Causes -/

/-- Whether the error is at a written type in the signature of the item, or says that the item
contains itself. -/
def Item.Causes (item : Item) (e : TypeError) : Prop :=
  (∃ t ∈ item.kind.signatureTypes, .stop e.span ∈ t.moments) ∨
    e = ⟨.recursiveType item.name, item.mark.span⟩

/-- Whether the second struct is the first one, or is named in its fields or in those of another
struct that it mentions. -/
def Program.Mentions (p : Program) (id z : NodeId) : Prop :=
  Relation.ReflTransGen (NamedBy p.struct?) z id

def TypeRef.Mentions (p : Program) (t : TypeRef) (z : NodeId) : Prop :=
  ∃ y ∈ t.structs, p.Mentions y z

def Item.Mentions (p : Program) (item : Item) (z : NodeId) : Prop :=
  ∃ t ∈ item.kind.signatureTypes, t.Mentions p z

/-- A struct mentions itself and what its declaration mentions. -/
theorem Program.mentions_iff {p : Program} {id : NodeId} {item : Item} {decl : StructDecl}
    (hstruct : p.struct? id = some (item, decl)) (z : NodeId) :
    p.Mentions id z ↔ z = id ∨ item.Mentions p z := by
  have hkind := (mem_of_struct? hstruct).2.1
  have htypes : item.kind.signatureTypes = decl.fields.map TypedName.ty := by rw [hkind]; rfl
  unfold Item.Mentions
  rw [htypes]
  constructor
  · intro h
    rcases h.cases_tail with rfl | ⟨y, hy, item', decl', hstruct', x, hx, hyx⟩
    · exact .inl rfl
    · obtain ⟨-, rfl⟩ : item = item' ∧ decl = decl' := by simpa [hstruct] using hstruct'
      exact .inr ⟨x.ty, List.mem_map_of_mem hx, y, hyx, hy⟩
  · rintro (rfl | ⟨t, ht, y, hyt, hy⟩)
    · exact .refl
    · obtain ⟨x, hx, rfl⟩ := List.mem_map.1 ht
      exact hy.tail ⟨item, decl, hstruct, x, hx, hyt⟩

structure Declaring.Unknown (p : Program) (blocked : List NodeId) (d : Declaring) : Prop where
  failed : ∀ z ∈ d.failed, (p.struct? z).isSome ∧ d.session.context.contains z = false
  blocked : ∀ z ∈ blocked, (∃ item ∈ p.items, item.id = z) ∧ d.session.context.contains z = false

/-- What makes a declaration fail, where `mentions` says what it mentions and `own` which errors are
its own. -/
inductive Declaring.Fails (p : Program) (mentions : NodeId → Prop) (own : TypeError → Prop)
    (d d' : Declaring) : Prop where
  | own (e : TypeError) (reports : d.session.Reports d'.session [e]) (failed : d'.failed = d.failed)
      (h : own e)
  /-- The struct `z` had failed before, or it has been reported. -/
  | through (z : NodeId) (mentioned : mentions z) (mem : z ∈ d'.failed)
      (kept : d.failed ⊆ d'.failed)
      (new : ∀ y ∈ d'.failed, y ∈ d.failed ∨ p.Mentions y z)
      (cause : z ∈ d.failed ∧ d'.session.sink.errors = d.session.sink.errors ∨
        z ∉ d.failed ∧ ∃ e item decl, d.session.Reports d'.session [e] ∧
          p.struct? z = some (item, decl) ∧ item.Causes e)

namespace Declaring

variable {α β : Type} {p : Program} {blocked blocked' : List NodeId}
  {mentions mentions' : NodeId → Prop} {own own' : TypeError → Prop} {d d₁ d' : Declaring}

theorem Fails.of_eq (h : d₁.Fails p mentions own d') (hfailed : d₁.failed = d.failed)
    (herrors : d₁.session.sink.errors = d.session.sink.errors) : d.Fails p mentions own d' := by
  cases h with
  | own e reports failed h =>
      rw [Session.Reports, herrors] at reports
      exact .own e reports (failed.trans hfailed) h
  | through z mentioned mem kept new cause =>
      simp only [Session.Reports, herrors, hfailed] at kept new cause
      exact .through z mentioned mem kept new cause

theorem Fails.mono (h : d.Fails p mentions own d') (hmentions : ∀ z, mentions z → mentions' z)
    (hown : ∀ e, own e → own' e) : d.Fails p mentions' own' d' := by
  cases h with
  | own e reports failed h => exact .own e reports failed (hown e h)
  | through z mentioned mem kept new cause =>
      exact .through z (hmentions z mentioned) mem kept new cause

/-- Where a struct fails, it is the cause or it mentions the cause. -/
theorem Fails.noted {id : NodeId} {item : Item} {decl : StructDecl}
    (h : d.Fails p (item.Mentions p) item.Causes d') (hnew : id ∉ d.failed)
    (hstruct : p.struct? id = some (item, decl)) :
    d.Fails p (p.Mentions id) (fun _ => False) { d' with failed := id :: d'.failed } := by
  cases h with
  | own e reports failed h =>
      refine .through id .refl List.mem_cons_self ?_ (fun y hy => ?_)
        (.inr ⟨hnew, e, item, decl, reports, hstruct, h⟩)
      · exact fun y hy => List.mem_cons_of_mem _ (failed.symm ▸ hy)
      · rcases List.mem_cons.1 hy with rfl | hy
        · exact .inr .refl
        · exact .inl (failed ▸ hy)
  | through z mentioned mem kept new cause =>
      have hz : p.Mentions id z := (Program.mentions_iff hstruct z).2 (.inr mentioned)
      refine .through z hz (List.mem_cons_of_mem _ mem)
        (fun y hy => List.mem_cons_of_mem _ (kept hy)) (fun y hy => ?_) cause
      rcases List.mem_cons.1 hy with rfl | hy
      · exact .inr hz
      · exact new y hy

end Declaring

/-! ## Rules -/

/-- A computation without soft errors that stops at most the item reports what stops it. -/
theorem Check.Traverses.report_one {α : Type} {ms : List Moment} {x : Check α}
    (h : Traverses (fun _ => False) ms x) (hstops : StopsItem x) (s : Session) :
    (∃ a s', x.perform s = (.ok a, s') ∧ s.Grows (recordedIds ms) s' ∧
        s'.sink.errors = s.sink.errors) ∨
      ∃ e s', x.perform s = (.error .item, s') ∧ s.Grows (recordedIds ms) s' ∧ s.Reports s' [e] ∧
        .stop e.span ∈ ms := by
  have hends := h s
  have hitem := hstops s
  rcases hrun : x.perform s with ⟨a | a, s'⟩
  · obtain rfl : a = .item := hitem a (by rw [hrun])
    rw [hrun] at hends
    cases hends with
    | past errors grows reports isSoft ended =>
        obtain ⟨d, hd⟩ := ended _ rfl
        cases hd
    | stopped before after errors e split grows reports isSoft stops =>
        obtain rfl : errors = [] := List.eq_nil_iff_forall_not_mem.2 isSoft
        refine .inr ⟨e, s', rfl, grows.mono ?_, reports, by simp [split]⟩
        rw [split, recordedIds_append]
        exact List.subset_append_left _ _
  · rw [hrun] at hends
    cases hends with
    | past errors grows reports isSoft ended =>
        obtain rfl : errors = [] := List.eq_nil_iff_forall_not_mem.2 isSoft
        exact .inl ⟨a, s', rfl, grows, Eq.trans reports (List.append_nil _)⟩

/-- What is recorded for other nodes gives no type to these items. -/
theorem Declaring.Unknown.after {p : Program} {blocked ids : List NodeId} {d : Declaring}
    (hd : d.Unknown p blocked) {s' : Session} (hgrows : d.session.Grows ids s')
    (hlocations : s'.locations = d.session.locations)
    (hids : ∀ i ∈ ids, ∀ item ∈ p.items, item.id ≠ i) :
    Declaring.Unknown p blocked { d with session := s' } := by
  have hkept {z : NodeId} (hz : ∃ item ∈ p.items, item.id = z)
      (hnone : d.session.context.contains z = false) : s'.context.contains z = false := by
    obtain ⟨item, hitem, rfl⟩ := hz
    have hsame : s'.context.types.find? item.id = d.session.context.types.find? item.id := by
      by_contra hne
      rcases hgrows.changed _ hne with hmem | ⟨hle, hlt⟩
      · exact hids _ hmem item hitem rfl
      · rw [hlocations] at hlt
        exact Nat.not_lt.2 hle hlt
    rwa [Context.contains, NodeTypes.contains, hsame]
  refine ⟨fun z hz => ⟨(hd.failed z hz).1, hkept ?_ (hd.failed z hz).2⟩,
    fun z hz => ⟨(hd.blocked z hz).1, hkept (hd.blocked z hz).1 (hd.blocked z hz).2⟩⟩
  obtain ⟨⟨item, decl⟩, hstruct⟩ := Option.isSome_iff_exists.1 (hd.failed z hz).1
  obtain ⟨hitem, -, hid⟩ := Program.mem_of_struct? hstruct
  exact ⟨item, hitem, hid⟩

namespace Declare

variable {α β : Type} {p : Program} {blocked blocked' : List NodeId}
  {mentions mentions' : NodeId → Prop} {own own' : TypeError → Prop}

/-- How a declaration ends where the blocked items have neither types nor failed: it succeeds, adds
nothing to the failed structs and the errors, and leaves these items without types, or it fails. -/
def Tries (p : Program) (blocked blocked' : List NodeId) (mentions : NodeId → Prop)
    (own : TypeError → Prop) (x : Declare α) : Prop :=
  ∀ d : Declaring, d.Unknown p blocked → blocked.Disjoint d.failed →
    (∃ a d', x.perform d = (.ok a, d') ∧ d'.Unknown p blocked' ∧ d'.failed = d.failed ∧
        d'.session.sink.errors = d.session.sink.errors) ∨
      ∃ d', x.perform d = (.error .item, d') ∧ d'.Unknown p blocked ∧ d.Fails p mentions own d'

theorem tries_pure (a : α) : Tries p blocked blocked mentions own (pure a : Declare α) :=
  fun d hd _ => .inl ⟨a, d, rfl, hd, rfl, rfl⟩

theorem Tries.mono {x : Declare α} (h : Tries p blocked blocked' mentions own x)
    (hmentions : ∀ z, mentions z → mentions' z) (hown : ∀ e, own e → own' e) :
    Tries p blocked blocked' mentions' own' x := fun d hd hdisjoint =>
  (h d hd hdisjoint).imp_right fun ⟨d', hrun, hd', hfails⟩ =>
    ⟨d', hrun, hd', hfails.mono hmentions hown⟩

theorem Tries.bind {x : Declare α} {f : α → Declare β}
    (hx : Tries p blocked blocked mentions own x)
    (hf : ∀ a, Tries p blocked blocked' mentions own (f a)) :
    Tries p blocked blocked' mentions own (x >>= f) := by
  intro d hd hdisjoint
  rw [perform_bind]
  rcases hx d hd hdisjoint with ⟨a, d₁, hrun, hd₁, hfailed, herrors⟩ | ⟨d₁, hrun, hd₁, hfails⟩
  · rw [hrun]
    rcases hf a d₁ hd₁ (hfailed ▸ hdisjoint) with ⟨b, d₂, hrun', hd₂, hfailed', herrors'⟩ |
      ⟨d₂, hrun', hd₂, hfails⟩
    · exact .inl ⟨b, d₂, hrun', hd₂, hfailed'.trans hfailed, herrors'.trans herrors⟩
    · exact .inr ⟨d₂, hrun', hd₂, hfails.of_eq hfailed herrors⟩
  · rw [hrun]
    exact .inr ⟨d₁, rfl, hd₁, hfails⟩

/-- A computation that records types for nodes that are no items. -/
theorem tries_ofCheck {ms : List Moment} {x : Check α}
    (h : Check.Traverses (fun _ => False) ms x) (hlocations : Check.AllocatesNone x)
    (hstops : Check.StopsItem x) (hids : ∀ i ∈ recordedIds ms, ∀ item ∈ p.items, item.id ≠ i)
    (hown : ∀ e : TypeError, .stop e.span ∈ ms → own e) :
    Tries p blocked blocked mentions own (ofCheck x) := by
  intro d hd _
  have hsame := hlocations d.session
  rw [perform_ofCheck]
  rcases h.report_one hstops d.session with ⟨a, s', hrun, hgrows, herrors⟩ |
    ⟨e, s', hrun, hgrows, hreports, hstop⟩
  · rw [hrun] at hsame ⊢
    exact .inl ⟨a, _, rfl, hd.after hgrows hsame hids, rfl, herrors⟩
  · rw [hrun] at hsame ⊢
    exact .inr ⟨_, rfl, hd.after hgrows hsame hids, .own e hreports rfl (hown e hstop)⟩

theorem tries_record {id : NodeId} (hid : ∀ item ∈ p.items, item.id ≠ id) (t : Ty) :
    Tries p blocked blocked mentions own (ofCheck (Check.record id t)) := by
  refine tries_ofCheck (Check.traverses_record id t) (fun _ => rfl) (Check.stopsItem_record id t)
    (fun i hi => ?_) (by simp)
  obtain rfl : i = id := by simpa using hi
  exact hid

/-- The item that is declared is recorded last. -/
theorem tries_record_last {id : NodeId} (hid : id ∉ blocked) (t : Ty) :
    Tries p (id :: blocked) blocked mentions own (ofCheck (Check.record id t)) := by
  intro d hd hdisjoint
  refine .inl ⟨(), _, rfl, ?_, rfl, rfl⟩
  have hkept {z : NodeId} (hne : z ≠ id) (hnone : d.session.context.contains z = false) :
      (d.session.context.insert id t).contains z = false := by
    rw [Context.contains_insert, hnone, Bool.or_false]
    simpa using hne
  refine ⟨fun z hz => ⟨(hd.failed z hz).1, hkept ?_ (hd.failed z hz).2⟩, fun z hz =>
    ⟨(hd.blocked z (List.mem_cons_of_mem _ hz)).1, hkept ?_
      (hd.blocked z (List.mem_cons_of_mem _ hz)).2⟩⟩
  · rintro rfl
    exact hdisjoint List.mem_cons_self hz
  · rintro rfl
    exact hid hz

theorem tries_recordParams {gs : List (GenericParam × Param)}
    (hgs : ∀ g ∈ gs, ∀ item ∈ p.items, item.id ≠ g.1.mark.id) :
    Tries p blocked blocked mentions own (recordParams gs) := by
  induction gs with
  | nil => exact tries_pure ()
  | cons g gs ih =>
      rw [List.forall_mem_cons] at hgs
      exact (tries_record hgs.1 _).bind fun _ => ih hgs.2

section

variable {demand : NodeId → Declare Unit}
  (hdemand : ∀ id, Tries p blocked blocked (p.Mentions id) (fun _ => False) (demand id))
include hdemand

theorem tries_forM {l : List NodeId} (hl : ∀ id ∈ l, ∀ z, p.Mentions id z → mentions z) :
    Tries p blocked blocked mentions own (l.forM demand) := by
  induction l with
  | nil => exact tries_pure ()
  | cons id l ih =>
      rw [List.forall_mem_cons] at hl
      exact ((hdemand id).mono hl.1 fun _ h => h.elim).bind fun _ => ih hl.2

theorem tries_read {t : TypeRef} (ht : ∀ i ∈ t.ids, ∀ item ∈ p.items, item.id ≠ i)
    (hmentions : ∀ z, t.Mentions p z → mentions z)
    (hown : ∀ e : TypeError, .stop e.span ∈ t.moments → own e) :
    Tries p blocked blocked mentions own (read demand t) := by
  refine (tries_forM hdemand fun id hid z hz => hmentions z ⟨id, hid, hz⟩).bind fun _ => ?_
  exact tries_ofCheck (Check.traverses_read .signature t) (Check.allocatesNone_read .signature t)
    (Check.stopsItem_read .signature t) (fun i hi => ht i (t.within_moments.subset hi)) hown

theorem tries_readNames {xs : List TypedName}
    (hxs : ∀ i ∈ xs.flatMap TypedName.ids, ∀ item ∈ p.items, item.id ≠ i)
    (hmentions : ∀ x ∈ xs, ∀ z, x.ty.Mentions p z → mentions z)
    (hown : ∀ x ∈ xs, ∀ e : TypeError, .stop e.span ∈ x.ty.moments → own e) :
    Tries p blocked blocked mentions own (readNames demand xs) := by
  induction xs with
  | nil => exact tries_pure []
  | cons x xs ih =>
      simp only [List.flatMap_cons, TypedName.ids, List.cons_append, List.mem_cons, List.mem_append]
        at hxs
      rw [List.forall_mem_cons] at hmentions hown
      refine (tries_read hdemand (fun i hi => hxs i (.inr (.inl hi))) hmentions.1 hown.1).bind
        fun ty => ?_
      refine (tries_record (hxs _ (.inl rfl)) ty).bind fun _ => ?_
      exact (ih (fun i hi => hxs i (.inr (.inr hi))) hmentions.2 hown.2).bind fun tys =>
        tries_pure _

end

section

variable {item : Item} (hid : item.id ∉ blocked)
  (hids : ∀ i ∈ item.kind.signatureIds, ∀ w ∈ p.items, w.id ≠ i) {demand : NodeId → Declare Unit}
  (hdemand : ∀ z, Tries p (item.id :: blocked) (item.id :: blocked) (p.Mentions z)
    (fun _ => False) (demand z))
include hid hids hdemand

theorem tries_struct {decl : StructDecl} (hkind : item.kind = .struct decl) :
    Tries p (item.id :: blocked) blocked (item.Mentions p) item.Causes
      (struct demand item decl) := by
  have htype {x : TypedName} (hx : x ∈ decl.fields) : x.ty ∈ item.kind.signatureTypes := by
    rw [hkind]
    exact List.mem_map_of_mem hx
  rw [hkind, ItemKind.signatureIds] at hids
  refine (tries_recordParams fun g hg => hids _ (List.mem_append_left _ ?_)).bind fun _ => ?_
  · exact List.mem_map_of_mem (List.of_mem_zip hg).1
  · refine (tries_readNames hdemand (fun i hi => hids i (List.mem_append_right _ hi))
      (fun x hx z hz => ⟨x.ty, htype hx, hz⟩) fun x hx e he => .inl ⟨x.ty, htype hx, he⟩).bind
        fun tys => tries_record_last hid _

theorem tries_fn {decl : FnDecl} (hkind : item.kind = .fn decl) :
    Tries p (item.id :: blocked) blocked (item.Mentions p) item.Causes (fn demand item decl) := by
  have htype {x : TypedName} (hx : x ∈ decl.params) : x.ty ∈ item.kind.signatureTypes := by
    rw [hkind]
    exact List.mem_append_left _ (List.mem_map_of_mem hx)
  have hret {t : TypeRef} (ht : decl.ret = some t) : t ∈ item.kind.signatureTypes := by
    rw [hkind]
    exact List.mem_append_right _ (Option.mem_toList.2 ht)
  rw [hkind, ItemKind.signatureIds] at hids
  refine (tries_readNames hdemand (fun i hi => hids i (List.mem_append_left _ hi))
    (fun x hx z hz => ⟨x.ty, htype hx, hz⟩) fun x hx e he => .inl ⟨x.ty, htype hx, he⟩).bind
      fun tys => ?_
  cases ht : decl.ret with
  | none => exact tries_record_last hid _
  | some t =>
      refine (tries_read hdemand (fun i hi => hids i (List.mem_append_right _ ?_))
        (fun z hz => ⟨t, hret ht, hz⟩) fun e he => .inl ⟨t, hret ht, he⟩).bind
          fun u => tries_record_last hid _
      rwa [ht, TypeRef.idsOption]

theorem tries_const {decl : ConstDecl} (hkind : item.kind = .const decl) :
    Tries p (item.id :: blocked) blocked (item.Mentions p) item.Causes
      (const demand item decl) := by
  have htype : decl.ty ∈ item.kind.signatureTypes := by
    rw [hkind]
    exact List.mem_singleton_self _
  rw [hkind, ItemKind.signatureIds] at hids
  exact (tries_read hdemand hids (fun z hz => ⟨decl.ty, htype, hz⟩)
    fun e he => .inl ⟨decl.ty, htype, he⟩).bind fun ty => tries_record_last hid _

end

inductive Demanded (structs : NodeId → Option (Item × StructDecl)) (path : List NodeId)
    (id : NodeId) (declare : Item → StructDecl → Declare Unit) (d : Declaring) :
    Except Abort Unit × Declaring → Prop where
  | failed (h : id ∈ d.failed) : Demanded structs path id declare d (.error .item, d)
  | other (h : structs id = none) : Demanded structs path id declare d (.ok (), d)
  | underway (item : Item) (decl : StructDecl) (hstruct : structs id = some (item, decl))
      (new : id ∉ d.failed) (h : id ∈ path) :
      Demanded structs path id declare d
        (.error .item, ⟨{ d.session with
            sink := d.session.sink.report ⟨.recursiveType item.name, item.mark.span⟩ },
          id :: d.failed⟩)
  | known (h : d.session.context.contains id) : Demanded structs path id declare d (.ok (), d)
  | declared (item : Item) (decl : StructDecl) (hstruct : structs id = some (item, decl))
      (new : id ∉ d.failed) (fresh : id ∉ path) (unknown : d.session.context.contains id = false)
      (d' : Declaring) (run : (declare item decl).perform d = (.ok (), d')) :
      Demanded structs path id declare d (.ok (), d')
  | fails (item : Item) (decl : StructDecl) (hstruct : structs id = some (item, decl))
      (new : id ∉ d.failed) (fresh : id ∉ path) (unknown : d.session.context.contains id = false)
      (e : Abort) (d' : Declaring) (run : (declare item decl).perform d = (.error e, d')) :
      Demanded structs path id declare d (.error e, { d' with failed := id :: d'.failed })

theorem demanded_unlessKnown (structs : NodeId → Option (Item × StructDecl)) (path : List NodeId)
    (id : NodeId) (declare : Item → StructDecl → Declare Unit) (d : Declaring) :
    Demanded structs path id declare d ((unlessKnown structs path id declare).perform d) := by
  rw [perform_unlessKnown]
  by_cases hfailed : id ∈ d.failed
  · rw [if_pos (List.contains_iff_mem.2 hfailed)]
    exact .failed hfailed
  · rw [if_neg (mt List.contains_iff_mem.1 hfailed)]
    cases hstruct : structs id with
    | none => exact .other hstruct
    | some struct =>
        obtain ⟨item, decl⟩ := struct
        dsimp only
        by_cases hpath : id ∈ path
        · rw [if_pos (List.contains_iff_mem.2 hpath)]
          exact .underway item decl hstruct hfailed hpath
        · rw [if_neg (mt List.contains_iff_mem.1 hpath)]
          by_cases hknown : d.session.context.contains id
          · rw [if_pos hknown]
            exact .known hknown
          · rw [if_neg hknown, perform_noting]
            rcases hrun : (declare item decl).perform d with ⟨e | _, d'⟩
            · exact .fails item decl hstruct hfailed hpath (Bool.eq_false_iff.2 hknown) e d' hrun
            · exact .declared item decl hstruct hfailed hpath (Bool.eq_false_iff.2 hknown) d' hrun

/-- A struct that is not declared when it is demanded fails with what it mentions, and it is the
cause itself if the error is its own or if it is on the path. -/
theorem tries_unlessKnown {path : List NodeId} {id : NodeId} (hpath : path ⊆ blocked)
    {declare : Item → StructDecl → Declare Unit}
    (hdeclare : ∀ item decl, p.struct? id = some (item, decl) → id ∉ path →
      Tries p (id :: blocked) blocked (item.Mentions p) item.Causes (declare item decl)) :
    Tries p blocked blocked (p.Mentions id) (fun _ => False)
      (unlessKnown p.struct? path id declare) := by
  intro d hd hdisjoint
  have hbegins {item : Item} {decl : StructDecl} (hstruct : p.struct? id = some (item, decl))
      (hnew : id ∉ d.failed) (hunknown : d.session.context.contains id = false) :
      d.Unknown p (id :: blocked) ∧ (id :: blocked).Disjoint d.failed := by
    obtain ⟨hitem, -, hid⟩ := Program.mem_of_struct? hstruct
    exact ⟨⟨hd.failed, List.forall_mem_cons.2 ⟨⟨⟨item, hitem, hid⟩, hunknown⟩, hd.blocked⟩⟩,
      List.disjoint_cons_left.2 ⟨hnew, hdisjoint⟩⟩
  have hdemanded := demanded_unlessKnown p.struct? path id declare d
  generalize (unlessKnown p.struct? path id declare).perform d = run at hdemanded
  cases hdemanded with
  | failed hmem =>
      exact .inr ⟨d, rfl, hd, .through id .refl hmem (List.Subset.refl _) (fun _ => .inl)
        (.inl ⟨hmem, rfl⟩)⟩
  | other => exact .inl ⟨(), d, rfl, hd, rfl, rfl⟩
  | known => exact .inl ⟨(), d, rfl, hd, rfl, rfl⟩
  | underway item decl hstruct hnew hmem =>
      have hsome : (p.struct? id).isSome := by rw [hstruct]; rfl
      have hnone := (hd.blocked id (hpath hmem)).2
      refine .inr ⟨_, rfl, ⟨List.forall_mem_cons.2 ⟨⟨hsome, hnone⟩, hd.failed⟩, hd.blocked⟩, ?_⟩
      refine .through id .refl List.mem_cons_self (List.subset_cons_self _ _) (fun y hy => ?_)
        (.inr ⟨hnew, _, item, decl, rfl, hstruct, .inr rfl⟩)
      rcases List.mem_cons.1 hy with rfl | hy
      · exact .inr .refl
      · exact .inl hy
  | declared item decl hstruct hnew hfresh hunknown d' hrun =>
      obtain ⟨hd', hdisjoint'⟩ := hbegins hstruct hnew hunknown
      rcases hdeclare item decl hstruct hfresh d hd' hdisjoint' with
        ⟨_, d₁, hrun', h⟩ | ⟨d₁, hrun', -⟩
      · obtain rfl := (Prod.mk.inj (hrun.symm.trans hrun')).2
        exact .inl ⟨(), d', rfl, h⟩
      · cases hrun.symm.trans hrun'
  | fails item decl hstruct hnew hfresh hunknown e d' hrun =>
      obtain ⟨hd', hdisjoint'⟩ := hbegins hstruct hnew hunknown
      rcases hdeclare item decl hstruct hfresh d hd' hdisjoint' with
        ⟨_, d₁, hrun', -⟩ | ⟨d₁, hrun', hd₁, hfails⟩
      · cases hrun.symm.trans hrun'
      · obtain ⟨heq, rfl⟩ := Prod.mk.inj (hrun.symm.trans hrun')
        obtain rfl := Except.error.inj heq
        have hsome : (p.struct? id).isSome := by rw [hstruct]; rfl
        obtain ⟨hself, hrest⟩ := List.forall_mem_cons.1 hd₁.blocked
        exact .inr ⟨_, rfl, ⟨List.forall_mem_cons.2 ⟨⟨hsome, hself.2⟩, hd₁.failed⟩, hrest⟩,
          hfails.noted hnew hstruct⟩

/-- A demand that stops leaves its struct among the failed ones. -/
theorem mem_failed_of_unlessKnown {structs : NodeId → Option (Item × StructDecl)}
    {path : List NodeId} {id : NodeId} {declare : Item → StructDecl → Declare Unit}
    {d d' : Declaring} {e : Abort}
    (h : (unlessKnown structs path id declare).perform d = (.error e, d')) : id ∈ d'.failed := by
  have hdemanded := demanded_unlessKnown structs path id declare d
  rw [h] at hdemanded
  cases hdemanded with
  | failed hmem => exact hmem
  | underway => exact List.mem_cons_self
  | fails => exact List.mem_cons_self

theorem mem_failed_of_demand {structs : NodeId → Option (Item × StructDecl)} {depth : Nat}
    {path : List NodeId} {id : NodeId} {d d' : Declaring} {e : Abort}
    (h : (demand structs depth path id).perform d = (.error e, d')) : id ∈ d'.failed := by
  cases depth with
  | zero => exact mem_failed_of_unlessKnown h
  | succ depth => exact mem_failed_of_unlessKnown h

end Declare

/-! ## Items -/

/-- How the declaration of an item ends: it succeeds without a report, or it fails for one cause
and leaves the item without a type. A struct is its own cause by failing itself. -/
def Declare.Settles (p : Program) (blocked : List NodeId) (item : Item) (d : Declaring)
    (x : Declare Unit) : Prop :=
  (∃ d', x.perform d = (.ok (), d') ∧ d'.Unknown p blocked ∧ d'.failed = d.failed ∧
      d'.session.sink.errors = d.session.sink.errors) ∨
    ∃ d', x.perform d = (.error .item, d') ∧ d'.Unknown p blocked ∧
      d'.session.context.contains item.id = false ∧
      d.Fails p (fun z => z = item.id ∨ item.Mentions p z)
        (fun e => (∀ decl, item.kind ≠ .struct decl) ∧ item.Causes e) d'

theorem Declaring.Unknown.disjoint {p : Program} {blocked : List NodeId} {d : Declaring}
    (hd : d.Unknown p blocked) {ids : List NodeId} (hids : ∀ z ∈ ids, p.struct? z = none) :
    ids.Disjoint d.failed := by
  intro z hz hfailed
  have hsome := (hd.failed z hfailed).1
  rw [hids z hz] at hsome
  cases hsome

namespace Program

open Declare

variable {p : Program} {blocked : List NodeId}

/-- No item has its identity from a node of a signature. -/
theorem id_ne_of_mem (hnodup : p.signatureIds.Nodup) {item : Item} (hitem : item ∈ p.items)
    {i : NodeId} (hi : i ∈ item.kind.signatureIds) : ∀ w ∈ p.items, w.id ≠ i := by
  rintro w hw rfl
  obtain rfl := eq_of_mem_signatureIds hnodup hw hitem List.mem_cons_self
    (List.mem_cons_of_mem _ hi)
  exact (List.nodup_cons.1 ((List.nodup_flatMap.1 hnodup).1 w hw)).1 hi

section

variable (hnodup : p.signatureIds.Nodup)
include hnodup

/-- The structs on the path are among the blocked items, and no other struct is. -/
theorem tries_demand_underway {depth : Nat} {path : List NodeId} (hunderway : p.Underway depth path)
    (hpath : path ⊆ blocked) (hblocked : ∀ z ∈ blocked, (p.struct? z).isSome → z ∈ path)
    (id : NodeId) : Tries p blocked blocked (p.Mentions id)
      (fun _ => False) (Declare.demand p.struct? depth path id) := by
  induction depth generalizing path blocked id with
  | zero =>
      refine tries_unlessKnown hpath fun item decl hstruct hfresh => ?_
      obtain ⟨_, hdepth, -⟩ := hunderway.cons hfresh (by rw [hstruct]; rfl)
      cases hdepth
  | succ depth ih =>
      refine tries_unlessKnown hpath fun item decl hstruct hfresh => ?_
      have hsome : (p.struct? id).isSome := by rw [hstruct]; rfl
      obtain ⟨_, hdepth, hunderway'⟩ := hunderway.cons hfresh hsome
      obtain rfl : _ = depth := (Nat.succ.inj hdepth).symm
      obtain ⟨hitem, hkind, rfl⟩ := mem_of_struct? hstruct
      refine tries_struct (fun hmem => hfresh (hblocked _ hmem hsome))
        (fun i hi => id_ne_of_mem hnodup hitem hi) (fun z => ?_) hkind
      refine ih hunderway' (List.cons_subset_cons _ hpath) (fun y hy hstruct' => ?_) z
      exact List.mem_cons.2 ((List.mem_cons.1 hy).imp_right (hblocked y · hstruct'))

theorem tries_demand (hblocked : ∀ z ∈ blocked, p.struct? z = none) (id : NodeId) :
    Tries p blocked blocked (p.Mentions id) (fun _ => False) (p.demand id) := by
  refine tries_demand_underway hnodup p.underway_nil (List.nil_subset _) (fun z hz hsome => ?_) id
  rw [hblocked z hz] at hsome
  cases hsome

/-- An item that is no struct is blocked while it is declared. -/
theorem settles_of_tries (hblocked : ∀ z ∈ blocked, p.struct? z = none) {item : Item}
    (hitem : item ∈ p.items) (hkind : ∀ decl, item.kind ≠ .struct decl) {d : Declaring}
    (hd : d.Unknown p blocked) (hnone : d.session.context.contains item.id = false)
    {x : Declare Unit}
    (hx : Tries p (item.id :: blocked) blocked (item.Mentions p) item.Causes x) :
    x.Settles p blocked item d := by
  have hstructs : ∀ z ∈ item.id :: blocked, p.struct? z = none :=
    List.forall_mem_cons.2 ⟨struct?_eq_none_of_kind hnodup hitem hkind, hblocked⟩
  have hd' : d.Unknown p (item.id :: blocked) :=
    ⟨hd.failed, List.forall_mem_cons.2 ⟨⟨⟨item, hitem, rfl⟩, hnone⟩, hd.blocked⟩⟩
  rcases hx d hd' (hd.disjoint hstructs) with ⟨_, h⟩ | ⟨d₁, hrun, hd₁, hfails⟩
  · exact .inl h
  · obtain ⟨hself, hrest⟩ := List.forall_mem_cons.1 hd₁.blocked
    exact .inr ⟨d₁, hrun, ⟨hd₁.failed, hrest⟩, hself.2,
      hfails.mono (fun _ => .inr) fun _ h => ⟨hkind, h⟩⟩

theorem settles_declare (hblocked : ∀ z ∈ blocked, p.struct? z = none) {item : Item}
    (hitem : item ∈ p.items) (hid : item.id ∉ blocked) {d : Declaring} (hd : d.Unknown p blocked)
    (hnone : (∀ decl, item.kind ≠ .struct decl) → d.session.context.contains item.id = false) :
    (p.declare item).Settles p blocked item d := by
  have hids (i : NodeId) (hi : i ∈ item.kind.signatureIds) := id_ne_of_mem hnodup hitem hi
  have hdemand (hkind : ∀ decl, item.kind ≠ .struct decl) :=
    tries_demand hnodup
      (List.forall_mem_cons.2 ⟨struct?_eq_none_of_kind hnodup hitem hkind, hblocked⟩)
  unfold declare
  cases hkind : item.kind with
  | struct decl =>
      rcases tries_demand hnodup hblocked item.id d hd (hd.disjoint hblocked) with
        ⟨_, h⟩ | ⟨d₁, hrun, hd₁, hfails⟩
      · exact .inl h
      · refine .inr ⟨d₁, hrun, hd₁, (hd₁.failed _ (mem_failed_of_demand hrun)).2, ?_⟩
        have hstruct := struct?_of_mem hnodup hitem hkind
        exact hfails.mono (fun z hz => (mentions_iff hstruct z).1 hz) fun _ h => h.elim
  | fn decl =>
      have hother : ∀ decl, item.kind ≠ .struct decl := by simp [hkind]
      exact settles_of_tries hnodup hblocked hitem hother hd (hnone hother)
        (tries_fn hid hids (hdemand hother) hkind)
  | const decl =>
      have hother : ∀ decl, item.kind ≠ .struct decl := by simp [hkind]
      exact settles_of_tries hnodup hblocked hitem hother hd (hnone hother)
        (tries_const hid hids (hdemand hother) hkind)

end

end Program

end TypeInference

import TypeInference.Proofs.Ty.Instance
import TypeInference.Ty.Text

/-!
# The text of a type determines the type

A text is a word and what follows it, and whatever may follow a word, or a
whole text, begins with a bracket or a comma. So a type can be read off from
its text in front of anything else: the word first, then one by one the texts
between brackets. Fields are not written, but the declaration and the
arguments decide them.
-/

namespace TypeInference

def isDelimiter (c : Char) : Bool := ['(', ')', '<', '>', ','].contains c

/-- A name without brackets and commas, as every identifier is one. -/
def IsIdentifier (name : String) : Prop := name ≠ "" ∧ name.toList.any isDelimiter = false

structure Declarations.AreNamed (D : Declarations) : Prop where
  identifier : ∀ id d, D id = some d → IsIdentifier d.name
  distinct : ∀ i j d e, D i = some d → D j = some e → d.name = e.name → i = j
  not_prim : ∀ id d, D id = some d → ∀ p : Prim, d.name ≠ p.name

theorem Prim.isIdentifier_name (p : Prim) : IsIdentifier p.name := by
  cases p <;> exact ⟨by decide, by decide⟩

theorem Prim.name_ne_fn (p : Prim) : p.name ≠ "fn" := by
  cases p <;> decide

namespace Ty

variable {D : Declarations} {t u : Ty} {r s : List Char}

/-- A type without errors, variables and parameters, of declared structs: instances of their
declarations, where these have parameters. The field types are then those that the declaration and
the arguments give. -/
inductive IsComplete (D : Declarations) : Ty → Prop
  | unit : IsComplete D .unit
  | prim (p : Prim) : IsComplete D (.prim p)
  | fn {ps : List Ty} {r : Ty} (params : ∀ p ∈ ps, IsComplete D p) (result : IsComplete D r) :
      IsComplete D (.fn ps r)
  | adt {a : Adt Ty} (declared : IsDeclared D (.adt a))
      (args : ∀ t ∈ a.args.getD [], IsComplete D t) : IsComplete D (.adt a)

/-! ## Words -/

/-- What the text begins with, up to the first bracket. -/
def word : Ty → String
  | .prim p => p.name
  | .fn _ _ => "fn"
  | .adt a => a.name
  | _ => ""

def rest : Ty → String
  | .unit => "()"
  | .fn ps r => "(" ++ commaSeparated (ps.map text) ++ ") -> " ++ text r
  | .adt a =>
      bracketed
        (if (a.args.getD []).isEmpty then a.params.map Param.name else (a.args.getD []).map text)
  | _ => ""

theorem text_eq (h : t.IsComplete D) : t.text = t.word ++ t.rest := by
  cases h with
  | unit => rfl
  | prim p => simp [text, word, rest]
  | fn => simp [text_fn, word, rest, ← String.append_assoc]
  | adt => exact text_adt _

/-- Nothing, or something that begins with a bracket or a comma. -/
def IsSetOff (cs : List Char) : Prop := ∀ c, cs.head? = some c → isDelimiter c = true

/-- What may follow the text of a type. -/
def Ends (cs : List Char) : Prop := ∀ c, cs.head? = some c → c ∈ [')', '>', ',']

/-- What may follow the last of several texts. -/
def Closes (cs : List Char) : Prop := ∃ c ∈ [')', '>'], cs.head? = some c

theorem Ends.isSetOff (h : Ends r) : IsSetOff r := by
  intro c hc
  have hmem := h c hc
  simp only [List.mem_cons, List.not_mem_nil, or_false] at hmem
  rcases hmem with rfl | rfl | rfl <;> rfl

theorem Closes.ends (h : Closes r) : Ends r := by
  obtain ⟨c, hc, hhead⟩ := h
  intro c' hc'
  obtain rfl : c = c' := Option.some.inj (hhead.symm.trans hc')
  simp only [List.mem_cons, List.not_mem_nil, or_false] at hc ⊢
  exact hc.imp_right .inl

/-- A word ends where the first delimiter stands. -/
theorem word_append_inj {v w : List Char} (hv : v.any isDelimiter = false)
    (hw : w.any isDelimiter = false) (hr : IsSetOff r) (hs : IsSetOff s) (h : v ++ r = w ++ s) :
    v = w ∧ r = s := by
  induction v generalizing w with
  | nil =>
      cases w with
      | nil => exact ⟨rfl, h⟩
      | cons c w =>
          have hdelimiter := hr c (by simp at h; simp [h])
          simp [hdelimiter] at hw
  | cons c v ih =>
      cases w with
      | nil =>
          have hdelimiter := hs c (by simp at h; simp [← h])
          simp [hdelimiter] at hv
      | cons c' w =>
          simp only [List.cons_append, List.cons.injEq] at h
          obtain ⟨rfl, h⟩ := h
          rw [List.any_cons, Bool.or_eq_false_iff] at hv hw
          obtain ⟨rfl, hrest⟩ := ih hv.2 hw.2 h
          exact ⟨rfl, hrest⟩

/-- The declaration of a struct type, whose name it bears. -/
theorem exists_declaration {a : Adt Ty} (h : (Ty.adt a).IsDeclared D) :
    ∃ d, D a.decl = some d ∧ a.name = d.name := by
  obtain ⟨d, hd, ⟨-, rfl⟩ | ⟨-, args, -, rfl⟩⟩ := h
  · exact ⟨a, hd, rfl⟩
  · exact ⟨d, hd, rfl⟩

theorem isSetOff_cons {c : Char} (hc : isDelimiter c = true) (cs : List Char) : IsSetOff (c :: cs) := by
  intro c' hc'
  obtain rfl : c = c' := by simpa using hc'
  exact hc

theorem isSetOff_bracketed (texts : List String) (hr : IsSetOff r) :
    IsSetOff ((bracketed texts).toList ++ r) := by
  cases texts with
  | nil => exact hr
  | cons text texts =>
      rw [bracketed, if_neg (by simp), String.append_assoc, String.toList_append, List.append_assoc]
      exact isSetOff_cons (c := '<') rfl _

theorem isSetOff_rest (t : Ty) (hr : IsSetOff r) : IsSetOff (t.rest.toList ++ r) := by
  cases t with
  | unit => exact isSetOff_cons (c := '(') rfl _
  | fn ps s =>
      rw [rest, String.append_assoc, String.append_assoc, String.toList_append, List.append_assoc]
      exact isSetOff_cons (c := '(') rfl _
  | adt a => exact isSetOff_bracketed _ hr
  | _ => exact hr

section

variable (hD : D.AreNamed)
include hD

theorem not_delimiter_word (h : t.IsComplete D) : t.word.toList.any isDelimiter = false := by
  cases h with
  | unit => simp [word]
  | prim p => exact p.isIdentifier_name.2
  | fn =>
      show "fn".toList.any isDelimiter = false
      decide
  | adt hdeclared =>
      obtain ⟨d, hd, hname⟩ := exists_declaration hdeclared
      rw [word, hname]
      exact (hD.identifier _ d hd).2

/-- Only the text of the unit type begins with a bracket. -/
theorem word_ne_empty (h : t.IsComplete D) (hunit : t ≠ .unit) : t.word ≠ "" := by
  cases h with
  | unit => exact (hunit rfl).elim
  | prim p => exact p.isIdentifier_name.1
  | fn => simp [word]
  | adt hdeclared =>
      obtain ⟨d, hd, hname⟩ := exists_declaration hdeclared
      rw [word, hname]
      exact (hD.identifier _ d hd).1

/-- The text of a type does not begin as what follows a text does. -/
theorem head_text (h : t.IsComplete D) (r : List Char) : ¬ Ends (t.text.toList ++ r) := by
  intro hends
  by_cases hunit : t = .unit
  · subst hunit
    have hmem := hends '(' rfl
    simp at hmem
  · obtain ⟨c, cs, hcs⟩ := List.exists_cons_of_ne_nil
      (mt String.toList_eq_nil_iff.1 (word_ne_empty hD h hunit))
    have hword := not_delimiter_word hD h
    rw [hcs, List.any_cons, Bool.or_eq_false_iff] at hword
    rw [text_eq h, String.toList_append, hcs] at hends
    have hdelimiter := hends.isSetOff c rfl
    rw [hword.1] at hdelimiter
    cases hdelimiter

/-- Texts that are the beginnings of one text begin with the same word. -/
theorem word_eq (ht : t.IsComplete D) (hu : u.IsComplete D) (hr : Ends r) (hs : Ends s)
    (h : t.text.toList ++ r = u.text.toList ++ s) :
    t.word = u.word ∧ t.rest.toList ++ r = u.rest.toList ++ s := by
  rw [text_eq ht, text_eq hu, String.toList_append, String.toList_append, List.append_assoc,
    List.append_assoc] at h
  obtain ⟨hword, hrest⟩ := word_append_inj (not_delimiter_word hD ht) (not_delimiter_word hD hu)
    (isSetOff_rest t hr.isSetOff) (isSetOff_rest u hs.isSetOff) h
  exact ⟨String.toList_inj.1 hword, hrest⟩

end

/-! ## Lists of texts -/

/-- Whether the type is known from its text, in front of whatever may follow one, and so is where the
text ends. -/
def IsReadable (D : Declarations) (t : Ty) : Prop :=
  ∀ u r s, u.IsComplete D → Ends r → Ends s → t.text.toList ++ r = u.text.toList ++ s → t = u ∧ r = s

/-- The texts after the first one. -/
def further (ts : List Ty) : List Char := ts.flatMap fun t => ',' :: ' ' :: t.text.toList

theorem toList_commaSeparated (t : Ty) (ts : List Ty) :
    (commaSeparated ((t :: ts).map text)).toList = t.text.toList ++ further ts := by
  rw [commaSeparated, String.toList_intercalate]
  induction ts generalizing t with
  | nil => simp [further]
  | cons u us ih =>
      have hrest := ih u
      simp only [List.map_cons] at hrest ⊢
      rw [List.intercalate_cons_cons, hrest]
      simp [further]

theorem ends_further (ts : List Ty) (hr : Closes r) : Ends (further ts ++ r) := by
  cases ts with
  | nil => exact hr.ends
  | cons t ts =>
      intro c hc
      obtain rfl : ',' = c := by simpa [further] using hc
      simp

theorem Closes.ne_comma {cs : List Char} : ¬ Closes (',' :: cs) := by
  rintro ⟨c, hc, hhead⟩
  obtain rfl : ',' = c := by simpa using hhead
  simp at hc

theorem further_append_inj {ts us : List Ty} (h : ∀ t ∈ ts, t.IsReadable D)
    (hus : ∀ u ∈ us, u.IsComplete D) (hr : Closes r) (hs : Closes s)
    (heq : further ts ++ r = further us ++ s) : ts = us ∧ r = s := by
  induction ts generalizing us with
  | nil =>
      cases us with
      | nil => exact ⟨rfl, heq⟩
      | cons u us =>
          rw [show r = ',' :: ' ' :: (u.text.toList ++ further us ++ s) by
            simpa [further] using heq] at hr
          exact hr.ne_comma.elim
  | cons t ts ih =>
      cases us with
      | nil =>
          rw [show s = ',' :: ' ' :: (t.text.toList ++ further ts ++ r) by
            simpa [further] using heq.symm] at hs
          exact hs.ne_comma.elim
      | cons u us =>
          have htext : t.text.toList ++ (further ts ++ r) = u.text.toList ++ (further us ++ s) := by
            simpa [further] using heq
          obtain ⟨rfl, hrest⟩ := h t List.mem_cons_self u _ _ (hus u List.mem_cons_self)
            (ends_further ts hr) (ends_further us hs) htext
          obtain ⟨rfl, hend⟩ := ih (fun t ht => h t (List.mem_cons_of_mem _ ht))
            (fun u hu => hus u (List.mem_cons_of_mem _ hu)) hrest
          exact ⟨rfl, hend⟩

section

variable (hD : D.AreNamed)
include hD

/-- A list of types is known from its text in front of a closing bracket. -/
theorem commaSeparated_append_inj {ts us : List Ty} (h : ∀ t ∈ ts, t.IsReadable D)
    (hts : ∀ t ∈ ts, t.IsComplete D) (hus : ∀ u ∈ us, u.IsComplete D) (hr : Closes r) (hs : Closes s)
    (heq : (commaSeparated (ts.map text)).toList ++ r = (commaSeparated (us.map text)).toList ++ s) :
    ts = us ∧ r = s := by
  cases ts with
  | nil =>
      cases us with
      | nil => exact ⟨rfl, by simpa using heq⟩
      | cons u us =>
          rw [toList_commaSeparated, List.append_assoc] at heq
          refine (head_text hD (hus u List.mem_cons_self) (further us ++ s) ?_).elim
          rw [← heq]
          exact hr.ends
  | cons t ts =>
      cases us with
      | nil =>
          rw [toList_commaSeparated, List.append_assoc] at heq
          refine (head_text hD (hts t List.mem_cons_self) (further ts ++ r) ?_).elim
          rw [heq]
          exact hs.ends
      | cons u us =>
          rw [toList_commaSeparated, toList_commaSeparated, List.append_assoc, List.append_assoc] at heq
          obtain ⟨rfl, hrest⟩ := h t List.mem_cons_self u _ _ (hus u List.mem_cons_self)
            (ends_further ts hr) (ends_further us hs) heq
          obtain ⟨rfl, hend⟩ := further_append_inj (fun t ht => h t (List.mem_cons_of_mem _ ht))
            (fun u hu => hus u (List.mem_cons_of_mem _ hu)) hr hs hrest
          exact ⟨rfl, hend⟩

/-! ## Types -/

theorem word_adt_ne_prim {a : Adt Ty} (h : (Ty.adt a).IsDeclared D) (p : Prim) : a.name ≠ p.name := by
  obtain ⟨d, hd, hname⟩ := exists_declaration h
  rw [hname]
  exact hD.not_prim _ d hd p

omit hD in
/-- The parameters of a function follow no struct, even if its name is `fn`. -/
theorem bracketed_ne_open (texts : List String) (cs : List Char) (hr : Ends r) :
    (bracketed texts).toList ++ r ≠ '(' :: cs := by
  intro h
  cases texts with
  | nil =>
      have hmem := hr '(' (congrArg List.head? h)
      simp at hmem
  | cons text texts =>
      rw [bracketed, if_neg (by simp), String.append_assoc, String.toList_append] at h
      cases h

omit hD in
theorem rest_fn_append (ps : List Ty) (t : Ty) (r : List Char) : (Ty.fn ps t).rest.toList ++ r =
    '(' :: ((commaSeparated (ps.map text)).toList ++
      (')' :: ' ' :: '-' :: '>' :: ' ' :: (t.text.toList ++ r))) := by
  simp [rest]

omit hD in
theorem rest_instantiate_append (d : Adt Ty) {args : List Ty} (hargs : args ≠ []) (r : List Char) :
    (Ty.adt (d.instantiate args)).rest.toList ++ r =
      '<' :: ((commaSeparated (args.map text)).toList ++ ('>' :: r)) := by
  simp [rest, bracketed, Adt.instantiate, hargs]

/-- A function is read by its parameters up to the closing bracket, and then by its result. -/
theorem isReadable_fn {ps : List Ty} {t : Ty} (hps : ∀ p ∈ ps, p.IsComplete D) (ht : t.IsComplete D)
    (ihps : ∀ p ∈ ps, p.IsReadable D) (iht : t.IsReadable D) : (Ty.fn ps t).IsReadable D := by
  intro u r s hu hr hs h
  obtain ⟨hword, hrest⟩ := word_eq hD (.fn hps ht) hu hr hs h
  cases hu with
  | unit => simp [word] at hword
  | prim q => exact (q.name_ne_fn hword.symm).elim
  | @fn qs u hqs hu =>
      rw [rest_fn_append, rest_fn_append] at hrest
      obtain ⟨rfl, harrow⟩ := commaSeparated_append_inj hD ihps hps hqs ⟨')', by simp⟩ ⟨')', by simp⟩
        (List.cons.inj hrest).2
      simp only [List.cons.injEq, true_and] at harrow
      obtain ⟨rfl, hend⟩ := iht u r s hu hr hs harrow
      exact ⟨rfl, hend⟩
  | adt hdeclared =>
      rw [rest_fn_append] at hrest
      exact (bracketed_ne_open _ _ hs hrest.symm).elim

/-- Structs of one name have one declaration, so the arguments tell them apart. -/
theorem isReadable_adt {a : Adt Ty} (ha : (Ty.adt a).IsDeclared D)
    (hargs : ∀ t ∈ a.args.getD [], t.IsComplete D) (ih : ∀ t ∈ a.args.getD [], t.IsReadable D) :
    (Ty.adt a).IsReadable D := by
  intro u r s hu hr hs h
  obtain ⟨hword, hrest⟩ := word_eq hD (.adt ha hargs) hu hr hs h
  cases hu with
  | unit => exact (word_ne_empty hD (.adt ha hargs) (by simp) hword).elim
  | prim q => exact (word_adt_ne_prim hD ha q hword).elim
  | fn =>
      rw [rest_fn_append] at hrest
      exact (bracketed_ne_open _ _ hr hrest).elim
  | @adt b hb hbargs =>
      have hdecl : a.decl = b.decl := by
        obtain ⟨d, hd, had⟩ := exists_declaration ha
        obtain ⟨e, he, hbe⟩ := exists_declaration hb
        exact hD.distinct _ _ d e hd he (had.symm.trans (Eq.trans hword hbe))
      obtain ⟨d, hd, ha⟩ := ha
      obtain ⟨e, he, hb⟩ := hb
      obtain rfl : d = e := Option.some.inj (hd.symm.trans (hdecl ▸ he))
      rcases ha with ⟨hplain, rfl⟩ | ⟨hgeneric, xs, hxs, rfl⟩
      · obtain ⟨-, rfl⟩ | ⟨hgeneric, -⟩ := hb
        · exact ⟨rfl, List.append_cancel_left hrest⟩
        · exact (hgeneric hplain).elim
      · obtain ⟨hplain, -⟩ | ⟨-, ys, hys, rfl⟩ := hb
        · exact (hgeneric hplain).elim
        · have hlength := List.length_pos_iff.2 hgeneric
          rw [rest_instantiate_append d (List.ne_nil_of_length_pos (hxs ▸ hlength)),
            rest_instantiate_append d (List.ne_nil_of_length_pos (hys ▸ hlength))] at hrest
          obtain ⟨rfl, hend⟩ := commaSeparated_append_inj hD ih hargs hbargs ⟨'>', by simp⟩
            ⟨'>', by simp⟩ (List.cons.inj hrest).2
          exact ⟨rfl, (List.cons.inj hend).2⟩

/-- Every complete type is known from its text. -/
theorem IsComplete.isReadable (ht : t.IsComplete D) : t.IsReadable D := by
  induction ht with
  | unit =>
      intro u r s hu hr hs h
      obtain ⟨hword, hrest⟩ := word_eq hD .unit hu hr hs h
      obtain rfl : u = .unit := Classical.byContradiction fun hne => word_ne_empty hD hu hne hword.symm
      exact ⟨rfl, List.append_cancel_left hrest⟩
  | prim p =>
      intro u r s hu hr hs h
      obtain ⟨hword, hrest⟩ := word_eq hD (.prim p) hu hr hs h
      cases hu with
      | unit => exact (p.isIdentifier_name.1 hword).elim
      | prim q => exact ⟨congrArg Ty.prim (Prim.name_injective hword), hrest⟩
      | fn => exact (p.name_ne_fn hword).elim
      | adt hdeclared => exact (word_adt_ne_prim hD hdeclared p hword.symm).elim
  | fn hparams hresult ihparams ihresult => exact isReadable_fn hD hparams hresult ihparams ihresult
  | adt hdeclared hargs ih => exact isReadable_adt hD hdeclared hargs ih

/-- Complete types of one text are one type. -/
theorem text_injective (ht : t.IsComplete D) (hu : u.IsComplete D) (h : t.text = u.text) : t = u := by
  have hends : Ends [] := by simp [Ends]
  exact (ht.isReadable hD u [] [] hu hends hends (by rw [h])).1

end

/-- A generic struct that is named as functions are written, at a function and a struct. -/
theorem text_injective_instance :
    let unary : Adt Ty := ⟨0, "S", .tuple, [⟨"0", .prim .bool, 0⟩], [], none⟩
    let pair : Adt Ty := ⟨1, "fn", .named,
      [⟨"a", .param ⟨0, "A"⟩, 0⟩, ⟨"f", .fn [.param ⟨1, "B"⟩] (.param ⟨0, "A"⟩), 1⟩],
      [⟨0, "A"⟩, ⟨1, "B"⟩], none⟩
    let D : Declarations := fun id => [unary, pair][id]?
    let predicate := Ty.fn [] (.prim .bool)
    let t := Ty.adt (pair.instantiate [predicate, .adt unary])
    let u := Ty.adt ⟨1, "fn", .named,
      [⟨"a", predicate, 0⟩, ⟨"f", .fn [.adt unary] predicate, 1⟩],
      [⟨0, "A"⟩, ⟨1, "B"⟩], some [predicate, .adt unary]⟩
    D.AreNamed ∧ t.IsComplete D ∧ u.IsComplete D ∧ t.text = "fn<fn() -> bool, S>" ∧
      u.text = t.text ∧ t = u := by
  intro unary pair D predicate t u
  have hcases (id : NodeId) (d : Adt Ty) (h : D id = some d) :
      id = 0 ∧ d = unary ∨ id = 1 ∧ d = pair := by
    match id, h with
    | 0, h => exact .inl ⟨rfl, (Option.some.inj h).symm⟩
    | 1, h => exact .inr ⟨rfl, (Option.some.inj h).symm⟩
  have hD : D.AreNamed := by
    refine ⟨fun id d h => ?_, fun i j d e hi hj => ?_, fun id d h => ?_⟩
    · rcases hcases id d h with ⟨-, rfl⟩ | ⟨-, rfl⟩ <;> exact ⟨by decide, by decide⟩
    · rcases hcases i d hi with ⟨rfl, rfl⟩ | ⟨rfl, rfl⟩ <;>
        rcases hcases j e hj with ⟨rfl, rfl⟩ | ⟨rfl, rfl⟩ <;> decide
    · rcases hcases id d h with ⟨-, rfl⟩ | ⟨-, rfl⟩ <;> intro p <;> cases p <;> decide
  have hargs : ∀ a ∈ [predicate, .adt unary], a.IsComplete D := by
    rintro a (_ | ⟨_, _ | ⟨_, ⟨⟩⟩⟩)
    · exact .fn (fun _ hp => nomatch hp) (.prim .bool)
    · exact .adt ⟨unary, rfl, .inl ⟨rfl, rfl⟩⟩ fun _ hp => nomatch hp
  have ht : t.IsComplete D :=
    .adt ⟨pair, rfl, .inr ⟨by decide, [predicate, .adt unary], rfl, rfl⟩⟩ hargs
  have hu : u.IsComplete D :=
    .adt ⟨pair, rfl, .inr ⟨by decide, [predicate, .adt unary], rfl, rfl⟩⟩ hargs
  exact ⟨hD, ht, hu, by decide, by decide, text_injective hD ht hu (by decide)⟩

end Ty

end TypeInference

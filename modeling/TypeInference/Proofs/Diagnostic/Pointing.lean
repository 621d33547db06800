import Mathlib.Data.List.Infix
import TypeInference.Diagnostic.Snippet
import TypeInference.Proofs.Source.Stretch

/-!
# What a rendered error points at

A report names a line and a column, and it underlines characters of the line that
it shows. Both are read off here from the rows of a report, and compared with
the place in the source that the span of the error stands for.
-/

namespace TypeInference

open Source

namespace Snippet

/-! ## Reading a report -/

/-- Whether a row ends with this line and column. -/
def Locates (row : String) (number column : Nat) : Prop :=
  ∃ start : String, row = start ++ ":" ++ toString number ++ ":" ++ toString column ++ " ]"

/-- The characters of a line with the columns that they take in a report. Blanks at its end are not
shown, and each takes a single column. -/
def cells (line : List Char) : List (Char × Nat) :=
  line.zip ((widths 0 (trimEnd line) line.length).map Prod.snd)

def isStroke (c : Char) : Bool := c = '─' || c = '┬'

/-- The characters that have a stroke in one of their columns. -/
def underlined : List (Char × Nat) → List Char → List Char
  | [], _ => []
  | (c, width) :: rest, marks =>
      (if (marks.take width).any isStroke then [c] else []) ++ underlined rest (marks.drop width)

/-- Whether a report names the line and the column where a stretch begins, and underlines its
characters and no others. -/
structure PointsAt {text : List Char} (report : List String) (s : Stretch text) : Prop where
  located : ∃ row, report[1]? = some row ∧ Locates row s.number s.column
  marked : ∃ (edge margin : String) (marks : List Char), edge.length = margin.length ∧
    report[3]? = some (edge ++ String.ofList (spread 0 (trimEnd s.line))) ∧
    report[4]? = some (margin ++ String.ofList marks) ∧
    underlined (cells s.line) marks = s.chars

theorem eq_of_append_digits {p q : List Char} {m n : Nat}
    (h : p ++ ':' :: Nat.toDigits 10 m = q ++ ':' :: Nat.toDigits 10 n) : p = q ∧ m = n := by
  have hdigits (p : List Char) (n : Nat) :
      (p ++ ':' :: Nat.toDigits 10 n).reverse.takeWhile Char.isDigit =
        (Nat.toDigits 10 n).reverse := by
    rw [List.reverse_append, List.reverse_cons, List.append_assoc, List.takeWhile_append_of_pos]
    · simp
    · intro c hc
      exact Nat.isDigit_of_mem_toDigits (by decide) (by decide) (List.mem_reverse.1 hc)
  have hsame : Nat.toDigits 10 m = Nat.toDigits 10 n := by
    rw [← List.reverse_inj, ← hdigits p m, h, hdigits]
  rw [hsame] at h
  refine ⟨List.append_cancel_right h, ?_⟩
  calc m = Nat.ofDigitChars 10 (Nat.toDigits 10 m) 0 := Nat.ofDigitChars_ten_toDigits.symm
    _ = Nat.ofDigitChars 10 (Nat.toDigits 10 n) 0 := by rw [hsame]
    _ = n := Nat.ofDigitChars_ten_toDigits

/-- A row ends with one line and column at most. -/
theorem Locates.unique {row : String} {m n m' n' : Nat} (h : Locates row m n)
    (h' : Locates row m' n') : m = m' ∧ n = n' := by
  obtain ⟨p, rfl⟩ := h
  obtain ⟨q, hq⟩ := h'
  have hcolumns : (p.toList ++ ':' :: Nat.toDigits 10 m) ++ ':' :: Nat.toDigits 10 n =
      (q.toList ++ ':' :: Nat.toDigits 10 m') ++ ':' :: Nat.toDigits 10 n' := by
    have hlists := congrArg String.toList hq
    simp only [String.toList_append, Nat.toString_eq_repr, Nat.toList_repr] at hlists
    simpa using List.append_cancel_right hlists
  obtain ⟨hnumbers, hn⟩ := eq_of_append_digits hcolumns
  exact ⟨(eq_of_append_digits hnumbers).2, hn⟩

/-! ## The marker -/

section

variable {x : Extent} {line text : List Char} {position m n : Nat}

theorem widths_succ (position : Nat) (text : List Char) (n : Nat) :
    widths position text (n + 1) =
      (position, (text.head?.map (width position)).getD 1) :: widths (position + 1) text.tail n := by
  cases text <;> rfl

theorem length_widths (position : Nat) (text : List Char) (n : Nat) :
    (widths position text n).length = n := by
  induction n generalizing position text with
  | zero => simp [widths]
  | succ n ih => rw [widths_succ, List.length_cons, ih]

theorem widths_add (position : Nat) (text : List Char) (m n : Nat) :
    widths position text (m + n) =
      widths position text m ++ widths (position + m) (text.drop m) n := by
  induction m generalizing position text with
  | zero => simp [widths]
  | succ m ih =>
      rw [Nat.add_right_comm, widths_succ, widths_succ, ih, List.cons_append, List.drop_tail,
        Nat.add_assoc, Nat.add_comm 1]

/-- Positions are numbered one after the other. -/
theorem position_of_mem_widths {q : Nat × Nat} (h : q ∈ widths position text n) :
    position ≤ q.1 ∧ q.1 < position + n := by
  induction n generalizing position text with
  | zero => simp [widths] at h
  | succ n ih =>
      rw [widths_succ] at h
      rcases List.mem_cons.1 h with rfl | h
      · exact ⟨Nat.le_refl _, Nat.lt_add_of_pos_right (Nat.succ_pos n)⟩
      · have hlater := ih h
        omega

/-- A position takes some column if its character does. -/
theorem width_pos_of_mem_widths (htext : ∀ c ∈ text.take n, ∀ p, 0 < width p c) {q : Nat × Nat}
    (h : q ∈ widths position text n) : 0 < q.2 := by
  induction n generalizing position text with
  | zero => simp [widths] at h
  | succ n ih =>
      cases text with
      | nil =>
          rcases List.mem_cons.1 h with rfl | h
          · exact Nat.one_pos
          · exact ih (by simp) h
      | cons c text =>
          rw [List.take_succ_cons, List.forall_mem_cons] at htext
          rcases List.mem_cons.1 h with rfl | h
          · exact htext.1 position
          · exact ih htext.2 h

theorem length_underline (x : Extent) (position width : Nat) :
    (underline x position width).length = width := by
  unfold underline
  split
  · split <;> exact length_stroke ..
  · split <;> exact length_stroke ..

theorem any_stroke {p : Char → Bool} {head tail : Char} (h : p head = p tail) (width : Nat) :
    (stroke head tail width).any p = (p head && decide (0 < width)) := by
  cases width with
  | zero => simp [stroke]
  | succ n => simp [stroke, repeated, h]

/-- Whether a stroke shows that a span covers a position of this width. -/
def Extent.marks (x : Extent) (q : Nat × Nat) : Bool := x.covers q.1 && decide (0 < q.2)

theorem covers_iff : x.covers position = true ↔ x.start ≤ position ∧ position < x.stop := by
  simp [Extent.covers]

theorem marks_iff {q : Nat × Nat} :
    x.marks q = true ↔ (x.start ≤ q.1 ∧ q.1 < x.stop) ∧ 0 < q.2 := by
  simp [Extent.marks, covers_iff]

theorem any_isStroke_underline (hanchor : x.covers x.anchor) (q : Nat × Nat) :
    (underline x q.1 q.2).any isStroke = x.marks q := by
  unfold underline
  by_cases hposition : q.1 = x.anchor
  · have hsame : isStroke '┬' = isStroke '─' := rfl
    rw [if_pos hposition, hposition, if_pos hanchor, any_stroke hsame, Extent.marks, hposition,
      hanchor]
    rfl
  · rw [if_neg hposition, Extent.marks]
    cases hcovers : x.covers q.1 with
    | true => rw [if_pos rfl, any_stroke rfl]; rfl
    | false => rw [if_neg Bool.false_ne_true, any_stroke rfl]; rfl

/-- The marker row underlines the characters that the span covers. -/
theorem underlined_marks (hanchor : x.covers x.anchor) (line text : List Char) (position n : Nat)
    (hn : x.stop ≤ position + n) :
    underlined (line.zip ((widths position text line.length).map Prod.snd))
        ((widths position text n).flatMap fun q => underline x q.1 q.2) =
      ((line.zip (widths position text line.length)).filter fun c => x.marks c.2).map Prod.fst := by
  induction line generalizing position text n with
  | nil => simp [underlined, widths]
  | cons c line ih =>
      rw [List.length_cons, widths_succ, List.map_cons, List.zip_cons_cons, List.zip_cons_cons,
        underlined, List.filter_cons]
      cases n with
      | zero =>
          -- The row ends here, and so has the span.
          have hcovers : x.covers position = false := by
            rw [Bool.eq_false_iff, Ne, covers_iff]
            omega
          have hrest := ih text.tail (position + 1) 0 (by omega)
          simpa [widths, Extent.marks, hcovers] using hrest
      | succ n =>
          have hrest := ih text.tail (position + 1) n (by omega)
          rw [widths_succ, List.flatMap_cons, List.take_left' (length_underline ..),
            List.drop_left' (length_underline ..), any_isStroke_underline hanchor (_, _), hrest]
          split <;> rfl

theorem filter_marks_of_apart (h : position + line.length ≤ x.start ∨ x.stop ≤ position) :
    (line.zip (widths position text line.length)).filter (fun c => x.marks c.2) = [] := by
  refine List.filter_eq_nil_iff.2 fun c hc => ?_
  have hposition := position_of_mem_widths (List.of_mem_zip hc).2
  rw [marks_iff]
  omega

theorem filter_marks_of_within (hstart : x.start ≤ position) (hstop : position + line.length ≤ x.stop)
    (htext : ∀ c ∈ text.take line.length, ∀ p, 0 < width p c) :
    (line.zip (widths position text line.length)).filter (fun c => x.marks c.2) =
      line.zip (widths position text line.length) := by
  refine List.filter_eq_self.2 fun c hc => ?_
  have hmem := (List.of_mem_zip hc).2
  have hposition := position_of_mem_widths hmem
  have hwidth := width_pos_of_mem_widths htext hmem
  rw [marks_iff]
  omega

end

theorem trimEnd_isPrefix (cs : List Char) : trimEnd cs <+: cs := by
  have hsuffix := List.reverse_prefix.2 (List.dropWhile_suffix isBlank (l := cs.reverse))
  rwa [List.reverse_reverse] at hsuffix

section

variable {text : List Char} {source : String} {e : TypeError}

/-- What is shown of the characters of a stretch. -/
theorem mem_chars_of_shown (s : Stretch text) {c : Char}
    (hc : c ∈ ((trimEnd s.line).drop s.before.length).take s.chars.length) : c ∈ s.chars := by
  have hdrop := List.IsPrefix.drop (trimEnd_isPrefix s.line) s.before.length
  have hmem := (List.IsPrefix.take hdrop s.chars.length).subset hc
  simpa [Stretch.line, List.append_assoc] using hmem

/-- A marker row for the positions of a stretch underlines its characters. -/
theorem underlined_stretch (s : Stretch text) (hvisible : ∀ c ∈ s.chars, ∀ p, 0 < width p c)
    {x : Extent} (hstart : x.start = s.before.length)
    (hstop : x.stop = s.before.length + s.chars.length) (hanchor : x.covers x.anchor) {n : Nat}
    (hn : x.stop ≤ n) :
    underlined (cells s.line)
      ((widths 0 (trimEnd s.line) n).flatMap fun q => underline x q.1 q.2) = s.chars := by
  have hzip : s.line.zip (widths 0 (trimEnd s.line) s.line.length) =
      s.before.zip (widths 0 (trimEnd s.line) s.before.length) ++
        s.chars.zip (widths s.before.length ((trimEnd s.line).drop s.before.length) s.chars.length) ++
        s.after.zip (widths (s.before.length + s.chars.length)
          ((trimEnd s.line).drop (s.before.length + s.chars.length)) s.after.length) := by
    rw [s.length_line, widths_add, widths_add, Nat.zero_add, Nat.zero_add]
    rw [← List.zip_append (by rw [length_widths]), ← List.zip_append (by simp [length_widths])]
    rfl
  rw [cells, underlined_marks hanchor _ _ _ _ (by rwa [Nat.zero_add]), hzip, List.filter_append,
    List.filter_append, filter_marks_of_apart (.inl (by omega)),
    filter_marks_of_within (by omega) (by omega) fun c hc => hvisible c (mem_chars_of_shown s hc),
    filter_marks_of_apart (.inr (by omega)), List.nil_append, List.append_nil,
    List.map_fst_zip (length_widths ..).ge]

theorem clamp_of_lt {length : Nat} {span : Span} (hlt : span.start < span.stop)
    (hle : span.stop ≤ length) : clamp length span = span := by
  have hstart : min span.start length = span.start := Nat.min_eq_left (by omega)
  have hstop : max (min span.stop length) span.start = span.stop := by
    rw [Nat.min_eq_left hle, Nat.max_eq_left (Nat.le_of_lt hlt)]
  simp only [clamp, hstart, hstop, if_neg (Nat.ne_of_lt hlt)]

theorem clamp_span (s : Stretch source.toList) : clamp source.utf8ByteSize s.span = s.span := by
  refine clamp_of_lt s.start_lt_stop ?_
  rw [← String.utf8Len_toList]
  exact s.stop_le

theorem covers_anchor {span : Span} {offset : Nat} (hlt : span.start < span.stop)
    (hle : offset ≤ span.start) :
    (Extent.ofSpan offset span).covers (Extent.ofSpan offset span).anchor := by
  rw [covers_iff]
  simp only [Extent.ofSpan]
  omega

/-! ## Rows of a report -/

def layout (source : String) (span : Span) : Layout := ⟨lineAt source.toList span.start, span⟩

theorem inText_iff {length : Nat} {span : Span} : inText length span = true ↔
    span.start ≤ length ∧ (span.stop ≤ span.start ∨ span.stop - 1 ≤ length) := by
  simp [inText]

theorem rows_of_inText {span : Span} (hspan : clamp source.utf8ByteSize e.span = span)
    (h : inText source.toList.length span = true) :
    rows source e = title e :: (layout source span).header ++
      (layout source span).body e.cause.label ++ (layout source span).help e.cause.help? ++
        [(layout source span).footer] := by
  simp [rows, hspan, h, layout]

theorem locates_header (l : Layout) :
    ∃ row edge, l.header = [row, edge] ∧ Locates row l.line.number l.column := by
  refine ⟨_, _, rfl, l.gutter ++ "╭─[ <unknown>", ?_⟩
  have hcolon : "╭─[ <unknown>:" = "╭─[ <unknown>" ++ ":" := rfl
  rw [hcolon, ← String.append_assoc]
  rfl

/-- The line and the column that a report names are those of the character whose number is the start
of the span. -/
theorem locates_of_rows {span : Span} (hspan : clamp source.utf8ByteSize e.span = span) {row : String}
    (hrow : (rows source e)[1]? = some row) :
    Locates row (lineAt source.toList span.start).number (layout source span).column := by
  cases h : inText source.toList.length span with
  | false => simp [rows, hspan, h] at hrow
  | true =>
      obtain ⟨first, edge, hheader, hlocates⟩ := locates_header (layout source span)
      rw [rows_of_inText hspan h, hheader] at hrow
      obtain rfl : first = row := by simpa using hrow
      exact hlocates

theorem body_of_stop_le {l : Layout} (h : l.span.stop ≤ l.line.stop) (label : String) :
    ∃ arms, l.body label = [" " ++ l.number ++ " │ " ++ String.ofList (spread 0 (trimEnd l.line.chars)),
      l.margin ++ strokes (underline (Extent.ofSpan l.line.offset l.span))
        (widths 0 (trimEnd l.line.chars) ((Extent.ofSpan l.line.offset l.span).stop + 2)), arms] :=
  ⟨_, if_neg (Nat.not_lt.2 h)⟩

/-- The source line and its marker are set off equally far. -/
theorem length_margin (l : Layout) : (" " ++ l.number ++ " │ ").length = l.margin.length := by
  simp only [Layout.margin, Layout.gutter, repeated, String.length_append, String.length_ofList,
    List.length_replicate]
  have hedge : " ".length = 1 := rfl
  have hbar : " │ ".length = 3 := rfl
  have hmargin : "│ ".length = 2 := rfl
  omega

/-- A report points at the characters that its span counts. -/
theorem pointsAt_of_charSpan (s : Stretch source.toList)
    (hspan : clamp source.utf8ByteSize e.span = s.charSpan)
    (hvisible : ∀ c ∈ s.chars, ∀ p, 0 < width p c) : PointsAt (rows source e) s := by
  have hpos := s.length_chars_pos
  have hlead := s.length_lead
  have hline := s.length_line
  have htext := s.length_text
  have hstart := s.charSpan_start
  have hstop := s.charSpan_stop
  have hin : inText source.toList.length s.charSpan = true := by
    rw [inText_iff]
    omega
  have hlayout : layout source s.charSpan =
      ⟨⟨s.number, s.earlier.flatten.length, s.line⟩, s.charSpan⟩ := by
    rw [layout, hstart, s.lineAt_lead]
  have hends : (layout source s.charSpan).span.stop ≤ (layout source s.charSpan).line.stop := by
    have hle : s.charSpan.stop ≤ s.earlier.flatten.length + s.line.length := by omega
    rw [hlayout]
    exact hle
  obtain ⟨row, edge, hheader, hlocates⟩ := locates_header (layout source s.charSpan)
  obtain ⟨arms, hbody⟩ := body_of_stop_le hends e.cause.label
  rw [rows_of_inText hspan hin, hheader, hbody]
  rw [hlayout] at hlocates ⊢
  constructor
  case located =>
    refine ⟨row, rfl, ?_⟩
    rwa [Layout.column, hstart, s.column_eq] at hlocates
  case marked =>
    have hlt : s.charSpan.start < s.charSpan.stop := by omega
    have hle : s.earlier.flatten.length ≤ s.charSpan.start := by omega
    have hanchor := covers_anchor hlt hle
    have hfirst : s.charSpan.start - s.earlier.flatten.length = s.before.length := by omega
    have hlast : s.charSpan.stop - s.earlier.flatten.length = s.before.length + s.chars.length := by
      omega
    exact ⟨_, _, _, length_margin _, rfl, rfl,
      underlined_stretch s hvisible hfirst hlast hanchor (Nat.le_add_right _ 2)⟩

/-! ## Spans in bytes -/

theorem width_pos_of_single {c : Char} (h : c.utf8Size = 1) (position : Nat) :
    0 < width position c := by
  have hascii : c.toNat < 0xAD := Nat.lt_of_le_of_lt (Char.utf8Size_eq_one_iff.1 h) (by decide)
  rw [width]
  split
  · omega
  · split
    · exact Nat.one_pos
    · rw [columns_of_lt hascii]
      exact Nat.one_pos

/-- A report that names the line and the column of a stretch has counted one byte for every character
before it. -/
theorem single_of_locates {s : Stretch source.toList} (hspan : e.span = s.span) {row : String}
    (hrow : (rows source e)[1]? = some row) (h : Locates row s.number s.column) :
    ∀ c ∈ s.lead, c.utf8Size = 1 := by
  have hclamp : clamp source.utf8ByteSize e.span = s.span := by rw [hspan, clamp_span]
  obtain ⟨hnumber, hcolumn⟩ := (locates_of_rows hclamp hrow).unique h
  -- The number of a line decides how many characters stand before it.
  obtain ⟨earlier, later, hlines, hnumber', hoffset⟩ := lineAt_spec s.text_ne_nil s.span.start
  have hearlier : earlier = s.earlier := by
    refine (List.append_inj (hlines.symm.trans s.breakLines_eq) ?_).1
    exact Nat.succ.inj (hnumber'.symm.trans hnumber)
  rw [hearlier] at hoffset
  have hcount : String.utf8Len s.lead - s.earlier.flatten.length + 1 = s.column := by
    rw [← hoffset]
    exact hcolumn
  have hlead := s.length_lead
  have hle := length_le_utf8Len s.lead
  have hcolumn' := s.column_eq
  refine utf8Len_eq_length_iff.1 ?_
  omega

theorem locates_of_single {s : Stretch source.toList} (hspan : e.span = s.span) {row : String}
    (hrow : (rows source e)[1]? = some row) (h : ∀ c ∈ s.lead, c.utf8Size = 1) :
    Locates row s.number s.column := by
  have hclamp : clamp source.utf8ByteSize e.span = s.span := by rw [hspan, clamp_span]
  have hstart : s.span.start = s.lead.length := utf8Len_eq_length_iff.2 h
  have hlocates := locates_of_rows hclamp hrow
  rwa [Layout.column, layout, hstart, s.lineAt_lead, s.column_eq] at hlocates

/-- A rendered error whose span is the bytes of a stretch. The line and the column that it names, if it
names any, are those of the stretch exactly if no character before takes more than one byte. If
none of the stretch does so either, the report names them and underlines the stretch. -/
theorem render_pointsAt (source : String) (e : TypeError) (s : Stretch source.toList)
    (hspan : e.span = s.span) :
    e.render source = String.join ((rows source e).map (· ++ "\n")) ∧
      (∀ row, (rows source e)[1]? = some row →
        (Locates row s.number s.column ↔ ∀ c ∈ s.lead, c.utf8Size = 1)) ∧
      ((∀ c ∈ s.lead ++ s.chars, c.utf8Size = 1) → PointsAt (rows source e) s) := by
  refine ⟨rfl, fun row hrow => ⟨single_of_locates hspan hrow, locates_of_single hspan hrow⟩,
    fun h => pointsAt_of_charSpan s ?_ fun c hc p => ?_⟩
  · rw [hspan, clamp_span, s.span_eq_charSpan h]
  · exact width_pos_of_single (h c (List.mem_append_right _ hc)) p

/-- A name after a tab in the second line. The text after it may hold larger characters. -/
theorem render_pointsAt_second_line :
    let source := "let a;\n\tf(y, \"é\");"
    let e : TypeError := ⟨.unresolvedPath "y", ⟨10, 11⟩⟩
    ∃ s : Stretch source.toList, e.span = s.span ∧ s.number = 2 ∧ s.column = 4 ∧ s.chars = ['y'] ∧
      (rows source e)[1]? = some "   ╭─[ <unknown>:2:4 ]" ∧ PointsAt (rows source e) s := by
  intro source e
  let s : Stretch source.toList := ⟨["let a;\n".toList], "\tf(".toList, ['y'], ", \"é\");".toList, [],
    by decide, by decide⟩
  have hspan : e.span = s.span := by decide
  exact ⟨s, hspan, rfl, rfl, rfl, by decide,
    (render_pointsAt source e s hspan).2.2 (utf8Len_eq_length_iff.1 (by decide))⟩

/-- A name after a character of two bytes. The report names the column after it and underlines the
bracket there. -/
theorem not_pointsAt_after_two_bytes :
    let source := "f(\"é\", y);"
    let e : TypeError := ⟨.unresolvedPath "y", ⟨8, 9⟩⟩
    ∃ s : Stretch source.toList, e.span = s.span ∧ s.number = 1 ∧ s.column = 8 ∧ s.chars = ['y'] ∧
      (rows source e)[1]? = some "   ╭─[ <unknown>:1:9 ]" ∧
      (rows source e)[4]? = some "   │         ┬  " ∧ ¬ PointsAt (rows source e) s := by
  intro source e
  let s : Stretch source.toList := ⟨[], "f(\"é\", ".toList, ['y'], ");".toList, [], by decide, by decide⟩
  have hspan : e.span = s.span := by decide
  refine ⟨s, hspan, rfl, rfl, rfl, by decide, by decide, fun h => ?_⟩
  obtain ⟨row, hrow, hlocates⟩ := h.located
  have hsingle := single_of_locates hspan hrow hlocates 'é' (by decide)
  exact absurd hsingle (by decide)

end

end Snippet

end TypeInference

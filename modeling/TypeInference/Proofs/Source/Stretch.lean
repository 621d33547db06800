import Mathlib.Data.String.Basic
import TypeInference.Source.Lines
import TypeInference.Source.Span

/-!
# Places in a source text

A place is a part of one line. Its line and column count lines and characters,
and its span counts bytes. The two counts agree only as long as every character
takes a single byte.
-/

namespace TypeInference.Source

/-! ## Bytes and characters -/

theorem length_le_utf8Len (cs : List Char) : cs.length ≤ String.utf8Len cs := by
  induction cs with
  | nil => exact Nat.le_refl 0
  | cons c cs ih =>
      have hc := Char.utf8Size_pos c
      rw [List.length_cons, String.utf8Len_cons]
      omega

theorem utf8Len_eq_length_iff {cs : List Char} :
    String.utf8Len cs = cs.length ↔ ∀ c ∈ cs, c.utf8Size = 1 := by
  induction cs with
  | nil => simp
  | cons c cs ih =>
      have hc := Char.utf8Size_pos c
      have hcs := length_le_utf8Len cs
      rw [List.length_cons, String.utf8Len_cons, List.forall_mem_cons, ← ih]
      omega

/-! ## The line of an offset -/

variable {text : List Char} {target : Nat}

theorem breakLines_ne_nil (h : text ≠ []) : breakLines text ≠ [] := by
  intro hlines
  have hflatten := flatten_breakLines text
  rw [hlines] at hflatten
  exact h hflatten.symm

/-- The line that is found is one of those looked at, and what stands before it is counted. -/
theorem Line.seek_spec (target : Nat) (l : Line) (lines : List (List Char)) :
    ∃ earlier later, l.chars :: lines = earlier ++ (seek target l lines).chars :: later ∧
      (seek target l lines).number = l.number + earlier.length ∧
      (seek target l lines).offset = l.offset + earlier.flatten.length := by
  induction lines generalizing l with
  | nil => exact ⟨[], [], rfl, rfl, rfl⟩
  | cons next rest ih =>
      rw [seek]
      split
      · obtain ⟨earlier, later, hlines, hnumber, hoffset⟩ := ih ⟨l.number + 1, l.stop, next⟩
        refine ⟨l.chars :: earlier, later, ?_, ?_, ?_⟩
        · rw [List.cons_append, ← hlines]
        · rw [hnumber, List.length_cons, Nat.add_assoc, Nat.add_comm 1]
        · rw [hoffset, Line.stop, List.flatten_cons, List.length_append, Nat.add_assoc]
      · exact ⟨[], next :: rest, rfl, rfl, rfl⟩

theorem lineAt_spec (h : text ≠ []) (target : Nat) :
    ∃ earlier later, breakLines text = earlier ++ (lineAt text target).chars :: later ∧
      (lineAt text target).number = earlier.length + 1 ∧
      (lineAt text target).offset = earlier.flatten.length := by
  rw [lineAt]
  rcases hlines : breakLines text with _ | ⟨line, lines⟩
  · exact (breakLines_ne_nil h hlines).elim
  · obtain ⟨earlier, later, heq, hnumber, hoffset⟩ :=
      Line.seek_spec target ⟨1, 0, line⟩ lines
    exact ⟨earlier, later, heq, by rw [hnumber, Nat.add_comm], by rw [hoffset, Nat.zero_add]⟩

theorem Line.seek_of_lt {l : Line} {line : List Char} {lines earlier later : List (List Char)}
    (h : l.chars :: lines = earlier ++ line :: later) (hle : l.offset + earlier.flatten.length ≤ target)
    (hlt : target < l.offset + earlier.flatten.length + line.length) :
    seek target l lines = ⟨l.number + earlier.length, l.offset + earlier.flatten.length, line⟩ := by
  induction earlier generalizing l lines with
  | nil =>
      obtain ⟨rfl, rfl⟩ := List.cons.inj h
      have hstays : ¬ l.stop ≤ target := Nat.not_le.2 hlt
      cases lines with
      | nil => rfl
      | cons next rest => exact if_neg hstays
  | cons first earlier ih =>
      obtain ⟨rfl, hlines⟩ := List.cons.inj h
      simp only [List.flatten_cons, List.length_append, ← Nat.add_assoc] at hle hlt
      cases lines with
      | nil => simp at hlines
      | cons next rest =>
          have hpasses : l.stop ≤ target := Nat.le_trans (Nat.le_add_right _ _) hle
          rw [seek, if_pos hpasses, ih (l := ⟨l.number + 1, l.stop, next⟩) hlines hle hlt]
          simp only [List.length_cons, List.flatten_cons, List.length_append, Line.stop,
            Nat.add_assoc, Nat.add_comm 1]

/-- The line of an offset is the one that the character at the offset is in. -/
theorem lineAt_of_lt {line : List Char} {earlier later : List (List Char)}
    (h : breakLines text = earlier ++ line :: later) (hle : earlier.flatten.length ≤ target)
    (hlt : target < earlier.flatten.length + line.length) :
    lineAt text target = ⟨earlier.length + 1, earlier.flatten.length, line⟩ := by
  rw [lineAt]
  rcases hlines : breakLines text with _ | ⟨first, lines⟩
  · simp [hlines] at h
  · have hfound : Line.seek target ⟨1, 0, first⟩ lines =
        ⟨1 + earlier.length, 0 + earlier.flatten.length, line⟩ :=
      Line.seek_of_lt (hlines.symm.trans h) (by rwa [Nat.zero_add]) (by rwa [Nat.zero_add])
    rwa [Nat.zero_add, Nat.add_comm 1] at hfound

/-! ## Stretches -/

/-- A part of one line of a text, which is not empty. -/
structure Stretch (text : List Char) where
  /-- The lines before its line. -/
  earlier : List (List Char)
  /-- What its line begins with. -/
  before : List Char
  chars : List Char
  after : List Char
  later : List (List Char)
  breakLines_eq : breakLines text = earlier ++ (before ++ chars ++ after) :: later
  ne_nil : chars ≠ []

namespace Stretch

variable (s : Stretch text)

def line : List Char := s.before ++ s.chars ++ s.after

/-- All that stands before the stretch. -/
def lead : List Char := s.earlier.flatten ++ s.before

def number : Nat := s.earlier.length + 1

def column : Nat := s.before.length + 1

def span : Span := ⟨String.utf8Len s.lead, String.utf8Len (s.lead ++ s.chars)⟩

/-- The numbers of its characters in the text. -/
def charSpan : Span := ⟨s.lead.length, s.lead.length + s.chars.length⟩

theorem charSpan_start : s.charSpan.start = s.lead.length := rfl

theorem charSpan_stop : s.charSpan.stop = s.lead.length + s.chars.length := rfl

theorem text_eq : text = s.lead ++ s.chars ++ (s.after ++ s.later.flatten) := by
  have h := flatten_breakLines text
  rw [s.breakLines_eq] at h
  simp only [List.flatten_append, List.flatten_cons, List.append_assoc] at h
  simp only [lead, List.append_assoc]
  exact h.symm

theorem text_ne_nil (s : Stretch text) : text ≠ [] := by
  intro h
  have heq := h.symm.trans s.text_eq
  simp [s.ne_nil] at heq

theorem length_lead : s.lead.length = s.earlier.flatten.length + s.before.length := by
  rw [lead, List.length_append]

theorem length_line : s.line.length = s.before.length + s.chars.length + s.after.length := by
  simp only [line, List.length_append]

theorem length_text : text.length =
    s.lead.length + s.chars.length + (s.after.length + s.later.flatten.length) := by
  conv_lhs => rw [s.text_eq]
  simp only [List.length_append]

/-- The column counts the characters of the line that stand before the stretch. -/
theorem column_eq : s.lead.length - s.earlier.flatten.length + 1 = s.column := by
  rw [length_lead, Nat.add_sub_cancel_left, column]

theorem length_chars_pos : 0 < s.chars.length := List.length_pos_iff.2 s.ne_nil

theorem lineAt_lead : lineAt text s.lead.length = ⟨s.number, s.earlier.flatten.length, s.line⟩ := by
  have hpos := s.length_chars_pos
  have hlead := s.length_lead
  have hline := s.length_line
  exact lineAt_of_lt s.breakLines_eq (by omega) (by omega)

theorem start_lt_stop : s.span.start < s.span.stop := by
  have hpos := s.length_chars_pos
  have hle := length_le_utf8Len s.chars
  show String.utf8Len s.lead < String.utf8Len (s.lead ++ s.chars)
  rw [String.utf8Len_append]
  omega

theorem stop_le : s.span.stop ≤ String.utf8Len text := by
  conv_rhs => rw [s.text_eq]
  rw [span, String.utf8Len_append _ (s.after ++ s.later.flatten)]
  exact Nat.le_add_right _ _

/-- Bytes and characters are counted alike as long as every character takes a single byte. -/
theorem span_eq_charSpan (h : ∀ c ∈ s.lead ++ s.chars, c.utf8Size = 1) : s.span = s.charSpan := by
  have hlead := utf8Len_eq_length_iff.2 fun c hc => h c (List.mem_append_left _ hc)
  rw [span, charSpan, hlead, utf8Len_eq_length_iff.2 h, List.length_append]

end Stretch

end TypeInference.Source

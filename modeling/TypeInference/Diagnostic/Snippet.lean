import TypeInference.Diagnostic.TypeError
import TypeInference.Source.Lines
import TypeInference.Source.Width

/-!
# Rendered errors

A type error is shown as a report over the source: a title, the line that its
span begins on, a marker below the span with the label, and a help line where
there is one.
-/

namespace TypeInference

namespace Snippet

/-- A span cut down to a text of the given length, and at least one long if there is room. -/
def clamp (length : Nat) (span : Span) : Span :=
  let start := min span.start length
  let stop := max (min span.stop length) start
  if start = stop then ⟨start, min (stop + 1) length⟩ else ⟨start, stop⟩

def repeated (count : Nat) (c : Char) : List Char := List.replicate count c

/-! ## The source line -/

/-- A tab reaches to the next position that is a multiple of four, and any other blank takes one
column. -/
def width (position : Nat) (c : Char) : Nat :=
  if c = '\t' then 4 - position % 4
  else if Source.isBlank c then 1
  else Source.columns c

/-- The text from the given position on; a blank of any kind is shown as spaces. -/
def spread : Nat → List Char → List Char
  | _, [] => []
  | position, c :: rest =>
      (if Source.isBlank c then repeated (width position c) ' ' else [c]) ++
        spread (position + 1) rest

/-- The given number of positions with their widths; each one past the text takes one column. -/
def widths : Nat → List Char → Nat → List (Nat × Nat)
  | _, _, 0 => []
  | position, [], n + 1 => (position, 1) :: widths (position + 1) [] n
  | position, c :: rest, n + 1 => (position, width position c) :: widths (position + 1) rest n

/-! ## The marker -/

/-- Where a span lies in its line, by positions. -/
structure Extent where
  start : Nat
  stop : Nat
  /-- The position from which the label hangs. -/
  anchor : Nat

def Extent.ofSpan (offset : Nat) (span : Span) : Extent :=
  ⟨span.start - offset, span.stop - offset, max ((span.start + span.stop) / 2) span.start - offset⟩

def Extent.covers (x : Extent) (position : Nat) : Bool :=
  x.start ≤ position && position < x.stop

/-- A stroke over the given number of columns, which begins with `head` and goes on with `tail`. -/
def stroke (head tail : Char) : Nat → List Char
  | 0 => []
  | n + 1 => head :: repeated n tail

theorem length_stroke (head tail : Char) (n : Nat) : (stroke head tail n).length = n := by
  cases n <;> simp [stroke, repeated]

/-- The row that underlines the span. -/
def underline (x : Extent) (position : Nat) : Nat → List Char :=
  if position = x.anchor then
    if x.covers position then stroke '┬' '─' else stroke '│' ' '
  else if x.covers position then stroke '─' '─'
  else stroke ' ' ' '

/-- The row that leads from the anchor to the label. -/
def arm (x : Extent) (position : Nat) : Nat → List Char :=
  if position < x.anchor then stroke ' ' ' '
  else if position = x.anchor then stroke '╰' '─'
  else stroke '─' '─'

/-- A row of strokes, one for each position. -/
def strokes (stroke : Nat → Nat → List Char) (positions : List (Nat × Nat)) : String :=
  String.ofList (positions.flatMap fun (position, width) => stroke position width)

/-! ## The report -/

structure Layout where
  line : Source.Line
  /-- The span, in characters. -/
  span : Span

namespace Layout

def column (l : Layout) : Nat := l.span.start - l.line.offset + 1

def number (l : Layout) : String := toString l.line.number

/-- The blank space as wide as the line number with a blank on either side. -/
def gutter (l : Layout) : String := String.ofList (repeated (l.number.length + 2) ' ')

def margin (l : Layout) : String := l.gutter ++ "│ "

def header (l : Layout) : List String :=
  [l.gutter ++ "╭─[ <unknown>:" ++ l.number ++ ":" ++ toString l.column ++ " ]",
    l.gutter ++ "│"]

/-- The source line with its marker, or a bare margin if the span goes beyond the line. -/
def body (l : Layout) (label : String) : List String :=
  if l.line.stop < l.span.stop then [l.margin]
  else
    let text := Source.trimEnd l.line.chars
    let x := Extent.ofSpan l.line.offset l.span
    let positions := widths 0 text (x.stop + 2)
    [" " ++ l.number ++ " │ " ++ String.ofList (spread 0 text),
      l.margin ++ strokes (underline x) positions,
      l.margin ++ strokes (arm x) positions ++ " " ++ label]

def help (l : Layout) : Option String → List String
  | none => []
  | some text => [l.margin, l.margin ++ "Help: " ++ text]

def footer (l : Layout) : String :=
  String.ofList (repeated (l.number.length + 2) '─') ++ "╯"

end Layout

def title (e : TypeError) : String := "[" ++ e.cause.code ++ "] Error: " ++ e.message

/-- Whether both ends of a span are positions in a text of that many characters. -/
def inText (length : Nat) (span : Span) : Bool :=
  span.start ≤ length && (span.stop ≤ span.start || span.stop - 1 ≤ length)

/-- The rows of a report. A span outside the text leaves only the title. -/
def rows (source : String) (e : TypeError) : List String :=
  let text := source.toList
  let span := clamp source.utf8ByteSize e.span
  if !inText text.length span then [title e]
  else
    let l : Layout := ⟨Source.lineAt text span.start, span⟩
    title e :: l.header ++ l.body e.cause.label ++ l.help e.cause.help? ++ [l.footer]

end Snippet

def TypeError.render (source : String) (e : TypeError) : String :=
  String.join ((Snippet.rows source e).map (· ++ "\n"))

end TypeInference

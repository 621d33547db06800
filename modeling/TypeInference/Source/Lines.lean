/-!
# Lines of a source text

A line keeps the characters that end it. Offsets and columns count characters.
-/

namespace TypeInference

namespace Source

/-- Characters that end a line; a carriage return before a line feed ends it together with it. -/
def endsLine (c : Char) : Bool :=
  c = '\n' || c = '\r' || c = '\x0b' || c = '\x0c' || c = '\u0085' ||
    c = '\u2028' || c = '\u2029'

/-- The characters of the Unicode property White_Space. -/
def isBlank (c : Char) : Bool :=
  ('\t' ≤ c && c ≤ '\r') || c = ' ' || c = '\u0085' || c = '\u00a0' || c = '\u1680' ||
    ('\u2000' ≤ c && c ≤ '\u200a') || c = '\u2028' || c = '\u2029' || c = '\u202f' ||
    c = '\u205f' || c = '\u3000'

/-- Cut a text after each line end. -/
def breakLines : List Char → List (List Char)
  | [] => []
  | '\r' :: '\n' :: rest => ['\r', '\n'] :: breakLines rest
  | c :: rest =>
      if endsLine c then [c] :: breakLines rest
      else
        match breakLines rest with
        | [] => [[c]]
        | line :: lines => (c :: line) :: lines

def trimEnd (cs : List Char) : List Char := (cs.reverse.dropWhile isBlank).reverse

structure Line where
  /-- Counted from one. -/
  number : Nat
  /-- The number of characters before the line. -/
  offset : Nat
  chars : List Char
  deriving DecidableEq, Repr

namespace Line

def stop (l : Line) : Nat := l.offset + l.chars.length

/-- The last line that starts at or before `target`, starting to look at line `l`. -/
def seek (target : Nat) : Line → List (List Char) → Line
  | l, [] => l
  | l, next :: rest =>
      if l.stop ≤ target then seek target ⟨l.number + 1, l.stop, next⟩ rest else l

end Line

/-- The line of an offset; an empty text has one empty line. -/
def lineAt (text : List Char) (target : Nat) : Line :=
  match breakLines text with
  | [] => ⟨1, 0, []⟩
  | line :: lines => Line.seek target ⟨1, 0, line⟩ lines

theorem flatten_breakLines (cs : List Char) : (breakLines cs).flatten = cs := by
  fun_induction breakLines cs with
  | case1 => rfl
  | case2 rest ih => simp [ih]
  | case3 c rest _ _ ih => simp [ih]
  | case4 c rest _ _ h ih => simp_all
  | case5 c rest _ _ line lines h ih => simp_all

end Source

end TypeInference

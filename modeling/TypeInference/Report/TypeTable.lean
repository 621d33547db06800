import TypeInference.Context.Basic

/-!
# The type table

Every node with the text of its resolved type, in ascending order, and the
table as an indented JSON array.
-/

namespace TypeInference

namespace Report

structure Row where
  id : NodeId
  ty : String
  deriving DecidableEq, Repr

def typeTable (c : Context) : List Row :=
  c.entries.map fun entry => ⟨entry.1, entry.2.text⟩

/-! ## JSON -/

def hexDigit (n : Nat) : Char := (Nat.toDigits 16 n).headD '0'

/-- A character inside a JSON string. Control characters without a short form are written by
number, everything above them as it is. -/
def escapeChar (c : Char) : List Char :=
  if c = '"' then ['\\', '"']
  else if c = '\\' then ['\\', '\\']
  else if c = '\x08' then ['\\', 'b']
  else if c = '\x0c' then ['\\', 'f']
  else if c = '\n' then ['\\', 'n']
  else if c = '\r' then ['\\', 'r']
  else if c = '\t' then ['\\', 't']
  else if c.toNat < 0x20 then
    ['\\', 'u', '0', '0', hexDigit (c.toNat / 16), hexDigit (c.toNat % 16)]
  else [c]

def jsonString (s : String) : String :=
  "\"" ++ String.ofList (s.toList.flatMap escapeChar) ++ "\""

def Row.json (r : Row) : String :=
  "  \x7b\n    \"id\": " ++ toString r.id ++ ",\n    \"ty\": " ++ jsonString r.ty ++ "\n  \x7d"

def tableJson (rows : List Row) : String :=
  if rows.isEmpty then "[]" else "[\n" ++ ",\n".intercalate (rows.map Row.json) ++ "\n]"

end Report

end TypeInference

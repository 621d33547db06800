import TypeInference.Ty.Basic

/-!
# The text of a type

How a type is written in messages and in the type table. A literal variable
shows its family, a general variable its number.
-/

namespace TypeInference.Ty

def commaSeparated (texts : List String) : String := ", ".intercalate texts

mutual

def text : Ty → String
  | .error => "<error>"
  | .infer .general v => "?" ++ toString v
  | .infer .integral _ => "\x7binteger\x7d"
  | .infer .float _ => "\x7bfloat\x7d"
  | .unit => "()"
  | .prim p => p.name
  | .param p => p.name
  | .fn ps r => "fn(" ++ commaSeparated (textList ps) ++ ") -> " ++ text r
  | .adt ⟨_, n, _, _, _, some (t :: ts)⟩ =>
      n ++ "<" ++ commaSeparated (text t :: textList ts) ++ ">"
  | .adt ⟨_, n, _, _, [], _⟩ => n
  | .adt ⟨_, n, _, _, p :: ps, _⟩ =>
      n ++ "<" ++ commaSeparated ((p :: ps).map Param.name) ++ ">"

def textList : List Ty → List String
  | [] => []
  | t :: ts => text t :: textList ts

end

theorem textList_eq (ts : List Ty) : textList ts = ts.map text := by
  induction ts with
  | nil => rfl
  | cons t ts ih => simp [textList, ih]

/-- A parameter or an argument list is shown between angle brackets, if there is one. -/
def bracketed (texts : List String) : String :=
  if texts.isEmpty then "" else "<" ++ commaSeparated texts ++ ">"

theorem text_fn (ps : List Ty) (r : Ty) :
    text (.fn ps r) = "fn(" ++ commaSeparated (ps.map text) ++ ") -> " ++ text r := by
  simp [text, textList_eq]

theorem text_adt (a : Adt Ty) :
    text (.adt a) = a.name ++ bracketed
      (if (a.args.getD []).isEmpty then a.params.map Param.name else (a.args.getD []).map text) := by
  obtain ⟨d, n, k, fs, ps, args⟩ := a
  rcases args with _ | (_ | ⟨t, ts⟩) <;> cases ps <;>
    simp [text, textList_eq, bracketed, String.append_assoc]

end TypeInference.Ty

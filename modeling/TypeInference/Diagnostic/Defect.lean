import TypeInference.Source.Span

/-!
# Defects

A broken invariant of the checker itself, never a fault of the program that is
being checked.
-/

namespace TypeInference

inductive Defect where
  | missingBuiltin (name : String)
  | missingSignature (item : NodeId)
  | unfilledFieldSlot (adt : String) (index : Nat)
  | fieldIndexOutOfRange (adt : String) (index : Nat)
  deriving DecidableEq, Repr

def Defect.message : Defect → String
  | .missingBuiltin name => "required builtin type `" ++ name ++ "` is not registered"
  | .missingSignature item => "no signature recorded for item " ++ toString item
  | .unfilledFieldSlot adt index =>
      "slot " ++ toString index ++ " of `" ++ adt ++
        "` was never filled while reordering a struct literal"
  | .fieldIndexOutOfRange adt index =>
      "field index " ++ toString index ++ " of `" ++ adt ++ "` is out of range"

end TypeInference

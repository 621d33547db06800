/-!
# Primitive types

The builtin types, their surface names, and the numeric families they belong
to.
-/

namespace TypeInference

inductive Prim where
  | bool | char | str
  | i8 | i16 | i32 | i64 | i128 | isize
  | u8 | u16 | u32 | u64 | u128 | usize
  | f32 | f64
  deriving DecidableEq, Repr, Inhabited

namespace Prim

/-- Every primitive, in the order in which a registry lists them. -/
def all : List Prim :=
  [bool, char, str, i8, i16, i32, i64, i128, isize, u8, u16, u32, u64, u128, usize, f32, f64]

def name : Prim → String
  | bool => "bool"
  | char => "char"
  | str => "str"
  | i8 => "i8"
  | i16 => "i16"
  | i32 => "i32"
  | i64 => "i64"
  | i128 => "i128"
  | isize => "isize"
  | u8 => "u8"
  | u16 => "u16"
  | u32 => "u32"
  | u64 => "u64"
  | u128 => "u128"
  | usize => "usize"
  | f32 => "f32"
  | f64 => "f64"

def isIntegral : Prim → Bool
  | i8 | i16 | i32 | i64 | i128 | isize => true
  | u8 | u16 | u32 | u64 | u128 | usize => true
  | _ => false

def isFloat : Prim → Bool
  | f32 | f64 => true
  | _ => false

/-- Whether negation makes sense: the signed integers and the floats. -/
def isSigned : Prim → Bool
  | i8 | i16 | i32 | i64 | i128 | isize => true
  | f32 | f64 => true
  | _ => false

theorem mem_all (p : Prim) : p ∈ all := by
  cases p <;> decide

theorem name_injective {p q : Prim} (h : p.name = q.name) : p = q := by
  cases p <;> cases q <;> simp_all [name]

end Prim

end TypeInference

import Mathlib.Data.Rat.Defs

/-!
JSON values as a program sees them after parsing.
Integers are exact, floats are rationals or one of the special values, and an
object is the list of its members in order; a lookup takes the first with the key.
-/
namespace Json

inductive FloatNumber where
  | finite (value : ℚ)
  | infinite (negative : Bool)
  | notANumber
  deriving DecidableEq

inductive Value where
  | null
  | bool (b : Bool)
  | int (n : ℤ)
  | float (x : FloatNumber)
  | str (s : String)
  | arr (elems : List Value)
  | obj (members : List (String × Value))

abbrev Members := List (String × Value)

def lookup (key : String) : Members → Option Value
  | [] => none
  | (k, v) :: rest => if k = key then some v else lookup key rest

namespace Value

/-- The number that the value equals: booleans count as 0 and 1. -/
def number? : Value → Option ℚ
  | .bool b => some (if b then 1 else 0)
  | .int n => some n
  | .float (.finite value) => some value
  | _ => none

def string? : Value → Option String
  | .str s => some s
  | _ => none

def members? : Value → Option Members
  | .obj members => some members
  | _ => none

end Value

end Json

import JexlScript.Number.Layout

/-!
# Scalars

The plain values that literals hold, shared by formulas, scripts and routines.
Integers and doubles are told apart even where they are equal in value.
-/

namespace JexlScript

inductive Scalar where
  | null
  | bool (value : Bool)
  | text (value : String)
  | int (value : Int)
  | double (value : Double)
deriving DecidableEq, Repr

namespace Scalar

def isNumber : Scalar → Bool
  | .int _ | .double _ => true
  | _ => false

/-- Whether the value is a number below zero or negative zero, so that it is
written with a sign or must be read as if it were. -/
def isNegative : Scalar → Bool
  | .int n => n < 0
  | .double d => d.isNegative
  | _ => false

/-- Whether the value can be written: an integer needs a finite double near
it. -/
def isWritable : Scalar → Bool
  | .int n => (intText? n).isSome
  | _ => true

/-- The text of a number. A truth value counts as a number here and is written
as a word. There is no text for an integer beyond the finite doubles, nor for
a value that is not a number. -/
def numberText? : Scalar → Option (List Char)
  | .bool true => some "True".toList
  | .bool false => some "False".toList
  | .int n => intText? n
  | .double d => some d.text
  | .null | .text _ => none

end Scalar

end JexlScript

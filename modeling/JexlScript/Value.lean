import JexlScript.Scalar

/-!
# Values

What the operators of formulas work on: scalars and lists. Truth values count
as the integers zero and one wherever a number is asked for.
-/

namespace JexlScript

inductive Value where
  | scalar (value : Scalar)
  | list (items : List Value)

namespace Value

instance : Inhabited Value := ⟨.scalar .null⟩

def ofBool (b : Bool) : Value := .scalar (.bool b)

/-- Whether a value counts as true: all do except the missing value, zeros and
what is empty. -/
def truthy : Value → Bool
  | .scalar .null => false
  | .scalar (.bool b) => b
  | .scalar (.text s) => !s.isEmpty
  | .scalar (.int n) => n != 0
  | .scalar (.double d) => !d.isZero
  | .list items => !items.isEmpty

end Value

inductive Number where
  | int (value : Int)
  | double (value : Double)

def Value.number? : Value → Option Number
  | .scalar (.bool b) => some (.int (if b then 1 else 0))
  | .scalar (.int n) => some (.int n)
  | .scalar (.double d) => some (.double d)
  | _ => none

def Number.value : Number → Value
  | .int n => .scalar (.int n)
  | .double d => .scalar (.double d)

end JexlScript

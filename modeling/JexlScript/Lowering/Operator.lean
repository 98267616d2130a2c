import JexlScript.Script.Basic

/-!
# Operators with a fixed script

The operators of formulas that scripts know, under the same symbol, under
another one or as a call. All others have to be registered with an
implementation.
-/

namespace JexlScript

open Script

def nativeBinaryOps : List String :=
  ["===", "!==", "<", "<=", ">", ">=", "<<", ">>", ">>>", "+", "-", "*", "/", "%", "&", "|",
    "instanceof", "**"]

def logicalOps : List String := ["&&", "||"]

def strictEquality? (op : String) : Option String :=
  if op = "==" then some "===" else if op = "!=" then some "!==" else none

def floorOfQuotient (left right : Expr) : Expr :=
  (Expr.ident "Math").invoke "floor" [.binary left "/" right]

/-- The script of a binary operator that has a fixed one. Equality becomes
strict, `^` is the power, `//` the floor of a quotient, and `in` asks an array
or a text for the left operand. -/
def binaryScript? (op : String) (left right : Expr) : Option Expr :=
  if logicalOps.contains op then some (.logical left op right)
  else if nativeBinaryOps.contains op then some (.binary left op right)
  else
    match strictEquality? op with
    | some strict => some (.binary left strict right)
    | none =>
      if op = "^" then some (.binary left "**" right)
      else if op = "//" then some (floorOfQuotient left right)
      else if op = "in" then some (right.invoke "includes" [left])
      else none

def unaryScript? (op : String) (operand : Expr) : Option Expr :=
  if op = "!" then some (.unary op operand) else none

end JexlScript

import JexlScript.Script.Basic

/-!
# Binding strength

How tightly operators and expressions bind, as a number: twenty for what needs
no parentheses anywhere, less for what an operator around it could pull apart.
-/

namespace JexlScript.Script

/-- The binding strength of an operator. Unary plus and minus, which share
their symbols with binary operators, are `+u` and `-u`; `?:` stands for the
conditional and `=>` for the arrow. -/
def bindingStrength? : String → Option Nat
  | "." | "[]" | "()" => some 20
  | "!" | "+u" | "-u" | "~" | "typeof" | "void" => some 17
  | "**" => some 16
  | "*" | "/" | "%" => some 15
  | "+" | "-" => some 14
  | "<<" | ">>" | ">>>" => some 13
  | "<" | "<=" | ">" | ">=" | "instanceof" | "in" => some 12
  | "==" | "!=" | "===" | "!==" => some 11
  | "&" => some 10
  | "^" => some 9
  | "|" => some 8
  | "&&" => some 7
  | "||" | "??" => some 6
  | "?:" => some 4
  | "=>" => some 2
  | _ => none

def primaryStrength : Nat := 20

def unaryStrength : Nat := 17

def conditionalStrength : Nat := 4

def arrowStrength : Nat := 2

def unaryKey (op : String) : String :=
  if op = "+" then "+u" else if op = "-" then "-u" else op

def groupsRight (op : String) : Bool := op == "**"

/-- How tightly an expression binds. An unknown binary operator binds least, an
unknown unary one like the others of its kind. -/
def Expr.strength : Expr → Nat
  | .lit v => if v.isNegative then unaryStrength else primaryStrength
  | .unary op _ => (bindingStrength? (unaryKey op)).getD unaryStrength
  | .binary _ op _ | .logical _ op _ => (bindingStrength? op).getD 0
  | .ternary .. => conditionalStrength
  | .arrow .. | .arrowBlock .. => arrowStrength
  | .ident _ | .undefined | .array _ | .object _ | .member .. | .call .. | .new .. |
    .function .. => primaryStrength

inductive Side where
  | left
  | right
  | only
deriving DecidableEq, Repr

def Expr.isInfixed : Expr → Bool
  | .binary .. | .logical .. => true
  | _ => false

/-- Whether an operand needs parentheses next to an operator, which is given by
its key. Conditionals and arrows always do; weaker operators do; and an
operator of the same strength does on the side it does not group to. -/
def Expr.needsParens (e : Expr) (key : String) (side : Side) : Bool :=
  match e with
  | .ternary .. | .arrow .. | .arrowBlock .. => true
  | _ =>
    let outer := (bindingStrength? key).getD unaryStrength
    e.strength < outer ||
      (e.strength == outer && e.isInfixed && side == (if groupsRight key then .left else .right))

/-- Whether the text of an expression starts with the sign `op`. -/
def Expr.startsWithSign (op : String) : Expr → Bool
  | .unary o _ => o == op
  | .lit v => op == "-" && v.isNegative
  | _ => false

/-- Whether an expression needs parentheses where a member, a call or a
construction follows; a number does before a point. -/
def Expr.needsParensBefore (e : Expr) (point : Bool) : Bool :=
  e.strength < primaryStrength ||
    match e with
    | .lit v => point && v.isNumber
    | _ => false

end JexlScript.Script
